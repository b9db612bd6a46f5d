import EnvFiles.Data.Basic

/-!
# Data as indented JSON text

Texts are written in ASCII: a character outside it becomes the escapes of its UTF-16 units. Each
member of a list or mapping stands on a line of its own, two spaces further in than what holds
it; an empty list or mapping stays on one line. Every key becomes a name. An infinity and the value
that is no number have no form of their own and become null; a collection inside itself is left
empty.
-/

namespace EnvFiles.Data

/-- The escape of one UTF-16 unit. -/
def unitEscape (unit : Nat) : Text := "\\u" ++ Text.hexDigits 4 unit

/-- A character inside a JSON text. -/
def jsonChar (c : Char) : Text :=
  let n := c.toNat
  if c = '"' then "\\\""
  else if c = '\\' then "\\\\"
  else if c = '\n' then "\\n"
  else if c = '\r' then "\\r"
  else if c = '\t' then "\\t"
  else if n = 8 then "\\b"
  else if n = 12 then "\\f"
  else if 32 ≤ n ∧ n ≤ 126 then [c]
  else if n < 65536 then unitEscape n
  else unitEscape (55296 + (n - 65536) / 1024) ++ unitEscape (56320 + (n - 65536) % 1024)

/-- A text as JSON. -/
def jsonText (text : Text) : Text := "\"" ++ text.flatMap jsonChar ++ "\""

/-- One number of a text from escapes inside a JSON text. -/
def jsonCode (code : Nat) : Text := (Codes.char? code).elim (unitEscape code) jsonChar

/-- A text from escapes as JSON. -/
def jsonCodes (codes : Codes) : Text := "\"" ++ codes.flatMap jsonCode ++ "\""

/-- The name that a key of a mapping becomes. -/
def nameOf : Data → Text
  | .text t => t
  | .bool true => "true"
  | .bool false => "false"
  | .fraction (.infinite _) => "None"
  | .fraction .undefined => "None"
  | .moment value => value.exchanged
  | key => asText key

/-- A new line at the given depth. -/
def jsonLine (depth : Nat) : Text := '\n' :: List.replicate (2 * depth) ' '

mutual

/-- A value as JSON, inside as many lists and mappings as the number says. -/
def toJson (depth : Nat) : Data → Text
  | .null => "null"
  | .bool true => "true"
  | .bool false => "false"
  | .int n => intText n
  | .fraction (.finite negative mantissa exponent) =>
    (Fraction.finite negative mantissa exponent).shown
  | .fraction _ => "null"
  | .date value => jsonText value.shown
  | .time value => jsonText value.shown
  | .moment value => jsonText value.exchanged
  | .text t => jsonText t
  | .halvedText codes => jsonCodes codes
  | .cyclic _ body => toJson depth body
  | .again _ isMapping => if isMapping then "\x7b\x7d" else "[]"
  | .list [] => "[]"
  | .list (item :: rest) =>
    "[" ++ Text.join "," (jsonItems (depth + 1) (item :: rest)) ++ jsonLine depth ++ "]"
  | .mapping [] => "\x7b\x7d"
  | .mapping (entry :: rest) =>
    "\x7b" ++ Text.join "," (jsonEntries (depth + 1) (entry :: rest)) ++ jsonLine depth ++ "\x7d"

/-- The members of a list, each on its line. -/
def jsonItems (depth : Nat) : List Data → List Text
  | [] => []
  | item :: rest => (jsonLine depth ++ toJson depth item) :: jsonItems depth rest

/-- The entries of a mapping, each on its line. -/
def jsonEntries (depth : Nat) : List (Data × Data) → List Text
  | [] => []
  | (key, value) :: rest =>
    (jsonLine depth ++ jsonText (nameOf key) ++ ": " ++ toJson depth value) ::
      jsonEntries depth rest

end

end EnvFiles.Data
