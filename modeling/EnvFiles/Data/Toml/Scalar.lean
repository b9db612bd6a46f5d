import EnvFiles.Data.Numeral
import EnvFiles.Data.Toml.Time

/-!
# TOML strings and numbers

Basic strings stand between double quotes and have escapes, literal strings stand between single
quotes and have none. Three quotes enclose a text of several lines. Numbers can hold single
underscores between digits; whole numbers can be written to the base two, eight or sixteen.
-/

namespace EnvFiles.Toml

/-- Spaces and tabs. -/
def isBlank (c : Char) : Bool := c == ' ' || c == '\t'

/-- Blanks and line feeds. -/
def isSpace (c : Char) : Bool := isBlank c || c == '\n'

/-- The text after blanks. -/
def skipBlanks (text : Text) : Text := text.dropWhile isBlank

/-- Control characters, which no string or comment can hold, the tab apart. -/
def isControl (c : Char) : Bool := (c.toNat < 32 && c != '\t') || c.toNat == 127

/-- The character of an escape of one letter. -/
def escapeChar? (c : Char) : Option Char :=
  [('b', '\x08'), ('t', '\t'), ('n', '\n'), ('f', '\x0c'), ('r', '\r'), ('"', '"'),
    ('\\', '\\')].lookup c

/-- The number of hexadecimal digits of an escape. -/
def escapeDigits? (c : Char) : Option Nat := [('u', 4), ('U', 8)].lookup c

/-- Where a reader of a basic string stands: in the text, after a backslash, within the digits of
an escape, in blanks after a backslash that must end the line, or in the space that such a
backslash takes away. -/
inductive StringMode
  | text
  | escape
  | digits (left : Nat) (value : Nat)
  | lineEnd
  | space

/-- Put a character before what was read. -/
def before (c : Char) (read : Option (Text × Text)) : Option (Text × Text) :=
  read.map fun (more, rest) => (c :: more, rest)

/-- The rest of a basic string and what follows its closing quotes. -/
def basicFrom (several : Bool) : StringMode → Text → Option (Text × Text)
  | _, [] => none
  | .text, '"' :: '"' :: '"' :: rest =>
    if several then some ([], rest) else some ([], '"' :: '"' :: rest)
  | .space, '"' :: '"' :: '"' :: rest => some ([], rest)
  | .text, c :: rest =>
    if c = '"' then if several then before c (basicFrom several .text rest) else some ([], rest)
    else if c = '\\' then basicFrom several .escape rest
    else if isControl c && !(several && c == '\n') then none
    else before c (basicFrom several .text rest)
  | .space, c :: rest =>
    if isSpace c then basicFrom several .space rest
    else if c = '"' then before c (basicFrom several .text rest)
    else if c = '\\' then basicFrom several .escape rest
    else if isControl c then none
    else before c (basicFrom several .text rest)
  | .escape, c :: rest =>
    if several && c == '\n' then basicFrom several .space rest
    else if several && isBlank c then basicFrom several .lineEnd rest
    else match escapeChar? c, escapeDigits? c with
      | some char, _ => before char (basicFrom several .text rest)
      | none, some count => basicFrom several (.digits count 0) rest
      | none, none => none
  | .digits left value, c :: rest =>
    match Numeral.hexDigit? c with
    | none => none
    | some digit =>
      let value := 16 * value + digit
      if left ≤ 1 then
        if value.isValidChar then before (Char.ofNat value) (basicFrom several .text rest) else none
      else basicFrom several (.digits (left - 1) value) rest
  | .lineEnd, c :: rest =>
    if isBlank c then basicFrom several .lineEnd rest
    else if c = '\n' then basicFrom several .space rest
    else none

/-- The rest of a literal string on one line. -/
def literalFrom : Text → Option (Text × Text)
  | [] => none
  | c :: rest =>
    if c = '\'' then some ([], rest)
    else if isControl c then none
    else before c (literalFrom rest)

/-- The rest of a literal string of several lines. -/
def literalLines : Text → Option (Text × Text)
  | [] => none
  | '\'' :: '\'' :: '\'' :: rest => some ([], rest)
  | c :: rest => if isControl c && c != '\n' then none else before c (literalLines rest)

/-- Up to two quotes right after three closing ones belong to the string. -/
def moreQuotes (quote : Char) (read : Text × Text) : Text × Text :=
  match read.2 with
  | c :: d :: rest =>
    if c = quote then
      if d = quote then (read.1 ++ [c, d], rest) else (read.1 ++ [c], d :: rest)
    else read
  | [c] => if c = quote then (read.1 ++ [c], []) else read
  | [] => read

/-- The text without a line feed at its start. -/
def dropFirstFeed : Text → Text
  | '\n' :: rest => rest
  | text => text

/-- A string at the start of a text. -/
def string? : Text → Option (Text × Text)
  | '"' :: '"' :: '"' :: rest =>
    (basicFrom true .text (dropFirstFeed rest)).map (moreQuotes '"')
  | '"' :: rest => basicFrom false .text rest
  | '\'' :: '\'' :: '\'' :: rest => (literalLines (dropFirstFeed rest)).map (moreQuotes '\'')
  | '\'' :: rest => literalFrom rest
  | _ => none

/-- The digits that follow a digit, single underscores between them left out. -/
def digitsAfter (digit : Char → Bool) : Text → Text × Text
  | [] => ([], [])
  | '_' :: c :: rest =>
    if digit c then
      let (more, after) := digitsAfter digit rest
      (c :: more, after)
    else ([], '_' :: c :: rest)
  | c :: rest =>
    if digit c then
      let (more, after) := digitsAfter digit rest
      (c :: more, after)
    else ([], c :: rest)

/-- Digits at the start of a text, with single underscores between them. -/
def digitRun? (digit : Char → Bool) : Text → Option (Text × Text)
  | c :: rest =>
    if digit c then
      let (more, after) := digitsAfter digit rest
      some (c :: more, after)
    else none
  | [] => none

/-- A whole number to a base named by a letter. -/
def based? : Text → Option (Data × Text)
  | '0' :: letter :: rest =>
    let base? : Option (Nat × (Char → Bool)) :=
      if letter = 'x' then some (16, fun c => (Numeral.hexDigit? c).isSome)
      else if letter = 'o' then some (8, fun c => '0' ≤ c && c ≤ '7')
      else if letter = 'b' then some (2, fun c => c == '0' || c == '1')
      else none
    base?.bind fun (base, digit) =>
      (digitRun? digit rest).map fun (digits, after) =>
        (.int (Numeral.valueIn base digits : Nat), after)
  | _ => none

/-- A decimal number. -/
def decimal (text : Text) : ReadResult (Data × Text) :=
  let (negative, unsigned) := Numeral.signOf text
  Numeral.decimal (digitRun? Char.isDigit) negative unsigned

/-- The words for special values. -/
def words : List (Text × Data) := [
  ("true", .bool true), ("false", .bool false), ("inf", .fraction (.infinite false)),
  ("+inf", .fraction (.infinite false)), ("-inf", .fraction (.infinite true)),
  ("nan", .fraction .undefined), ("+nan", .fraction .undefined), ("-nan", .fraction .undefined)]

/-- A value other than a string or a collection at the start of a text. -/
def plainValue (text : Text) : ReadResult (Data × Text) :=
  match Numeral.word? words text, timeValue? text, based? text with
  | some found, _, _ => .ok found
  | none, some found, _ => found
  | none, none, some found => .ok found
  | none, none, none => decimal text

end EnvFiles.Toml
