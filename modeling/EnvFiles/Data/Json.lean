import EnvFiles.Data.Numeral

/-!
# Reading JSON

The whole text is one value. Beyond the standard, the names of the infinities and of the value
that is no number are read as fractions. A name that comes again in an object keeps its place and
takes the later value. The escapes of both halves of a surrogate pair, one after the other, give
the character of the pair; an escape of one half alone gives the half. Collections that lie too deep
in one another are not followed.
-/

namespace EnvFiles.Json

/-- Blank characters between tokens. -/
def isSpace (c : Char) : Bool := c == ' ' || c == '\t' || c == '\n' || c == '\r'

/-- The text after blanks. -/
def skipSpace (text : Text) : Text := text.dropWhile isSpace

/-- The value of four hexadecimal digits. -/
def unit? (a b c d : Char) : Option Nat := do
  return 4096 * (← Numeral.hexDigit? a) + 256 * (← Numeral.hexDigit? b) +
    16 * (← Numeral.hexDigit? c) + (← Numeral.hexDigit? d)

/-- The character of an escape of one letter. -/
def shortEscape? (c : Char) : Option Char :=
  [('"', '"'), ('\\', '\\'), ('/', '/'), ('b', '\x08'), ('f', '\x0c'), ('n', '\n'), ('r', '\r'),
    ('t', '\t')].lookup c

/-- A first half of a surrogate pair that still waits for its second one, as a number. -/
def waitingCode (waiting : Option Nat) : Codes := waiting.toList

/-- The rest of a string after its opening quote, and what follows its closing quote. A first half
of a surrogate pair may be waiting. -/
def stringFrom (waiting : Option Nat) : Text → Option (Codes × Text)
  | [] => none
  | '"' :: rest => some (waitingCode waiting, rest)
  | '\\' :: 'u' :: a :: b :: c :: d :: rest =>
    match unit? a b c d with
    | none => none
    | some unit =>
      match waiting with
      | some high =>
        if Codes.isLowHalf unit then
          (stringFrom none rest).map fun (codes, after) => (Codes.ofPair high unit :: codes, after)
        else if Codes.isHighHalf unit then
          (stringFrom (some unit) rest).map fun (codes, after) => (high :: codes, after)
        else
          (stringFrom none rest).map fun (codes, after) => (high :: unit :: codes, after)
      | none =>
        if Codes.isHighHalf unit then stringFrom (some unit) rest
        else (stringFrom none rest).map fun (codes, after) => (unit :: codes, after)
  | '\\' :: c :: rest =>
    match shortEscape? c with
    | none => none
    | some char =>
      (stringFrom none rest).map fun (codes, after) =>
        (waitingCode waiting ++ char.toNat :: codes, after)
  | c :: rest =>
    if c.toNat < 32 then none
    else (stringFrom none rest).map fun (codes, after) =>
      (waitingCode waiting ++ c.toNat :: codes, after)

/-- A number at the start of a text. It may have a minus sign, and no plus sign. -/
def number : Text → ReadResult (Data × Text)
  | '-' :: rest => Numeral.decimal Numeral.plainDigits? true rest
  | text => Numeral.decimal Numeral.plainDigits? false text

/-- The words that stand for values. -/
def words : List (Text × Data) := [
  ("null", .null), ("true", .bool true), ("false", .bool false), ("NaN", .fraction .undefined),
  ("Infinity", .fraction (.infinite false)), ("-Infinity", .fraction (.infinite true))]

/-- The most collections in one another that are followed. -/
def deepest : Nat := 985

mutual

/-- A value at the start of a text without leading blanks, and what follows it, inside as many
collections as the level says. Every step into a value, member or entry takes one from the
number. -/
def value (level : Nat) : Nat → Text → ReadResult (Data × Text)
  | 0, _ => .error .malformed
  | steps + 1, text =>
    match text with
    | '"' :: rest => do
      let (codes, after) ← .ofOption (stringFrom none rest)
      return (.ofCodes codes, after)
    | '[' :: rest =>
      if level = deepest then .error .tooDeep
      else match skipSpace rest with
        | ']' :: after => .ok (.list [], after)
        | inner => do
          let (found, after) ← items (level + 1) steps inner
          return (.list found, after)
    | '\x7b' :: rest =>
      if level = deepest then .error .tooDeep
      else match skipSpace rest with
        | '\x7d' :: after => .ok (.mapping [], after)
        | inner => do
          let (found, after) ← entries (level + 1) steps [] inner
          return (.mapping found, after)
    | _ =>
      match Numeral.word? words text with
      | some found => .ok found
      | none => number text

/-- The members of a list up to its closing bracket. -/
def items (level : Nat) : Nat → Text → ReadResult (List Data × Text)
  | 0, _ => .error .malformed
  | steps + 1, text => do
    let (item, after) ← value level steps text
    match skipSpace after with
    | ']' :: rest => return ([item], rest)
    | ',' :: rest =>
      let (more, after) ← items level steps (skipSpace rest)
      return (item :: more, after)
    | _ => throw .malformed

/-- The entries of an object up to its closing brace, after those before them. -/
def entries (level : Nat) :
    Nat → List (Data × Data) → Text → ReadResult (List (Data × Data) × Text)
  | 0, _, _ => .error .malformed
  | steps + 1, before, text =>
    match text with
    | '"' :: rest => do
      let (name, after) ← .ofOption (stringFrom none rest)
      match skipSpace after with
      | ':' :: rest =>
        let (value, after) ← value level steps (skipSpace rest)
        let known := Data.putEntry (.ofCodes name) value before
        match skipSpace after with
        | '\x7d' :: rest => return (known, rest)
        | ',' :: rest => entries level steps known (skipSpace rest)
        | _ => throw .malformed
      | _ => throw .malformed
    | _ => .error .malformed

end

/-- The value that a text is, if it follows the format. -/
def read (text : Text) : ReadResult Data := do
  let (value, rest) ← value 0 (2 * text.length + 2) (skipSpace text)
  if (skipSpace rest).isEmpty then return value else throw .malformed

end EnvFiles.Json
