import EnvFiles.Data.Basic

/-!
# Numbers and words

What the formats have in common: the value of digits to a base, a decimal number at the start of a
text, which may have digits after a point and an exponent, and a word at the start of a text that
stands for a value. The formats differ in what they take for digits, in the signs and in the words.
-/

namespace EnvFiles.Numeral

/-- The value of a hexadecimal digit. -/
def hexDigit? (c : Char) : Option Nat :=
  if c.isDigit then some (c.toNat - 48)
  else if 'a' ≤ c ∧ c ≤ 'f' then some (c.toNat - 87)
  else if 'A' ≤ c ∧ c ≤ 'F' then some (c.toNat - 55)
  else none

/-- The value of digits to a base. -/
def valueIn (base : Nat) (digits : Text) : Nat :=
  digits.foldl (fun n c => base * n + (hexDigit? c).getD 0) 0

/-- The sign of a number and what follows it. -/
def signOf : Text → Bool × Text
  | '-' :: rest => (true, rest)
  | '+' :: rest => (false, rest)
  | text => (false, text)

/-- A reader of digits at the start of a text, of which there must be one at least. It gives the
digits and what follows them. -/
abbrev DigitReader := Text → Option (Text × Text)

/-- Digits with nothing between them. -/
def plainDigits? : DigitReader := fun text =>
  let digits := text.takeWhile Char.isDigit
  if digits.isEmpty then none else some (digits, text.dropWhile Char.isDigit)

section Decimal

variable (digits? : DigitReader)

/-- The digits of a whole number: a zero alone, or digits that start with another one. -/
def whole? : DigitReader
  | '0' :: rest => some (['0'], rest)
  | text => digits? text

/-- The digits after a point, if there is one with digits after it. -/
def pointDigits (text : Text) : Text × Text :=
  match text with
  | '.' :: rest => (digits? rest).getD ([], text)
  | _ => ([], text)

/-- The digits of an exponent with their sign, if there is one with digits. -/
def exponentDigits (text : Text) : Text × Text :=
  match text with
  | e :: rest =>
    if e == 'e' || e == 'E' then
      let (sign, rest) : Text × Text := match rest with
        | '+' :: more => (['+'], more)
        | '-' :: more => (['-'], more)
        | _ => ([], rest)
      match digits? rest with
      | some (digits, after) => (sign ++ digits, after)
      | none => ([], text)
    else ([], text)
  | [] => ([], [])

/-- The decimal number at the start of a text, given the sign that stood before it. It is whole if it
has neither digits after a point nor an exponent. -/
def decimal (negative : Bool) (unsigned : Text) : ReadResult (Data × Text) :=
  match whole? digits? unsigned with
  | none => .error .malformed
  | some (whole, rest) => do
    let (part, rest) := pointDigits digits? rest
    let (exponent, rest) := exponentDigits digits? rest
    if part.isEmpty && exponent.isEmpty then
      let n : Int := Fraction.naturalOf (← withinLimit whole)
      return (.int (if negative then -n else n), rest)
    else
      return (.fraction (.ofDigits negative whole part (Fraction.exponentOf exponent)), rest)

end Decimal

/-- The first of some words that stands at the start of a text, as the value that it stands for. -/
def word? (words : List (Text × Data)) (text : Text) : Option (Data × Text) :=
  words.findSome? fun (word, value) =>
    (Text.dropStart? word text).map fun rest => (value, rest)

end EnvFiles.Numeral
