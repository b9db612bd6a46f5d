import EnvFiles.Data.Numeral
import EnvFiles.Data.Yaml.Time

/-!
# Plain YAML scalars

A plain scalar stands for nothing, a truth value, a number, a date or a time if it is written like
one, and for its text otherwise. Numbers can hold underscores after their first digit, whole
numbers can be written to the base two, eight, sixteen or sixty. A lone equals sign or a lone
merge mark stands for no value.
-/

namespace EnvFiles.Yaml

/-- The words for truth values. -/
def truthWords : List (Text × Bool) := [
  ("yes", true), ("Yes", true), ("YES", true), ("no", false), ("No", false), ("NO", false),
  ("true", true), ("True", true), ("TRUE", true), ("false", false), ("False", false),
  ("FALSE", false), ("on", true), ("On", true), ("ON", true), ("off", false), ("Off", false),
  ("OFF", false)]

/-- The words for nothing. -/
def nullWords : List Text := ["", "~", "null", "Null", "NULL"]

/-- A text without its underscores. -/
def dropUnderscores (text : Text) : Text := text.filter (· != '_')

/-- Whether a text holds only characters of a class and underscores, and is not empty. -/
def isRun (digit : Char → Bool) (text : Text) : Bool :=
  !text.isEmpty && text.all fun c => digit c || c == '_'

/-- The value of digits to a base, of which there must be some. -/
def valueIn (base : Nat) (digits : Text) : ReadResult Nat :=
  if digits.isEmpty then .error (.noValue (.noDigits base))
  else .ok (Numeral.valueIn base digits)

/-- The value of decimal digits, of which there must not be too many. -/
def decimalValue (digits : Text) : ReadResult Nat := do
  return Fraction.naturalOf (← withinLimit (dropUnderscores digits))

/-- Whether a text is one part, after the first, of a number to the base sixty. -/
def isSixtieth (text : Text) : Bool :=
  match text with
  | [a] => a.isDigit
  | [a, b] => '0' ≤ a && a ≤ '5' && b.isDigit
  | _ => false

/-- The value of parts to the base sixty. -/
def sixtieths (parts : List Text) : ReadResult Nat := do
  return (← parts.mapM decimalValue).foldl (fun n part => 60 * n + part) 0

/-- Decimal digits that start with a digit other than zero, with underscores after it. -/
def isDecimalRun (text : Text) : Bool :=
  match text with
  | c :: rest => c.isDigit && c != '0' && rest.all fun d => d.isDigit || d == '_'
  | [] => false

/-- Digits that start with any digit, with underscores after it. -/
def isDigitRun (text : Text) : Bool :=
  match text with
  | c :: rest => c.isDigit && rest.all fun d => d.isDigit || d == '_'
  | [] => false

/-- Octal digits. -/
def isOctal (c : Char) : Bool := '0' ≤ c && c ≤ '7'

/-- The natural number that a text without a sign is written as, if it is written like one. -/
def natural? (text : Text) : Option (ReadResult Nat) :=
  match text with
  | ['0'] => some (.ok 0)
  | '0' :: 'b' :: digits =>
    if isRun (fun c => c == '0' || c == '1') digits then
      some (valueIn 2 (dropUnderscores digits)) else none
  | '0' :: 'x' :: digits =>
    if isRun (fun c => (Numeral.hexDigit? c).isSome) digits then
      some (valueIn 16 (dropUnderscores digits)) else none
  | '0' :: digits =>
    if isRun isOctal digits then some (valueIn 8 ('0' :: dropUnderscores digits)) else none
  | _ =>
    if isDecimalRun text then some (decimalValue text)
    else match Text.splitAt ':' text with
      | first :: second :: rest =>
        if isDecimalRun first && (second :: rest).all isSixtieth then
          some (sixtieths (first :: second :: rest))
        else none
      | _ => none

/-- The exponent at the end of a fraction: a letter, a sign and digits; or nothing. -/
def exponent? : Text → Option Int
  | [] => some 0
  | e :: sign :: digits =>
    if (e == 'e' || e == 'E') && (sign == '+' || sign == '-') && !digits.isEmpty &&
        digits.all Char.isDigit then
      some (Fraction.exponentOf (sign :: digits))
    else none
  | _ => none

/-- The digits after a point and the exponent. -/
def afterPoint? (text : Text) : Option (Text × Int) :=
  let part := text.takeWhile fun c => c.isDigit || c == '_'
  (exponent? (text.dropWhile fun c => c.isDigit || c == '_')).map fun exponent =>
    (dropUnderscores part, exponent)

/-- The sum of fractions, each multiplied by the power of sixty that its place stands for; the last
one comes first. Every step is rounded. -/
def sumOfSixtieths : Nat → Fraction → List Fraction → ReadResult Fraction
  | _, sum, [] => .ok sum
  | power, sum, part :: rest =>
    match Fraction.ofNat power with
    | .finite negative mantissa exponent =>
      sumOfSixtieths (60 * power) (sum.plus (part.times (.finite negative mantissa exponent))) rest
    | _ => .error .tooLarge

/-- A fraction to the base sixty, if a text without a sign is written like one. -/
def sixtiethFraction? (text : Text) : Option (ReadResult Fraction) :=
  match Text.splitAt ':' (text.takeWhile (· != '.')), text.dropWhile (· != '.') with
  | first :: second :: rest, '.' :: part =>
    let parts := second :: rest
    if isDigitRun first && parts.all isSixtieth && part.all fun c => c.isDigit || c == '_' then
      let whole (digits : Text) := Fraction.ofDigits false (dropUnderscores digits) [] 0
      let last := Fraction.ofDigits false (parts.getLast?.getD []) (dropUnderscores part) 0
      some (sumOfSixtieths 1 (.zero false) (last :: ((first :: parts).dropLast.map whole).reverse))
    else none
  | _, _ => none

/-- A fraction, if a text without a sign is written like one. -/
def unsignedFraction? (text : Text) : Option (ReadResult Fraction) :=
  let whole := text.takeWhile (· != '.')
  match text.dropWhile (· != '.') with
  | '.' :: rest =>
    if isDigitRun whole then
      (afterPoint? rest).map fun (part, exponent) =>
        .ok (.ofDigits false (dropUnderscores whole) part exponent)
    else if whole.isEmpty then
      if [("inf" : Text), "Inf", "INF"].contains rest then some (.ok (.infinite false)) else none
    else sixtiethFraction? text
  | _ => none

/-- A fraction that starts with its point or is no number. Such a one has no sign. -/
def pointFraction? : Text → Option Fraction
  | '.' :: rest =>
    if [("nan" : Text), "NaN", "NAN"].contains rest then some .undefined
    else if rest.head?.any Char.isDigit then
      (afterPoint? rest).map fun (part, exponent) => .ofDigits false [] part exponent
    else none
  | _ => none

/-- A fraction, if a text is written like one. -/
def fraction? (text : Text) : Option (ReadResult Fraction) :=
  match pointFraction? text with
  | some found => some (.ok found)
  | none =>
    let (negative, unsigned) := Numeral.signOf text
    (unsignedFraction? unsigned).map fun found =>
      found.map fun value => if negative then value.negate else value

/-- The whole number that a text is written as, if it is written like one. -/
def integer? (text : Text) : Option (ReadResult Int) :=
  let (negative, unsigned) := Numeral.signOf text
  (natural? unsigned).map fun found => found.map fun n => if negative then -(n : Int) else n

/-- The value of a plain scalar. -/
def plainValue (text : Text) : ReadResult Data :=
  if nullWords.contains text then .ok .null
  else match truthWords.lookup text with
    | some truth => .ok (.bool truth)
    | none =>
      match fraction? text, integer? text, timeValue? text with
      | some found, _, _ => found.map Data.fraction
      | none, some found, _ => found.map Data.int
      | none, none, some found => found.mapError ReadFault.noValue
      | none, none, none =>
        if text = "=" || text = "<<" then .error .malformed else .ok (.text text)

end EnvFiles.Yaml
