import EnvFiles.Data.Fraction.Shortest

/-!
# The text of a fraction

A fraction is written with the digits that matter: positional from one ten-thousandth up to ten
to the sixteenth, with a digit on each side of the point, otherwise with one digit before the
point and a signed exponent of at least two digits.
-/

namespace EnvFiles.Fraction

/-- Zeros at the end dropped. -/
def dropLastZeros (digits : Text) : Text := (digits.reverse.dropWhile (· == '0')).reverse

/-- The given number of zeros. -/
def zeros (n : Nat) : Text := List.replicate n '0'

/-- An exponent with its sign and at least two digits. -/
def exponentText (exponent : Int) : Text :=
  let digits := Text.ofNat exponent.natAbs
  ['e', if exponent < 0 then '-' else '+'] ++ zeros (2 - digits.length) ++ digits

/-- The number whose digits, none of them a zero at either end, stand after a point that is moved
to the right by the given number of places. -/
def layout (digits : Text) (places : Int) : Text :=
  if -4 < places ∧ places ≤ 16 then
    if places ≤ 0 then "0." ++ zeros (-places).toNat ++ digits
    else
      let count := places.toNat
      let whole := digits.take count ++ zeros (count - digits.length)
      let part := digits.drop count
      whole ++ "." ++ (if part.isEmpty then ['0'] else part)
  else
    let part := digits.drop 1
    digits.take 1 ++ (if part.isEmpty then [] else '.' :: part) ++ exponentText (places - 1)

/-- The text of a decimal. -/
def Decimal.shown (decimal : Decimal) : Text :=
  let digits := Text.ofNat decimal.digits
  layout (dropLastZeros digits) (digits.length + decimal.power)

/-- A sign before a text. -/
def signed (negative : Bool) (text : Text) : Text := if negative then '-' :: text else text

/-- The text of a fraction. -/
def shown : Fraction → Text
  | .finite negative 0 _ => signed negative "0.0"
  | .finite negative mantissa exponent => signed negative (shortest mantissa exponent).shown
  | .infinite negative => signed negative "inf"
  | .undefined => "nan"

end EnvFiles.Fraction
