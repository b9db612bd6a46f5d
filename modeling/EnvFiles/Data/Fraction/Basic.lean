import EnvFiles.Text.Basic

/-!
# Fractions

A fraction is a number of the binary format with fifty-three binary digits and exponents from
-1074 to 971, an infinity, or the value that is no number. A number that the format does not hold
stands for the nearest fraction; half way between two, for the one with the even mantissa. What
is too large for the format becomes an infinity, what is too small becomes zero with its sign.
All of it is computed on natural numbers, so that nothing is rounded twice.
-/

namespace EnvFiles

/-- A fraction. A finite one is its mantissa times two to its exponent; the exponent is the least
one, or the mantissa has all its binary digits. -/
inductive Fraction
  | finite (negative : Bool) (mantissa : Nat) (exponent : Int)
  | infinite (negative : Bool)
  | undefined
  deriving DecidableEq, Repr, Inhabited

namespace Fraction

/-- The number of binary digits of a mantissa. -/
def width : Nat := 53

/-- The least exponent. -/
def leastExponent : Int := -1074

/-- The greatest exponent. -/
def greatestExponent : Int := 971

/-- The zero of a sign. -/
def zero (negative : Bool) : Fraction := .finite negative 0 leastExponent

/-- A quotient rounded to the nearest natural number, half way to the even one. -/
def roundDiv (dividend divisor : Nat) : Nat :=
  let quotient := dividend / divisor
  let rest := dividend % divisor
  if 2 * rest < divisor ∨ (2 * rest = divisor ∧ quotient % 2 = 0) then quotient else quotient + 1

/-- A quotient divided by a power of two, as a dividend and a divisor. -/
def dividedByPower (dividend divisor : Nat) (exponent : Int) : Nat × Nat :=
  (dividend * Nat.pow 2 (-exponent).toNat, divisor * Nat.pow 2 exponent.toNat)

/-- The exponent at which a quotient has as many binary digits before the point as a mantissa
holds, but not less than the least one. -/
def exponentFor (dividend divisor : Nat) : Int :=
  let low : Int := (dividend.log2 : Int) - divisor.log2 - width
  let (scaled, unit) := dividedByPower dividend divisor low
  max leastExponent (if scaled / unit < Nat.pow 2 width then low else low + 1)

/-- The fraction nearest to a quotient with a sign. -/
def nearest (negative : Bool) (dividend divisor : Nat) : Fraction :=
  let exponent := exponentFor dividend divisor
  let (scaled, unit) := dividedByPower dividend divisor exponent
  let mantissa := roundDiv scaled unit
  let (mantissa, exponent) :=
    if mantissa = Nat.pow 2 width then (Nat.pow 2 (width - 1), exponent + 1) else (mantissa, exponent)
  if mantissa = 0 then zero negative
  else if greatestExponent < exponent then .infinite negative
  else .finite negative mantissa exponent

/-- The fraction nearest to decimal digits, as a natural number, times a power of ten. Numbers far
outside the format are settled by their size alone. -/
def ofDecimal (negative : Bool) (digits : Nat) (power : Int) : Fraction :=
  let size : Int := (Text.ofNat digits).length + power
  if digits = 0 ∨ size < -330 then zero negative
  else if 310 < size then .infinite negative
  else nearest negative (digits * Nat.pow 10 power.toNat) (Nat.pow 10 (-power).toNat)

/-- The fraction nearest to a natural number. -/
def ofNat (n : Nat) : Fraction := nearest false n 1

/-- A fraction with the other sign. -/
def negate : Fraction → Fraction
  | .finite negative mantissa exponent => .finite (!negative) mantissa exponent
  | .infinite negative => .infinite (!negative)
  | .undefined => .undefined

/-- How often the least positive fraction goes into a finite one, without its sign. -/
def units (mantissa : Nat) (exponent : Int) : Nat :=
  mantissa * Nat.pow 2 (exponent - leastExponent).toNat

/-- The number of times that the least positive fraction goes into one. -/
def unitsInOne : Nat := Nat.pow 2 (-leastExponent).toNat

/-- The sum of two fractions without signs, rounded. -/
def plus : Fraction → Fraction → Fraction
  | .finite _ m e, .finite _ n f => nearest false (units m e + units n f) unitsInOne
  | .undefined, _ => .undefined
  | _, .undefined => .undefined
  | _, _ => .infinite false

/-- The product of two fractions without signs, the second one not zero, rounded. -/
def times : Fraction → Fraction → Fraction
  | .finite _ m e, .finite _ n f =>
    nearest false (units m e * units n f) (unitsInOne * unitsInOne)
  | .undefined, _ => .undefined
  | _, .undefined => .undefined
  | _, _ => .infinite false

/-- The value of decimal digits. -/
def naturalOf (digits : Text) : Nat :=
  digits.foldl (fun n c => 10 * n + (c.toNat - 48)) 0

/-- The value of an exponent: its sign, if any, and its digits. -/
def exponentOf : Text → Int
  | '-' :: digits => - (naturalOf digits : Int)
  | '+' :: digits => naturalOf digits
  | digits => naturalOf digits

/-- The fraction nearest to a number with the given digits before and after the point and the
given exponent. -/
def ofDigits (negative : Bool) (whole part : Text) (exponent : Int) : Fraction :=
  ofDecimal negative (naturalOf (whole ++ part)) (exponent - part.length)

end Fraction
end EnvFiles
