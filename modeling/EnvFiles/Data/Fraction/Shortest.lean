import EnvFiles.Data.Fraction.Basic

/-!
# The shortest decimal of a fraction

Of the decimals that stand for a fraction the one with the fewest digits is shown; of several, the
one nearest to the fraction, and half way between two the even one. Seventeen digits always
suffice.
-/

namespace EnvFiles.Fraction

/-- A natural number times a power of ten. -/
structure Decimal where
  digits : Nat
  power : Int
  deriving DecidableEq, Repr, Inhabited

/-- A finite fraction without its sign as a dividend and a divisor. -/
def asQuotient (mantissa : Nat) (exponent : Int) : Nat × Nat :=
  (mantissa * Nat.pow 2 exponent.toNat, Nat.pow 2 (-exponent).toNat)

/-- The number of digits before the point of a quotient that is not zero; for one that starts
with zeros after the point, the number of these with a minus sign. -/
def places (dividend divisor : Nat) : Int :=
  if divisor ≤ dividend then (Text.ofNat (dividend / divisor)).length
  else 1 - (Text.ofNat (divisor / dividend)).length

/-- The decimal with the given power of ten that stands for a fraction, if there is one: one of
the two next to it. -/
def decimalAt? (mantissa : Nat) (exponent power : Int) : Option Decimal :=
  let (dividend, divisor) := asQuotient mantissa exponent
  let scaled := dividend * Nat.pow 10 (-power).toNat
  let unit := divisor * Nat.pow 10 power.toNat
  let below := scaled / unit
  let stands (digits : Nat) := ofDecimal false digits power == .finite false mantissa exponent
  let nearer := roundDiv scaled unit
  let farther := if nearer = below then below + 1 else below
  if stands nearer then some ⟨nearer, power⟩
  else if stands farther then some ⟨farther, power⟩
  else none

/-- The shortest decimal of a finite fraction that is not zero. -/
def shortest (mantissa : Nat) (exponent : Int) : Decimal :=
  let (dividend, divisor) := asQuotient mantissa exponent
  let places := places dividend divisor
  let found? := (List.range 17).findSome? fun n =>
    decimalAt? mantissa exponent (places - (n + 1 : Nat))
  found?.getD ⟨0, 0⟩

end EnvFiles.Fraction
