/-!
# Numbers with a fraction

A number that is written with a fraction or an exponent is kept as it is written, `mantissa · 10 ^ exponent`, and means the
binary64 number nearest to it, of two equally near ones the one whose significand is even. All that the library asks of such a
number is which integer it is, if it is one. The answer is computed in exact arithmetic.
-/

namespace Brainfuck

/-- A number written in decimal: `mantissa · 10 ^ exponent`. -/
structure Decimal where
  mantissa : Int
  exponent : Int
  deriving DecidableEq, Repr

/-- A quotient rounded to the nearest integer, a half to the even neighbour. -/
def roundedQuotient (numerator denominator : Nat) : Nat :=
  let (quotient, rest) := (numerator / denominator, numerator % denominator)
  if 2 * rest < denominator ∨ (2 * rest = denominator ∧ quotient % 2 = 0) then quotient else quotient + 1

/-- A quotient divided by a power of two, as a quotient of natural numbers. -/
def scaledQuotient (numerator denominator : Nat) (power : Int) : Nat × Nat :=
  (numerator <<< (-power).toNat, denominator <<< power.toNat)

/-- The binary64 number nearest to a positive quotient, as a significand and a power of two. The power is the one that gives the
quotient 53 bits before the point, and not less than -1074. -/
def nearestBinary64 (numerator denominator : Nat) : Nat × Int :=
  let estimate : Int := (numerator.log2 : Int) - denominator.log2 - 52
  let (n, d) := scaledQuotient numerator denominator estimate
  let power := max (if n / d < 1 <<< 52 then estimate - 1 else estimate) (-1074)
  let (n, d) := scaledQuotient numerator denominator power
  (roundedQuotient n d, power)

/-- What a number with a fraction is, as an integer: one, none since a fraction is left, none since it is out of range, or none
since it is infinite. The range ends below 2 ^ 63; the finite numbers end below 2 ^ 1024. -/
inductive Whole where
  | integer (n : Int)
  | fraction
  | outOfRange
  | infinite
  deriving DecidableEq, Repr

/-- The first magnitude that is out of range. -/
def wholeBound : Nat := 1 <<< 63

/-- The first magnitude that is not finite. -/
def finiteBound : Nat := 1 <<< 1024

/-- The integer `significand · 2 ^ power` with a sign, if it is one in range. -/
def Whole.ofBinary (minus : Bool) (significand : Nat) (power : Int) : Whole :=
  let divisor := 1 <<< (-power).toNat
  if significand % divisor ≠ 0 then .fraction
  else
    let magnitude := (significand / divisor) <<< power.toNat
    if magnitude < wholeBound then .integer (if minus then -magnitude else magnitude)
    else if magnitude < finiteBound then .outOfRange
    else .infinite

/-- The integer that a written number means, if it means one. Numbers of more than 400 digits before the point are infinite and
those that begin more than 400 places after it are zero, so that no power of ten is ever larger than the text. -/
def Decimal.whole (x : Decimal) : Whole :=
  let magnitude := x.mantissa.natAbs
  let digits : Int := (Nat.toDigits 10 magnitude).length
  if magnitude = 0 then .integer 0
  else if 400 < digits + x.exponent then .infinite
  else if digits + x.exponent < -400 then .integer 0
  else
    let (significand, power) :=
      if x.exponent < 0 then nearestBinary64 magnitude (Nat.pow 10 (-x.exponent).toNat)
      else nearestBinary64 (magnitude * Nat.pow 10 x.exponent.toNat) 1
    Whole.ofBinary (x.mantissa < 0) significand power

/-- The number that a written number means is finite. -/
def Decimal.isFinite (x : Decimal) : Bool := x.whole ≠ .infinite

end Brainfuck
