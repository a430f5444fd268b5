/-!
# Binary floating-point numbers of 64 bits

The finite numbers of the IEEE 754 format binary64, with exact arithmetic: a result is the rational
number it should be, rounded once, to the nearest number of the format and to the even one of two.

* `ofRatio` rounds a quotient times a power of two; there is none where the result would be
  infinite. `ofNat`, `mul` and `div` are made of it.
* `ofDecimal` is the value of a decimal significand and exponent.
* `sameNumber` is equality as numbers, in which the two zeros are equal.
-/

namespace SpecHarvest.Json

/-- A power of two. -/
def pow2 (k : Nat) : Nat := Nat.pow 2 k

/-- A power of ten. -/
def pow10 (k : Nat) : Nat := Nat.pow 10 k

/-- The finite number `± mantissa · 2 ^ exponent`. The mantissa is below 2^53, and the exponent is
the least one, -1074, if the mantissa is below 2^52. -/
structure Binary64 where
  negative : Bool
  mantissa : Nat
  exponent : Int
  deriving DecidableEq, Repr

namespace Binary64

/-- The least exponent. -/
def minExponent : Int := -1074

/-- The greatest exponent. -/
def maxExponent : Int := 971

/-- Zero with a sign. -/
def zero (negative : Bool) : Binary64 := ⟨negative, 0, minExponent⟩

/-- The quotient rounded to the nearest integer, to the even one of two. -/
def roundDiv (num den : Nat) : Nat :=
  let q := num / den
  let r := num % den
  if 2 * r < den then q else if den < 2 * r then q + 1 else q + q % 2

/-- Numerator and denominator of `num / den · 2 ^ shift`. -/
def scaled (num den : Nat) (shift : Int) : Nat × Nat :=
  (num * pow2 shift.toNat, den * pow2 (-shift).toNat)

/-- The number nearest to `± num / den · 2 ^ scale`, for a positive `den`. -/
def ofRatio (negative : Bool) (num den : Nat) (scale : Int) : Option Binary64 :=
  if num = 0 then some (zero negative)
  else
    let low := max ((num.log2 : Int) - den.log2 + scale - 53) minExponent
    let (n, d) := scaled num den (scale - low)
    let e := if n / d < pow2 53 then low else low + 1
    let (n, d) := scaled num den (scale - e)
    let m := roundDiv n d
    let (m, e) := if m < pow2 53 then (m, e) else (pow2 52, e + 1)
    if e ≤ maxExponent then some ⟨negative, m, e⟩ else none

/-- The nearest number to a natural number. -/
def ofNat (negative : Bool) (n : Nat) : Option Binary64 := ofRatio negative n 1 0

/-- The rounded product. -/
def mul (a b : Binary64) : Option Binary64 :=
  ofRatio (a.negative != b.negative) (a.mantissa * b.mantissa) 1 (a.exponent + b.exponent)

/-- The rounded quotient by a number that is not zero. -/
def div (a b : Binary64) : Option Binary64 :=
  ofRatio (a.negative != b.negative) a.mantissa b.mantissa (a.exponent - b.exponent)

/-- The greatest power of ten of the format has this exponent. -/
def maxTen : Nat := 308

/-- Multiplied by a power of ten, or divided by one, that is itself rounded to the format. Below
the range of the powers the division is repeated until the exponent is in range or the number is
zero. -/
def timesTen (a : Binary64) (exponent : Int) : Option Binary64 :=
  if exponent.natAbs ≤ maxTen then
    (ofNat false (pow10 exponent.natAbs)).bind fun p =>
      if 0 ≤ exponent then mul a p else div a p
  else if a.mantissa = 0 then some a
  else if 0 ≤ exponent then none
  else
    (ofNat false (pow10 maxTen)).bind fun p => (div a p).bind fun b => timesTen b (exponent + maxTen)
termination_by exponent.natAbs
decreasing_by simp only [maxTen] at *; omega

/-- The value of `± significand · 10 ^ exponent`: the significand is rounded to the format, and
then multiplied or divided. -/
def ofDecimal (negative : Bool) (significand : Nat) (exponent : Int) : Option Binary64 :=
  (ofNat negative significand).bind fun a => timesTen a exponent

/-- Equality as numbers: the two zeros are equal. -/
def sameNumber (a b : Binary64) : Bool := (a.mantissa == 0 && b.mantissa == 0) || a == b

end Binary64

end SpecHarvest.Json
