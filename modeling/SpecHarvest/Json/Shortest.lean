import SpecHarvest.Text.Basic
import SpecHarvest.Json.Binary64

/-!
# The shortest decimal text of a number

* `Binary64.shortest` finds the fewest significant digits that read back as the number, and of the
  decimals with so many digits the one nearest to it.
* `Binary64.render` writes them: positionally, with at least one decimal, when the exponent of the
  leading digit is from -5 to 15, and otherwise with an exponent that has a sign.
-/

namespace SpecHarvest.Json.Binary64

/-- A positive decimal number: the digits, as a number, times a power of ten. -/
structure Decimal where
  digits : Nat
  exponent : Int
  deriving DecidableEq, Repr

/-- The decimal digits of a number, as a text. -/
def digitsOf (n : Nat) : Text := Nat.toDigits 10 n

/-- The exponent of the power of ten just below, or at, a positive quotient. -/
def decimalExponent (num den : Nat) : Int :=
  if den ≤ num then (digitsOf (num / den)).length - 1
  else
    let j := (digitsOf (den / num)).length - 1
    if den ≤ num * pow10 j then -j else -(j + 1)

/-- The decimals that read back as a number lie between two bounds, which belong to them exactly
when the mantissa is even. All three are given as numerators over one denominator. -/
structure Interval where
  low : Nat
  value : Nat
  high : Nat
  den : Nat
  closed : Bool

/-- The interval of a number that is not zero. -/
def interval (a : Binary64) : Interval :=
  let unit := pow2 a.exponent.toNat
  let value := 4 * a.mantissa * unit
  { low := value - (if a.mantissa = pow2 52 ∧ minExponent < a.exponent then unit else 2 * unit)
    value := value
    high := value + 2 * unit
    den := 4 * pow2 (-a.exponent).toNat
    closed := a.mantissa % 2 == 0 }

/-- Whether `num / den` lies in an interval. -/
def Interval.holds (i : Interval) (num den : Nat) : Bool :=
  if i.closed then i.low * den ≤ num * i.den && num * i.den ≤ i.high * den
  else i.low * den < num * i.den && num * i.den < i.high * den

/-- The nearest multiple of `10 ^ exponent` to the value of an interval that lies in it, the even
one if two are equally near. -/
def Interval.nearest? (i : Interval) (exponent : Int) : Option Decimal :=
  let ten := pow10 exponent.toNat
  let den := pow10 (-exponent).toNat
  let q := i.value * den / (i.den * ten)
  let below := i.holds (q * ten) den
  let above := i.holds ((q + 1) * ten) den
  let twice := 2 * i.value * den
  let middle := (2 * q + 1) * ten * i.den
  if below && (!above || twice < middle || (twice == middle && q % 2 == 0)) then some ⟨q, exponent⟩
  else if above then some ⟨q + 1, exponent⟩
  else none

/-- The shortest decimal of a number that is not zero. -/
def shortest (a : Binary64) : Decimal :=
  let i := a.interval
  let top := decimalExponent i.value i.den
  ((List.range 17).findSome? fun (n : Nat) => i.nearest? (top - n)).getD ⟨0, 0⟩

/-- The digits of a decimal without zeros at the end. -/
def Decimal.significant (d : Decimal) : Text :=
  ((digitsOf d.digits).reverse.dropWhile (· == '0')).reverse

/-- The exponent of the leading digit. -/
def Decimal.leading (d : Decimal) : Int := d.exponent + (digitsOf d.digits).length - 1

/-- Significant digits and the exponent of the first, written as a number. -/
def writeDecimal (ds : Text) (e : Int) : Text :=
  if 0 ≤ e ∧ e ≤ 15 then
    let whole := e.toNat + 1
    if ds.length ≤ whole then ds ++ List.replicate (whole - ds.length) '0' ++ ".0".toList
    else ds.take whole ++ '.' :: ds.drop whole
  else if -5 ≤ e ∧ e < 0 then "0.".toList ++ List.replicate (-e - 1).toNat '0' ++ ds
  else
    ds.take 1 ++ (if ds.length ≤ 1 then [] else '.' :: ds.drop 1) ++
      'e' :: (if e < 0 then '-' else '+') :: digitsOf e.natAbs

/-- The text of a number. -/
def render (a : Binary64) : Text :=
  let positive :=
    if a.mantissa = 0 then "0.0".toList
    else writeDecimal a.shortest.significant a.shortest.leading
  if a.negative then '-' :: positive else positive

end SpecHarvest.Json.Binary64
