import SpecHarvest.Json.Shortest

/-!
# JSON numbers

* A `Numeral` is a number as it is written; `Numeral.value?` gives its value. Without fraction and
  exponent it is an integer if it fits 64 bits, unsigned when positive and signed when negative; all
  else, and `-0`, is a floating-point number, if that is finite.
* A floating-point number is read from at most as many leading digits as fit 64 bits; the digits
  after them only count for the exponent.
-/

namespace SpecHarvest.Json

/-- The value of a JSON number. -/
inductive Number where
  /-- An integer of 64 bits, signed or unsigned. -/
  | int (value : Int)
  /-- Any other number. -/
  | float (value : Binary64)
  deriving DecidableEq, Repr

/-- A number as it is written. The fraction is empty if there is no point. -/
structure Numeral where
  negative : Bool
  whole : Text
  fraction : Text
  /-- The sign, true for a minus, and the digits of the exponent. -/
  exponent : Option (Bool × Text)
  deriving DecidableEq, Repr

/-- The value of a decimal digit. -/
def digitValue (c : Char) : Nat := c.toNat - '0'.toNat

/-- The number that leading digits continue `n` to, as long as it fits 64 bits, and the digits that
are left. -/
def foldDigits (n : Nat) : Text → Nat × Text
  | [] => (n, [])
  | c :: ds =>
    if 10 * n + digitValue c < pow2 64 then foldDigits (10 * n + digitValue c) ds else (n, c :: ds)

/-- The value of decimal digits. -/
def decimalValue (ds : Text) : Nat := ds.foldl (fun n c => 10 * n + digitValue c) 0

/-- The value of an exponent; none counts as zero. -/
def exponentValue : Option (Bool × Text) → Int
  | none => 0
  | some (negative, ds) => if negative then -(decimalValue ds) else decimalValue ds

/-- The value of a numeral, if it is finite. -/
def Numeral.value? (n : Numeral) : Option Number :=
  let (significand, dropped) := foldDigits 0 n.whole
  if n.fraction.isEmpty && n.exponent.isNone && dropped.isEmpty then
    if !n.negative then some (.int significand)
    else if significand = 0 || pow2 63 < significand then
      (Binary64.ofNat true significand).map .float
    else some (.int (-significand))
  else
    let (significand, ignored) := foldDigits significand n.fraction
    let kept : Int := n.fraction.length - ignored.length
    (Binary64.ofDecimal n.negative significand
      (dropped.length - kept + exponentValue n.exponent)).map .float

/-- The text of a number. -/
def Number.render : Number → Text
  | .int value => if value < 0 then '-' :: Binary64.digitsOf value.natAbs
      else Binary64.digitsOf value.natAbs
  | .float value => value.render

/-- A number as a floating-point number. -/
def Number.toBinary64 : Number → Option Binary64
  | .int value => Binary64.ofNat (value < 0) value.natAbs
  | .float value => some value

end SpecHarvest.Json
