import SpecHarvest.Json.Value

/-!
# Comparison of JSON values

* `Value.equal`: the same value, up to the order of keys and with numbers compared as
  floating-point numbers.
* `Value.within`: contained in another value. An object may have more keys there; an array must
  have the same length.
-/

namespace SpecHarvest.Json

/-- Numbers that are the same as floating-point numbers. -/
def Number.same (a b : Number) : Bool :=
  match a.toBinary64, b.toBinary64 with
  | some x, some y => x.sameNumber y
  | none, none => true
  | _, _ => false

namespace Value

mutual

/-- Deep equality. -/
def equal : Value → Value → Bool
  | .object fs, .object gs => fs.length == gs.length && equalFields fs gs
  | .array vs, .array ws => equalItems vs ws
  | .number m, .number n => m.same n
  | .null, .null => true
  | .bool a, .bool b => a == b
  | .string s, .string t => s == t
  | _, _ => false

/-- Equality item by item. -/
def equalItems : List Value → List Value → Bool
  | [], [] => true
  | v :: vs, w :: ws => equal v w && equalItems vs ws
  | _, _ => false

/-- Whether every field has an equal one in an object. -/
def equalFields : List (Text × Value) → List (Text × Value) → Bool
  | [], _ => true
  | (k, v) :: fs, gs =>
    (match Assoc.get? k gs with
      | some w => equal v w
      | none => false) && equalFields fs gs

end

mutual

/-- Containment of the first value in the second. -/
def within : Value → Value → Bool
  | .object fs, .object gs => fieldsWithin fs gs
  | .array vs, .array ws => itemsWithin vs ws
  | .number m, w => equal (.number m) w
  | .null, w => equal .null w
  | .bool b, w => equal (.bool b) w
  | .string s, w => equal (.string s) w
  | _, _ => false

/-- Containment item by item. -/
def itemsWithin : List Value → List Value → Bool
  | [], [] => true
  | v :: vs, w :: ws => within v w && itemsWithin vs ws
  | _, _ => false

/-- Whether every field is contained in one of an object. -/
def fieldsWithin : List (Text × Value) → List (Text × Value) → Bool
  | [], _ => true
  | (k, v) :: fs, gs =>
    (match Assoc.get? k gs with
      | some w => within v w
      | none => false) && fieldsWithin fs gs

end

end Value

end SpecHarvest.Json
