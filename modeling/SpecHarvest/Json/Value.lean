import SpecHarvest.Assoc
import SpecHarvest.Json.Syntax

/-!
# JSON values

`Value` is a JSON value. Its objects are association lists: a key that a text repeats keeps its
first place and its last value. `Value.parse?` reads a text in which arrays and objects are nested
at most `maxDepth` deep.
-/

namespace SpecHarvest.Json

/-- JSON values. -/
inductive Value where
  | null
  | bool (b : Bool)
  | number (n : Number)
  | string (s : Text)
  | array (items : List Value)
  | object (fields : List (Text × Value))
  deriving Repr

/-- How deep arrays and objects may be nested. -/
def maxDepth : Nat := 127

/-- The value of a tree whose arrays and objects are nested at most so deep. -/
def Value.ofTree? : (depth : Nat) → Tree → Option Value
  | _, .null => some .null
  | _, .bool b => some (.bool b)
  | _, .number n => n.value?.map .number
  | _, .string raw => (decodeString? raw).map .string
  | depth + 1, .array items => (items.mapM (ofTree? depth)).map .array
  | depth + 1, .object fields => do
    let fields ← fields.mapM fun (k, t) => do
      return (← decodeString? k, ← ofTree? depth t)
    return .object (Assoc.ofList fields)
  | 0, .array _ => none
  | 0, .object _ => none

/-- The value of a JSON text. -/
def Value.parse? (s : Text) : Option Value := (Tree.parse? s).bind (Value.ofTree? maxDepth)

end SpecHarvest.Json
