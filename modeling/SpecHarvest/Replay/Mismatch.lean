import SpecHarvest.Json.Compare
import SpecHarvest.Json.Printer
import SpecHarvest.Replay.Wire
import SpecHarvest.Text.Quoted

/-!
# Mismatches

`mismatches` compares a response with what a test expects and lists every difference: status, body,
headers with a value, headers that must be absent and headers that must contain a text, in this
order. `Mismatch.message` words a difference.
-/

namespace SpecHarvest

open Text Http

/-- A difference between a response and what is expected of it. -/
inductive Mismatch where
  | status (expected got : Nat)
  | body (expected : Json.Value) (got : Text)
  /-- JSON is expected and the body is none. -/
  | notJson (got : Text)
  | header (name expected : Text) (got : Option Text)
  /-- A header that must be absent is there. -/
  | headerPresent (name got : Text)
  /-- A header does not contain a text. -/
  | headerLacks (name needle : Text) (got : Option Text)
  deriving Repr

namespace Mismatch

/-- How many characters of a body are shown. -/
def snippetLength : Nat := 200

/-- The wording of a difference. -/
def message : Mismatch → Text
  | .status expected got =>
    "status: expected ".toList ++ ofNat expected ++ ", got ".toList ++ ofNat got
  | .body expected got =>
    "body mismatch:\n--- expected\n".toList ++ expected.pretty ++ "\n+++ got\n".toList ++
      got.take snippetLength
  | .notJson got => "expected JSON body but got: ".toList ++ got.take snippetLength
  | .header name expected got =>
    "header ".toList ++ name ++ ": expected ".toList ++ quoted expected ++ ", got ".toList ++
      quotedOption got
  | .headerPresent name got =>
    "header ".toList ++ name ++ " should be absent, got ".toList ++ quoted got
  | .headerLacks name needle got =>
    "header ".toList ++ name ++ ": expected to contain ".toList ++ quoted needle ++
      ", got ".toList ++ quotedOption got

end Mismatch

/-- The differences of a body. A string is compared with the body as it is, every other value with
the JSON that the body holds. -/
def bodyMismatches (expected : Json.Value) (exact_ : Bool) (got : Text) : List Mismatch :=
  match expected with
  | .string s => if got = s then [] else [.body expected got]
  | _ =>
    match Json.Value.parse? got with
    | none => [.notJson got]
    | some v =>
      if (if exact_ then expected.equal v else expected.within v) then [] else [.body expected got]

/-- The differences between a response and what is expected of it. -/
def mismatches (r : Response) (e : Expected) : List Mismatch :=
  (if r.status = e.status then [] else [.status e.status r.status]) ++
  (match e.body with
    | some body => bodyMismatches body e.bodyExact r.body
    | none => []) ++
  (e.headers.filterMap fun h =>
    let got := valueOf? h.name r.headers
    if got = some h.value then none else some (.header h.name h.value got)) ++
  (e.headersAbsent.filterMap fun name =>
    (valueOf? name r.headers).map (.headerPresent name)) ++
  (e.headersContain.filterMap fun h =>
    let got := valueOf? h.name r.headers
    if got.any (contains h.value) then none else some (.headerLacks h.name h.value got))

end SpecHarvest
