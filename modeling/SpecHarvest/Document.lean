import SpecHarvest.Extraction
import SpecHarvest.Json.Printer

/-!
# Documents on disk

Test cases, flagged tests and statistics are kept as JSON.

* `toJson` gives the JSON value of each, with its fields in a fixed order.
* `Decode` reads JSON trees field by field; a record may also be written as the array of its fields.
  Fields that are not known are passed over, whatever they hold.
* `SpecDocument.parse?` reads a document of test cases.
-/

namespace SpecHarvest

open Text Http

/-! ## Writing -/

namespace Json.Value

/-- An object with fixed keys. -/
def record (fields : List (String × Value)) : Value :=
  .object (fields.map fun (k, v) => (k.toList, v))

/-- A natural number. -/
def ofNat (n : Nat) : Value := .number (.int n)

/-- An array of strings. -/
def ofTexts (ss : List Text) : Value := .array (ss.map .string)

/-- A value that may be missing: null if it is. -/
def ofOption : Option Value → Value
  | some v => v
  | none => .null

end Json.Value

open Json (Value)

/-- A header is an array of its name and its value. -/
def Http.Header.toJson (h : Header) : Value := .ofTexts [h.name, h.value]

/-- Headers in their order. -/
def Http.headersToJson (hs : List Header) : Value := .array (hs.map Header.toJson)

/-- The JSON value of a request. -/
def Request.toJson (r : Request) : Value := .record [
  ("method", .string r.method.name),
  ("path", .string r.path),
  ("headers", headersToJson r.headers),
  ("body", .ofOption (r.body.map .string))]

/-- The JSON value of an expectation. -/
def Expected.toJson (e : Expected) : Value := .record [
  ("status", .ofNat e.status),
  ("body", .ofOption e.body),
  ("bodyExact", .bool e.bodyExact),
  ("headers", headersToJson e.headers),
  ("headersAbsent", .ofTexts e.headersAbsent),
  ("headersContain", headersToJson e.headersContain)]

/-- The JSON value of a test case. -/
def TestCase.toJson (t : TestCase) : Value := .record [
  ("description", .ofTexts t.description),
  ("request", t.request.toJson),
  ("expected", t.expected.toJson)]

/-- The JSON value of a document. -/
def SpecDocument.toJson (d : SpecDocument) : Value := .record [
  ("file", .string d.file),
  ("config", .string d.config),
  ("tests", .array (d.tests.map TestCase.toJson))]

/-- The JSON value of a flagged test with the name of its spec. -/
def FlaggedTest.toJson (file : Text) (f : FlaggedTest) : Value := .record [
  ("description", .ofTexts f.description),
  ("reason", .string f.reason.text),
  ("line", .ofNat f.line),
  ("source", .string f.source),
  ("file", .string file)]

/-! ## Reading -/

namespace Decode

open Json (Tree)

/-- A reader of trees. -/
abbrev Decoder (α : Type) := Tree → Option α

/-- A string. -/
def text : Decoder Text
  | .string raw => Json.decodeString? raw
  | _ => none

/-- A truth value. -/
def bool : Decoder Bool
  | .bool b => some b
  | _ => none

/-- The greatest number that a status field can hold. -/
def maxStatus : Int := 65535

/-- An integer from 0 to 65535, without fraction and exponent. -/
def status : Decoder Nat
  | .number n =>
    match n.value? with
    | some (.int k) => if 0 ≤ k ∧ k ≤ maxStatus then some k.toNat else none
    | _ => none
  | _ => none

/-- An array. -/
def array {α : Type} (item : Decoder α) : Decoder (List α)
  | .array ts => ts.mapM item
  | _ => none

/-- A value or null. -/
def nullable {α : Type} (value : Decoder α) : Decoder (Option α)
  | .null => some none
  | t => (value t).map some

/-- The field of a name; a name that comes twice makes the object unreadable. -/
def uniqueField? (name : Text) (fields : List (Text × Tree)) : Option (Option Tree) :=
  match fields.filter (·.1 == name) with
  | [] => some none
  | [(_, t)] => some (some t)
  | _ => none

/-- The fields of a record in their order, each unless it is missing. -/
def record (names : List String) : Decoder (List (Option Tree))
  | .array ts => if ts.length = names.length then some (ts.map some) else none
  | .object fields => do
    let fields ← fields.mapM fun (k, t) => do return (← Json.decodeString? k, t)
    names.mapM fun name => uniqueField? name.toList fields
  | _ => none

/-- A field that may not be missing. -/
def required {α : Type} (value : Decoder α) (field : Option Tree) : Option α := field.bind value

/-- A field that may be missing or null. -/
def optional {α : Type} (value : Decoder α) : Option Tree → Option (Option α)
  | some t => nullable value t
  | none => some none

/-- An array of a name and a value. -/
def header : Decoder Header
  | .array [n, v] => do return ⟨← text n, ← text v⟩
  | _ => none

/-- The name of a method, or an object with that name as its key and null under it. -/
def method : Decoder Method
  | .string raw => (Json.decodeString? raw).bind Method.ofName?
  | .object [(k, .null)] => (Json.decodeString? k).bind Method.ofName?
  | _ => none

/-- A request. -/
def request (t : Tree) : Option Request := do
  match ← record ["method", "path", "headers", "body"] t with
  | [m, p, hs, b] =>
    return {
      method := ← required method m
      path := ← required text p
      headers := ← required (array header) hs
      body := ← optional text b }
  | _ => none

/-- How deep a body may be nested, inside the arrays and objects of a document. -/
def bodyDepth : Nat := Json.maxDepth - 4

/-- An expectation. -/
def expected (t : Tree) : Option Expected := do
  match ← record
    ["status", "body", "bodyExact", "headers", "headersAbsent", "headersContain"] t with
  | [s, b, x, hs, as, cs] =>
    return {
      status := ← required status s
      body := ← optional (Json.Value.ofTree? bodyDepth) b
      bodyExact := ← required bool x
      headers := ← required (array header) hs
      headersAbsent := ← required (array text) as
      headersContain := ← required (array header) cs }
  | _ => none

/-- A test case. -/
def testCase (t : Tree) : Option TestCase := do
  match ← record ["description", "request", "expected"] t with
  | [d, r, e] =>
    return {
      description := ← required (array text) d
      request := ← required request r
      expected := ← required expected e }
  | _ => none

/-- A document of test cases. -/
def specDocument (t : Tree) : Option SpecDocument := do
  match ← record ["file", "config", "tests"] t with
  | [f, c, ts] =>
    return {
      file := ← required text f
      config := ← required text c
      tests := ← required (array testCase) ts }
  | _ => none

end Decode

/-- The document that a text holds. -/
def SpecDocument.parse? (s : Text) : Option SpecDocument :=
  (Json.Tree.parse? s).bind Decode.specDocument

end SpecHarvest
