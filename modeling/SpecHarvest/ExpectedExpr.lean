import SpecHarvest.HeaderMatcher
import SpecHarvest.RequestExpr

/-!
# Expected responses

An expectation is a bare status, or a body literal with a record of match attributes,
`"…" { matchStatus = 201, matchHeaders = […] }`. Without a status it is 200.

`Expected.parse?` reads one. A body literal that is not understood, and a status that is none, make
it unreadable; header matchers that are not understood are left out.
-/

namespace SpecHarvest

open Text Source Http

namespace ExpectedExpr

/-- The status that goes without saying. -/
def defaultStatus : Nat := 200

/-- A number that is a status. -/
def status? (n : Nat) : Option Nat := if 100 ≤ n ∧ n ≤ 599 then some n else none

/-- The body literal: a quasi-literal anywhere, or a string literal at the start. -/
def body? (s : Text) : Option (Option Json.Value) :=
  match quasiContent? s with
  | some content =>
    match Json.parseRelaxed content with
    | .ok v => some (some v)
    | .error _ => none
  | none =>
    if startsWith ['"'] s then
      (quoted? s).map fun (raw, _) =>
        let text := unescape raw
        some ((Json.Value.parse? text).getD (.string text))
    else some none

/-- The fields that a record of match attributes may start with. -/
def matchFields : List Text := ["matchStatus".toList, "matchHeaders".toList]

/-- The first record that starts with a match attribute, without its braces. -/
def attributes? : Text → Option Text
  | [] => none
  | c :: s =>
    if c = '{' && matchFields.any (startsWith · (trimStart s)) then
      (matching? '{' '}' 1 false s).map (·.1)
    else attributes? s

/-- What follows a field and its equals sign in a record. -/
def field? (name block : Text) : Option Text := do
  let s ← keyword? name block
  return trimStart (← after? ['='] (trimStart s))

/-- The list at the front of a text, brackets included. -/
def listAt? (s : Text) : Option Text :=
  (bracketed? '[' ']' s).map fun (inner, _) => '[' :: inner ++ [']']

/-- The status of a record. -/
def statusOf? (block : Text) : Option Nat :=
  match field? "matchStatus".toList block with
  | some s => (natural? s).bind fun (n, _) => status? n
  | none => some defaultStatus

/-- The header matchers of a record, as far as they are understood. -/
def matchersOf (block : Text) : HeaderMatchers :=
  (((field? "matchHeaders".toList block).bind listAt?).bind HeaderMatchers.parse?).getD
    (.ofList [])

end ExpectedExpr

open ExpectedExpr in
/-- The expectation that a text states. -/
def Expected.parse? (s : Text) : Option Expected := do
  let s := trim s
  if !s.isEmpty && s.all Char.isDigit then
    let (n, _) ← natural? s
    return .ofStatus (← status? n)
  let body ← body? s
  match attributes? s with
  | none => return { Expected.ofStatus defaultStatus with body := body }
  | some block =>
    let status ← statusOf? block
    let matchers := matchersOf block
    return {
      status := status
      body := body
      bodyExact := true
      headers := matchers.exact
      headersAbsent := matchers.absent
      headersContain := matchers.contain }

end SpecHarvest
