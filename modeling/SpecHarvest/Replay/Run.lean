import SpecHarvest.Document
import SpecHarvest.Replay.Mismatch
import SpecHarvest.Replay.Options
import SpecHarvest.Replay.Tap

/-!
# Replaying documents

A replay goes through the test cases of documents, sends the request of each that takes part and
compares the answer with what is expected. Its report grows by one entry a test case.

* `replayTest` and `replayAll` work with any service, also with one that has a memory or another
  effect.
* `replay` uses a service that answers by the request alone. A `Run` holds the report and the
  requests that were sent.
-/

namespace SpecHarvest

open Text

/-- What comes back for a request: a response, or the reason why there is none. -/
abbrev Answer := Except Text Response

/-- What answers a request by the request alone. -/
abbrev Service := Request → Answer

/-- Texts one inside the other, outermost first. -/
def nested (texts : List Text) : Text := " > ".toList.intercalate texts

/-- The name of a test in the report. -/
def testName (file : Text) (t : TestCase) : Text := nested [file, nested t.description]

/-- The result of a test whose request is sent and answered. -/
def judge (name : Text) (sent : Request) (e : Expected) : Answer → Tap.Entry
  | .error reason =>
    .notOk name ("request failed: ".toList ++ sent.method.name ++ ' ' :: sent.path ++
      ": ".toList ++ reason)
  | .ok response =>
    match mismatches response e with
    | [] => .ok name
    | ms => .notOk name (unlines ((sent.method.name ++ ' ' :: sent.path) :: ms.map (·.message)))

section

variable {m : Type → Type} [Monad m]

/-- The report after one more test case. A test that is left out is reported and not sent. -/
def replayTest (service : Request → m Answer) (o : ReplayOptions) (file : Text)
    (report : List Tap.Entry) (t : TestCase) : m (List Tap.Entry) := do
  if o.skipsTest (nested t.description) then
    return report ++ [.skip (testName file t)]
  else
    let answer ← service t.request.toWire
    return report ++ [judge (testName file t) t.request.toWire t.expected answer]

/-- The report after the test cases of documents. -/
def replayAll (service : Request → m Answer) (o : ReplayOptions) (report : List Tap.Entry)
    (docs : List SpecDocument) : m (List Tap.Entry) :=
  docs.foldlM (fun report d => d.tests.foldlM (replayTest service o d.file) report) report

end

/-- The report of a replay and the requests that were sent. -/
structure Run where
  entries : List Tap.Entry
  sent : List Request
  deriving DecidableEq, Repr

/-- A service that takes down the requests it answers. -/
def Service.noting (service : Service) (r : Request) : StateM (List Request) Answer := do
  modify (· ++ [r])
  return service r

/-- The replay of documents. -/
def replay (service : Service) (o : ReplayOptions) (docs : List SpecDocument) : Run :=
  let (entries, sent) := (replayAll service.noting o [] docs).run []
  ⟨entries, sent⟩

end SpecHarvest
