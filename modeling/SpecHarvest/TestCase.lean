import SpecHarvest.Http.Header
import SpecHarvest.Http.Method
import SpecHarvest.Json.Value

/-!
# Test cases

* `TestCase`: a described request and what is expected of the response.
* `FlaggedTest`: a test that could not be converted, with the reason.
* `SpecDocument`: the test cases of one spec file.
-/

namespace SpecHarvest

open Http

/-- A request as a test states it. -/
structure Request where
  method : Method
  path : Text
  headers : List Header
  body : Option Text
  deriving DecidableEq, Repr

/-- What a test expects of the response. -/
structure Expected where
  status : Nat
  /-- The body to be compared with; none if it is not checked. -/
  body : Option Json.Value
  /-- Whether the body must be equal, and not only contain what is expected. -/
  bodyExact : Bool
  headers : List Header
  headersAbsent : List Text
  headersContain : List Header
  deriving Repr

/-- Nothing but a status. -/
def Expected.ofStatus (status : Nat) : Expected := ⟨status, none, true, [], [], []⟩

/-- A described request and the response expected to it. -/
structure TestCase where
  /-- The texts of the enclosing scopes, outermost first, and of the test. -/
  description : List Text
  request : Request
  expected : Expected
  deriving Repr

/-- The test cases of one spec file. -/
structure SpecDocument where
  file : Text
  config : Text
  tests : List TestCase
  deriving Repr

/-! ## Flagged tests -/

/-- Constructs of the test language that a test case cannot express. -/
inductive Construct where
  | lifted
  | pendingWith
  | lambda
  | analyzeTable
  | simpleBody
  | simpleHeaders
  | simpleStatus
  | shouldSatisfy
  | shouldBe
  deriving DecidableEq, Repr

/-- The reason that a construct gives. -/
def Construct.reason : Construct → Text
  | .lifted => "liftIO — side-effect".toList
  | .pendingWith => "pendingWith — skipped upstream".toList
  | .lambda => "lambda pattern".toList
  | .analyzeTable => "analyzeTable — psql shell-out".toList
  | .simpleBody => "simpleBody — custom assertion".toList
  | .simpleHeaders => "simpleHeaders — custom assertion".toList
  | .simpleStatus => "simpleStatus — custom assertion".toList
  | .shouldSatisfy => "shouldSatisfy — custom predicate".toList
  | .shouldBe => "shouldBe — custom assertion".toList

/-- Why a test was not converted. -/
inductive FlagReason where
  | construct (c : Construct)
  | noAssertion
  | unreadable
  | unreadableSpan
  | mutation
  deriving DecidableEq, Repr

/-- The text of a reason. -/
def FlagReason.text : FlagReason → Text
  | .construct c => c.reason
  | .noAssertion => "no shouldRespondWith found".toList
  | .unreadable => "parse failure".toList
  | .unreadableSpan => "parse failure in split block".toList
  | .mutation => "multiple shouldRespondWith with mutations".toList

/-- A test that was not converted. -/
structure FlaggedTest where
  description : List Text
  reason : FlagReason
  /-- The number of the line that declares the test. -/
  line : Nat
  source : Text
  deriving DecidableEq, Repr

end SpecHarvest
