import SpecHarvest.Assertion
import SpecHarvest.Block
import SpecHarvest.ExpectedExpr
import SpecHarvest.Source.Comment

/-!
# Extraction

Every block of a spec file yields test cases or flagged tests (`Outcome`), in the order of the file.

* `Block.outcomes` gives the outcomes of one block.
* `Extraction.ofSource` collects those of a file.
-/

namespace SpecHarvest

open Text Source

/-- What a block, or a part of one, yields. -/
inductive Outcome where
  | test (t : TestCase)
  | flagged (f : FlaggedTest)
  deriving Repr

namespace Outcome

/-- The test case. -/
def test? : Outcome → Option TestCase
  | test t => some t
  | flagged _ => none

/-- The flagged test. -/
def flagged? : Outcome → Option FlaggedTest
  | test _ => none
  | flagged f => some f

end Outcome

/-- The request and the expectation of a text that makes one assertion. Only the first separator
counts. -/
def parseAssertion? (bindings : Bindings) (s : Text) : Option (Request × Expected) := do
  let (front, rest) ← cut? separator s
  return (← Request.parse? bindings front, ← Expected.parse? rest)

namespace Block

/-- A test of a block that is flagged. -/
def flag (b : Block) (description : List Text) (reason : FlagReason) (source : Text) : Outcome :=
  .flagged ⟨description, reason, b.line, trim source⟩

/-- The whole block flagged. -/
def flagWhole (b : Block) (reason : FlagReason) : Outcome := b.flag b.description reason b.text

/-- The outcome of one assertion of a block, flagged with a reason if it is not understood. -/
def outcomeOf (b : Block) (bindings : Bindings) (description : List Text) (reason : FlagReason)
    (source text : Text) : Outcome :=
  match parseAssertion? bindings text with
  | some (request, expected) => .test ⟨description, request, expected⟩
  | none => b.flag description reason source

/-- The outcomes of a block: it must have a description, use no construct that a test case does not
express, and make an assertion; of several assertions none may write. -/
def outcomes (b : Block) (bindings : Bindings) : List Outcome :=
  let text := stripComments b.text
  if b.description.any List.isEmpty then [b.flagWhole .unreadable]
  else
    match Construct.first? text with
    | some c => [b.flagWhole (.construct c)]
    | none =>
      match occurrences separator text with
      | 0 => [b.flagWhole .noAssertion]
      | 1 => [b.outcomeOf bindings b.description .unreadable b.text text]
      | _ =>
        match splitAssertions? text with
        | none => [b.flagWhole .mutation]
        | some spans =>
          spans.mapIdx fun i span =>
            b.outcomeOf bindings (numbered b.description (i + 1)) .unreadableSpan span span

end Block

/-- All that is extracted from one spec file. -/
structure Extraction where
  file : Text
  config : Text
  tests : List TestCase
  flagged : List FlaggedTest
  deriving Repr

/-- The name of a file without the end that marks a spec file or a source file. -/
def specName (filename : Text) : Text :=
  ((before? "Spec.hs".toList filename).or (before? ".hs".toList filename)).getD filename

/-- The outcomes of the blocks of a source. -/
def outcomesOf (source : Text) : List Outcome :=
  (segment source).1.flatMap fun (block, c) => block.outcomes c.bindings

namespace Extraction

/-- What is extracted from a source. -/
def ofSource (filename source config : Text) : Extraction where
  file := specName filename
  config := config
  tests := (outcomesOf source).filterMap Outcome.test?
  flagged := (outcomesOf source).filterMap Outcome.flagged?

/-- The document of the test cases. -/
def toDocument (e : Extraction) : SpecDocument := ⟨e.file, e.config, e.tests⟩

end Extraction

end SpecHarvest
