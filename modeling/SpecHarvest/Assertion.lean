import SpecHarvest.Source.Literal
import SpecHarvest.TestCase
import SpecHarvest.Text.Find
import SpecHarvest.Text.Quoted
import SpecHarvest.Text.WordChar

/-!
# Assertions of a block

* `Construct.first?` is the first construct, in the order of `Construct.all`, that a text uses.
* `splitAssertions?` cuts a text that makes several requests at the lines where they start. A part
  that writes (`isMutating`) refuses the cut.
* `numbered` marks the description of a part with its number.
-/

namespace SpecHarvest

open Text Source

/-! ## Constructs that no test case expresses -/

namespace Construct

/-- Every construct, in the order in which they are looked for. -/
def all : List Construct :=
  [lifted, pendingWith, lambda, analyzeTable, simpleBody, simpleHeaders, simpleStatus,
    shouldSatisfy, shouldBe]

/-- A lambda that ignores its argument, at the front of a text. -/
def lambdaHere? (s : Text) : Option Unit := do
  let s ← after? ['_'] (trimStart (← after? ['\\'] s))
  let _ ← after? "->".toList (trimStart s)
  return ()

/-- Whether a text uses a construct. -/
def usedIn (s : Text) : Construct → Bool
  | lifted => hasWord "liftIO".toList s
  | pendingWith => hasWord "pendingWith".toList s
  | lambda => (firstAt lambdaHere? s).isSome
  | analyzeTable => hasWord "analyzeTable".toList s
  | simpleBody => hasWord "simpleBody".toList s
  | simpleHeaders => hasWord "simpleHeaders".toList s
  | simpleStatus => hasWord "simpleStatus".toList s
  | shouldSatisfy => hasWord "shouldSatisfy".toList s
  | shouldBe => hasWord "shouldBe".toList s

/-- The first construct that a text uses. -/
def first? (s : Text) : Option Construct := all.find? (·.usedIn s)

end Construct

/-! ## Requests that write -/

/-- Constants of the methods that write. -/
def writeMethods : List Text :=
  ["methodDelete".toList, "methodPut".toList, "methodPost".toList, "methodPatch".toList]

/-- Whether a text starts with `request` and a method that writes. -/
def writeRequestHere (s : Text) : Bool :=
  match after? "request".toList s with
  | some (c :: s) => isBlank c && writeMethods.any (wordHere · (trimStart s))
  | _ => false

/-- Whether a text, taken from a word boundary on, starts with a helper or a request that
writes. -/
def writeHere (s : Text) : Bool :=
  wordHere "post".toList s || wordHere "patch".toList s || writeRequestHere s

/-- Whether a text names a helper or a request that writes. -/
def isMutating (s : Text) : Bool := atWordStart writeHere s

/-! ## Several assertions -/

/-- What separates a request from the response that is expected. -/
def separator : Text := "`shouldRespondWith`".toList

/-- What a line that makes a request starts with, white space aside. -/
def requestStarts : List Text :=
  ["get \"".toList, "post \"".toList, "patch \"".toList, "request ".toList]

/-- Whether a line makes a request. -/
def startsRequest (line : Text) : Bool := requestStarts.any (startsWith · (trimStart line))

/-- The lines of a text with their line feeds. -/
def fullLines : Text → List Text
  | [] => [[]]
  | c :: s => if c = '\n' then ['\n'] :: fullLines s else (fullLines s).modifyHead (c :: ·)

/-- Lines put together to parts, each of which starts at a line that makes a request. -/
def requestSpans : List Text → List Text
  | [] => []
  | line :: lines =>
    (line ++ (lines.takeWhile (!startsRequest ·)).flatten) ::
      requestSpans (lines.dropWhile (!startsRequest ·))
termination_by lines => lines.length
decreasing_by exact Nat.lt_succ_of_le (List.dropWhile_suffix _).length_le

/-- The parts of a text that make one request each, from the first line on that makes one. With
fewer than two such lines the text is one part. -/
def assertionSpans (s : Text) : List Text :=
  let lines := fullLines s
  if (lines.filter startsRequest).length < 2 then [s]
  else requestSpans (lines.dropWhile (!startsRequest ·))

/-- The parts of a text, unless one of them writes. -/
def splitAssertions? (s : Text) : Option (List Text) :=
  let spans := assertionSpans s
  if spans.any isMutating then none else some spans

/-- A description whose last text is marked with a number. -/
def numbered (description : List Text) (n : Nat) : List Text :=
  match description.getLast? with
  | some last => description.dropLast ++ [last ++ " (".toList ++ ofNat n ++ [')']]
  | none => []

end SpecHarvest
