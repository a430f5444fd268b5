import SpecHarvest.Http.Header
import SpecHarvest.Source.Delimiter
import SpecHarvest.Source.Keyword
import SpecHarvest.Source.Reader
import SpecHarvest.Text.Find

/-!
# Header matchers

A test lists what it expects of the headers of the response: a header with exactly a value, no
header of a name, or a helper that stands for a content type.

* `HeaderMatcher.parse?` reads one matcher.
* `HeaderMatchers.parse?` reads a list and sorts the matchers by kind; one that is not understood
  makes the list unreadable.
-/

namespace SpecHarvest

open Text Source Http

/-- An expectation on one header of the response. -/
inductive HeaderMatcher where
  | exact (name value : Text)
  | absent (name : Text)
  | contain (name value : Text)
  deriving DecidableEq, Repr

namespace HeaderMatcher

/-- The header of content types. -/
def contentType : Text := "Content-Type".toList

/-- `"Name" <:> "Value"`: the literals around the first operator. -/
def exactPair? (s : Text) : Option HeaderMatcher := do
  let (left, right) ← cut? "<:>".toList s
  let (_, name) ← cutLast? '"' (← before? ['"'] (trimEnd left))
  let (value, _) ← quoted? (trimStart right)
  if name.isEmpty || value.isEmpty then none
  else some (.exact (unescape name) (unescape value))

/-- The argument of the helper for absent headers. -/
def absentArgument? (s : Text) : Option Text :=
  (keyword? "matchHeaderAbsent".toList s).bind blanks?

/-- `matchHeaderAbsent hContentType` -/
def absentContentType? (s : Text) : Option HeaderMatcher := do
  let _ ← word? "hContentType".toList (← absentArgument? s)
  return .absent contentType

/-- `matchHeaderAbsent "Name"` -/
def absentNamed? (s : Text) : Option HeaderMatcher := do
  let (name, _) ← nonemptyQuoted? (← absentArgument? s)
  return .absent (unescape name)

/-- Helpers that stand for a content type, and its value. -/
def contentTypes : List (Text × Text) := [
  ("matchContentTypeJson".toList, "application/json; charset=utf-8".toList),
  ("matchContentTypeSingular".toList, "application/vnd.pgrst.object+json; charset=utf-8".toList),
  ("matchCTArrayStrip".toList,
    "application/vnd.pgrst.array+json;nulls=stripped; charset=utf-8".toList),
  ("matchCTSingularStrip".toList,
    "application/vnd.pgrst.object+json;nulls=stripped; charset=utf-8".toList)]

/-- A helper for a content type, anywhere in the expression. -/
def contentType? (s : Text) : Option HeaderMatcher :=
  (contentTypes.find? fun (helper, _) => (keyword? helper s).isSome).map
    fun (_, value) => .exact contentType value

/-- The readers of the forms, in the order in which they are tried. -/
def readers : List (Text → Option HeaderMatcher) :=
  [exactPair?, absentContentType?, absentNamed?, contentType?]

/-- The matcher that a text, white space around it aside, is written as. -/
def parse? (s : Text) : Option HeaderMatcher := readers.findSome? (· (trim s))

end HeaderMatcher

/-- Matchers sorted by kind. -/
structure HeaderMatchers where
  exact : List Header
  absent : List Text
  contain : List Header
  deriving DecidableEq, Repr

namespace HeaderMatchers

/-- The matchers of a list, each kind in the order of the list. -/
def ofList (ms : List HeaderMatcher) : HeaderMatchers where
  exact := ms.filterMap fun
    | .exact name value => some ⟨name, value⟩
    | _ => none
  absent := ms.filterMap fun
    | .absent name => some name
    | _ => none
  contain := ms.filterMap fun
    | .contain name value => some ⟨name, value⟩
    | _ => none

/-- The matchers of a list, brackets around it or not. -/
def parse? (s : Text) : Option HeaderMatchers := do
  let inner ←
    match trim s with
    | '[' :: rest => before? [']'] rest
    | s => some s
  return ofList (← (topLevel ',' inner).mapM HeaderMatcher.parse?)

end HeaderMatchers

end SpecHarvest
