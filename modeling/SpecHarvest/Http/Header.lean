import SpecHarvest.Text.LetterCase

/-!
# HTTP headers

Headers are kept as a list, in which a name may be repeated. Names are compared without regard to
the case of ASCII letters (`valueOf?`).
-/

namespace SpecHarvest.Http

/-- A header. -/
structure Header where
  name : Text
  value : Text
  deriving DecidableEq, Repr

/-- The header with a name and a value of fixed text. -/
def Header.of (name value : String) : Header := ⟨name.toList, value.toList⟩

/-- The value of the first header with a name. -/
def valueOf? (name : Text) (headers : List Header) : Option Text :=
  (headers.find? fun h => Text.sameIgnoringCase h.name name).map (·.value)

end SpecHarvest.Http
