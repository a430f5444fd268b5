import SpecHarvest.Document

/-!
# Statistics of a run

`Stats` counts the spec files of a run and what was extracted from them; `Stats.record` adds a file.
-/

namespace SpecHarvest

open Json (Value)

/-- The counts of one file. -/
structure FileStats where
  name : Text
  tests : Nat
  flagged : Nat
  deriving DecidableEq, Repr

/-- The counts of a run. -/
structure Stats where
  totalFiles : Nat
  totalTests : Nat
  totalFlagged : Nat
  files : List FileStats
  deriving DecidableEq, Repr

namespace Stats

/-- The counts before the first file. -/
def empty : Stats := ⟨0, 0, 0, []⟩

/-- The counts with one more file. -/
def record (name : Text) (e : Extraction) (s : Stats) : Stats where
  totalFiles := s.totalFiles + 1
  totalTests := s.totalTests + e.tests.length
  totalFlagged := s.totalFlagged + e.flagged.length
  files := s.files ++ [⟨name, e.tests.length, e.flagged.length⟩]

/-- The JSON value of the counts. -/
def toJson (s : Stats) : Value := .record [
  ("totalFiles", .ofNat s.totalFiles),
  ("totalTests", .ofNat s.totalTests),
  ("totalFlagged", .ofNat s.totalFlagged),
  ("files", .array (s.files.map fun f => .record [
    ("name", .string f.name),
    ("tests", .ofNat f.tests),
    ("flagged", .ofNat f.flagged)]))]

end Stats

end SpecHarvest
