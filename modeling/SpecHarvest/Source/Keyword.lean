import SpecHarvest.Text.Offset
import SpecHarvest.Text.WordChar

/-!
# Keywords

A keyword counts only where it is no part of a longer identifier.

* `keywordSearch` finds the first such place, `keywordAt?` the byte offset of it.
* `afterKeyword` lists what follows at each of the places.
-/

namespace SpecHarvest.Source

open Text

/-- Whether the character before a place, if there is one, is no part of an identifier. -/
def startsHere : Option Char → Bool
  | none => true
  | some c => !isIdentChar c

/-- The text after `word` at the front, when no identifier goes on before or after it. -/
def keywordHere? (word : Text) (before : Option Char) (s : Text) : Option Text :=
  match after? word s with
  | some rest => if startsHere before && endsHere isIdentChar rest then some rest else none
  | none => none

/-- The texts before and after the first place where `word` stands alone. The search goes on one
byte after a place that is part of an identifier, so it ends there if that is inside a
character. -/
def keywordSearch (word : Text) : (before : Option Char) → Text → Option (Text × Text)
  | before, [] => (keywordHere? word before []).map fun rest => ([], rest)
  | before, c :: s =>
    match keywordHere? word before (c :: s) with
    | some rest => some ([], rest)
    | none =>
      if startsWith word (c :: s) && c.utf8Size != 1 then none
      else (keywordSearch word (some c) s).map fun (front, rest) => (c :: front, rest)

/-- The text after the first place where `word` stands alone. -/
def keyword? (word s : Text) : Option Text := (keywordSearch word none s).map (·.2)

/-- The byte offset of the first place, from an offset on, where `word` stands alone. -/
def keywordAt? (word : Text) (start : Nat) (s : Text) : Option Nat :=
  (cutAt? start s).bind fun (front, rest) =>
    (keywordSearch word front.getLast? rest).map fun (skipped, _) => start + width skipped

/-- What follows `word` at each place where it stands alone. -/
def afterKeyword (word : Text) : (before : Option Char) → Text → List Text
  | before, [] => (keywordHere? word before []).toList
  | before, c :: s => (keywordHere? word before (c :: s)).toList ++ afterKeyword word (some c) s

end SpecHarvest.Source
