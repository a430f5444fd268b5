import SpecHarvest.Assertion
import SpecHarvest.Http.Method

/-!
# Methods that read

`readOnly_eq_false_iff`: a word of the test language names a method that writes if it is one of the
constants of `writeMethods`, or if its upper case is the name of such a method.
-/

namespace SpecHarvest.Http.Method

open Text

/-- Whether requests with a method change nothing. -/
def readOnly : Method → Bool
  | get | head | options => true
  | post | put | patch | delete => false

/-- The names of the methods that write. -/
def writeNames : List Text := (all.filter (!·.readOnly)).map name

theorem name_injective : ∀ m m' : Method, m.name = m'.name → m = m' := by
  intro m m'
  cases m <;> cases m' <;> decide

theorem readOnly_eq_false_iff_name (m : Method) : m.readOnly = false ↔ m.name ∈ writeNames := by
  cases m <;> decide

/-- The words with a meaning of their own are no exception. -/
theorem readOnly_of_mem_aliases : ∀ p ∈ aliases,
    (p.2.readOnly = false ↔ p.1 ∈ writeMethods ∨ upper p.1 ∈ writeNames) := by
  decide +kernel

/-- Words with a meaning of their own are identifiers. -/
theorem all_isIdentChar_of_mem_aliases {w : Text} {m : Method} (h : (w, m) ∈ aliases) :
    w ≠ [] ∧ w.all isIdentChar = true := by
  have hall : ∀ x ∈ aliases, x.1 ≠ [] ∧ x.1.all isIdentChar = true := by decide +kernel
  exact hall (w, m) h

theorem ofName?_of_mem_aliases {w : Text} {m : Method} (h : (w, m) ∈ aliases) :
    ofName? (nameOf w) = some m := by
  have hall : ∀ x ∈ aliases, ofName? (nameOf x.1) = some x.2 := by decide +kernel
  exact hall (w, m) h

theorem lookup_aliases_of_mem_writeMethods : ∀ w ∈ writeMethods, aliases.lookup w ≠ none := by
  decide +kernel

/-- **The words that name a method that writes.** -/
theorem readOnly_eq_false_iff {word : Text} {m : Method} (h : ofName? (nameOf word) = some m) :
    m.readOnly = false ↔ word ∈ writeMethods ∨ upper word ∈ writeNames := by
  have hm : m.name = nameOf word := by simpa using List.find?_some h
  unfold nameOf at hm
  cases hl : aliases.lookup word with
  | some a =>
    rw [hl] at hm
    obtain rfl := name_injective m a hm
    obtain ⟨l, l', hal, -⟩ := List.lookup_eq_some_iff.1 hl
    exact readOnly_of_mem_aliases (word, m) (by rw [hal]; simp)
  | none =>
    rw [hl] at hm
    have hw : word ∉ writeMethods := fun hw => lookup_aliases_of_mem_writeMethods word hw hl
    rw [readOnly_eq_false_iff_name, hm]
    simp [hw]

end SpecHarvest.Http.Method
