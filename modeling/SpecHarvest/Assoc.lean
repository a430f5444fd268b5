/-!
# Association lists in order of first insertion

A key that is set again keeps its place and takes the new value. Objects of documents, `let`
bindings and configuration maps are such lists.
-/

namespace SpecHarvest.Assoc

variable {κ α : Type} [DecidableEq κ]

/-- The value of a key. -/
def get? (k : κ) : List (κ × α) → Option α
  | [] => none
  | (l, v) :: m => if l = k then some v else get? k m

/-- The list with a key set: in its old place, or else at the end. -/
def set (k : κ) (v : α) : List (κ × α) → List (κ × α)
  | [] => [(k, v)]
  | (l, w) :: m => if l = k then (l, v) :: m else (l, w) :: set k v m

/-- The list without a key. -/
def erase (k : κ) (m : List (κ × α)) : List (κ × α) := m.filter fun e => e.1 ≠ k

/-- The list that results from setting pairs one after the other. -/
def ofList (pairs : List (κ × α)) : List (κ × α) := pairs.foldl (fun m e => set e.1 e.2 m) []

/-- Setting a key decides its value and no other. -/
theorem get?_set (k j : κ) (v : α) (m : List (κ × α)) :
    get? j (set k v m) = if k = j then some v else get? j m := by
  induction m with
  | nil => simp [set, get?]
  | cons e m ih =>
    obtain ⟨l, w⟩ := e
    by_cases hl : l = k <;> by_cases hj : k = j <;> by_cases hlj : l = j <;>
      simp_all [set, get?]

/-- A key that has a value is one of the list. -/
theorem length_erase_lt {k : κ} {v : α} {m : List (κ × α)} (h : get? k m = some v) :
    (erase k m).length < m.length := by
  induction m with
  | nil => simp [get?] at h
  | cons e m ih =>
    obtain ⟨l, w⟩ := e
    by_cases hl : l = k
    · have := List.length_filter_le (fun e : κ × α => e.1 ≠ k) m
      simp only [erase, List.filter_cons, hl, ne_eq, not_true_eq_false, decide_false,
        Bool.false_eq_true, if_false, List.length_cons]
      simp only [ne_eq] at this
      omega
    · simp only [get?, hl, if_false] at h
      have := ih h
      simp only [erase, List.filter_cons, ne_eq, hl, not_false_eq_true, decide_true, if_true,
        List.length_cons] at this ⊢
      omega

end SpecHarvest.Assoc
