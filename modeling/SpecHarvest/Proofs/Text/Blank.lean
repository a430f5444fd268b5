import Mathlib.Data.List.TakeWhile
import SpecHarvest.Text.Basic

/-!
# White space at the ends of texts

What `trimStart` and `trimEnd` leave of texts put together, and where they leave a text alone.
-/

namespace SpecHarvest.Text

theorem not_mem_of_all {p : Char → Bool} {c : Char} {s : Text} (hs : s.all p = true)
    (hc : p c = false) : c ∉ s := by
  intro hm
  rw [List.all_eq_true.1 hs c hm] at hc
  cases hc

theorem allBlank_takeWhile (s : Text) : allBlank (s.takeWhile isBlank) = true :=
  List.all_takeWhile

theorem takeWhile_append_trimStart (s : Text) : s.takeWhile isBlank ++ trimStart s = s :=
  List.takeWhile_append_dropWhile

theorem allBlank_trimStart (s : Text) : allBlank (trimStart s) = allBlank s := by
  have h : allBlank (s.takeWhile isBlank ++ trimStart s) = allBlank (trimStart s) := by
    rw [allBlank, List.all_append, ← allBlank, allBlank_takeWhile, Bool.true_and, ← allBlank]
  rw [← h, takeWhile_append_trimStart]

theorem trimStart_cons_of_not_blank {c : Char} (h : isBlank c = false) (s : Text) :
    trimStart (c :: s) = c :: s :=
  List.dropWhile_cons_of_neg (by simp [h])

theorem trimStart_eq_nil_iff {s : Text} : trimStart s = [] ↔ allBlank s = true := by
  rw [trimStart, List.dropWhile_eq_nil_iff, allBlank, List.all_eq_true]

theorem isBlank_of_trimStart_eq_cons {s r : Text} {c : Char} (h : trimStart s = c :: r) :
    isBlank c = false := by
  have hd := List.head?_dropWhile_not isBlank s
  rw [← trimStart, h] at hd
  simpa using hd

theorem trimStart_trimStart (s : Text) : trimStart (trimStart s) = trimStart s := by
  cases hs : trimStart s with
  | nil => rfl
  | cons c r => exact trimStart_cons_of_not_blank (isBlank_of_trimStart_eq_cons hs) r

theorem trimStart_append (x y : Text) :
    trimStart (x ++ y) = if trimStart x = [] then trimStart y else trimStart x ++ y := by
  by_cases h : x.dropWhile isBlank = [] <;> simp [trimStart, List.dropWhile_append, h]

theorem trimStart_append_of_allBlank {x : Text} (h : allBlank x = true) (y : Text) :
    trimStart (x ++ y) = trimStart y := by
  rw [trimStart_append, if_pos (trimStart_eq_nil_iff.2 h)]

theorem trimStart_append_cons {c : Char} (h : isBlank c = false) (x y : Text) :
    trimStart (x ++ c :: y) = trimStart x ++ c :: y := by
  rw [trimStart_append, trimStart_cons_of_not_blank h]
  split
  · next hx => rw [hx, List.nil_append]
  · rfl

theorem trimEnd_append_singleton {c : Char} (h : isBlank c = false) (s : Text) :
    trimEnd (s ++ [c]) = s ++ [c] := by
  rw [trimEnd, List.reverse_append, List.reverse_singleton, List.singleton_append,
    List.dropWhile_cons_of_neg (by simp [h])]
  simp

theorem trimEnd_append (x y : Text) :
    trimEnd (x ++ y) = if trimEnd y = [] then trimEnd x else x ++ trimEnd y := by
  rw [trimEnd, List.reverse_append, List.dropWhile_append]
  by_cases h : y.reverse.dropWhile isBlank = [] <;> simp [trimEnd, h]

theorem trimEnd_eq_nil_iff {s : Text} : trimEnd s = [] ↔ allBlank s = true := by
  rw [trimEnd, List.reverse_eq_nil_iff, List.dropWhile_eq_nil_iff, allBlank, List.all_eq_true]
  simp only [List.mem_reverse]

theorem trimEnd_append_of_allBlank (x : Text) {y : Text} (h : allBlank y = true) :
    trimEnd (x ++ y) = trimEnd x := by
  rw [trimEnd_append, if_pos (trimEnd_eq_nil_iff.2 h)]

/-- What stands at the end of a text is white space. -/
theorem exists_trimEnd_append (s : Text) : ∃ w, s = trimEnd s ++ w ∧ allBlank w = true := by
  refine ⟨(s.reverse.takeWhile isBlank).reverse, ?_, ?_⟩
  · rw [trimEnd, ← List.reverse_append, List.takeWhile_append_dropWhile, List.reverse_reverse]
  · rw [allBlank, List.all_reverse]
    exact List.all_takeWhile

theorem trimEnd_append_of_forall {x : Text} (h : ∀ c ∈ x, isBlank c = false) (y : Text) :
    trimEnd (x ++ y) = x ++ trimEnd y := by
  have hdrop : x.reverse.dropWhile isBlank = x.reverse := by
    cases hx : x.reverse with
    | nil => rfl
    | cons c t =>
      have hc : c ∈ x := List.mem_reverse.1 (hx ▸ List.mem_cons_self)
      exact List.dropWhile_cons_of_neg (by simp [h c hc])
  rw [trimEnd, List.reverse_append, List.dropWhile_append, hdrop]
  split
  · next hy =>
    rw [trimEnd, List.isEmpty_iff.1 hy]
    simp
  · rw [List.reverse_append, List.reverse_reverse, trimEnd]

theorem trimEnd_trimEnd (s : Text) : trimEnd (trimEnd s) = trimEnd s := by
  obtain ⟨w, hs, hw⟩ := exists_trimEnd_append s
  have h := trimEnd_append (trimEnd s) w
  rw [← hs, if_pos (trimEnd_eq_nil_iff.2 hw)] at h
  exact h.symm

theorem trimStart_trim (s : Text) : trimStart (trim s) = trim s := by
  rw [trim]
  cases hs : trimStart s with
  | nil => rfl
  | cons c t =>
    have hc := isBlank_of_trimStart_eq_cons hs
    rw [show c :: t = [c] ++ t from rfl, trimEnd_append_of_forall (by simpa using hc)]
    exact trimStart_cons_of_not_blank hc _

theorem trim_trimEnd (s : Text) : trim (trimEnd s) = trim s := by
  have hs := takeWhile_append_trimStart s
  by_cases ht : trimEnd (trimStart s) = []
  · have hall : allBlank s = true := by rw [← allBlank_trimStart, trimEnd_eq_nil_iff.1 ht]
    rw [trimEnd_eq_nil_iff.2 hall, trim, trim, ht]
    rfl
  · have hsplit : trimEnd s = s.takeWhile isBlank ++ trim s := by
      have h := trimEnd_append (s.takeWhile isBlank) (trimStart s)
      rwa [hs, if_neg ht] at h
    rw [hsplit, trim, trimStart_append_of_allBlank (allBlank_takeWhile s), trimStart_trim, trim,
      trimEnd_trimEnd]

theorem trim_append_of_allBlank {x : Text} (h : allBlank x = true) (y : Text) :
    trim (x ++ y) = trim y := by
  rw [trim, trim, trimStart_append_of_allBlank h]

theorem trim_eq_nil_iff {s : Text} : trim s = [] ↔ allBlank s = true := by
  rw [trim, trimEnd_eq_nil_iff, allBlank_trimStart]

theorem trim_trim (s : Text) : trim (trim s) = trim s := by
  have h : trim (trim s) = trimEnd (trim s) := congrArg trimEnd (trimStart_trim s)
  rw [h, trim, trimEnd_trimEnd]

theorem trim_of_forall {s : Text} (h : ∀ c ∈ s, isBlank c = false) : trim s = s := by
  have hdrop : ∀ s : Text, (∀ c ∈ s, isBlank c = false) → s.dropWhile isBlank = s := by
    intro s h
    cases s with
    | nil => rfl
    | cons c s => exact List.dropWhile_cons_of_neg (by simp [h c List.mem_cons_self])
  rw [trim, trimStart, hdrop s h, trimEnd, hdrop s.reverse fun c hc => h c (List.mem_reverse.1 hc),
    List.reverse_reverse]

/-- A text between two characters that are not white space is left alone. -/
theorem trim_cons_append_singleton {c d : Char} (hc : isBlank c = false) (hd : isBlank d = false)
    (s : Text) : trim (c :: (s ++ [d])) = c :: (s ++ [d]) := by
  rw [trim, trimStart_cons_of_not_blank hc, ← List.cons_append, trimEnd_append_singleton hd]

theorem trim_cons_of_isBlank {c : Char} (h : isBlank c = true) (s : Text) :
    trim (c :: s) = trim s := by
  rw [trim, trim, trimStart, trimStart, List.dropWhile_cons_of_pos h]

theorem trim_append_singleton_of_isBlank {c : Char} (h : isBlank c = true) (s : Text) :
    trim (s ++ [c]) = trim s := by
  have hc : trimStart [c] = [] := List.dropWhile_cons_of_pos h
  rw [trim, trim, trimStart_append]
  split
  · next hs => rw [hc, hs]
  · rw [trimEnd, List.reverse_append, List.reverse_singleton, List.singleton_append,
      List.dropWhile_cons_of_pos h, trimEnd]

end SpecHarvest.Text
