import SpecHarvest.Proofs.Source.Comment
import SpecHarvest.Proofs.Text.Occurrence
import SpecHarvest.Text.WordChar

/-!
# Comments at the ends of lines

A comment put after a line whose end lies in code leaves the line without its comment as it was, or
with a space more.

* `trailing`: what is put after a line.
* `Closed`: texts in which no comment starts.
* `regionAfter`: the region at the end of lines that are read one after the other.
* `trails` for one line, `stripLines_modify` for a line among others.
-/

namespace SpecHarvest.Source

open Text

/-! ## Lines and texts -/

theorem lines_append_cons {l : Text} (hl : '\n' ∉ l) (s : Text) :
    lines (l ++ '\n' :: s) = l :: lines s := by
  rw [lines_append hl]
  simp [lines, pieces]

theorem unlines_cons_cons (l k : Text) (ls : List Text) :
    unlines (l :: k :: ls) = l ++ '\n' :: unlines (k :: ls) := by
  simp [unlines, List.intercalate_cons_cons]

theorem unlines_cons {ls : List Text} (h : ls ≠ []) (l : Text) :
    unlines (l :: ls) = l ++ '\n' :: unlines ls := by
  obtain ⟨k, ls, rfl⟩ := List.exists_cons_of_ne_nil h
  exact unlines_cons_cons l k ls

theorem unlines_singleton (l : Text) : unlines [l] = l := by simp [unlines]

theorem lines_unlines {ls : List Text} (hne : ls ≠ []) (h : ∀ l ∈ ls, '\n' ∉ l) :
    lines (unlines ls) = ls := by
  induction ls with
  | nil => exact absurd rfl hne
  | cons l ls ih =>
    have hl := h l List.mem_cons_self
    cases ls with
    | nil =>
      rw [unlines_singleton, lines_of_not_mem hl]
    | cons k ls =>
      rw [unlines_cons_cons, lines_append_cons hl,
        ih (List.cons_ne_nil k ls) fun m hm => h m (List.mem_cons_of_mem _ hm)]

theorem unlines_lines (s : Text) : unlines (lines s) = s := by
  induction s with
  | nil => rfl
  | cons c s ih =>
    cases hs : lines s with
    | nil =>
      rw [hs] at ih
      subst ih
      cases hs
    | cons l ls =>
      rw [hs] at ih
      by_cases hc : c = '\n'
      · have hcons : lines (c :: s) = [] :: l :: ls := by
          rw [← hs]
          simp [lines, pieces, hc]
        rw [hcons, unlines_cons_cons, ih, hc]
        rfl
      · have hcons : lines (c :: s) = (c :: l) :: ls := by
          have : lines (c :: s) = (lines s).modifyHead (c :: ·) := by simp [lines, pieces, hc]
          rw [this, hs]
          rfl
        rw [hcons, ← ih]
        cases ls with
        | nil => rw [unlines_singleton, unlines_singleton]
        | cons k ls =>
          rw [unlines_cons_cons, unlines_cons_cons]
          rfl

theorem lines_ne_nil (s : Text) : lines s ≠ [] := by
  intro h
  have := unlines_lines s
  rw [h] at this
  subst this
  cases h

/-! ## One line -/

/-- A comment after a line. -/
def trailing (c : Text) : Text := " -- ".toList ++ c

theorem trailing_eq (c : Text) : trailing c = ' ' :: '-' :: '-' :: ' ' :: c := rfl

theorem stripFrom_quasi_cons {c : Char} {s : Text} (h : ∀ t, c = '|' → s = ']' :: t → False) :
    stripFrom .quasi (c :: s) = (c :: (stripFrom .quasi s).1, (stripFrom .quasi s).2) := by
  rw [stripFrom]
  exact h

theorem stripFrom_literal_cons {c : Char} {s : Text} (h : ∀ d t, c = '\\' → s = d :: t → False) :
    stripFrom .literal (c :: s) = (c :: (stripFrom (if c = '"' then .code else .literal) s).1,
      (stripFrom (if c = '"' then .code else .literal) s).2) := by
  rw [stripFrom]
  exact h

theorem stripFrom_isPrefix (r : Region) (s : Text) : (stripFrom r s).1 <+: s := by
  induction r, s using stripFrom.induct with
  | case1 r => exact List.prefix_rfl
  | case2 s _ _ _ ih => simpa [stripFrom, List.cons_prefix_cons] using ih
  | case3 d s hd _ _ _ ih => simpa [stripFrom_quasi_cons hd, List.cons_prefix_cons] using ih
  | case4 d s _ _ _ ih => simpa [stripFrom, List.cons_prefix_cons] using ih
  | case5 d s hd _ _ _ ih => simpa [stripFrom_literal_cons hd, List.cons_prefix_cons] using ih
  | case6 s => exact List.nil_prefix
  | case7 s _ _ _ ih => simpa [stripFrom, List.cons_prefix_cons] using ih
  | case8 d s hm hq _ _ _ ih =>
    rw [stripFrom]
    · exact List.cons_prefix_cons.2 ⟨rfl, ih⟩
    · exact hm
    · exact hq

/-- What starts a comment, and what starts a quasi-literal. -/
def OpensHere (s : Text) : Prop :=
  startsWith "--".toList s = true ∨ startsWith quasiOpen s = true

theorem stripFrom_code_cons_of_not_opens {c : Char} {s : Text} (h : ¬OpensHere (c :: s)) :
    stripFrom .code (c :: s) = (c :: (stripFrom (if c = '"' then .literal else .code) s).1,
      (stripFrom (if c = '"' then .literal else .code) s).2) := by
  simp only [OpensHere, startsWith_iff, not_or, not_exists] at h
  rw [stripFrom]
  · rintro t rfl rfl
    exact h.1 t rfl
  · rintro t rfl rfl
    exact h.2 t rfl

theorem not_opensHere {c : Char} {s : Text} (hm : ∀ t, c = '-' → s = '-' :: t → False)
    (hq : ∀ t, c = '[' → s = 'j' :: 's' :: 'o' :: 'n' :: '|' :: t → False) :
    ¬OpensHere (c :: s) := by
  simp only [OpensHere, startsWith_iff, not_or, not_exists]
  refine ⟨fun t ht => ?_, fun t ht => ?_⟩
  · obtain ⟨rfl, rfl⟩ := List.cons.inj ht
    exact hm t rfl rfl
  · obtain ⟨rfl, rfl⟩ := List.cons.inj ht
    exact hq t rfl rfl

theorem opensHere_append {s t : Text} : OpensHere (s ++ ' ' :: t) ↔ OpensHere s := by
  unfold OpensHere
  rw [startsWith_append (by decide), startsWith_append (by decide)]

/-- What a comment does to a line that is read in a region and ends in code: the line holds one
already, or a space comes to it. -/
def Trails (r : Region) (s c : Text) : Prop :=
  (stripFrom r s).2 = .code → stripFrom r (s ++ trailing c) = stripFrom r s ∨
    (stripFrom r s).1 = s ∧ stripFrom r (s ++ trailing c) = (s ++ [' '], .code)

/-- What is kept before a place does not count. -/
theorem Trails.append_left {r r' : Region} {x s c : Text}
    (hs : stripFrom r (x ++ s) = (x ++ (stripFrom r' s).1, (stripFrom r' s).2))
    (ht : stripFrom r (x ++ (s ++ trailing c)) =
      (x ++ (stripFrom r' (s ++ trailing c)).1, (stripFrom r' (s ++ trailing c)).2))
    (h : Trails r' s c) : Trails r (x ++ s) c := by
  intro hc
  rw [hs] at hc
  rw [List.append_assoc, hs, ht]
  rcases h hc with he | ⟨hk, he⟩
  · left
    rw [he]
  · right
    rw [hk, he, List.append_assoc]
    exact ⟨rfl, rfl⟩

/-- **A comment after a line.** -/
theorem trails (r : Region) (s c : Text) : Trails r s c := by
  induction r, s using stripFrom.induct with
  | case1 r =>
    intro h
    obtain rfl : r = .code := h
    exact .inr ⟨rfl, rfl⟩
  | case2 s _ _ _ ih => exact .append_left (x := ['|', ']']) rfl rfl ih
  | case3 d s hd _ _ _ ih =>
    have hne : ∀ t, d = '|' → s ++ trailing c = ']' :: t → False := by
      intro t hdt hst
      cases s with
      | nil => cases hst
      | cons e s =>
        obtain ⟨rfl, -⟩ := List.cons.inj hst
        exact hd s hdt rfl
    exact .append_left (x := [d]) (stripFrom_quasi_cons hd) (stripFrom_quasi_cons hne) ih
  | case4 d s _ _ _ ih => exact .append_left (x := ['\\', d]) rfl rfl ih
  | case5 d s hd _ _ _ ih =>
    by_cases hend : d = '\\' ∧ s = []
    · -- the line ends after a backslash, so in a literal
      obtain ⟨rfl, rfl⟩ := hend
      intro h
      cases h
    · have hne : ∀ e t, d = '\\' → s ++ trailing c = e :: t → False := by
        intro e t hdt _
        cases s with
        | nil => exact hend ⟨hdt, rfl⟩
        | cons e s => exact hd e s hdt rfl
      exact .append_left (x := [d]) (stripFrom_literal_cons hd) (stripFrom_literal_cons hne) ih
  | case6 s => exact fun _ => .inl rfl
  | case7 s _ _ _ ih => exact .append_left (x := ['[', 'j', 's', 'o', 'n', '|']) rfl rfl ih
  | case8 d s hm hq _ _ _ ih =>
    have hopens := not_opensHere hm hq
    have hopens' : ¬OpensHere (d :: (s ++ trailing c)) := by
      rwa [← List.cons_append, trailing_eq, opensHere_append]
    exact .append_left (x := [d]) (stripFrom_code_cons_of_not_opens hopens)
      (stripFrom_code_cons_of_not_opens hopens') ih

/-- A comment after a line that ends in code is not kept. -/
theorem kept_append_trailing_ne {s c : Text} (h : (stripFrom .code s).2 = .code) :
    (stripFrom .code (s ++ trailing c)).1 ≠ s ++ trailing c := by
  intro hkept
  have hlen := congrArg List.length hkept
  rcases trails .code s c h with he | ⟨-, he⟩
  · have hle := (stripFrom_isPrefix .code s).length_le
    rw [he, List.length_append, trailing_eq] at hlen
    simp only [List.length_cons] at hlen
    omega
  · rw [he, List.length_append, List.length_append, trailing_eq] at hlen
    simp only [List.length_cons, List.length_nil] at hlen
    omega

/-! ## Texts without comments -/

/-- Plain characters and string literals. -/
inductive Closed : Text → Prop
  | nil : Closed []
  | plain {c : Char} {s : Text} : IsPlain c → Closed s → Closed (c :: s)
  | quoted {raw s : Text} : Raw raw → Closed s → Closed ('"' :: (raw ++ '"' :: s))

namespace Closed

variable {s t : Text}

/-- **No comment starts** among plain characters and literals. -/
theorem kept (h : Closed s) : (stripFrom .code s).1 = s := by
  induction h with
  | nil => rfl
  | plain hc _ ih => rw [stripFrom_code_cons hc, ih]
  | quoted hraw _ ih =>
    rw [← List.nil_append ('"' :: _), stripFrom_code_quoted (by simp) (hraw.quoted? _), ih]

theorem append (h : Closed s) (ht : Closed t) : Closed (s ++ t) := by
  induction h with
  | nil => exact ht
  | plain hc _ ih => exact .plain hc ih
  | quoted hraw _ ih => simpa using .quoted hraw ih

theorem of_plain (h : ∀ c ∈ s, IsPlain c) : Closed s := by
  induction s with
  | nil => exact .nil
  | cons c s ih =>
    exact .plain (h c List.mem_cons_self) (ih fun d hd => h d (List.mem_cons_of_mem _ hd))

theorem of_allBlank (h : allBlank s = true) : Closed s :=
  .of_plain (isPlain_of_allBlank h)

theorem of_all_isIdentChar (h : s.all isIdentChar = true) : Closed s :=
  .of_plain fun c hc => isPlain_of_isIdentChar (List.all_eq_true.1 h c hc)

theorem of_trimStart (h : Closed (trimStart s)) : Closed s := by
  rw [← takeWhile_append_trimStart s]
  exact .append (.of_allBlank (allBlank_takeWhile s)) h

theorem of_trim (h : Closed (trim s)) : Closed s := by
  obtain ⟨g, hg, hblank⟩ := exists_trimEnd_append (trimStart s)
  refine .of_trimStart ?_
  rw [hg]
  exact h.append (.of_allBlank hblank)

end Closed

/-! ## A line among others -/

/-- The region at the end of lines that are read one after the other, the first of them inside a
quasi-literal or in code. -/
def regionAfter : (inQuasi : Bool) → List Text → Region
  | q, [] => if q then .quasi else .code
  | q, [line] => (stripFrom (if q then .quasi else .code) line).2
  | q, line :: lines => regionAfter (stripLine q line).2 lines

theorem length_stripLines (q : Bool) (ls : List Text) : (stripLines q ls).length = ls.length := by
  induction ls generalizing q with
  | nil => rfl
  | cons l ls ih => rw [stripLines, List.length_cons, List.length_cons, ih]

theorem not_mem_of_mem_stripLines {q : Bool} {ls : List Text} (h : ∀ l ∈ ls, '\n' ∉ l) :
    ∀ l ∈ stripLines q ls, '\n' ∉ l := by
  induction ls generalizing q with
  | nil => simp [stripLines]
  | cons l ls ih =>
    intro m hm
    rcases List.mem_cons.1 hm with rfl | hm
    · exact fun hn => h l List.mem_cons_self ((stripFrom_isPrefix _ l).subset hn)
    · exact ih (fun k hk => h k (List.mem_cons_of_mem _ hk)) m hm

/-- **A comment after one of some lines** whose end lies in code. -/
theorem stripLines_modify {q : Bool} {ls : List Text} {k : Nat} (hk : k < ls.length)
    (h : regionAfter q (ls.take (k + 1)) = .code) (c : Text) :
    stripLines q (ls.modify k (· ++ trailing c)) = stripLines q ls ∨
      (stripLines q ls)[k]? = ls[k]? ∧
        stripLines q (ls.modify k (· ++ trailing c)) =
          (stripLines q ls).modify k (· ++ [' ']) := by
  induction ls generalizing q k with
  | nil => cases hk
  | cons l ls ih =>
    cases k with
    | zero =>
      simp only [Nat.zero_add, List.take_succ_cons, List.take_zero, regionAfter] at h
      rw [List.modify_zero_cons, stripLines, stripLines]
      rcases trails _ l c h with he | ⟨hkept, he⟩
      · left
        simp only [stripLine, he]
      · right
        simp only [stripLine, he, hkept, h]
        simp
    | succ k =>
      have hk' : k < ls.length := by simpa using hk
      have hne : ls.take (k + 1) ≠ [] := by
        intro hn
        have := congrArg List.length hn
        rw [List.length_take, List.length_nil] at this
        omega
      obtain ⟨m, ms, hm⟩ := List.exists_cons_of_ne_nil hne
      rw [List.take_succ_cons, hm, regionAfter, ← hm] at h
      · rw [List.modify_succ_cons, stripLines, stripLines]
        rcases ih hk' h with he | ⟨hkept, he⟩
        · left
          rw [he]
        · right
          rw [he]
          exact ⟨by simpa using hkept, by simp⟩
      · exact List.cons_ne_nil m ms

end SpecHarvest.Source
