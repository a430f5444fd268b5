import SpecHarvest.Proofs.Source.Literal
import SpecHarvest.Proofs.Text.Collapse
import SpecHarvest.Source.Comment

/-!
# Texts without their comments

* `stripFrom_literal`: a string literal is kept as it is, whatever it holds.
* `exists_stripComments_append`: the first line of a text is stripped on its own, and what the other
  lines leave stands behind it.
-/

namespace SpecHarvest.Source

open Text

/-! ## Literals -/

attribute [local simp] stripFrom

/-- **A literal is kept whole**, hyphens and brackets in it included. -/
theorem stripFrom_literal {s raw rest : Text} (h : closeQuote? s = some (raw, rest)) :
    (stripFrom .literal s).1 = raw ++ '"' :: (stripFrom .code rest).1 := by
  fun_induction closeQuote? s generalizing raw with
  | case1 => simp at h
  | case2 c s ih =>
    obtain ⟨⟨r, t⟩, hr, he⟩ := Option.map_eq_some_iff.1 h
    obtain ⟨rfl, rfl⟩ := Prod.mk.inj he
    simp [ih hr]
  | case3 =>
    obtain ⟨rfl, rfl⟩ := Prod.mk.inj (Option.some.inj h)
    simp
  | case4 c s _ hc ih =>
    obtain ⟨⟨r, t⟩, hr, he⟩ := Option.map_eq_some_iff.1 h
    obtain ⟨rfl, rfl⟩ := Prod.mk.inj he
    simp [hc, ih hr]

/-- A character that starts no comment and no literal. -/
def IsPlain (c : Char) : Prop := c ≠ '"' ∧ c ≠ '-' ∧ c ≠ '['

theorem isPlain_of_isBlank {c : Char} (h : isBlank c = true) : IsPlain c := by
  refine ⟨?_, ?_, ?_⟩ <;> rintro rfl <;> revert h <;> decide

theorem isPlain_of_allBlank {g : Text} (h : allBlank g = true) : ∀ c ∈ g, IsPlain c :=
  fun c hc => isPlain_of_isBlank (List.all_eq_true.1 h c hc)

theorem isPlain_of_isIdentChar {c : Char} (h : isIdentChar c = true) : IsPlain c := by
  refine ⟨?_, ?_, ?_⟩ <;> rintro rfl <;> cases h

theorem stripFrom_code_cons {c : Char} (h : IsPlain c) (s : Text) :
    (stripFrom .code (c :: s)).1 = c :: (stripFrom .code s).1 := by
  obtain ⟨hq, hm, hb⟩ := h
  simp [hq, hm, hb]

theorem stripFrom_code_append {x : Text} (h : ∀ c ∈ x, IsPlain c) (s : Text) :
    (stripFrom .code (x ++ s)).1 = x ++ (stripFrom .code s).1 := by
  induction x with
  | nil => rfl
  | cons c x ih =>
    rw [List.cons_append, stripFrom_code_cons (h c (by simp)),
      ih fun d hd => h d (by simp [hd]), List.cons_append]

theorem stripFrom_code_quoted {x s raw rest : Text} (h : ∀ c ∈ x, IsPlain c)
    (hq : quoted? s = some (raw, rest)) :
    (stripFrom .code (x ++ s)).1 = x ++ '"' :: (raw ++ '"' :: (stripFrom .code rest).1) := by
  obtain ⟨hraw, rfl⟩ := quoted?_eq_some_iff.1 hq
  simp [stripFrom_code_append h, stripFrom_literal (hraw.closeQuote? rest)]

/-! ## Lines -/

/-- What is nothing at all or starts with a line feed. -/
def StartsLine (s : Text) : Prop := s = [] ∨ ∃ t, s = '\n' :: t

theorem not_mem_of_mem_lines {s l : Text} (h : l ∈ lines s) : '\n' ∉ l := by
  intro hm
  simpa using eq_false_of_mem_pieces h _ hm

theorem lines_append {x y : Text} (hx : '\n' ∉ x) :
    lines (x ++ y) = (lines y).modifyHead (x ++ ·) := by
  induction x with
  | nil => cases h : lines y <;> simp [h]
  | cons c x ih =>
    simp only [List.mem_cons, not_or] at hx
    have hc : (c == '\n') = false := by simpa using Ne.symm hx.1
    rw [List.cons_append, lines, pieces, if_neg (by simp [hc]), ← lines, ih hx.2,
      List.modifyHead_modifyHead]
    rfl

theorem lines_of_not_mem {l : Text} (h : '\n' ∉ l) : lines l = [l] := by
  have hl := lines_append (y := []) h
  rw [List.append_nil] at hl
  rw [hl]
  simp [lines, pieces]

theorem exists_lines_append {x y : Text} (hx : '\n' ∉ x) (hy : StartsLine y) :
    ∃ ls, lines (x ++ y) = x :: ls := by
  rcases hy with rfl | ⟨t, rfl⟩
  · exact ⟨[], by rw [lines_append hx]; simp [lines, pieces]⟩
  · exact ⟨lines t, by rw [lines_append hx]; simp [lines, pieces]⟩

theorem exists_unlines_cons (l : Text) (ls : List Text) :
    ∃ y, unlines (l :: ls) = l ++ y ∧ StartsLine y := by
  cases ls with
  | nil => exact ⟨[], by simp [unlines], .inl rfl⟩
  | cons k ls =>
    exact ⟨'\n' :: unlines (k :: ls), by simp [unlines, List.intercalate_cons_cons], .inr ⟨_, rfl⟩⟩

/-- **The first line is stripped on its own.** -/
theorem exists_stripComments_append {x y : Text} (hx : '\n' ∉ x) (hy : StartsLine y) :
    ∃ more, stripComments (x ++ y) = (stripFrom .code x).1 ++ more := by
  obtain ⟨ls, hl⟩ := exists_lines_append hx hy
  obtain ⟨more, hm, -⟩ := exists_unlines_cons (stripLine false x).1
    (stripLines (stripLine false x).2 ls)
  refine ⟨more, ?_⟩
  rw [stripComments, hl, stripLines, hm]
  rfl

end SpecHarvest.Source
