import Mathlib.Algebra.GroupWithZero.Nat
import Mathlib.Data.List.TakeWhile
import SpecHarvest.Assertion
import SpecHarvest.Proofs.Text.Occurrence

/-!
# The parts of a text that makes several requests

`assertionSpans` cuts a text at the lines that make a request.

* `preamble` is what stands before the first of these lines, which no part holds. With it the parts
  are the whole text (`preamble_append_spans`).
* Every part but the last ends a line (`linesEnd_assertionSpans`), and so does the preamble
  (`preamble_endsLine`), so no separator lies across two of them: the separators of the text are
  those of the preamble and of the parts (`occurrences_preamble_add_spans`).
* Of two or more parts each starts at a line that makes a request (`startsRequest_of_mem_spans`).
-/

namespace SpecHarvest

open Text

/-! ## Lines that make a request -/

/-- How many lines of a text make a request. -/
def requestLines (s : Text) : Nat := ((fullLines s).filter startsRequest).length

theorem startsRequest_iff {s : Text} :
    startsRequest s = true ↔ ∃ t ∈ requestStarts, ∃ r, trimStart s = t ++ r := by
  simp only [startsRequest, List.any_eq_true, startsWith_iff]

theorem trimStart_ne_nil_of_startsRequest {s : Text} (h : startsRequest s = true) :
    trimStart s ≠ [] := by
  obtain ⟨t, ht, r, hr⟩ := startsRequest_iff.1 h
  rw [hr]
  intro hn
  rw [(List.append_eq_nil_iff.1 hn).1] at ht
  revert ht
  decide

/-- What comes after a line does not take the request from it. -/
theorem startsRequest_append {s : Text} (h : startsRequest s = true) (y : Text) :
    startsRequest (s ++ y) = true := by
  obtain ⟨t, ht, r, hr⟩ := startsRequest_iff.1 h
  refine startsRequest_iff.2 ⟨t, ht, r ++ y, ?_⟩
  have hne := trimStart_ne_nil_of_startsRequest h
  rw [trimStart, List.dropWhile_append, if_neg (by simpa [trimStart] using hne), ← trimStart, hr,
    List.append_assoc]

/-! ## Lines with their line feeds -/

/-- A text that ends a line. -/
def EndsLine (s : Text) : Prop := s.getLast? = some '\n'

/-- Consecutive texts each of which ends a line, the last one aside. -/
def LinesEnd (ls : List Text) : Prop := ∀ l ∈ ls.dropLast, EndsLine l

theorem endsLine_of_append {x y : Text} (h : x ++ y = [] ∨ EndsLine (x ++ y)) :
    y = [] ∨ EndsLine y := by
  cases hy : y.getLast? with
  | none => exact .inl (List.getLast?_eq_none_iff.1 hy)
  | some d =>
    right
    rcases h with h | h
    · simp [(List.append_eq_nil_iff.1 h).2] at hy
    · rwa [EndsLine, List.getLast?_append, hy, Option.some_or, ← hy] at h

theorem exists_fullLines_eq_cons (s : Text) : ∃ l ls, fullLines s = l :: ls := by
  induction s with
  | nil => exact ⟨[], [], rfl⟩
  | cons c s ih =>
    obtain ⟨l, ls, h⟩ := ih
    by_cases hc : c = '\n'
    · exact ⟨['\n'], fullLines s, by simp [fullLines, hc]⟩
    · exact ⟨c :: l, ls, by simp [fullLines, hc, h]⟩

theorem flatten_fullLines (s : Text) : (fullLines s).flatten = s := by
  induction s with
  | nil => rfl
  | cons c s ih =>
    obtain ⟨l, ls, h⟩ := exists_fullLines_eq_cons s
    by_cases hc : c = '\n'
    · simp [fullLines, hc, ih]
    · rw [h, List.flatten_cons] at ih
      simp [fullLines, hc, h, ih]

theorem fullLines_append {x y : Text} (hx : '\n' ∉ x) :
    fullLines (x ++ y) = (fullLines y).modifyHead (x ++ ·) := by
  induction x with
  | nil => cases h : fullLines y <;> simp [h]
  | cons c x ih =>
    simp only [List.mem_cons, not_or] at hx
    rw [List.cons_append, fullLines, if_neg (Ne.symm hx.1), ih hx.2, List.modifyHead_modifyHead]
    rfl

theorem LinesEnd.cons {l : Text} {ls : List Text} (hl : EndsLine l) (h : LinesEnd ls) :
    LinesEnd (l :: ls) := by
  cases ls with
  | nil => simp [LinesEnd]
  | cons k ls =>
    intro x hx
    rw [List.dropLast_cons_cons, List.mem_cons] at hx
    rcases hx with rfl | hx
    · exact hl
    · exact h x hx

theorem LinesEnd.head {l : Text} {ls : List Text} (h : LinesEnd (l :: ls)) (hne : ls ≠ []) :
    EndsLine l :=
  h l (by simp [List.dropLast_cons_of_ne_nil hne])

theorem LinesEnd.tail {l : Text} {ls : List Text} (h : LinesEnd (l :: ls)) : LinesEnd ls := by
  cases ls with
  | nil => simp [LinesEnd]
  | cons k ls => exact fun x hx => h x (by simp [hx])

theorem LinesEnd.right {ls ms : List Text} (h : LinesEnd (ls ++ ms)) : LinesEnd ms := by
  induction ls with
  | nil => exact h
  | cons l ls ih => exact ih h.tail

theorem LinesEnd.left {ls ms : List Text} (h : LinesEnd (ls ++ ms)) (hne : ms ≠ []) :
    ∀ l ∈ ls, EndsLine l := by
  intro l hl
  exact h l (by rw [List.dropLast_append_of_ne_nil hne]; simp [hl])

theorem linesEnd_fullLines (s : Text) : LinesEnd (fullLines s) := by
  induction s with
  | nil => simp [fullLines, LinesEnd]
  | cons c s ih =>
    by_cases hc : c = '\n'
    · simp only [fullLines, hc, if_true]
      exact .cons rfl ih
    · obtain ⟨l, ls, h⟩ := exists_fullLines_eq_cons s
      simp only [fullLines, hc, if_false, h, List.modifyHead_cons]
      rw [h] at ih
      cases ls with
      | nil => simp [LinesEnd]
      | cons k ls =>
        refine .cons ?_ ih.tail
        have hl : l.getLast? = some '\n' := ih.head (by simp)
        rw [EndsLine, List.getLast?_cons, hl]
        rfl

theorem endsLine_flatten {ls : List Text} (h : ∀ l ∈ ls, EndsLine l) :
    ls.flatten = [] ∨ EndsLine ls.flatten := by
  induction ls with
  | nil => exact .inl rfl
  | cons l ls ih =>
    right
    have hl : l.getLast? = some '\n' := h l (by simp)
    rw [List.flatten_cons, EndsLine, List.getLast?_append]
    rcases ih fun k hk => h k (by simp [hk]) with hn | he
    · simp [hn, hl]
    · rw [show ls.flatten.getLast? = some '\n' from he]; rfl

/-! ## The parts -/

theorem flatten_requestSpans (ls : List Text) : (requestSpans ls).flatten = ls.flatten := by
  fun_induction requestSpans ls with
  | case1 => rfl
  | case2 line lines ih =>
    rw [List.flatten_cons, ih, List.append_assoc, ← List.flatten_append,
      List.takeWhile_append_dropWhile, List.flatten_cons]

theorem linesEnd_requestSpans {ls : List Text} (h : LinesEnd ls) : LinesEnd (requestSpans ls) := by
  fun_induction requestSpans ls with
  | case1 => simp [LinesEnd]
  | case2 line lines ih =>
    have hsplit : LinesEnd ((line :: lines.takeWhile (!startsRequest ·)) ++
        lines.dropWhile (!startsRequest ·)) := by
      rwa [List.cons_append, List.takeWhile_append_dropWhile]
    cases hd : lines.dropWhile (!startsRequest ·) with
    | nil => simp [requestSpans, LinesEnd]
    | cons k ks =>
      rw [← hd]
      refine .cons ?_ (ih hsplit.right)
      have he := endsLine_flatten (hsplit.left (by simp [hd]))
      rw [List.flatten_cons] at he
      refine he.resolve_left fun hn => ?_
      -- the line itself ends, so it is not empty
      have hl : line.getLast? = some '\n' := hsplit.left (by simp [hd]) line (by simp)
      simp [(List.append_eq_nil_iff.1 hn).1] at hl

/-- What is left after lines that make no request starts with one that does. -/
theorem startsRequest_head_dropWhile {ls : List Text} :
    ∀ l, (ls.dropWhile (!startsRequest ·)).head? = some l → startsRequest l = true := by
  intro l hl
  have := List.head?_dropWhile_not (!startsRequest ·) ls
  rw [hl] at this
  simpa using this

theorem startsRequest_of_mem_requestSpans {ls : List Text}
    (h : ∀ l, ls.head? = some l → startsRequest l = true) :
    ∀ p ∈ requestSpans ls, startsRequest p = true := by
  fun_induction requestSpans ls with
  | case1 => simp
  | case2 line lines ih =>
    intro p hp
    rcases List.mem_cons.1 hp with rfl | hp
    · exact startsRequest_append (h line rfl) _
    · exact ih startsRequest_head_dropWhile p hp

/-- What stands before the first line that makes a request, if the text is cut. -/
def preamble (s : Text) : Text :=
  if requestLines s < 2 then [] else ((fullLines s).takeWhile (!startsRequest ·)).flatten

theorem assertionSpans_of_lt {s : Text} (h : requestLines s < 2) : assertionSpans s = [s] :=
  if_pos h

theorem assertionSpans_of_le {s : Text} (h : 2 ≤ requestLines s) :
    assertionSpans s = requestSpans ((fullLines s).dropWhile (!startsRequest ·)) :=
  if_neg (Nat.not_lt.2 h)

theorem preamble_of_lt {s : Text} (h : requestLines s < 2) : preamble s = [] := if_pos h

theorem preamble_of_le {s : Text} (h : 2 ≤ requestLines s) :
    preamble s = ((fullLines s).takeWhile (!startsRequest ·)).flatten :=
  if_neg (Nat.not_lt.2 h)

/-- **Nothing but the preamble is left out**, and the parts stand in their order. -/
theorem preamble_append_spans (s : Text) : preamble s ++ (assertionSpans s).flatten = s := by
  by_cases h : requestLines s < 2
  · simp [preamble_of_lt h, assertionSpans_of_lt h]
  · have h := Nat.not_lt.1 h
    rw [preamble_of_le h, assertionSpans_of_le h, flatten_requestSpans, ← List.flatten_append,
      List.takeWhile_append_dropWhile, flatten_fullLines]

theorem startsRequest_of_mem_spans {s p : Text} (h : 2 ≤ requestLines s)
    (hp : p ∈ assertionSpans s) : startsRequest p = true := by
  rw [assertionSpans_of_le h] at hp
  exact startsRequest_of_mem_requestSpans startsRequest_head_dropWhile p hp

theorem linesEnd_assertionSpans (s : Text) : LinesEnd (assertionSpans s) := by
  by_cases h : requestLines s < 2
  · simp [assertionSpans_of_lt h, LinesEnd]
  · rw [assertionSpans_of_le (Nat.not_lt.1 h)]
    have hs := linesEnd_fullLines s
    rw [← List.takeWhile_append_dropWhile (p := (!startsRequest ·)) (l := fullLines s)] at hs
    exact linesEnd_requestSpans hs.right

/-- A text with lines that make a request is not all passed over. -/
theorem dropWhile_startsRequest_ne_nil {s : Text} (h : 2 ≤ requestLines s) :
    (fullLines s).dropWhile (!startsRequest ·) ≠ [] := by
  intro hn
  have hall := List.dropWhile_eq_nil_iff.1 hn
  have : requestLines s = 0 := by
    rw [requestLines, List.length_eq_zero_iff, List.filter_eq_nil_iff]
    intro l hl
    simpa using hall l hl
  omega

theorem assertionSpans_ne_nil (s : Text) : assertionSpans s ≠ [] := by
  by_cases h : requestLines s < 2
  · simp [assertionSpans_of_lt h]
  · have h := Nat.not_lt.1 h
    obtain ⟨l, ls, hl⟩ := List.exists_cons_of_ne_nil (dropWhile_startsRequest_ne_nil h)
    simp [assertionSpans_of_le h, hl, requestSpans]

theorem preamble_endsLine (s : Text) : preamble s = [] ∨ EndsLine (preamble s) := by
  by_cases h : requestLines s < 2
  · exact .inl (preamble_of_lt h)
  · have h := Nat.not_lt.1 h
    rw [preamble_of_le h]
    have hs := linesEnd_fullLines s
    rw [← List.takeWhile_append_dropWhile (p := (!startsRequest ·)) (l := fullLines s)] at hs
    exact endsLine_flatten (hs.left (dropWhile_startsRequest_ne_nil h))

/-- A first line that makes no request, however it goes on, lies in the preamble. -/
theorem exists_preamble_eq_append {x y : Text} (hx : '\n' ∉ x)
    (hn : ∀ z, startsRequest (x ++ z) = false) (h : 2 ≤ requestLines (x ++ y)) :
    ∃ z, preamble (x ++ y) = x ++ z ∧ y = z ++ (assertionSpans (x ++ y)).flatten := by
  obtain ⟨l, ls, hl⟩ := exists_fullLines_eq_cons y
  refine ⟨l ++ (ls.takeWhile (!startsRequest ·)).flatten, ?_⟩
  have hp : preamble (x ++ y) = x ++ (l ++ (ls.takeWhile (!startsRequest ·)).flatten) := by
    rw [preamble_of_le h, fullLines_append hx, hl, List.modifyHead_cons,
      List.takeWhile_cons_of_pos (by simp [hn]), List.flatten_cons, List.append_assoc]
  refine ⟨hp, ?_⟩
  have hall := preamble_append_spans (x ++ y)
  rw [hp, List.append_assoc] at hall
  exact (List.append_cancel_left hall).symm

/-! ## Separators of the parts -/

theorem occurrences_append_of_endsLine {lit x : Text} (h : lit ≠ []) (hd : '\n' ∉ lit)
    (hx : x = [] ∨ EndsLine x) (y : Text) :
    occurrences lit (x ++ y) = occurrences lit x + occurrences lit y := by
  rcases hx with rfl | hx
  · simp
  · obtain ⟨z, rfl⟩ := List.getLast?_eq_some_iff.1 hx
    rw [List.append_assoc, List.singleton_append, occurrences_append h hd,
      occurrences_append h hd z []]
    simp

theorem occurrences_flatten {lit : Text} (h : lit ≠ []) (hd : '\n' ∉ lit) {ps : List Text}
    (hp : LinesEnd ps) : occurrences lit ps.flatten = (ps.map (occurrences lit)).sum := by
  induction ps with
  | nil => simp
  | cons p ps ih =>
    cases ps with
    | nil => simp
    | cons q ps =>
      rw [List.flatten_cons, occurrences_append_of_endsLine h hd (.inr (hp.head (by simp))),
        ih hp.tail]
      rfl

/-- **No separator is cut**: those of a text are those of the preamble and of the parts. -/
theorem occurrences_preamble_add_spans (s : Text) :
    occurrences separator (preamble s) + ((assertionSpans s).map (occurrences separator)).sum =
      occurrences separator s := by
  have hne : separator ≠ [] := by decide
  have hd : '\n' ∉ separator := by decide
  rw [← occurrences_flatten hne hd (linesEnd_assertionSpans s),
    ← occurrences_append_of_endsLine hne hd (preamble_endsLine s), preamble_append_spans]

end SpecHarvest
