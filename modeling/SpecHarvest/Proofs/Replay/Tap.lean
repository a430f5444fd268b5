import SpecHarvest.Proofs.Source.Comment
import SpecHarvest.Proofs.Text.Occurrence
import SpecHarvest.Replay.Tap

/-!
# Reports read back

A reader of a report takes the lines that state results. Descriptions stand in a report as they are,
so a line of a description may state a result of its own, and the end of a description may look like
the directive of a test that is left out.

* `resultsIn`: the lines of a text that state results. Of the lines of an entry these are its first
  one (`Entry.headLine`) and the further lines of its description that look like one
  (`resultsIn_entryLines`); diagnostics are indented and give none.
* `ReadsBack`: there is a result for each entry, and it tells whether the test failed or was left
  out. `readsBack_iff_isPlain`: this holds exactly if no description misleads (`Entry.IsPlain`).
-/

namespace SpecHarvest.Tap

open Text Source

/-- Whether a line states the result of a test. -/
def isResult (l : Text) : Bool := startsWith "ok ".toList l || startsWith "not ok ".toList l

/-- The lines of a text that state results. -/
def resultsIn (s : Text) : List Text := (lines s).filter isResult

/-- What ends the line of a test that is left out. -/
def skipDirective : Text := " # SKIP".toList

namespace Entry

/-- What the line of a result starts with. -/
def mark : Entry → Text
  | ok _ => "ok ".toList
  | notOk _ _ => "not ok ".toList
  | skip _ => "ok ".toList

/-- The description with the directive that follows it. -/
def shown (e : Entry) : Text := if e.isSkip then e.description ++ skipDirective else e.description

/-- The first line of what is shown. -/
def firstLine (e : Entry) : Text := (lines e.shown).headD []

/-- The further lines of what is shown that state results. -/
def further (e : Entry) : List Text := (lines e.shown).tail.filter isResult

/-- The first line of an entry with a number. -/
def headLine (n : Nat) (e : Entry) : Text := e.mark ++ ofNat n ++ " - ".toList ++ e.firstLine

/-- An entry that does not mislead: no further line of its description states a result, and the
first one ends with the directive if and only if the test is left out. -/
structure IsPlain (e : Entry) : Prop where
  further_eq : e.further = []
  directive : endsWith skipDirective (' ' :: e.firstLine) = e.isSkip

end Entry

/-- **What a reader relies on**: there are as many results as entries, and each has the number of
its entry, starts with `not ok` if and only if the test failed, and ends with the directive if and
only if the test was left out. -/
def ReadsBack (es : List Entry) : Prop :=
  (resultsIn (render es)).length = es.length ∧
  ∀ k e l, es[k]? = some e → (resultsIn (render es))[k]? = some l →
    (startsWith ("ok ".toList ++ ofNat (k + 1) ++ " - ".toList) l = true ∨
      startsWith ("not ok ".toList ++ ofNat (k + 1) ++ " - ".toList) l = true) ∧
    (startsWith "not ok".toList l = true ↔ e.isFail = true) ∧
    (endsWith skipDirective l = true ↔ e.isSkip = true)

/-! ## Lines without results -/

theorem not_mem_ofNat (n : Nat) : '\n' ∉ ofNat n := by
  intro h
  have hd : '\n'.isDigit = true := Nat.isDigit_of_mem_toDigits (by decide) (by decide) h
  revert hd
  decide

/-- A line that starts with another character than a result states none. -/
theorem resultsIn_cons {c : Char} {l : Text} (ho : c ≠ 'o') (hn : c ≠ 'n') (h : '\n' ∉ c :: l) :
    resultsIn (c :: l) = [] := by
  have hr : isResult (c :: l) = false := by
    have hok : "ok ".toList = 'o' :: "k ".toList := by decide
    have hnot : "not ok ".toList = 'n' :: "ot ok ".toList := by decide
    simp [isResult, startsWith, hok, hnot, after?, Ne.symm ho, Ne.symm hn]
  rw [resultsIn, lines_of_not_mem h]
  simp [hr]

theorem lines_flatMap (ls : List Text) :
    lines (ls.flatMap (· ++ ['\n'])) = ls.flatMap lines ++ [[]] := by
  induction ls with
  | nil => rfl
  | cons l ls ih =>
    have hl : (l :: ls).flatMap (· ++ ['\n']) = l ++ '\n' :: ls.flatMap (· ++ ['\n']) := by simp
    rw [hl, lines, pieces_append_cons rfl, ← lines, ← lines, ih, List.flatMap_cons,
      List.append_assoc]

theorem not_mem_of_mem_diagnosticLines {s l : Text} (h : l ∈ diagnosticLines s) : '\n' ∉ l := by
  unfold diagnosticLines at h
  rcases List.mem_append.1 h with h | h
  · obtain ⟨k, hk, rfl⟩ := List.mem_map.1 h
    have hline : '\n' ∉ k := not_mem_of_mem_lines (List.dropLast_subset _ hk)
    unfold dropReturn
    cases hb : before? ['\r'] k with
    | none => exact hline
    | some r =>
      rw [before?_eq_some_iff.1 hb, List.mem_append, not_or] at hline
      exact hline.1
  · cases hlast : (lines s).getLast? with
    | none => simp [hlast] at h
    | some k =>
      have hline : '\n' ∉ k := not_mem_of_mem_lines (List.mem_of_getLast? hlast)
      rw [hlast] at h
      split at h
      · cases h
      · rw [List.mem_singleton.1 h]
        exact hline

/-! ## The results of a report -/

theorem lines_shown (e : Entry) : lines e.shown = e.firstLine :: (lines e.shown).tail := by
  obtain ⟨l, ls, h⟩ := exists_pieces_eq_cons (· == '\n') e.shown
  unfold Entry.firstLine lines
  rw [h]
  rfl

theorem isResult_headLine (n : Nat) (e : Entry) : isResult (e.headLine n) = true := by
  unfold isResult Entry.headLine
  rw [List.append_assoc, List.append_assoc, Bool.or_eq_true]
  cases e with
  | notOk d diagnostics => exact .inr (startsWith_append_self _ _)
  | ok d => exact .inl (startsWith_append_self _ _)
  | skip d => exact .inl (startsWith_append_self _ _)

theorem resultsIn_mark_append (n : Nat) (e : Entry) :
    resultsIn (e.mark ++ ofNat n ++ " - ".toList ++ e.shown) = e.headLine n :: e.further := by
  have hx : '\n' ∉ e.mark ++ ofNat n ++ " - ".toList := by
    have hok : '\n' ∉ "ok ".toList := by decide
    have hnot : '\n' ∉ "not ok ".toList := by decide
    have hmark : '\n' ∉ e.mark := by
      cases e with
      | ok d => exact hok
      | notOk d diagnostics => exact hnot
      | skip d => exact hok
    have hdash : '\n' ∉ " - ".toList := by decide
    simp only [List.mem_append, not_or]
    exact ⟨⟨hmark, not_mem_ofNat n⟩, hdash⟩
  have hhead : e.mark ++ ofNat n ++ " - ".toList ++ e.firstLine = e.headLine n := rfl
  rw [resultsIn, lines_append hx, lines_shown, List.modifyHead_cons, hhead,
    List.filter_cons_of_pos (isResult_headLine n e)]
  rfl

/-- The first of the lines of an entry shows its description, and only diagnostics follow. -/
theorem entryLines_eq (n : Nat) (e : Entry) : ∃ diagnostics,
    entryLines n e = (e.mark ++ ofNat n ++ " - ".toList ++ e.shown) ::
      (diagnosticLines diagnostics).map ("  # ".toList ++ ·) := by
  have hnone : diagnosticLines [] = [] := rfl
  cases e with
  | ok d => exact ⟨[], rfl⟩
  | skip d =>
    refine ⟨[], ?_⟩
    rw [entryLines, hnone, List.map_nil, List.append_assoc]
    rfl
  | notOk d diagnostics => exact ⟨diagnostics, rfl⟩

theorem resultsIn_of_mem_diagnostics {s l : Text}
    (h : l ∈ (diagnosticLines s).map ("  # ".toList ++ ·)) : resultsIn l = [] := by
  obtain ⟨k, hk, rfl⟩ := List.mem_map.1 h
  have hindent : '\n' ∉ "  # ".toList := by decide
  have hline : '\n' ∉ "  # ".toList ++ k := by
    rw [List.mem_append, not_or]
    exact ⟨hindent, not_mem_of_mem_diagnosticLines hk⟩
  exact resultsIn_cons (by decide) (by decide) hline

/-- **The results among the lines of an entry**: its first line, and the further lines of its
description that look like one. -/
theorem resultsIn_entryLines (n : Nat) (e : Entry) :
    (entryLines n e).flatMap resultsIn = e.headLine n :: e.further := by
  obtain ⟨diagnostics, hlines⟩ := entryLines_eq n e
  have hnone := List.flatMap_eq_nil_iff.2 fun l => resultsIn_of_mem_diagnostics (s := diagnostics)
  rw [hlines, List.flatMap_cons, hnone, List.append_nil, resultsIn_mark_append]

theorem resultsIn_render (es : List Entry) :
    resultsIn (render es) = (resultLines 1 es).flatMap resultsIn := by
  have hcount : ∀ (lit : Text) (n : Nat), '\n' ∉ lit → '\n' ∉ lit ++ ofNat n := by
    intro lit n hlit
    rw [List.mem_append, not_or]
    exact ⟨hlit, not_mem_ofNat n⟩
  have hversion : resultsIn "TAP version 14".toList = [] := by decide
  have hplan : resultsIn ("1..".toList ++ ofNat es.length) = [] :=
    resultsIn_cons (by decide) (by decide) (hcount "1..".toList _ (by decide))
  have htests : resultsIn ("# tests ".toList ++ ofNat es.length) = [] :=
    resultsIn_cons (by decide) (by decide) (hcount "# tests ".toList _ (by decide))
  have hpass : resultsIn ("# pass  ".toList ++ ofNat (summary es).pass) = [] :=
    resultsIn_cons (by decide) (by decide) (hcount "# pass  ".toList _ (by decide))
  have hfail : resultsIn ("# fail  ".toList ++ ofNat (summary es).fail) = [] :=
    resultsIn_cons (by decide) (by decide) (hcount "# fail  ".toList _ (by decide))
  have hskip : resultsIn ("# skip  ".toList ++ ofNat (summary es).skip) = [] :=
    resultsIn_cons (by decide) (by decide) (hcount "# skip  ".toList _ (by decide))
  have hall : resultsIn (render es) = (reportLines es).flatMap resultsIn := by
    rw [resultsIn, render, lines_flatMap, List.filter_append, List.filter_flatMap]
    exact List.append_nil _
  rw [hall, reportLines]
  simp only [List.flatMap_append, List.flatMap_cons, List.flatMap_nil, hversion, hplan, htests,
    hpass, hfail, hskip, List.append_nil, List.nil_append]

theorem flatMap_resultLines_cons (n : Nat) (e : Entry) (es : List Entry) :
    (resultLines n (e :: es)).flatMap resultsIn =
      e.headLine n :: (e.further ++ (resultLines (n + 1) es).flatMap resultsIn) := by
  rw [resultLines, List.flatMap_append, resultsIn_entryLines, List.cons_append]

theorem length_flatMap_resultLines (n : Nat) (es : List Entry) :
    ((resultLines n es).flatMap resultsIn).length =
      es.length + (es.flatMap Entry.further).length := by
  induction es generalizing n with
  | nil => rfl
  | cons e es ih =>
    rw [flatMap_resultLines_cons, List.length_cons, List.length_append, ih, List.flatMap_cons,
      List.length_append, List.length_cons]
    omega

/-- **There are as many results as entries** if and only if no further line of a description states
one. -/
theorem length_resultsIn_render_iff {es : List Entry} :
    (resultsIn (render es)).length = es.length ↔ ∀ e ∈ es, e.further = [] := by
  rw [resultsIn_render, length_flatMap_resultLines, ← List.flatMap_eq_nil_iff,
    ← List.length_eq_zero_iff]
  omega

theorem getElem?_flatMap_resultLines {es : List Entry} (h : ∀ e ∈ es, e.further = []) (n k : Nat) :
    ((resultLines n es).flatMap resultsIn)[k]? = es[k]?.map (Entry.headLine (n + k)) := by
  induction es generalizing n k with
  | nil => rfl
  | cons e es ih =>
    rw [flatMap_resultLines_cons, h e List.mem_cons_self, List.nil_append]
    cases k with
    | zero => rfl
    | succ k =>
      rw [List.getElem?_cons_succ, List.getElem?_cons_succ,
        ih (fun d hd => h d (List.mem_cons_of_mem _ hd))]
      congr 2
      omega

/-- The results are the first lines of the entries, if there are as many. -/
theorem getElem?_resultsIn_render {es : List Entry} (h : ∀ e ∈ es, e.further = []) (k : Nat) :
    (resultsIn (render es))[k]? = es[k]?.map (Entry.headLine (k + 1)) := by
  rw [resultsIn_render, getElem?_flatMap_resultLines h, Nat.add_comm]

/-! ## One result -/

theorem startsWith_headLine (n : Nat) (e : Entry) :
    startsWith ("ok ".toList ++ ofNat n ++ " - ".toList) (e.headLine n) = true ∨
      startsWith ("not ok ".toList ++ ofNat n ++ " - ".toList) (e.headLine n) = true := by
  cases e with
  | ok d => exact .inl (startsWith_append_self _ _)
  | skip d => exact .inl (startsWith_append_self _ _)
  | notOk d diagnostics => exact .inr (startsWith_append_self _ _)

theorem startsWith_notOk_headLine (n : Nat) (e : Entry) :
    startsWith "not ok".toList (e.headLine n) = true ↔ e.isFail = true := by
  have hok : ∀ s, startsWith "not ok".toList ("ok ".toList ++ s) = false := fun _ => rfl
  have hnot : "not ok ".toList = "not ok".toList ++ [' '] := by decide
  unfold Entry.headLine
  rw [List.append_assoc, List.append_assoc]
  cases e with
  | ok d => exact iff_of_false (Bool.eq_false_iff.1 (hok _)) Bool.false_ne_true
  | skip d => exact iff_of_false (Bool.eq_false_iff.1 (hok _)) Bool.false_ne_true
  | notOk d diagnostics =>
    have hmark : (Entry.notOk d diagnostics).mark = "not ok".toList ++ [' '] := hnot
    rw [hmark, List.append_assoc]
    exact iff_of_true (startsWith_append_self _ _) rfl

theorem endsWith_headLine (n : Nat) (e : Entry) :
    endsWith skipDirective (e.headLine n) = endsWith skipDirective (' ' :: e.firstLine) := by
  have hdash : " - ".toList = [' ', '-', ' '] := by decide
  have hhead : e.headLine n = (e.mark ++ ofNat n ++ [' ']) ++ '-' :: ' ' :: e.firstLine := by
    simp [Entry.headLine, hdash]
  rw [hhead, endsWith_append_cons (by decide)]

/-! ## Whole reports -/

/-- **A report reads back** exactly if none of its entries misleads. -/
theorem readsBack_iff_forall (es : List Entry) : ReadsBack es ↔ ∀ e ∈ es, e.IsPlain := by
  unfold ReadsBack
  rw [length_resultsIn_render_iff]
  constructor
  · intro h e he
    obtain ⟨hfurther, hread⟩ := h
    obtain ⟨k, hk⟩ := List.mem_iff_getElem?.1 he
    have hl : (resultsIn (render es))[k]? = some (e.headLine (k + 1)) := by
      rw [getElem?_resultsIn_render hfurther, hk]
      rfl
    obtain ⟨-, -, hskip⟩ := hread k e _ hk hl
    refine ⟨hfurther e he, ?_⟩
    rw [← endsWith_headLine (k + 1), Bool.eq_iff_iff]
    exact hskip
  · intro h
    have hfurther : ∀ e ∈ es, e.further = [] := fun e he => (h e he).further_eq
    refine ⟨hfurther, ?_⟩
    intro k e l hk hl
    rw [getElem?_resultsIn_render hfurther, hk] at hl
    obtain rfl := Option.some.inj hl
    refine ⟨startsWith_headLine _ e, startsWith_notOk_headLine _ e, ?_⟩
    rw [endsWith_headLine, (h e (List.mem_of_getElem? hk)).directive]

/-- On one line, a description misleads only if the test is not left out and the line ends as if it
were. -/
theorem isPlain_iff_of_not_mem {e : Entry} (h : '\n' ∉ e.description) :
    e.IsPlain ↔ (e.isSkip = false → endsWith skipDirective (' ' :: e.description) = false) := by
  have hshown : '\n' ∉ e.shown := by
    have hdirective : '\n' ∉ skipDirective := by decide
    unfold Entry.shown
    split
    · rw [List.mem_append, not_or]
      exact ⟨h, hdirective⟩
    · exact h
  have hlines : lines e.shown = [e.shown] := lines_of_not_mem hshown
  have hfirst : e.firstLine = e.shown := by rw [Entry.firstLine, hlines]; rfl
  have hfurther : e.further = [] := by rw [Entry.further, hlines]; rfl
  cases hs : e.isSkip with
  | true =>
    have hends : endsWith skipDirective (' ' :: e.firstLine) = true := by
      rw [hfirst, Entry.shown, if_pos hs, ← List.cons_append, endsWith, Option.isSome_iff_exists]
      exact ⟨_, before?_eq_some_iff.2 rfl⟩
    refine iff_of_true ⟨hfurther, hends.trans hs.symm⟩ ?_
    intro hkept
    exact absurd hkept Bool.false_ne_true.symm
  | false =>
    have hshow : e.firstLine = e.description := by
      rw [hfirst, Entry.shown, if_neg (by rw [hs]; decide)]
    constructor
    · intro hp _
      rw [← hshow, hp.directive, hs]
    · intro he
      refine ⟨hfurther, ?_⟩
      rw [hshow, he rfl, hs]

/-- **When a report can be read back.** Its second line, the plan, has the number of its entries.
There are as many results, each with the number and the outcome of its entry, exactly if no entry
misleads: no further line of its description states a result, and the first one ends with the
directive just if the test is left out. A description on one line misleads only if it ends with the
directive of a test that is left out and the test is not. -/
theorem readsBack_iff_isPlain (es : List Entry) :
    (lines (render es))[1]? = some ("1..".toList ++ ofNat es.length) ∧
    (ReadsBack es ↔ ∀ e ∈ es, e.IsPlain) ∧
    ((∀ e ∈ es, '\n' ∉ e.description) →
      (ReadsBack es ↔
        ∀ e ∈ es, e.isSkip = false → endsWith skipDirective (' ' :: e.description) = false)) := by
  refine ⟨?_, readsBack_iff_forall es, ?_⟩
  · have hplan : '\n' ∉ "1..".toList ++ ofNat es.length := by
      have hlit : '\n' ∉ "1..".toList := by decide
      rw [List.mem_append, not_or]
      exact ⟨hlit, not_mem_ofNat _⟩
    have hversion : lines "TAP version 14".toList = ["TAP version 14".toList] :=
      lines_of_not_mem (by decide)
    rw [render, lines_flatMap, reportLines]
    simp only [List.cons_append, List.flatMap_cons, hversion, lines_of_not_mem hplan]
    rfl
  · intro h
    rw [readsBack_iff_forall]
    exact forall₂_congr fun e he => isPlain_iff_of_not_mem (h e he)

/-- **Not every report can be read back**: a test that passed looks left out, and a description of
two lines states a result that there is not. -/
theorem not_readsBack :
    ¬ReadsBack [.ok "a # SKIP".toList] ∧ ¬ReadsBack [.ok "a\nok 2 - b".toList] := by
  constructor
  · intro h
    have hplain := (readsBack_iff_forall _).1 h _ List.mem_cons_self
    have hends := hplain.directive
    revert hends
    decide
  · intro h
    have hplain := (readsBack_iff_forall _).1 h _ List.mem_cons_self
    have hfurther := hplain.further_eq
    revert hfurther
    decide

end SpecHarvest.Tap
