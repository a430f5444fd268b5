import Mathlib.Data.List.Infix
import SpecHarvest.Proofs.Source.Delimiter
import SpecHarvest.Proofs.Text.Blank

/-!
# Parts of a text that is cut at delimiters

* `stateAfter`: how many brackets are open after a text, and whether a literal is.
* `Balanced d p`: after `p` no bracket and no literal is open, and no `d` in it stands where that is
  so, too. The brackets need not match: only their number counts.
* `IsPart d p`: a cut at `d` passes over `p` as a whole. `Balanced.isPart`: balanced texts are such
  parts.
* `topLevel_intercalate`: parts that are joined with delimiters are found again.
* `topLevel_trim`: white space around a text changes its parts by white space only.
-/

namespace SpecHarvest.Source

open Text

/-- The depth of brackets after a text, and whether it ends within a literal. -/
def stateAfter : (depth : Int) → (inLiteral : Bool) → Text → Int × Bool
  | n, q, [] => (n, q)
  | n, true, '\\' :: _ :: s => stateAfter n true s
  | n, true, c :: s => stateAfter n (c != '"') s
  | n, false, c :: s =>
    if c = '"' then stateAfter n true s else stateAfter (depthAfter n c) false s

/-- A text after which no bracket and no literal is open, and that has no delimiter outside of
them. -/
structure Balanced (delim : Char) (p : Text) : Prop where
  closed : stateAfter 0 false p = (0, false)
  uncut : ∀ x, x ++ [delim] <+: p → stateAfter 0 false x ≠ (0, false)

instance (delim : Char) (p : Text) : Decidable (Balanced delim p) :=
  decidable_of_iff (stateAfter 0 false p = (0, false) ∧
      ∀ x ∈ p.inits, x ++ [delim] <+: p → stateAfter 0 false x ≠ (0, false))
    ⟨fun h => ⟨h.1, fun x hx =>
        h.2 x ((List.mem_inits x p).2 ((List.prefix_append x [delim]).trans hx)) hx⟩,
      fun h => ⟨h.1, fun x _ => h.2 x⟩⟩

/-- A text that a cut passes over as a whole. -/
def IsPart (delim : Char) (p : Text) : Prop :=
  ∀ rest, topLevelParts delim 0 false (p ++ rest) =
    (topLevelParts delim 0 false rest).modifyHead (p ++ ·)

variable {delim : Char} {n m : Int} {q : Bool} {p s : Text}

/-! ## Character by character -/

theorem topLevelParts_inside {c : Char} (hc : c ≠ '\\') (delim : Char) (n : Int) (s : Text) :
    topLevelParts delim n true (c :: s) =
      (topLevelParts delim n (c != '"') s).modifyHead (c :: ·) := by
  rw [topLevelParts]
  rintro d t rfl
  exact absurd rfl hc

theorem stateAfter_inside {c : Char} (hc : c ≠ '\\') (n : Int) (s : Text) :
    stateAfter n true (c :: s) = stateAfter n (c != '"') s := by
  rw [stateAfter]
  rintro d t rfl
  exact absurd rfl hc

theorem isBracket_of_not_mem {c : Char} (h : c ∉ "()[]{}".toList) : isBracket c = false := by
  have hne : c ≠ '(' ∧ c ≠ ')' ∧ c ≠ '[' ∧ c ≠ ']' ∧ c ≠ '{' ∧ c ≠ '}' := by simpa using h
  simp [isBracket, depthAfter, hne]

theorem depthAfter_of_isBracket_eq_false {c : Char} (h : isBracket c = false) (n : Int) :
    depthAfter n c = n := by
  unfold isBracket depthAfter at h
  unfold depthAfter
  split at h
  · cases h
  · next hopen =>
    rw [if_neg hopen]
    split at h
    · cases h
    · next hclose => rw [if_neg hclose]

/-- **A cut passes over a text** after which no literal is open and in which no delimiter stands
where a cut would be made. -/
theorem topLevelParts_append (h : stateAfter n q p = (m, false))
    (hd : ∀ x, x ++ [delim] <+: p → stateAfter n q x ≠ (0, false)) (rest : Text) :
    topLevelParts delim n q (p ++ rest) =
      (topLevelParts delim m false rest).modifyHead (p ++ ·) := by
  fun_induction stateAfter n q p with
  | case1 n q =>
    obtain ⟨rfl, rfl⟩ := Prod.mk.inj h
    exact (congrFun List.modifyHead_id _).symm
  | @case2 n e s ih =>
    have hd' : ∀ x, x ++ [delim] <+: s → stateAfter n true x ≠ (0, false) := fun x hx =>
      hd ('\\' :: e :: x) (List.cons_prefix_cons.2 ⟨rfl, List.cons_prefix_cons.2 ⟨rfl, hx⟩⟩)
    rw [List.cons_append, List.cons_append, topLevelParts, ih h hd', List.modifyHead_modifyHead]
    rfl
  | case3 n c s hesc ih =>
    -- a backslash would be the last character, and the literal open after it
    have hc : c ≠ '\\' := by
      rintro rfl
      cases s with
      | nil => exact absurd h (by simp [stateAfter])
      | cons e s => exact hesc e s rfl rfl
    have hd' : ∀ x, x ++ [delim] <+: s → stateAfter n (c != '"') x ≠ (0, false) := fun x hx =>
      stateAfter_inside hc n x ▸ hd (c :: x) (List.cons_prefix_cons.2 ⟨rfl, hx⟩)
    rw [List.cons_append, topLevelParts_inside hc, ih h hd', List.modifyHead_modifyHead]
    rfl
  | case4 n s ih =>
    have hd' : ∀ x, x ++ [delim] <+: s → stateAfter n true x ≠ (0, false) := fun x hx =>
      hd ('"' :: x) (List.cons_prefix_cons.2 ⟨rfl, hx⟩)
    rw [List.cons_append, topLevelParts, if_pos rfl, ih h hd', List.modifyHead_modifyHead]
    rfl
  | case5 n c s hq ih =>
    have hd' : ∀ x, x ++ [delim] <+: s → stateAfter (depthAfter n c) false x ≠ (0, false) := by
      intro x hx
      have := hd (c :: x) (List.cons_prefix_cons.2 ⟨rfl, hx⟩)
      rwa [stateAfter, if_neg hq] at this
    rw [List.cons_append, topLevelParts, if_neg hq]
    cases hb : isBracket c with
    | true =>
      rw [if_pos rfl, ih h hd', List.modifyHead_modifyHead]
      rfl
    | false =>
      have hcut : ¬(c = delim && n == 0) = true := by
        rw [Bool.and_eq_true, decide_eq_true_eq, beq_iff_eq]
        rintro ⟨rfl, rfl⟩
        exact hd [] (List.cons_prefix_cons.2 ⟨rfl, List.nil_prefix⟩) rfl
      rw [depthAfter_of_isBracket_eq_false hb] at ih h hd'
      rw [if_neg Bool.false_ne_true, if_neg hcut, ih h hd', List.modifyHead_modifyHead]
      rfl

/-- **A balanced text is passed over as a whole.** -/
theorem Balanced.isPart (h : Balanced delim p) : IsPart delim p :=
  topLevelParts_append h.closed h.uncut

example : Balanced ',' ")\"a,\\\"\"(".toList := by decide

/-! ## Parts that are joined -/

theorem topLevelParts_intercalate (hdq : delim ≠ '"') (hdb : isBracket delim = false)
    {parts : List Text} (h : ∀ p ∈ s :: parts, IsPart delim p) :
    topLevelParts delim 0 false ([delim].intercalate (s :: parts)) = s :: parts := by
  induction parts generalizing s with
  | nil =>
    have hs := h s List.mem_cons_self []
    rw [List.append_nil] at hs
    rw [List.intercalate_singleton, hs]
    simp [topLevelParts]
  | cons t parts ih =>
    rw [List.intercalate_cons_cons, List.append_assoc, h s List.mem_cons_self, List.singleton_append,
      topLevelParts, if_neg hdq, if_neg (by simp [hdb]), if_pos (by simp),
      ih fun p hp => h p (List.mem_cons_of_mem s hp)]
    simp

/-- **Parts that are joined are found again**, if the last is not blank. -/
theorem topLevel_intercalate (hdq : delim ≠ '"') (hdb : isBracket delim = false)
    {parts : List Text} (h : ∀ p ∈ parts, IsPart delim p)
    (hlast : ∀ p ∈ parts.getLast?, allBlank p = false) :
    topLevel delim ([delim].intercalate parts) = parts := by
  cases parts with
  | nil => rfl
  | cons s parts =>
    obtain ⟨p, hp⟩ : ∃ p, (s :: parts).getLast? = some p :=
      ⟨_, List.getLast?_eq_some_getLast (List.cons_ne_nil s parts)⟩
    have hp' := hlast p hp
    rw [allBlank] at hp'
    simp only [topLevel, topLevelParts_intercalate hdq hdb h, hp, Option.getD_some, hp',
      Bool.false_eq_true, if_false]

/-! ## White space around the text -/

theorem of_isBlank {c : Char} (h : isBlank c = true) :
    c ≠ '"' ∧ c ≠ '\\' ∧ isBracket c = false := by
  have hne : ∀ d ∈ "\"\\()[]{}".toList, c ≠ d := by
    have hall : "\"\\()[]{}".toList.all (!isBlank ·) = true := by decide
    rintro d hd rfl
    have := List.all_eq_true.1 hall c hd
    rw [h] at this
    cases this
  exact ⟨hne _ (by simp), hne _ (by simp), isBracket_of_not_mem fun hc => hne c (by simp_all) rfl⟩

theorem topLevelParts_blank (hd : isBlank delim = false) {w : Text} (hw : allBlank w = true)
    (n : Int) (q : Bool) (s : Text) : topLevelParts delim n q (w ++ s) =
      (topLevelParts delim n q s).modifyHead (w ++ ·) := by
  induction w with
  | nil => exact (congrFun List.modifyHead_id _).symm
  | cons c w ih =>
    rw [allBlank, List.all_cons, Bool.and_eq_true] at hw
    obtain ⟨hquote, hescape, hbracket⟩ := of_isBlank hw.1
    cases q with
    | true =>
      have hq : (c != '"') = true := by simpa using hquote
      rw [List.cons_append, topLevelParts_inside hescape, hq, ih hw.2, List.modifyHead_modifyHead]
      rfl
    | false =>
      have hcut : ¬(c = delim && n == 0) = true := by
        rw [Bool.and_eq_true, decide_eq_true_eq]
        rintro ⟨rfl, -⟩
        rw [hw.1] at hd
        cases hd
      rw [List.cons_append, topLevelParts, if_neg hquote, if_neg (by simp [hbracket]),
        if_neg hcut, ih hw.2, List.modifyHead_modifyHead]
      rfl

theorem map_trimEnd_modifyHead (x : Text) {ps ps' : List Text}
    (h : ps.map trimEnd = ps'.map trimEnd) :
    (ps.modifyHead (x ++ ·)).map trimEnd = (ps'.modifyHead (x ++ ·)).map trimEnd := by
  cases ps with
  | nil => rw [List.map_eq_nil_iff.1 h.symm]
  | cons p ps =>
    obtain ⟨p', ps', rfl, hp, hps⟩ := List.map_eq_cons_iff.1 h.symm
    rw [List.modifyHead_cons, List.modifyHead_cons, List.map_cons, List.map_cons, trimEnd_append,
      trimEnd_append, hp, hps]

theorem topLevelParts_of_allBlank (hd : isBlank delim = false) {w : Text}
    (hw : allBlank w = true) (n : Int) (q : Bool) : topLevelParts delim n q w = [w] := by
  have h := topLevelParts_blank hd hw n q []
  rw [List.append_nil] at h
  rw [h]
  simp [topLevelParts]

/-- White space alone has no parts. -/
theorem topLevel_of_allBlank (hd : isBlank delim = false) {w : Text} (hw : allBlank w = true) :
    topLevel delim w = [] := by
  rw [allBlank] at hw
  simp [topLevel, topLevelParts_of_allBlank hd hw, hw]

theorem topLevelParts_append_blank (hd : isBlank delim = false) {w : Text}
    (hw : allBlank w = true) (n : Int) (q : Bool) (s : Text) :
    (topLevelParts delim n q (s ++ w)).map trimEnd = (topLevelParts delim n q s).map trimEnd := by
  fun_induction topLevelParts delim n q s with
  | case1 n q =>
    rw [List.nil_append, topLevelParts_of_allBlank hd hw, List.map_singleton,
      trimEnd_eq_nil_iff.2 hw]
    rfl
  | case2 n c s ih =>
    rw [List.cons_append, List.cons_append, topLevelParts]
    exact map_trimEnd_modifyHead ['\\', c] ih
  | case3 n c s hesc ih =>
    by_cases hc : c = '\\'
    · subst hc
      cases s with
      | cons e s => exact (hesc e s rfl rfl).elim
      | nil =>
        -- a last backslash takes up the first of the white space
        cases w with
        | nil => rfl
        | cons e w =>
          have hw' : allBlank w = true := by
            rw [allBlank, List.all_cons, Bool.and_eq_true] at hw
            exact hw.2
          have hparts : topLevelParts delim n true ('\\' :: e :: w) = ['\\' :: e :: w] := by
            rw [topLevelParts, topLevelParts_of_allBlank hd hw']
            rfl
          rw [List.singleton_append, hparts]
          exact congrArg ([·]) (trimEnd_append_of_allBlank ['\\'] hw)
    · rw [List.cons_append, topLevelParts_inside hc]
      exact map_trimEnd_modifyHead [c] ih
  | case4 n s ih =>
    rw [List.cons_append, topLevelParts, if_pos rfl]
    exact map_trimEnd_modifyHead ['"'] ih
  | case5 n c s hq hb ih =>
    rw [List.cons_append, topLevelParts, if_neg hq, if_pos hb]
    exact map_trimEnd_modifyHead [c] ih
  | case6 n c s hq hb hcut ih =>
    rw [List.cons_append, topLevelParts, if_neg hq, if_neg hb, if_pos hcut, List.map_cons, ih,
      List.map_cons]
  | case7 n c s hq hb hcut ih =>
    rw [List.cons_append, topLevelParts, if_neg hq, if_neg hb, if_neg hcut]
    exact map_trimEnd_modifyHead [c] ih

/-- White space around a text comes to its first part and its last. -/
theorem topLevelParts_trim (hd : isBlank delim = false) (s : Text) :
    (topLevelParts delim 0 false (trim s)).map trim = (topLevelParts delim 0 false s).map trim := by
  have hstart : (topLevelParts delim 0 false s).map trim =
      (topLevelParts delim 0 false (trimStart s)).map trim := by
    have h := topLevelParts_blank hd (allBlank_takeWhile s) 0 false (trimStart s)
    rw [takeWhile_append_trimStart] at h
    rw [h]
    cases topLevelParts delim 0 false (trimStart s) with
    | nil => rfl
    | cons p ps =>
      rw [List.modifyHead_cons, List.map_cons, List.map_cons,
        trim_append_of_allBlank (allBlank_takeWhile s)]
  have hend : ∀ ps : List Text, ps.map trim = (ps.map trimEnd).map trim := by
    intro ps
    rw [List.map_map]
    exact List.map_congr_left fun p _ => (trim_trimEnd p).symm
  obtain ⟨w, hs, hw⟩ := exists_trimEnd_append (trimStart s)
  have happend := topLevelParts_append_blank hd hw 0 false (trim s)
  rw [trim, ← hs] at happend
  rw [hstart, hend, trim, ← happend, ← hend]

/-- **White space around a text** changes its parts by white space only. -/
theorem topLevel_trim (hd : isBlank delim = false) (s : Text) :
    (topLevel delim (trim s)).map trim = (topLevel delim s).map trim := by
  have hparts := topLevelParts_trim hd s
  have hlast : ∀ ps : List Text, (ps.getLast?.getD []).all isBlank =
      ((ps.map trim).getLast?.getD []).isEmpty := by
    intro ps
    rw [List.getLast?_map, Bool.eq_iff_iff, List.isEmpty_iff, ← allBlank, ← trim_eq_nil_iff]
    cases ps.getLast? <;> rfl
  unfold topLevel
  simp only [hlast, hparts]
  split
  · rw [List.map_dropLast, List.map_dropLast, hparts]
  · exact hparts

end SpecHarvest.Source
