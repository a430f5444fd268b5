import Mathlib.Data.List.Forall2
import SpecHarvest.Proofs.Source.Delimiter
import SpecHarvest.Proofs.Text.Padding
import SpecHarvest.Source.Keyword
import SpecHarvest.Source.Reader

/-!
# Readers and spaces at the ends of lines

A reader succeeds on a text if it succeeds on its padded form (`Padded`), and what it takes and what
it leaves are padded forms, too.

* Literals, brackets and keywords: `Padded.closeQuote?`, `Padded.matching?`, `Padded.topLevel`,
  `Padded.keyword?`.
* White space in front of a text that ends in no space put in: `Padded.blanks?`.
* Ends: `Padded.before?`, `Padded.cutLast?`.
-/

namespace SpecHarvest.Text.Padded

open Source

variable {last : Bool} {s t lit : Text}

theorem mem_iff {c : Char} (hc : c ≠ ' ') (h : Padded last s t) : c ∈ s ↔ c ∈ t := by
  induction h with
  | nil => rfl
  | space => simp [hc]
  | cons d h ih => simp [ih]
  | newline h ih => simp [ih, hc]

theorem allBlank_eq (h : Padded last s t) : allBlank s = allBlank t := by
  have hs : isBlank ' ' = true := by decide
  unfold allBlank
  induction h with
  | nil => rfl
  | space => simp [hs]
  | cons c h ih => simp [ih]
  | newline h ih => simp [ih, hs]

/-! ## Literals -/

theorem closeQuote? (h : Padded last s t) :
    Option.Rel (PaddedPair last) (closeQuote? s) (closeQuote? t) := by
  fun_induction Source.closeQuote? s generalizing t with
  | case1 =>
    cases h with
    | nil => exact .none
    | space => exact .none
  | case2 c s ih =>
    obtain ⟨u, rfl, hu⟩ := h.cons_left_of_ne (by decide)
    rcases hu.cons_left with ⟨v, rfl, hv⟩ | ⟨rfl, v, rfl, hv⟩
    · exact rel_map (ih hv) fun p q hp => ⟨(hp.1.cons c).cons '\\', hp.2⟩
    · -- the backslash takes the space and not the line feed, which is no quote
      have hn : Source.closeQuote? ('\\' :: ' ' :: '\n' :: v) = (Source.closeQuote? v).map
          fun p => ('\\' :: ' ' :: '\n' :: p.1, p.2) := by
        simp [Source.closeQuote?, Function.comp_def]
      rw [hn]
      exact rel_map (ih hv) fun p q hp => ⟨hp.1.newline.cons '\\', hp.2⟩
  | case3 s hb =>
    obtain ⟨u, rfl, hu⟩ := h.cons_left_of_ne (by decide)
    have hq : Source.closeQuote? ('"' :: u) = some ([], u) := by simp [Source.closeQuote?]
    rw [hq]
    exact .some ⟨.nil, hu⟩
  | case4 c s hb hc ih =>
    rcases h.cons_left with ⟨v, rfl, hv⟩ | ⟨rfl, v, rfl, hv⟩
    · by_cases hbs : c = '\\'
      · subst hbs
        -- nothing comes after the backslash, but maybe a space
        have hs : s = [] := by
          cases s with
          | nil => rfl
          | cons d s => exact (hb d s rfl rfl).elim
        subst hs
        cases hv with
        | nil => exact .none
        | space => exact .none
      · have ht : Source.closeQuote? (c :: v) = (Source.closeQuote? v).map
            fun p => (c :: p.1, p.2) := by
          simp [Source.closeQuote?, hbs, hc]
        rw [ht]
        exact rel_map (ih hv) fun p q hp => ⟨hp.1.cons c, hp.2⟩
    · have ht : Source.closeQuote? (' ' :: '\n' :: v) = (Source.closeQuote? v).map
          fun p => (' ' :: '\n' :: p.1, p.2) := by
        simp [Source.closeQuote?, Function.comp_def]
      rw [ht]
      exact rel_map (ih hv) fun p q hp => ⟨hp.1.newline, hp.2⟩

theorem quoted? (h : Padded last s t) :
    Option.Rel (PaddedPair last) (quoted? s) (quoted? t) := by
  cases h with
  | nil => exact .none
  | space => exact .none
  | @cons _ c s t h =>
    by_cases hc : c = '"'
    · subst hc
      exact h.closeQuote?
    · simp [Source.quoted?, hc]
  | newline h => simp [Source.quoted?]

theorem nonemptyQuoted? (h : Padded last s t) :
    Option.Rel (PaddedPair last) (nonemptyQuoted? s) (nonemptyQuoted? t) := by
  unfold Source.nonemptyQuoted?
  rcases cases_of_rel h.quoted? with ⟨hs, ht⟩ | ⟨⟨raw, r⟩, ⟨raw', r'⟩, hs, ht, hp⟩
  · rw [hs, ht]
    exact .none
  · have he : raw.isEmpty = raw'.isEmpty := by
      rw [Bool.eq_iff_iff, List.isEmpty_iff, List.isEmpty_iff]
      exact hp.1.eq_nil
    rw [hs, ht, Option.filter_some, Option.filter_some]
    simp only [he]
    split
    · exact .some hp
    · exact .none

/-! ## Brackets -/

theorem matching? {opened closed : Char} (ho : opened ≠ ' ' ∧ opened ≠ '\n')
    (hcl : closed ≠ ' ' ∧ closed ≠ '\n') (n : Nat) (h : Padded last s t) :
    Option.Rel (PaddedPair last) (matching? opened closed n false s)
      (matching? opened closed n false t) := by
  induction hl : s.length using Nat.strongRecOn generalizing n s t with
  | ind k ih =>
    have hspace : ∀ m t', Source.matching? opened closed m false (' ' :: t') =
        (Source.matching? opened closed m false t').map fun p => (' ' :: p.1, p.2) := by
      intro m t'
      simp [matching?_cons, ho.1.symm, hcl.1.symm]
    have hnewline : ∀ m t', Source.matching? opened closed m false ('\n' :: t') =
        (Source.matching? opened closed m false t').map fun p => ('\n' :: p.1, p.2) := by
      intro m t'
      simp [matching?_cons, ho.2.symm, hcl.2.symm]
    cases h with
    | nil => exact .none
    | space => simp [hspace, Source.matching?]
    | @cons _ c s t h =>
      have hlt : s.length < k := by
        rw [← hl, List.length_cons]
        omega
      have hnext : ∀ m, Option.Rel (PaddedPair last)
          ((Source.matching? opened closed m false s).map fun p => (c :: p.1, p.2))
          ((Source.matching? opened closed m false t).map fun p => (c :: p.1, p.2)) := by
        intro m
        exact rel_map (ih _ hlt m h rfl) fun p q hp => ⟨hp.1.cons c, hp.2⟩
      rw [matching?_cons, matching?_cons]
      by_cases hq : c = '"'
      · rw [if_pos hq, if_pos hq, matching?_literal, matching?_literal]
        refine rel_map (R := PaddedPair last) ?_ fun p q hp => ⟨hp.1.cons c, hp.2⟩
        rcases cases_of_rel h.closeQuote? with ⟨hs, ht⟩ | ⟨⟨raw, r⟩, ⟨raw', r'⟩, hs, ht, hp⟩
        · rw [hs, ht]
          exact .none
        · have hlt' : r.length < k := by
            have := congrArg List.length (eq_of_closeQuote? hs)
            simp only [List.length_append, List.length_cons] at this
            omega
          rw [hs, ht]
          exact rel_map (ih _ hlt' n hp.2 rfl) fun p q hpq => ⟨hp.1.append (hpq.1.cons '"'), hpq.2⟩
      rw [if_neg hq, if_neg hq]
      by_cases hopen : c = opened
      · rw [if_pos hopen, if_pos hopen]
        exact hnext (n + 1)
      rw [if_neg hopen, if_neg hopen]
      by_cases hclose : c = closed
      · rw [if_pos hclose, if_pos hclose]
        rcases n with _ | _ | m
        · exact .none
        · exact .some ⟨.nil, h⟩
        · exact hnext (m + 1)
      · rw [if_neg hclose, if_neg hclose]
        exact hnext n
    | @newline _ s t h =>
      have hlt : s.length < k := by
        rw [← hl, List.length_cons]
        omega
      rw [hspace, hnewline, hnewline, Option.map_map]
      exact rel_map (ih _ hlt n h rfl) fun p q hp => ⟨hp.1.newline, hp.2⟩

theorem bracketed? {opened closed : Char} (ho : opened ≠ ' ' ∧ opened ≠ '\n')
    (hcl : closed ≠ ' ' ∧ closed ≠ '\n') (h : Padded last s t) :
    Option.Rel (PaddedPair last) (bracketed? opened closed s) (bracketed? opened closed t) := by
  cases h with
  | nil => exact .none
  | space => simp [Source.bracketed?, ho.1.symm]
  | @cons _ c s t h =>
    by_cases hc : c = opened
    · simpa [Source.bracketed?, hc] using h.matching? ho hcl 1
    · simp [Source.bracketed?, hc]
  | newline h => simp [Source.bracketed?, ho.1.symm, ho.2.symm]

theorem forall₂_modifyHead {R : Text → Text → Prop} {f g : Text → Text} {ps qs : List Text}
    (h : List.Forall₂ R ps qs) (hf : ∀ p q, R p q → R (f p) (g q)) :
    List.Forall₂ R (ps.modifyHead f) (qs.modifyHead g) := by
  cases h with
  | nil => exact .nil
  | cons hr h => exact .cons (hf _ _ hr) h

theorem topLevelParts {delim : Char} (hd : delim ≠ ' ' ∧ delim ≠ '\n') (n : Int)
    (h : Padded false s t) : List.Forall₂ (Padded false) (topLevelParts delim n false s)
      (topLevelParts delim n false t) := by
  induction hl : s.length using Nat.strongRecOn generalizing n s t with
  | ind k ih =>
    cases h with
    | nil => exact .cons .nil .nil
    | @cons _ c s t h =>
      have hlt : s.length < k := by
        rw [← hl, List.length_cons]
        omega
      rw [Source.topLevelParts, Source.topLevelParts]
      by_cases hq : c = '"'
      · rw [if_pos hq, if_pos hq, topLevelParts_literal, topLevelParts_literal]
        refine forall₂_modifyHead ?_ fun p q hp => hp.cons c
        rcases cases_of_rel h.closeQuote? with ⟨hs, ht⟩ | ⟨⟨raw, r⟩, ⟨raw', r'⟩, hs, ht, hp⟩
        · rw [hs, ht]
          exact .cons h .nil
        · have hlt' : r.length < k := by
            have := congrArg List.length (eq_of_closeQuote? hs)
            simp only [List.length_append, List.length_cons] at this
            omega
          rw [hs, ht]
          exact forall₂_modifyHead (ih _ hlt' n hp.2 rfl) fun p q hpq =>
            hp.1.append (hpq.cons '"')
      rw [if_neg hq, if_neg hq]
      by_cases hb : isBracket c = true
      · rw [if_pos hb, if_pos hb]
        exact forall₂_modifyHead (ih _ hlt _ h rfl) fun p q hp => hp.cons c
      rw [if_neg hb, if_neg hb]
      by_cases hdelim : (decide (c = delim) && n == 0) = true
      · rw [if_pos hdelim, if_pos hdelim]
        exact .cons .nil (ih _ hlt n h rfl)
      · rw [if_neg hdelim, if_neg hdelim]
        exact forall₂_modifyHead (ih _ hlt n h rfl) fun p q hp => hp.cons c
    | @newline _ s t h =>
      have hlt : s.length < k := by
        rw [← hl, List.length_cons]
        omega
      have hsb : isBracket ' ' = false := by decide
      have hnb : isBracket '\n' = false := by decide
      have hn : ∀ u, Source.topLevelParts delim n false ('\n' :: u) =
          (Source.topLevelParts delim n false u).modifyHead ('\n' :: ·) := by
        intro u
        simp [Source.topLevelParts, hnb, hd.2.symm]
      have hsp : ∀ u, Source.topLevelParts delim n false (' ' :: u) =
          (Source.topLevelParts delim n false u).modifyHead (' ' :: ·) := by
        intro u
        simp [Source.topLevelParts, hsb, hd.1.symm]
      rw [hn, hsp, hn, List.modifyHead_modifyHead]
      exact forall₂_modifyHead (ih _ hlt n h rfl) fun p q hp => hp.newline

theorem topLevel {delim : Char} (hd : delim ≠ ' ' ∧ delim ≠ '\n') (h : Padded false s t) :
    List.Forall₂ (Padded false) (topLevel delim s) (topLevel delim t) := by
  have hparts := h.topLevelParts hd 0
  have hinit := List.forall₂_take ((Source.topLevelParts delim 0 false s).length - 1) hparts
  rw [← List.dropLast_eq_take] at hinit
  rw [hparts.length_eq, ← List.dropLast_eq_take] at hinit
  have hlast : ((Source.topLevelParts delim 0 false s).getLast?.getD []).all isBlank =
      ((Source.topLevelParts delim 0 false t).getLast?.getD []).all isBlank := by
    have hrev := List.rel_reverse hparts
    rw [← List.head?_reverse, ← List.head?_reverse]
    generalize (Source.topLevelParts delim 0 false s).reverse = ps at hrev
    generalize (Source.topLevelParts delim 0 false t).reverse = qs at hrev
    cases hrev with
    | nil => rfl
    | cons hr _ => exact hr.allBlank_eq
  unfold Source.topLevel
  simp only [hlast]
  split
  · exact hinit
  · exact hparts

/-! ## Words -/

theorem isIdentChar_space : isIdentChar ' ' = false ∧ isIdentChar '\n' = false := by decide

theorem word? (hl : Solid lit) (h : Padded last s t) :
    Option.Rel (Padded last) (word? lit s) (word? lit t) := by
  unfold Source.word?
  rcases cases_of_rel (h.after? hl) with ⟨hs, ht⟩ | ⟨r, r', hs, ht, hr⟩
  · rw [hs, ht]
    exact .none
  · rw [hs, ht, Option.filter_some, Option.filter_some,
      hr.endsHere_eq isIdentChar_space.1 isIdentChar_space.2]
    cases endsHere isIdentChar r' with
    | true => exact .some hr
    | false => exact .none

theorem keywordHere? (hl : Solid lit) (before : Option Char) (h : Padded last s t) :
    Option.Rel (Padded last) (keywordHere? lit before s) (keywordHere? lit before t) := by
  unfold Source.keywordHere?
  rcases cases_of_rel (h.after? hl) with ⟨hs, ht⟩ | ⟨r, r', hs, ht, hr⟩
  · rw [hs, ht]
    exact .none
  · rw [hs, ht]
    simp only [hr.endsHere_eq isIdentChar_space.1 isIdentChar_space.2]
    cases startsHere before && endsHere isIdentChar r' with
    | true => exact .some hr
    | false => exact .none

/-- A solid word is passed over no white space. -/
theorem keywordSearch_blank {c : Char} (hc : c = ' ' ∨ c = '\n') (hl : Solid lit) (hne : lit ≠ [])
    (before : Option Char) (s : Text) : keywordSearch lit before (c :: s) =
      (keywordSearch lit (some c) s).map fun p => (c :: p.1, p.2) := by
  obtain ⟨l, lit, rfl⟩ := List.exists_cons_of_ne_nil hne
  have hlc : l ≠ c := by
    rcases hc with rfl | rfl
    · exact hl.head.1
    · exact hl.head.2
  simp [keywordSearch, Source.keywordHere?, startsWith, Text.after?, hlc]

theorem keywordSearch (hl : Solid lit) (hne : lit ≠ []) (before : Option Char)
    (h : Padded last s t) : Option.Rel (PaddedPair last) (keywordSearch lit before s)
      (keywordSearch lit before t) := by
  induction h generalizing before with
  | nil =>
    obtain ⟨l, lit, rfl⟩ := List.exists_cons_of_ne_nil hne
    exact .none
  | space =>
    rw [keywordSearch_blank (.inl rfl) hl hne]
    obtain ⟨l, lit, rfl⟩ := List.exists_cons_of_ne_nil hne
    exact .none
  | cons c h ih =>
    rw [Source.keywordSearch, Source.keywordSearch]
    rcases cases_of_rel ((h.cons c).keywordHere? hl before) with ⟨hs, ht⟩ | ⟨r, r', hs, ht, hr⟩
    · rw [hs, ht, (h.cons c).startsWith_eq hl]
      dsimp only
      split
      · exact .none
      · exact rel_map (ih (some c)) fun p q hp => ⟨hp.1.cons c, hp.2⟩
    · rw [hs, ht]
      exact .some ⟨.nil, hr⟩
  | newline h ih =>
    rw [keywordSearch_blank (.inr rfl) hl hne, keywordSearch_blank (.inl rfl) hl hne,
      keywordSearch_blank (.inr rfl) hl hne, Option.map_map]
    exact rel_map (ih (some '\n')) fun p q hp => ⟨hp.1.newline, hp.2⟩

theorem keyword? (hl : Solid lit) (hne : lit ≠ []) (h : Padded last s t) :
    Option.Rel (Padded last) (keyword? lit s) (keyword? lit t) :=
  rel_map (h.keywordSearch hl hne none) fun _ _ hp => hp.2

/-- White space at the front, in texts that have no space put in at the end. -/
theorem blanks? (h : Padded false s t) : Option.Rel (Padded false) (blanks? s) (blanks? t) := by
  cases h with
  | nil => exact .none
  | @cons _ c s t h =>
    cases hc : isBlank c with
    | true => simpa [Source.blanks?, hc] using h.trimStart
    | false => simp [Source.blanks?, hc]
  | @newline _ s t h =>
    have hs : isBlank ' ' = true := by decide
    have hn : isBlank '\n' = true := by decide
    have ht : Text.trimStart ('\n' :: t) = Text.trimStart t := by simp [Text.trimStart, hn]
    simpa [Source.blanks?, hs, hn, ht] using h.trimStart

theorem natural? (h : Padded last s t) :
    Option.Rel (fun p q => p.1 = q.1 ∧ Padded last p.2 q.2) (natural? s) (natural? t) := by
  obtain ⟨htake, hdrop⟩ := h.takeWhile_eq (p := Char.isDigit) (by decide) (by decide)
  unfold Source.natural?
  simp only [htake]
  split
  · exact .none
  · split
    · exact .some ⟨rfl, hdrop⟩
    · exact .none

/-! ## Ends -/

/-- A place before a character that is no white space is a place of both texts. -/
theorem of_append_cons {c : Char} (hn : c ≠ '\n') {a r : Text} (h : Padded last (a ++ c :: r) t) :
    ∃ a' r', t = a' ++ c :: r' ∧ Padded false a a' ∧ Padded last r r' := by
  induction a generalizing t with
  | nil =>
    obtain ⟨r', rfl, hr⟩ := h.cons_left_of_ne hn
    exact ⟨[], r', rfl, .nil, hr⟩
  | cons d a ih =>
    rcases h.cons_left with ⟨u, rfl, hu⟩ | ⟨rfl, u, rfl, hu⟩
    · obtain ⟨a', r', rfl, ha, hr⟩ := ih hu
      exact ⟨d :: a', r', rfl, ha.cons d, hr⟩
    · obtain ⟨a', r', rfl, ha, hr⟩ := ih hu
      exact ⟨' ' :: '\n' :: a', r', rfl, ha.newline, hr⟩

theorem cutLast? {d : Char} (hs : d ≠ ' ') (hn : d ≠ '\n') (h : Padded last s t) :
    Option.Rel (PaddedPair last) (cutLast? d s) (cutLast? d t) := by
  cases hc : Text.cutLast? d s with
  | some p =>
    obtain ⟨hcut, hm⟩ := cutLast?_eq_some_iff.1 hc
    rw [hcut] at h
    obtain ⟨a, r, rfl, ha, hr⟩ := h.of_append_cons hn
    rw [cutLast?_eq_some_iff.2 ⟨rfl, mt (hr.mem_iff hs).2 hm⟩]
    exact .some ⟨ha, hr⟩
  | none =>
    -- the character is not in the one text, so it is not in the other
    have hms : ∀ u, Text.cutLast? d u = none ↔ d ∉ u := by
      intro u
      constructor
      · intro hu hm
        obtain ⟨x, y, hxy, hy⟩ := List.eq_append_cons_of_mem (List.mem_reverse.2 hm)
        have hcut : u = y.reverse ++ d :: x.reverse := by
          simpa using congrArg List.reverse hxy
        rw [cutLast?_eq_some_iff.2 ⟨hcut, by simpa using hy⟩] at hu
        cases hu
      · intro hm
        cases hu : Text.cutLast? d u with
        | none => rfl
        | some p =>
          rw [(cutLast?_eq_some_iff.1 hu).1] at hm
          simp at hm
    rw [(hms t).2 (mt (h.mem_iff hs).2 ((hms s).1 hc))]
    exact .none

theorem getLast?_eq (h : Padded false s t) : s.getLast? = t.getLast? := by
  generalize hl : false = l at h
  induction h with
  | nil => rfl
  | space => cases hl
  | cons c h ih => rw [List.getLast?_cons, List.getLast?_cons, ih hl]
  | newline h ih => rw [List.getLast?_cons, List.getLast?_cons, List.getLast?_cons, ih hl]; rfl

theorem before?_singleton_eq (c : Char) (s : Text) :
    Text.before? [c] s = if s.getLast? = some c then some s.dropLast else none := by
  split
  · rename_i h
    obtain ⟨r, rfl⟩ := List.getLast?_eq_some_iff.1 h
    rw [List.dropLast_concat]
    exact before?_eq_some_iff.2 rfl
  · rename_i h
    cases hb : Text.before? [c] s with
    | none => rfl
    | some r =>
      rw [before?_eq_some_iff.1 hb] at h
      simp at h

/-- One character at the end. -/
theorem before? {c : Char} (hn : c ≠ '\n') (h : Padded false s t) :
    Option.Rel (Padded false) (before? [c] s) (before? [c] t) := by
  rw [before?_singleton_eq, before?_singleton_eq, ← h.getLast?_eq]
  split
  · rename_i hlast
    obtain ⟨r, rfl⟩ := List.getLast?_eq_some_iff.1 hlast
    obtain ⟨a, r', rfl, ha, hr⟩ := h.of_append_cons hn
    cases hr
    simpa using ha
  · exact .none

end SpecHarvest.Text.Padded
