import SpecHarvest.Proofs.Source.Padding

/-!
# Parts of a text and where they stand

An `Excerpt` is a part of a text with what stands before and after it, so that it is known which
characters of the text are its own.

* `Excerpt.inner`: excerpts of an excerpt. `excerptsOf`: the excerpts of texts that are joined.
* `Spaced n s t`: the text `t` is `s` with a space put in at the offset `n`, where a line ends.
* `PaddedExcerpt.text_eq_iff`: a space that is put into a text changes the excerpt that has the end
  of the line, and no other.
-/

namespace SpecHarvest.Text

/-! ## Excerpts -/

/-- A part of a text. -/
structure Excerpt where
  /-- What stands before the part. -/
  before : Text
  text : Text
  /-- What stands after the part. -/
  after : Text
  deriving DecidableEq, Repr

namespace Excerpt

/-- The text that an excerpt is taken from. -/
def source (e : Excerpt) : Text := e.before ++ (e.text ++ e.after)

/-- An excerpt of a text, in the text that goes on before and after that. -/
def between (e : Excerpt) (front back : Text) : Excerpt where
  before := front ++ e.before
  text := e.text
  after := e.after ++ back

/-- The excerpts that are listed for the text of an excerpt, in the text that it is taken from. -/
def inner (e : Excerpt) (list : Text → List Excerpt) : List Excerpt :=
  (list e.text).map (·.between e.before e.after)

/-- Whether the character at an offset is one of an excerpt. -/
def Covers (e : Excerpt) (n : Nat) : Prop :=
  e.before.length ≤ n ∧ n < e.before.length + e.text.length

instance (e : Excerpt) : DecidablePred e.Covers := fun _ => inferInstanceAs (Decidable (_ ∧ _))

@[simp] theorem text_between (e : Excerpt) (front back : Text) :
    (e.between front back).text = e.text := rfl

@[simp] theorem source_between (e : Excerpt) (front back : Text) :
    (e.between front back).source = front ++ (e.source ++ back) := by
  simp [source, between]

variable {e : Excerpt} {list : Text → List Excerpt}

@[simp] theorem map_text_inner : (e.inner list).map (·.text) = (list e.text).map (·.text) := by
  rw [inner, List.map_map]
  rfl

theorem source_of_mem_inner (h : ∀ s, ∀ f ∈ list s, f.source = s) :
    ∀ f ∈ e.inner list, f.source = e.source := by
  intro f hf
  obtain ⟨f, hl, rfl⟩ := List.mem_map.1 hf
  rw [source_between, h _ f hl]
  rfl

end Excerpt

/-- The excerpts that are listed for each of some texts, in these texts joined by a separator and
with a text before them. -/
def excerptsOf (list : Text → List Excerpt) (sep before : Text) : List Text → List Excerpt
  | [] => []
  | s :: rest => (⟨before, s, rest.flatMap (sep ++ ·)⟩ : Excerpt).inner list ++
      excerptsOf list sep (before ++ s ++ sep) rest

section
variable {list : Text → List Excerpt} {sep before : Text} {ss : List Text}

theorem map_text_excerptsOf : (excerptsOf list sep before ss).map (·.text) =
    ss.flatMap fun s => (list s).map (·.text) := by
  induction ss generalizing before with
  | nil => rfl
  | cons s rest ih =>
    rw [excerptsOf, List.map_append, Excerpt.map_text_inner, ih, List.flatMap_cons]

theorem intercalate_cons_eq (sep s : Text) (rest : List Text) :
    sep.intercalate (s :: rest) = s ++ rest.flatMap (sep ++ ·) := by
  induction rest generalizing s with
  | nil => simp
  | cons t rest ih =>
    rw [List.intercalate_cons_cons, ih, List.flatMap_cons]
    simp only [List.append_assoc]

theorem nil_intercalate (ss : List Text) : ([] : Text).intercalate ss = ss.flatten := by
  cases ss with
  | nil => rfl
  | cons s rest =>
    rw [intercalate_cons_eq]
    simp

theorem source_of_mem_excerptsOf (h : ∀ s, ∀ e ∈ list s, e.source = s) :
    ∀ e ∈ excerptsOf list sep before ss, e.source = before ++ sep.intercalate ss := by
  induction ss generalizing before with
  | nil => nofun
  | cons s rest ih =>
    intro e he
    rw [excerptsOf, List.mem_append] at he
    rcases he with he | he
    · rw [Excerpt.source_of_mem_inner h e he, Excerpt.source, intercalate_cons_eq]
    · rw [ih e he]
      cases rest with
      | nil => cases he
      | cons t rest =>
        rw [List.intercalate_cons_cons]
        simp only [List.append_assoc]

end

/-! ## White space around a text -/

/-- The white space at the end of a text. -/
def blanksAfter (s : Text) : Text := (s.reverse.takeWhile isBlank).reverse

/-- The white space at the start of a text, unless the text is nothing else. -/
def blanksBefore (s : Text) : Text := (trimEnd s).takeWhile isBlank

/-- A text without the white space around it, as an excerpt. -/
def Excerpt.trimmed (s : Text) : Excerpt := ⟨blanksBefore s, trim s, blanksAfter s⟩

@[simp] theorem Excerpt.text_trimmed (s : Text) : (Excerpt.trimmed s).text = trim s := rfl

theorem trim_eq_trimStart (s : Text) : trim s = trimStart (trimEnd s) := by
  rw [← trim_trimEnd, trim]
  have hsplit := takeWhile_append_trimStart (trimEnd s)
  have happend := trimEnd_append ((trimEnd s).takeWhile isBlank) (trimStart (trimEnd s))
  rw [hsplit, trimEnd_trimEnd] at happend
  split at happend
  · next h =>
    have hnil : trimEnd s = [] := by
      rw [happend, trimEnd_eq_nil_iff]
      exact allBlank_takeWhile _
    rw [hnil]
    rfl
  · exact (List.append_cancel_left (hsplit.trans happend)).symm

theorem trimEnd_append_blanksAfter (s : Text) : trimEnd s ++ blanksAfter s = s := by
  rw [trimEnd, blanksAfter, ← List.reverse_append, List.takeWhile_append_dropWhile,
    List.reverse_reverse]

theorem Excerpt.source_trimmed (s : Text) : (Excerpt.trimmed s).source = s := by
  rw [source, trimmed, ← List.append_assoc, trim_eq_trimStart, blanksBefore,
    takeWhile_append_trimStart, trimEnd_append_blanksAfter]

theorem blanksAfter_of_allBlank {s : Text} (h : allBlank s = true) : blanksAfter s = s := by
  rw [blanksAfter, List.takeWhile_eq_self_iff.2, List.reverse_reverse]
  simpa [allBlank] using h

theorem blanksAfter_append_cons {c : Char} (hc : isBlank c = false) (x : Text) {w : Text}
    (h : allBlank w = true) : blanksAfter (x ++ c :: w) = w := by
  have hw : ∀ d ∈ w.reverse, isBlank d = true := by simpa [allBlank] using h
  rw [blanksAfter, List.reverse_append, List.reverse_cons, List.append_assoc,
    List.takeWhile_append_of_pos hw]
  simp [hc]

/-! ## Padded texts -/

namespace Padded

variable {last : Bool} {s t : Text}

theorem length_le (h : Padded last s t) : s.length ≤ t.length := by
  induction h with
  | nil => exact Nat.le_refl _
  | space => exact Nat.zero_le _
  | cons c h ih => exact Nat.succ_le_succ ih
  | newline h ih =>
    simp only [List.length_cons]
    omega

theorem eq_of_length_le (h : Padded last s t) (hl : t.length ≤ s.length) : t = s := by
  induction h with
  | nil => rfl
  | space => cases hl
  | cons c h ih => rw [ih (Nat.le_of_succ_le_succ hl)]
  | newline h ih =>
    have := h.length_le
    simp only [List.length_cons] at hl
    omega

/-- The first space that is put in stands before a line feed. -/
theorem exists_newline (h : Padded false s t) (hne : t ≠ s) :
    ∃ u v w, s = u ++ '\n' :: v ∧ t = u ++ ' ' :: '\n' :: w := by
  generalize hl : false = l at h
  induction h with
  | nil => exact absurd rfl hne
  | space => cases hl
  | cons c h ih =>
    obtain ⟨u, v, w, rfl, rfl⟩ := ih (fun he => hne (by rw [he])) hl
    exact ⟨c :: u, v, w, rfl, rfl⟩
  | newline h => exact ⟨[], _, _, rfl, rfl⟩

/-- Texts that are put together are padded each on its own. -/
theorem eq_of_append_eq {a b a' b' : Text} (ha : Padded false a a') (hb : Padded last b b')
    (h : a' ++ b' = a ++ b) : a' = a ∧ b' = b := by
  have hlen := congrArg List.length h
  have hle := ha.length_le
  have hle' := hb.length_le
  simp only [List.length_append] at hlen
  exact ⟨ha.eq_of_length_le (by omega), hb.eq_of_length_le (by omega)⟩

theorem takeWhile_isBlank (h : Padded false s t) :
    Padded false (s.takeWhile isBlank) (t.takeWhile isBlank) := by
  have hs : isBlank ' ' = true := by decide
  have hn : isBlank '\n' = true := by decide
  generalize hl : false = l at h
  induction h with
  | nil => exact .nil
  | space => cases hl
  | cons c h ih =>
    cases hc : isBlank c with
    | true => simpa [hc] using (ih hl).cons c
    | false => simpa [hc] using .nil
  | newline h ih => simpa [hs, hn] using (ih hl).newline

theorem blanksAfter (h : Padded last s t) : Padded last (blanksAfter s) (blanksAfter t) := by
  obtain ⟨w, hs, hw⟩ := exists_trimEnd_append s
  cases hx : Text.trimEnd s using List.reverseRecOn with
  | nil =>
    have hall := trimEnd_eq_nil_iff.1 hx
    rwa [blanksAfter_of_allBlank hall, blanksAfter_of_allBlank (h.allBlank_eq ▸ hall)]
  | append_singleton x c =>
    have hc : isBlank c = false := by
      refine isBlank_of_trimStart_eq_cons (s := s.reverse) (r := x.reverse) ?_
      simpa [Text.trimEnd, Text.trimStart] using congrArg List.reverse hx
    have hn : c ≠ '\n' := by
      rintro rfl
      cases hc
    rw [hx, List.append_assoc, List.singleton_append] at hs
    subst hs
    obtain ⟨x', w', rfl, -, hw'⟩ := h.of_append_cons hn
    rwa [blanksAfter_append_cons hc x hw, blanksAfter_append_cons hc x' (hw'.allBlank_eq ▸ hw)]

end Padded

/-! ## Excerpts of padded texts -/

/-- Excerpts of a text and of its padded form that stand in the same place. -/
structure PaddedExcerpt (last : Bool) (e f : Excerpt) : Prop where
  before : Padded false e.before f.before
  text : Padded false e.text f.text
  after : Padded last e.after f.after

/-- Lists of excerpts of a text and of its padded form. -/
abbrev PaddedExcerpts (last : Bool) : List Excerpt → List Excerpt → Prop :=
  List.Forall₂ (PaddedExcerpt last)

variable {last : Bool} {e f : Excerpt} {list : Text → List Excerpt}

theorem PaddedExcerpt.trimmed {s t : Text} (h : Padded last s t) :
    PaddedExcerpt last (.trimmed s) (.trimmed t) :=
  ⟨h.trimEnd.takeWhile_isBlank, h.trim, h.blanksAfter⟩

theorem PaddedExcerpt.between (h : PaddedExcerpt false e f) {x x' y y' : Text}
    (hx : Padded false x x') (hy : Padded last y y') :
    PaddedExcerpt last (e.between x y) (f.between x' y') :=
  ⟨hx.append h.before, h.text, h.after.append hy⟩

theorem PaddedExcerpt.behind (h : PaddedExcerpt last e f) {x x' : Text} (hx : Padded false x x') :
    PaddedExcerpt last (e.between x []) (f.between x' []) :=
  ⟨hx.append h.before, h.text, by simpa [Excerpt.between] using h.after⟩

theorem PaddedExcerpt.inner (h : PaddedExcerpt last e f)
    (hl : ∀ {s t}, Padded false s t → PaddedExcerpts false (list s) (list t)) :
    PaddedExcerpts last (e.inner list) (f.inner list) := by
  unfold Excerpt.inner PaddedExcerpts
  rw [List.forall₂_map_left_iff, List.forall₂_map_right_iff]
  exact (hl h.text).imp fun _ _ he => he.between h.before h.after

namespace PaddedExcerpts

variable {es fs : List Excerpt}

theorem behind (h : PaddedExcerpts last es fs) {x x' : Text} (hx : Padded false x x') :
    PaddedExcerpts last (es.map (·.between x [])) (fs.map (·.between x' [])) := by
  unfold PaddedExcerpts
  rw [List.forall₂_map_left_iff, List.forall₂_map_right_iff]
  exact h.imp fun _ _ he => he.behind hx

theorem length_map_text (h : PaddedExcerpts last es fs) :
    (es.map (·.text)).length = (fs.map (·.text)).length := by
  rw [List.length_map, List.length_map, h.length_eq]

/-- **Excerpts of joined texts.** -/
theorem excerptsOf {sep before before' : Text} {ss ts : List Text}
    (hl : ∀ {last s t}, Padded last s t → PaddedExcerpts last (list s) (list t))
    (hb : Padded false before before') (h : PaddedTexts last ss ts) :
    PaddedExcerpts last (excerptsOf list sep before ss) (excerptsOf list sep before' ts) := by
  induction h generalizing before before' with
  | nil => exact .nil
  | single hp => exact List.rel_append ((hl hp).behind hb) .nil
  | cons hp h ih =>
    refine List.rel_append ?_ (ih ((hb.append hp).append (.refl false sep)))
    exact PaddedExcerpt.inner ⟨hb, hp, h.flatMap sep⟩ hl

end PaddedExcerpts

/-! ## One space -/

/-- A text with a space put in at an offset where a line ends. -/
def Spaced (n : Nat) (s t : Text) : Prop :=
  ∃ u v, s = u ++ v ∧ t = u ++ ' ' :: v ∧ u.length = n ∧ (v = [] ∨ ∃ w, v = '\n' :: w)

section
variable {n : Nat} {a b a' b' : Text} (h : Spaced n (a ++ b) (a' ++ b')) (ha : Padded false a a')
include h ha

/-- A space before a place leaves what stands after the place as it is. -/
theorem Spaced.append_of_lt (hb : Padded last b b') (hlt : n < a.length) : a' ≠ a ∧ b' = b := by
  obtain ⟨u, v, hs, ht, rfl, hv⟩ := h
  obtain ⟨w, rfl, rfl⟩ : ∃ w, a = u ++ w ∧ v = w ++ b := by
    rcases List.append_eq_append_iff.1 hs with ⟨w, rfl, rfl⟩ | ⟨w, rfl, rfl⟩
    · rw [List.length_append] at hlt
      omega
    · exact ⟨w, rfl, rfl⟩
  have hw : w ≠ [] := by
    rintro rfl
    simp at hlt
  obtain ⟨d, w, rfl⟩ := List.exists_cons_of_ne_nil hw
  obtain ⟨_, ⟨rfl, rfl⟩⟩ : ∃ z, d = '\n' ∧ w ++ b = z := by
    simpa using hv
  have hne : a' ≠ u ++ '\n' :: w := by
    rintro rfl
    rw [List.append_assoc, List.append_cancel_left_eq] at ht
    cases ht
  have hlonger : (u ++ '\n' :: w).length < a'.length := by
    by_contra hge
    exact hne (ha.eq_of_length_le (Nat.not_lt.1 hge))
  have hlen := congrArg List.length ht
  simp only [List.length_append, List.length_cons] at hlen hlonger
  exact ⟨hne, hb.eq_of_length_le (by omega)⟩

/-- A space after a place leaves what stands before the place as it is. -/
theorem Spaced.append_of_le (hle : a.length ≤ n) : a' = a ∧ Spaced (n - a.length) b b' := by
  obtain ⟨u, v, hs, ht, rfl, hv⟩ := h
  obtain ⟨w, rfl, rfl⟩ : ∃ w, u = a ++ w ∧ b = w ++ v := by
    rcases List.append_eq_append_iff.1 hs with ⟨w, rfl, rfl⟩ | ⟨w, rfl, rfl⟩
    · exact ⟨w, rfl, rfl⟩
    · rw [List.length_append] at hle
      have hw : w = [] := List.length_eq_zero_iff.1 (by omega)
      subst hw
      exact ⟨[], by simp, by simp⟩
  have heq : a' = a := by
    by_contra hne
    -- the one text has a line feed where the other has a space
    obtain ⟨x, y, z, rfl, rfl⟩ := ha.exists_newline hne
    simp only [List.append_assoc, List.append_cancel_left_eq, List.cons_append] at ht
    cases ht
  subst heq
  rw [List.append_assoc, List.append_cancel_left_eq] at ht
  refine ⟨rfl, w, v, rfl, ht, ?_, hv⟩
  rw [List.length_append, Nat.add_sub_cancel_left]

end

/-- **A space changes an excerpt** if the end of the line is in it, and not otherwise. -/
theorem PaddedExcerpt.text_eq_iff {n : Nat} (h : PaddedExcerpt last e f)
    (hs : Spaced n e.source f.source) : f.text = e.text ↔ ¬e.Covers n := by
  have hrest : Padded last (e.text ++ e.after) (f.text ++ f.after) := h.text.append h.after
  unfold Excerpt.Covers
  by_cases hbefore : n < e.before.length
  · have heq := (Spaced.append_of_lt hs h.before hrest hbefore).2
    exact iff_of_true (h.text.eq_of_append_eq h.after heq).1 (by omega)
  · have hs' := (Spaced.append_of_le hs h.before (Nat.not_lt.1 hbefore)).2
    by_cases htext : n - e.before.length < e.text.length
    · exact iff_of_false (hs'.append_of_lt h.text h.after htext).1 (by omega)
    · exact iff_of_true (hs'.append_of_le h.text (Nat.not_lt.1 htext)).1 (by omega)

/-- **A space changes some of the excerpts** of a text if the end of the line is in one of them. -/
theorem PaddedExcerpts.map_text_eq_iff {n : Nat} {s t : Text} {es fs : List Excerpt}
    (h : PaddedExcerpts last es fs) (hs : Spaced n s t) (he : ∀ e ∈ es, e.source = s)
    (hf : ∀ f ∈ fs, f.source = t) :
    fs.map (·.text) = es.map (·.text) ↔ ∀ e ∈ es, ¬e.Covers n := by
  induction h with
  | nil => simp
  | @cons e f es fs hp _ ih =>
    have hsource : Spaced n e.source f.source := by
      rwa [he e List.mem_cons_self, hf f List.mem_cons_self]
    rw [List.map_cons, List.map_cons, List.cons.injEq, hp.text_eq_iff hsource, List.forall_mem_cons,
      ih (fun e hm => he e (List.mem_cons_of_mem _ hm)) fun f hm => hf f (List.mem_cons_of_mem _ hm)]

end SpecHarvest.Text
