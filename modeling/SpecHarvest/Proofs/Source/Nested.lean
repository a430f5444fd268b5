import SpecHarvest.Proofs.Source.Balanced
import SpecHarvest.Text.WordChar

/-!
# Well-nested texts

`Nested d s`: in `s` every literal is closed and every bracket has its partner; with `d` a
character, it does not stand outside all brackets and literals.

* `Nested.matching?`: the search for a closing bracket passes over a well-nested text as over one
  character that it does not look for.
* `Nested.bracketed?`: so a bracketed text at the front ends at its own closing bracket.
* `Nested.balanced`: a well-nested text is balanced, so it is a part of a text that is cut.
-/

namespace SpecHarvest.Source

open Text

/-- The pairs of brackets. -/
def brackets : List (Char × Char) := [('(', ')'), ('[', ']'), ('{', '}')]

/-- Texts in which literals are closed and brackets matched, without a delimiter outside them. -/
inductive Nested : (delim : Option Char) → Text → Prop
  | nil {d : Option Char} : Nested d []
  | char {d : Option Char} {c : Char} {s : Text} : c ≠ '"' → isBracket c = false → d ≠ some c →
    Nested d s → Nested d (c :: s)
  | literal {d : Option Char} {raw s : Text} : Raw raw → Nested d s →
    Nested d ('"' :: (raw ++ '"' :: s))
  | bracketed {d : Option Char} {b : Char × Char} {inner s : Text} : b ∈ brackets →
    Nested none inner → Nested d s → Nested d (b.1 :: (inner ++ b.2 :: s))

variable {d : Option Char} {s : Text}

theorem Nested.append {t : Text} (h : Nested d s) (ht : Nested d t) : Nested d (s ++ t) := by
  induction h with
  | nil => exact ht
  | char hq hb hd _ ih => exact .char hq hb hd (ih ht)
  | literal hraw _ ih => simpa using Nested.literal hraw (ih ht)
  | bracketed hb hinner _ _ ih => simpa using Nested.bracketed hb hinner (ih ht)

theorem Nested.weaken (h : Nested d s) : Nested none s := by
  induction h with
  | nil => exact .nil
  | char hq hb _ _ ih => exact .char hq hb (by simp) ih
  | literal hraw _ ih => exact .literal hraw ih
  | bracketed hb hinner _ _ ih => exact .bracketed hb hinner ih

/-- A text of characters that are neither quotes, brackets nor the delimiter. -/
theorem Nested.of_forall (h : ∀ c ∈ s, c ≠ '"' ∧ isBracket c = false ∧ d ≠ some c) :
    Nested d s := by
  induction s with
  | nil => exact .nil
  | cons c s ih =>
    rw [List.forall_mem_cons] at h
    obtain ⟨⟨hq, hb, hd⟩, hs⟩ := h
    exact .char hq hb hd (ih hs)

/-- A text of a class that has neither quotes, brackets nor the delimiter. -/
theorem Nested.of_class {p : Char → Bool} (hs : s.all p = true)
    (hp : ("\"()[]{}".toList ++ d.toList).all (!p ·) = true) : Nested d s := by
  rw [List.all_eq_true] at hs hp
  have hne {c e : Char} (hc : p c = true) (he : e ∈ "\"()[]{}".toList ++ d.toList) : c ≠ e := by
    rintro rfl
    have := hp c he
    rw [hc] at this
    cases this
  refine .of_forall fun c hc => ⟨hne (hs c hc) (by simp), ?_, ?_⟩
  · exact isBracket_of_not_mem fun hb => hne (hs c hc) (e := c) (by simp_all) rfl
  · rintro rfl
    exact hne (hs c hc) (by simp) rfl

theorem nested_word {w : Text} (h : w.all isIdentChar = true) : Nested (some ',') w :=
  .of_class h (by decide)

theorem nested_blank {g : Text} (h : allBlank g = true) : Nested (some ',') g :=
  .of_class h (by decide)

/-! ## Bracket matching -/

theorem ne_of_mem_brackets {b : Char × Char} (h : b ∈ brackets) :
    b.1 ≠ '"' ∧ b.2 ≠ '"' ∧ b.1 ≠ b.2 ∧ isBracket b.1 = true ∧ isBracket b.2 = true := by
  revert b
  decide

/-- Brackets of two pairs share no character. -/
theorem eq_or_apart {a b : Char × Char} (ha : a ∈ brackets) (hb : b ∈ brackets) :
    a = b ∨ (a.1 ≠ b.1 ∧ a.1 ≠ b.2) ∧ a.2 ≠ b.1 ∧ a.2 ≠ b.2 := by
  have hall : ∀ a ∈ brackets, ∀ b ∈ brackets,
      a = b ∨ (a.1 ≠ b.1 ∧ a.1 ≠ b.2) ∧ a.2 ≠ b.1 ∧ a.2 ≠ b.2 := by decide
  exact hall a ha b hb

/-- A character that is neither a quote nor one of the two brackets is passed over. -/
theorem matching?_of_ne {opened closed c : Char} (hq : c ≠ '"') (ho : c ≠ opened)
    (hc : c ≠ closed) (n : Nat) (s : Text) : matching? opened closed n false (c :: s) =
      (matching? opened closed n false s).map fun p => (c :: p.1, p.2) := by
  rw [matching?_cons, if_neg hq, if_neg ho, if_neg hc]

/-- **A well-nested text is passed over** on the way to a closing bracket. -/
theorem Nested.matching? (h : Nested d s) {b : Char × Char} (hb : b ∈ brackets) (n : Nat)
    (rest : Text) : Source.matching? b.1 b.2 (n + 1) false (s ++ rest) =
      (Source.matching? b.1 b.2 (n + 1) false rest).map fun p => (s ++ p.1, p.2) := by
  obtain ⟨-, hq₂, hne, ho, hc⟩ := ne_of_mem_brackets hb
  have hclosed : ∀ m t, Source.matching? b.1 b.2 (m + 2) false (b.2 :: t) =
      (Source.matching? b.1 b.2 (m + 1) false t).map fun p => (b.2 :: p.1, p.2) := by
    intro m t
    rw [matching?_cons, if_neg hq₂, if_neg (Ne.symm hne), if_pos rfl]
    rfl
  induction h generalizing n rest with
  | nil => simp
  | @char d c s hq hbr _ _ ih =>
    have hne₁ : c ≠ b.1 := by
      rintro rfl
      rw [hbr] at ho
      cases ho
    have hne₂ : c ≠ b.2 := by
      rintro rfl
      rw [hbr] at hc
      cases hc
    rw [List.cons_append, matching?_of_ne hq hne₁ hne₂, ih]
    simp [Function.comp_def]
  | @literal d raw s hraw _ ih =>
    rw [List.cons_append, List.append_assoc, List.cons_append, matching?_cons, if_pos rfl,
      matching?_literal, hraw.closeQuote?, Option.bind_some, ih]
    simp [Function.comp_def]
  | @bracketed d a inner s ha _ _ ihi ih =>
    have htext : a.1 :: (inner ++ a.2 :: s) ++ rest = a.1 :: (inner ++ a.2 :: (s ++ rest)) := by simp
    rw [htext]
    rcases eq_or_apart ha hb with rfl | ⟨⟨h₁, h₂⟩, h₃, h₄⟩
    · -- the same pair: one deeper within, and back after it
      rw [matching?_cons, if_neg (ne_of_mem_brackets ha).1, if_pos rfl, ihi, hclosed, ih]
      simp [Function.comp_def]
    · obtain ⟨hq₁', hq₂', -⟩ := ne_of_mem_brackets ha
      rw [matching?_of_ne hq₁' h₁ h₂, ihi, matching?_of_ne hq₂' h₃ h₄, ih]
      simp [Function.comp_def]

/-- **A bracketed text at the front** ends at its own closing bracket. -/
theorem Nested.bracketed? {b : Char × Char} (hb : b ∈ brackets) (h : Nested d s) (rest : Text) :
    Source.bracketed? b.1 b.2 (b.1 :: (s ++ b.2 :: rest)) = some (s, rest) := by
  obtain ⟨-, hq, hne, -, -⟩ := ne_of_mem_brackets hb
  rw [Source.bracketed?, if_pos rfl, h.matching? hb 0, matching?_cons, if_neg hq,
    if_neg (Ne.symm hne), if_pos rfl]
  simp

/-! ## Cutting at delimiters -/

theorem depthAfter_of_mem_brackets {b : Char × Char} (h : b ∈ brackets) (n : Int) :
    depthAfter n b.1 = n + 1 ∧ depthAfter n b.2 = n - 1 := by
  simp only [brackets, List.mem_cons, List.not_mem_nil, or_false] at h
  rcases h with rfl | rfl | rfl <;> exact ⟨rfl, rfl⟩

theorem stateAfter_bracket {c : Char} (hq : c ≠ '"') (n : Int) (s : Text) :
    stateAfter n false (c :: s) = stateAfter (depthAfter n c) false s := by
  rw [stateAfter, if_neg hq]

theorem stateAfter_char {c : Char} (hq : c ≠ '"') (hb : isBracket c = false) (n : Int) (s : Text) :
    stateAfter n false (c :: s) = stateAfter n false s := by
  rw [stateAfter_bracket hq, depthAfter_of_isBracket_eq_false hb]

theorem Raw.stateAfter {raw : Text} (h : Raw raw) (n : Int) (rest : Text) :
    Source.stateAfter n true (raw ++ '"' :: rest) = Source.stateAfter n false rest := by
  induction h with
  | nil => exact stateAfter_inside (by decide) n rest
  | escaped c _ ih => exact ih
  | @plain c s hq hb _ ih =>
    have hne : (c != '"') = true := by simpa using hq
    rw [List.cons_append, stateAfter_inside hb, hne, ih]

/-- No place of a literal lies outside it. -/
theorem Raw.stateAfter_prefix {raw : Text} (h : Raw raw) (n : Int) {x : Text} (hx : x <+: raw) :
    (Source.stateAfter n true x).2 = true := by
  induction h generalizing x with
  | nil => rw [List.prefix_nil.1 hx, Source.stateAfter]
  | escaped c _ ih =>
    cases x with
    | nil => rfl
    | cons e x =>
      obtain ⟨rfl, hx'⟩ := List.cons_prefix_cons.1 hx
      cases x with
      | nil => rfl
      | cons f x => exact ih (x := x) (List.cons_prefix_cons.1 hx').2
  | @plain c s hq hb _ ih =>
    cases x with
    | nil => rfl
    | cons e x =>
      obtain ⟨rfl, hx'⟩ := List.cons_prefix_cons.1 hx
      have hne : (e != '"') = true := by simpa using hq
      rw [stateAfter_inside hb, hne, ih hx']

/-- **A well-nested text leaves no bracket and no literal open.** -/
theorem Nested.stateAfter (h : Nested d s) (n : Int) (rest : Text) :
    Source.stateAfter n false (s ++ rest) = Source.stateAfter n false rest := by
  induction h generalizing n rest with
  | nil => rfl
  | char hq hb _ _ ih => rw [List.cons_append, stateAfter_char hq hb, ih]
  | @literal d raw s hraw _ ih =>
    rw [List.cons_append, List.append_assoc, List.cons_append, Source.stateAfter, if_pos rfl,
      hraw.stateAfter, ih]
  | @bracketed d b inner s hb _ _ ihi ih =>
    obtain ⟨hq₁, hq₂, -⟩ := ne_of_mem_brackets hb
    obtain ⟨hopen, -⟩ := depthAfter_of_mem_brackets hb n
    have hback : depthAfter (n + 1) b.2 = n := by
      rw [(depthAfter_of_mem_brackets hb (n + 1)).2]
      omega
    have htext : b.1 :: (inner ++ b.2 :: s) ++ rest = b.1 :: (inner ++ b.2 :: (s ++ rest)) := by simp
    rw [htext, stateAfter_bracket hq₁, hopen, ihi, stateAfter_bracket hq₂, hback, ih]

theorem prefix_append_cases {x a b : Text} {c : Char} (h : x ++ [c] <+: a ++ b) :
    x ++ [c] <+: a ∨ ∃ z, x = a ++ z ∧ z ++ [c] <+: b := by
  rcases List.prefix_or_prefix_of_prefix h (List.prefix_append a b) with hx | ha
  · exact .inl hx
  · rcases List.prefix_concat_iff.1 ha with rfl | ⟨z, rfl⟩
    · exact .inl List.prefix_rfl
    · rw [List.append_assoc, List.prefix_append_right_inj] at h
      exact .inr ⟨z, rfl, h⟩

variable {delim : Char}

/-- **No delimiter of a well-nested text stands outside brackets and literals**, if none was allowed
there or the text stands within brackets. -/
theorem Nested.uncut (h : Nested d s) (hdq : delim ≠ '"') (hdb : isBracket delim = false) {n : Int}
    (hn : 0 ≤ n) (hd : n = 0 → d = some delim) {x : Text} (hx : x ++ [delim] <+: s) :
    Source.stateAfter n false x ≠ (0, false) := by
  induction h generalizing n x with
  | nil => simp at hx
  | @char d c s hq hb hc _ ih =>
    cases x with
    | nil =>
      obtain ⟨rfl, -⟩ := List.cons_prefix_cons.1 hx
      intro h0
      exact hc (hd (Prod.mk.inj h0).1)
    | cons e x =>
      obtain ⟨rfl, hx'⟩ := List.cons_prefix_cons.1 hx
      rw [stateAfter_char hq hb]
      exact ih hn hd hx'
  | @literal d raw s hraw _ ih =>
    cases x with
    | nil => exact absurd (List.cons_prefix_cons.1 hx).1 hdq
    | cons e x =>
      obtain ⟨rfl, hx'⟩ := List.cons_prefix_cons.1 hx
      rw [Source.stateAfter, if_pos rfl]
      rcases prefix_append_cases hx' with hin | ⟨z, rfl, hz⟩
      · intro h0
        have := hraw.stateAfter_prefix n ((List.prefix_append x _).trans hin)
        rw [h0] at this
        cases this
      · cases z with
        | nil => exact absurd (List.cons_prefix_cons.1 hz).1 hdq
        | cons e z =>
          obtain ⟨rfl, hz'⟩ := List.cons_prefix_cons.1 hz
          rw [hraw.stateAfter]
          exact ih hn hd hz'
  | @bracketed d b inner s hb hinner _ ihi ih =>
    obtain ⟨hq₁, hq₂, -, hb₁, hb₂⟩ := ne_of_mem_brackets hb
    obtain ⟨hopen, -⟩ := depthAfter_of_mem_brackets hb n
    cases x with
    | nil =>
      obtain ⟨rfl, -⟩ := List.cons_prefix_cons.1 hx
      rw [hb₁] at hdb
      cases hdb
    | cons e x =>
      obtain ⟨rfl, hx'⟩ := List.cons_prefix_cons.1 hx
      rw [stateAfter_bracket hq₁, hopen]
      rcases prefix_append_cases hx' with hin | ⟨z, rfl, hz⟩
      · exact ihi (by omega) (by omega) hin
      · cases z with
        | nil =>
          obtain ⟨rfl, -⟩ := List.cons_prefix_cons.1 hz
          rw [hb₂] at hdb
          cases hdb
        | cons e z =>
          obtain ⟨rfl, hz'⟩ := List.cons_prefix_cons.1 hz
          have hback : depthAfter (n + 1) b.2 = n := by
            rw [(depthAfter_of_mem_brackets hb (n + 1)).2]
            omega
          rw [hinner.stateAfter, stateAfter_bracket hq₂, hback]
          exact ih hn hd hz'

/-- **Well-nested texts are balanced.** -/
theorem Nested.balanced (h : Nested (some delim) s) (hdq : delim ≠ '"')
    (hdb : isBracket delim = false) : Balanced delim s where
  closed := by
    have hs := h.stateAfter 0 []
    rwa [List.append_nil] at hs
  uncut _ := h.uncut hdq hdb (Int.le_refl 0) fun _ => rfl

end SpecHarvest.Source
