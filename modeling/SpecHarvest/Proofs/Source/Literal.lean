import Mathlib.Algebra.Ring.Parity
import Mathlib.Data.List.Induction
import SpecHarvest.Source.Literal

/-!
# What string literals hold

`Raw raw`: `raw` can stand between the quotes of a literal. In it a backslash goes with the
character after it, and no quote stands on its own.

* `closeQuote?_eq_some_iff`: a literal ends at the first quote that leaves such a text before it.
* `raw_escape`, `unescape_escape`: every text can be written in a literal and is read back from it.
* `raw_iff`: told by `backslashes`, how many backslashes a text ends with: their number is odd before
  each quote of a literal and even at its end.
* `Raw.not_blank_quote`: no quote in a literal comes right after white space.
-/

namespace SpecHarvest.Source

open Text

/-- What a string literal can hold, as it is written. -/
inductive Raw : Text → Prop
  | nil : Raw []
  | escaped (c : Char) {s : Text} : Raw s → Raw ('\\' :: c :: s)
  | plain {c : Char} {s : Text} : c ≠ '"' → c ≠ '\\' → Raw s → Raw (c :: s)

theorem Raw.closeQuote? {raw : Text} (h : Raw raw) (rest : Text) :
    closeQuote? (raw ++ '"' :: rest) = some (raw, rest) := by
  induction h with
  | nil => simp [Source.closeQuote?]
  | escaped c _ ih => simp [Source.closeQuote?, ih]
  | plain hq hb _ ih => simp [Source.closeQuote?, hq, hb, ih]

theorem raw_of_closeQuote? {s raw rest : Text} (h : closeQuote? s = some (raw, rest)) :
    Raw raw := by
  fun_induction Source.closeQuote? s generalizing raw with
  | case1 => simp at h
  | case2 c s ih =>
    obtain ⟨⟨r, t⟩, hr, he⟩ := Option.map_eq_some_iff.1 h
    obtain ⟨rfl, rfl⟩ := Prod.mk.inj he
    exact .escaped c (ih hr)
  | case3 =>
    obtain ⟨rfl, rfl⟩ := Prod.mk.inj (Option.some.inj h)
    exact .nil
  | case4 c s hb hc ih =>
    obtain ⟨⟨r, t⟩, hr, he⟩ := Option.map_eq_some_iff.1 h
    obtain ⟨rfl, rfl⟩ := Prod.mk.inj he
    -- a backslash would take the next character with it, or end the text
    have hne : c ≠ '\\' := by
      rintro rfl
      cases s with
      | nil => simp [Source.closeQuote?] at hr
      | cons d s => exact hb d s rfl rfl
    exact .plain hc hne (ih hr)

/-- **Where a literal ends.** -/
theorem closeQuote?_eq_some_iff {s raw rest : Text} :
    closeQuote? s = some (raw, rest) ↔ Raw raw ∧ s = raw ++ '"' :: rest := by
  refine ⟨fun h => ⟨raw_of_closeQuote? h, eq_of_closeQuote? h⟩, ?_⟩
  rintro ⟨h, rfl⟩
  exact h.closeQuote? rest

theorem Raw.quoted? {raw : Text} (h : Raw raw) (rest : Text) :
    Source.quoted? ('"' :: (raw ++ '"' :: rest)) = some (raw, rest) := h.closeQuote? rest

theorem quoted?_eq_some_iff {s raw rest : Text} :
    quoted? s = some (raw, rest) ↔ Raw raw ∧ s = '"' :: (raw ++ '"' :: rest) := by
  constructor
  · intro h
    unfold Source.quoted? at h
    split at h
    · obtain ⟨hraw, rfl⟩ := closeQuote?_eq_some_iff.1 h
      exact ⟨hraw, rfl⟩
    · cases h
  · rintro ⟨hraw, rfl⟩
    exact hraw.quoted? rest

/-- A literal ends at one quote only. -/
theorem Raw.append_inj {raw raw' x y : Text} (h : Raw raw) (h' : Raw raw')
    (heq : raw ++ '"' :: x = raw' ++ '"' :: y) : raw = raw' ∧ x = y := by
  have hclose := h.closeQuote? x
  rw [heq, h'.closeQuote?] at hclose
  obtain ⟨rfl, rfl⟩ := Prod.mk.inj (Option.some.inj hclose)
  exact ⟨rfl, rfl⟩

/-- A text that ends before the closing quote closes no literal. -/
theorem Raw.closeQuote?_eq_none {raw x y g : Text} (h : Raw raw)
    (heq : raw ++ '"' :: g = x ++ y) (hy : ¬y <:+ g) : Source.closeQuote? x = none := by
  rw [Option.eq_none_iff_forall_ne_some]
  rintro ⟨raw', rest⟩ hx
  obtain ⟨h', rfl⟩ := closeQuote?_eq_some_iff.1 hx
  rw [List.append_assoc, List.cons_append] at heq
  exact hy ⟨rest, (h.append_inj h' heq).2.symm⟩

instance : DecidablePred Raw := fun raw =>
  decidable_of_iff (closeQuote? (raw ++ ['"']) = some (raw, []))
    ⟨raw_of_closeQuote?, fun h => h.closeQuote? []⟩

/-! ## Written texts -/

theorem escape_cons (c : Char) (s : Text) : escape (c :: s) = escapeChar c ++ escape s := by
  simp [escape]

theorem raw_escape (s : Text) : Raw (escape s) := by
  induction s with
  | nil => exact .nil
  | cons c s ih =>
    rw [escape_cons]
    by_cases hq : c = '"'
    · subst hq; exact .escaped _ ih
    by_cases hb : c = '\\'
    · subst hb; exact .escaped _ ih
    by_cases hn : c = '\n'
    · subst hn; exact .escaped _ ih
    by_cases ht : c = '\t'
    · subst ht; exact .escaped _ ih
    rw [show escapeChar c = [c] by simp [escapeChar, hq, hb, hn, ht]]
    exact .plain hq hb ih

theorem unescape_cons {c : Char} (h : c ≠ '\\') (s : Text) :
    unescape (c :: s) = c :: unescape s := by
  cases s <;> simp [unescape, h]

/-- **A text written in a literal is what the literal denotes.** -/
theorem unescape_escape (s : Text) : unescape (escape s) = s := by
  induction s with
  | nil => rfl
  | cons c s ih =>
    rw [escape_cons]
    by_cases hq : c = '"'
    · subst hq; simp [escapeChar, unescape, ih]
    by_cases hb : c = '\\'
    · subst hb; simp [escapeChar, unescape, ih]
    by_cases hn : c = '\n'
    · subst hn; simp [escapeChar, unescape, ih]
    by_cases ht : c = '\t'
    · subst ht; simp [escapeChar, unescape, ih]
    rw [show escapeChar c = [c] by simp [escapeChar, hq, hb, hn, ht], List.singleton_append,
      unescape_cons hb, ih]

theorem unescape_ne_nil {raw : Text} (h : raw ≠ []) : unescape raw ≠ [] := by
  fun_cases unescape raw with
  | case1 => exact absurd rfl h
  | case2 c s =>
    split
    · simp
    split
    · simp
    split
    · simp
    · split <;> simp
  | case3 c s => exact List.cons_ne_nil _ _

/-! ## Quotes within literals -/

/-- How many backslashes a text ends with. -/
def backslashes (s : Text) : Nat := (s.reverse.takeWhile (· == '\\')).length

theorem backslashes_concat (s : Text) (c : Char) :
    backslashes (s ++ [c]) = if c = '\\' then backslashes s + 1 else 0 := by
  rw [backslashes, List.reverse_concat, List.takeWhile_cons]
  by_cases hc : c = '\\' <;> simp [hc, backslashes]

/-- A backslash and the character after it do not count. -/
theorem even_backslashes_escaped (c : Char) (s : Text) :
    Even (backslashes ('\\' :: c :: s)) ↔ Even (backslashes s) := by
  induction s using List.reverseRecOn with
  | nil => by_cases hc : c = '\\' <;> simp [backslashes, hc]
  | append_singleton s d ih =>
    rw [← List.cons_append, ← List.cons_append, backslashes_concat, backslashes_concat]
    split
    · rw [Nat.even_add_one, Nat.even_add_one, ih]
    · rfl

theorem backslashes_cons {c : Char} (hc : c ≠ '\\') (s : Text) :
    backslashes (c :: s) = backslashes s := by
  induction s using List.reverseRecOn with
  | nil => simp [backslashes, hc]
  | append_singleton s d ih =>
    rw [← List.cons_append, backslashes_concat, backslashes_concat, ih]

theorem Raw.even_backslashes {raw : Text} (h : Raw raw) : Even (backslashes raw) := by
  induction h with
  | nil => exact Even.zero
  | escaped c _ ih => exact (even_backslashes_escaped c _).2 ih
  | plain _ hb _ ih => rwa [backslashes_cons hb]

theorem Raw.odd_backslashes {raw : Text} (h : Raw raw) {x y : Text} (hx : raw = x ++ '"' :: y) :
    Odd (backslashes x) := by
  induction h generalizing x with
  | nil => simp at hx
  | escaped c _ ih =>
    cases x with
    | nil => cases hx
    | cons d x =>
      obtain ⟨rfl, hx'⟩ := List.cons.inj hx
      cases x with
      | nil => exact odd_one
      | cons e x =>
        obtain ⟨rfl, hx''⟩ := List.cons.inj hx'
        rw [← Nat.not_even_iff_odd, even_backslashes_escaped, Nat.not_even_iff_odd]
        exact ih hx''
  | plain hq hb _ ih =>
    cases x with
    | nil => exact absurd (List.cons.inj hx).1 hq
    | cons d x =>
      obtain ⟨rfl, hx'⟩ := List.cons.inj hx
      rw [backslashes_cons hb]
      exact ih hx'

/-- **What a literal can hold**: no quote that is not escaped, and no backslash at the end that
escapes nothing. -/
theorem raw_iff {raw : Text} : Raw raw ↔
    Even (backslashes raw) ∧ ∀ x y, raw = x ++ '"' :: y → Odd (backslashes x) := by
  refine ⟨fun h => ⟨h.even_backslashes, fun _ _ => h.odd_backslashes⟩, ?_⟩
  rintro ⟨heven, hodd⟩
  induction raw using unescape.induct with
  | case1 => exact .nil
  | case2 c s ih =>
    refine .escaped c (ih ((even_backslashes_escaped c s).1 heven) fun x y hs => ?_)
    have hx := hodd ('\\' :: c :: x) y (by rw [hs]; rfl)
    rwa [← Nat.not_even_iff_odd, even_backslashes_escaped, Nat.not_even_iff_odd] at hx
  | case3 c s hesc ih =>
    have hb : c ≠ '\\' := by
      rintro rfl
      cases s with
      | nil => exact absurd heven (by decide)
      | cons d s => exact hesc d s rfl rfl
    have hq : c ≠ '"' := by
      rintro rfl
      exact absurd (hodd [] s rfl) (by decide)
    rw [backslashes_cons hb] at heven
    refine .plain hq hb (ih heven fun x y hs => ?_)
    have hx := hodd (c :: x) y (by rw [hs]; rfl)
    rwa [backslashes_cons hb] at hx

/-- In a literal the character before a quote is a backslash. -/
theorem Raw.not_bare_quote {x y : Text} {b : Char} (hb : b ≠ '\\') :
    ¬Raw (x ++ b :: '"' :: y) := by
  intro h
  have hodd := h.odd_backslashes (x := x ++ [b]) (y := y) (by simp)
  rw [backslashes_concat, if_neg hb] at hodd
  exact absurd hodd (by decide)

/-- So no quote in a literal follows white space. -/
theorem Raw.not_blank_quote {x y : Text} {b : Char} (hb : isBlank b = true) :
    ¬Raw (x ++ b :: '"' :: y) := by
  refine Raw.not_bare_quote ?_
  rintro rfl
  revert hb
  decide

end SpecHarvest.Source
