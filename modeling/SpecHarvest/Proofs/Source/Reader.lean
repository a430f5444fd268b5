import SpecHarvest.Proofs.Source.Literal
import SpecHarvest.Proofs.Text.Blank
import SpecHarvest.Proofs.Text.WordStart
import SpecHarvest.Source.Reader

/-!
# What readers read

Each reader takes what it is for from the front of a text, whatever follows that cannot go on with
it.

* `Gap` and `Space`: white space that may be missing, and white space that must be there.
* `Denotes raw s` and `Digits ds n`: what stands in a literal and denotes a text, and the digits of
  a number that fits 64 bits. Every text is denoted by what escaping makes of it
  (`denotes_escape`).
* `word?_append`, `blanks?_space`, `nonemptyQuoted?_literal`, `natural?_digits`: the readers on what
  they are for.
* `leadingWord`: the identifier that a text starts with. A text has one, so at most one of the words
  that are looked for stands at its front (`leadingWord_of_word?`).
-/

namespace SpecHarvest.Source

open Text

/-! ## White space -/

/-- White space, or nothing. -/
abbrev Gap := { g : Text // allBlank g = true }

/-- White space. -/
abbrev Space := { g : Text // g ≠ [] ∧ allBlank g = true }

/-- Nothing. -/
def Gap.none : Gap := ⟨[], rfl⟩

theorem trimStart_gap (g : Gap) {s : Text} (h : trimStart s = s) : trimStart (g.1 ++ s) = s := by
  rw [trimStart_append_of_allBlank g.2, h]

theorem trimEnd_gap (g : Gap) {s : Text} (h : trimEnd s = s) : trimEnd (s ++ g.1) = s := by
  rw [trimEnd_append, if_pos (trimEnd_eq_nil_iff.2 g.2), h]

/-- White space around a text that has none at its ends. -/
theorem trim_gaps (g₁ g₂ : Gap) {s : Text} (h : trim s = s) : trim (g₁.1 ++ (s ++ g₂.1)) = s := by
  have hstart : trimStart s = s := by rw [← h, trimStart_trim]
  have hend : trimEnd s = s := by rwa [trim, hstart] at h
  rw [trim, trimStart_append_of_allBlank g₁.2, trimStart_append, hstart]
  split
  · next hs => rw [trimStart_eq_nil_iff.2 g₂.2, hs]; rfl
  · exact trimEnd_gap g₂ hend

theorem blanks?_space (g : Space) {s : Text} (h : trimStart s = s) :
    blanks? (g.1 ++ s) = some s := by
  obtain ⟨g, hne, hg⟩ := g
  obtain ⟨b, t, rfl⟩ := List.exists_cons_of_ne_nil hne
  rw [allBlank, List.all_cons, Bool.and_eq_true] at hg
  rw [List.cons_append, blanks?, if_pos hg.1, trimStart_gap ⟨t, hg.2⟩ h]

/-- A word of a class without white space ends before white space. -/
theorem endsHere_space {p : Char → Bool} (hp : ∀ c, isBlank c = true → p c = false) (g : Space)
    (s : Text) : endsHere p (g.1 ++ s) = true := by
  obtain ⟨g, hne, hg⟩ := g
  obtain ⟨b, t, rfl⟩ := List.exists_cons_of_ne_nil hne
  rw [allBlank, List.all_cons, Bool.and_eq_true] at hg
  rw [List.cons_append, endsHere, hp b hg.1]
  rfl

theorem endsHere_gap {p : Char → Bool} (hp : ∀ c, isBlank c = true → p c = false) (g : Gap)
    {c : Char} (hc : p c = false) (s : Text) : endsHere p (g.1 ++ c :: s) = true := by
  by_cases hg : g.1 = []
  · rw [hg, List.nil_append, endsHere, hc]
    rfl
  · exact endsHere_space hp ⟨g.1, hg, g.2⟩ _

theorem endsHere_end {p : Char → Bool} (hp : ∀ c, isBlank c = true → p c = false) (g : Gap) :
    endsHere p g.1 = true := by
  obtain ⟨g, hg⟩ := g
  cases g with
  | nil => rfl
  | cons b g =>
    rw [allBlank, List.all_cons, Bool.and_eq_true] at hg
    rw [endsHere, hp b hg.1]
    rfl

/-! ## Words -/

theorem isBlank_of_isIdentChar {c : Char} (h : isIdentChar c = true) : isBlank c = false := by
  rw [Bool.eq_false_iff]
  intro hb
  rw [isIdentChar_of_isBlank hb] at h
  cases h

theorem isIdentChar_of_isDigit {c : Char} (h : c.isDigit = true) : isIdentChar c = true := by
  simp [isIdentChar, Char.isAlphanum, h]

theorem isDigit_of_isBlank {c : Char} (h : isBlank c = true) : c.isDigit = false := by
  rw [Bool.eq_false_iff]
  intro hd
  rw [isBlank_of_isIdentChar (isIdentChar_of_isDigit hd)] at h
  cases h

theorem blanks?_eq_some_iff {s r : Text} :
    blanks? s = some r ↔ (∃ g : Space, s = g.1 ++ r) ∧ trimStart r = r := by
  constructor
  · intro h
    cases s with
    | nil => cases h
    | cons b s =>
      rw [blanks?] at h
      split at h
      · next hb =>
        obtain rfl := Option.some.inj h
        have hgap : allBlank (b :: s.takeWhile isBlank) = true := by
          rw [allBlank, List.all_cons, hb, ← allBlank, allBlank_takeWhile]
          rfl
        refine ⟨⟨⟨_, List.cons_ne_nil _ _, hgap⟩, ?_⟩, trimStart_trimStart s⟩
        rw [List.cons_append, takeWhile_append_trimStart]
      · cases h
  · rintro ⟨⟨g, rfl⟩, hr⟩
    exact blanks?_space g hr

theorem trimStart_word {w : Text} (hne : w ≠ []) (hw : w.all isIdentChar = true) (r : Text) :
    trimStart (w ++ r) = w ++ r := by
  obtain ⟨c, w, rfl⟩ := List.exists_cons_of_ne_nil hne
  have hc := List.all_eq_true.1 hw c List.mem_cons_self
  exact trimStart_cons_of_not_blank (isBlank_of_isIdentChar hc) (w ++ r)

theorem word?_append (w : Text) {r : Text} (hr : endsHere isIdentChar r = true) :
    word? w (w ++ r) = some r := by
  rw [word?, after?_eq_some_iff.2 rfl, Option.filter_some, if_pos hr]

theorem word?_append_space (w : Text) (g : Space) (r : Text) :
    word? w (w ++ (g.1 ++ r)) = some (g.1 ++ r) :=
  word?_append w (endsHere_space (fun _ => isIdentChar_of_isBlank) g r)

theorem word?_eq_some_iff {w s r : Text} :
    word? w s = some r ↔ s = w ++ r ∧ endsHere isIdentChar r = true := by
  rw [word?, Option.filter_eq_some_iff, after?_eq_some_iff]

/-- The identifier that a text starts with. -/
def leadingWord (s : Text) : Text := s.takeWhile isIdentChar

theorem leadingWord_append {w r : Text} (hw : w.all isIdentChar = true)
    (hr : endsHere isIdentChar r = true) : leadingWord (w ++ r) = w :=
  (takeWhile_append_of_endsHere (List.all_eq_true.1 hw) hr).1

/-- A word that is read is the one that the text starts with. -/
theorem leadingWord_of_word? {w s r : Text} (hw : w.all isIdentChar = true)
    (h : word? w s = some r) : leadingWord s = w := by
  obtain ⟨rfl, hr⟩ := word?_eq_some_iff.1 h
  exact leadingWord_append hw hr

theorem word?_eq_none {w s : Text} (hw : w.all isIdentChar = true) (h : leadingWord s ≠ w) :
    word? w s = none :=
  Option.eq_none_iff_forall_ne_some.2 fun _ hr => h (leadingWord_of_word? hw hr)

/-! ## Literals -/

/-- A text that denotes another between the quotes of a literal. -/
structure Denotes (raw s : Text) : Prop where
  isRaw : Raw raw
  eq : unescape raw = s

/-- Every text can be written in a literal. -/
theorem denotes_escape (s : Text) : Denotes (escape s) s := ⟨raw_escape s, unescape_escape s⟩

theorem nonemptyQuoted?_literal {raw : Text} (h : Raw raw) (hne : raw ≠ []) (rest : Text) :
    nonemptyQuoted? ('"' :: (raw ++ '"' :: rest)) = some (raw, rest) := by
  rw [nonemptyQuoted?, h.quoted?, Option.filter_some, if_pos (by simpa using hne)]

theorem nonemptyQuoted?_eq_some_iff {s raw rest : Text} : nonemptyQuoted? s = some (raw, rest) ↔
    raw ≠ [] ∧ Raw raw ∧ s = '"' :: (raw ++ '"' :: rest) := by
  constructor
  · intro h
    obtain ⟨hq, hne⟩ := Option.filter_eq_some_iff.1 h
    obtain ⟨hraw, rfl⟩ := quoted?_eq_some_iff.1 hq
    exact ⟨by simpa using hne, hraw, rfl⟩
  · rintro ⟨hne, hraw, rfl⟩
    exact nonemptyQuoted?_literal hraw hne rest

/-! ## Numbers -/

/-- Decimal digits of a number that fits 64 bits. -/
structure Digits (ds : Text) (n : Nat) : Prop where
  ne_nil : ds ≠ []
  all_isDigit : ds.all Char.isDigit = true
  eq : digitsValue ds = n
  le : n ≤ maxNatural

theorem Digits.all_isIdentChar {ds : Text} {n : Nat} (h : Digits ds n) :
    ds.all isIdentChar = true :=
  List.all_eq_true.2 fun c hc => isIdentChar_of_isDigit (List.all_eq_true.1 h.all_isDigit c hc)

theorem natural?_digits {ds rest : Text} {n : Nat} (h : Digits ds n)
    (hr : endsHere Char.isDigit rest = true) : natural? (ds ++ rest) = some (n, rest) := by
  obtain ⟨htake, hdrop⟩ := takeWhile_append_of_endsHere (List.all_eq_true.1 h.all_isDigit) hr
  have hne : ds.isEmpty = false := by simpa using h.ne_nil
  simp [natural?, htake, hdrop, hne, h.eq, h.le]

/-- **A number is read** up to the first character that is no digit. -/
theorem natural?_eq_some_iff {s rest : Text} {n : Nat} : natural? s = some (n, rest) ↔
    ∃ ds, s = ds ++ rest ∧ Digits ds n ∧ endsHere Char.isDigit rest = true := by
  constructor
  · intro h
    unfold natural? at h
    dsimp only at h
    split at h
    · cases h
    · next hne =>
      split at h
      · next hle =>
        obtain ⟨rfl, rfl⟩ := Prod.mk.inj (Option.some.inj h)
        exact ⟨_, List.takeWhile_append_dropWhile.symm,
          ⟨by simpa using hne, List.all_takeWhile, rfl, hle⟩, endsHere_dropWhile _ s⟩
      · cases h
  · rintro ⟨ds, rfl, hds, hr⟩
    exact natural?_digits hds hr

/-- A number goes on with digits only. -/
theorem natural?_append_cons {q : Char} (hq : q.isDigit = false) (s z : Text) :
    natural? (s ++ q :: z) = (natural? s).map fun p => (p.1, p.2 ++ q :: z) := by
  have hcons : endsHere Char.isDigit (q :: z) = true := by simp [endsHere, hq]
  have hend : endsHere Char.isDigit (s.dropWhile Char.isDigit ++ q :: z) = true := by
    rw [endsHere_append hcons, endsHere_dropWhile]
  obtain ⟨htake, hdrop⟩ := takeWhile_append_of_endsHere
    (fun c (hc : c ∈ s.takeWhile Char.isDigit) => List.mem_takeWhile_imp hc) hend
  rw [← List.append_assoc, List.takeWhile_append_dropWhile] at htake hdrop
  simp only [natural?, htake, hdrop]
  split
  · rfl
  · split <;> rfl

/-- What is read of a number is digits. -/
theorem exists_of_natural? {s rest : Text} {n : Nat} (h : natural? s = some (n, rest)) :
    ∃ ds, s = ds ++ rest ∧ ∀ c ∈ ds, c.isDigit = true := by
  obtain ⟨ds, hs, hds, -⟩ := natural?_eq_some_iff.1 h
  exact ⟨ds, hs, List.all_eq_true.1 hds.all_isDigit⟩

/-! ## Identifiers -/

/-- **An identifier is read** up to the first character that does not belong to it. -/
theorem identifier?_eq_some_iff {s name rest : Text} : identifier? s = some (name, rest) ↔
    s = name ++ rest ∧ name ≠ [] ∧ name.all isIdentChar = true ∧
      endsHere isIdentChar rest = true := by
  constructor
  · intro h
    simp only [identifier?] at h
    split at h
    · cases h
    · next hne =>
      obtain ⟨rfl, rfl⟩ := Prod.mk.inj (Option.some.inj h)
      exact ⟨List.takeWhile_append_dropWhile.symm, by simpa using hne, List.all_takeWhile,
        endsHere_dropWhile _ s⟩
  · rintro ⟨rfl, hne, hw, hr⟩
    obtain ⟨htake, hdrop⟩ := takeWhile_append_of_endsHere (List.all_eq_true.1 hw) hr
    have he : name.isEmpty = false := by simpa using hne
    simp [identifier?, htake, hdrop, he]

end SpecHarvest.Source
