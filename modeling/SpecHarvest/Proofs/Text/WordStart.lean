import SpecHarvest.Text.WordChar

/-!
# Word boundaries

`atWordStart` scans a text for a place right after a word boundary where a reader succeeds.

* `atWordStart_iff` says so without the scan: some cut of the text has a boundary before it
  (`boundaryAfter`) and an accepted text after it.
* `atWordStart_append`: a character that is no word character divides the search, if the reader
  never looks past it.
* White space divides words (`isWordChar_of_isBlank`, `isIdentChar_of_isBlank`).
-/

namespace SpecHarvest.Text

/-! ## Letters -/

theorem isAlpha_iff {c : Char} : c.isAlpha = true ↔
    65 ≤ c.toNat ∧ c.toNat ≤ 90 ∨ 97 ≤ c.toNat ∧ c.toNat ≤ 122 := by
  have hupper : c.isUpper = true ↔ 65 ≤ c.toNat ∧ c.toNat ≤ 90 := decide_eq_true_iff
  have hlower : c.isLower = true ↔ 97 ≤ c.toNat ∧ c.toNat ≤ 122 :=
    Bool.and_eq_true_iff.trans (and_congr decide_eq_true_iff decide_eq_true_iff)
  exact Bool.or_eq_true_iff.trans (or_congr hupper hlower)

theorem lt_of_isDigit (c : Char) (h : c.isDigit = true) : c.toNat < 0x80 := by
  simp only [Char.isDigit, Bool.and_eq_true, decide_eq_true_eq, UInt32.le_iff_toNat_le] at h
  exact Nat.lt_of_le_of_lt h.2 (by decide)

theorem lt_of_isAlpha (c : Char) (h : c.isAlpha = true) : c.toNat < 0x80 := by
  rw [isAlpha_iff] at h
  omega

theorem lt_of_isIdentChar (c : Char) (h : isIdentChar c = true) : c.toNat < 0x80 := by
  simp only [isIdentChar, Char.isAlphanum, Bool.or_eq_true, beq_iff_eq] at h
  rcases h with (h | h) | rfl
  · exact lt_of_isAlpha c h
  · exact lt_of_isDigit c h
  · decide

theorem utf8Size_of_isIdentChar {c : Char} (h : isIdentChar c = true) : c.utf8Size = 1 :=
  Char.utf8Size_eq_one_iff.2 (UInt32.le_iff_toNat_le.2 (Nat.le_of_lt_succ (lt_of_isIdentChar c h)))

/-! ## White space is no word -/

/-- The ranges of the white space beyond ASCII. -/
def blankRanges : List (Nat × Nat) :=
  [(0x85, 0x85), (0xA0, 0xA0), (0x1680, 0x1680), (0x2000, 0x200A), (0x2028, 0x2029),
    (0x202F, 0x202F), (0x205F, 0x205F), (0x3000, 0x3000)]

theorem exists_blankRange {c : Char} (h : isBlank c = true) (hc : ¬c.toNat < 0x80) :
    ∃ b ∈ blankRanges, b.1 ≤ c.toNat ∧ c.toNat ≤ b.2 := by
  simp only [isBlank, Bool.or_eq_true, Bool.and_eq_true, decide_eq_true_eq, beq_iff_eq] at h
  simp only [blankRanges, List.mem_cons, List.not_mem_nil, or_false, exists_eq_or_imp,
    exists_eq_left]
  omega

theorem isIdentChar_of_isBlank {c : Char} (h : isBlank c = true) : isIdentChar c = false := by
  simp only [isBlank, Bool.or_eq_true, Bool.and_eq_true, decide_eq_true_eq, beq_iff_eq] at h
  rw [Bool.eq_false_iff]
  intro hident
  rw [isIdentChar, Char.isAlphanum, Bool.or_eq_true, Bool.or_eq_true, isAlpha_iff,
    Char.isDigit_iff_toNat, beq_iff_eq] at hident
  rcases hident with hident | rfl
  · change (_ ∨ 48 ≤ c.toNat ∧ c.toNat ≤ 57) at hident
    omega
  · revert h
    decide

theorem wordRanges_apart :
    (wordRanges.all fun r => blankRanges.all fun b => r.2.blt b.1 || b.2.blt r.1) = true := by
  decide +kernel

theorem isWordChar_of_isBlank {c : Char} (h : isBlank c = true) : isWordChar c = false := by
  unfold isWordChar
  split
  · exact isIdentChar_of_isBlank h
  · next hc =>
    obtain ⟨b, hb, hbc⟩ := exists_blankRange h hc
    rw [inRanges, List.any_eq_false]
    intro r hr hin
    have hapart := List.all_eq_true.1 (List.all_eq_true.1 wordRanges_apart r hr) b hb
    simp only [Bool.or_eq_true, Bool.and_eq_true, decide_eq_true_eq, Nat.blt_eq] at hapart hin
    omega

/-! ## The end of a word -/

/-- What comes after a place decides the boundary there, unless nothing comes before it. -/
theorem endsHere_append {inWord : Char → Bool} {r y : Text} (hy : endsHere inWord y = true) :
    endsHere inWord (r ++ y) = endsHere inWord r := by
  cases r with
  | nil => simpa [endsHere] using hy
  | cons c r => rfl

/-- Only the first character decides. -/
theorem endsHere_congr {inWord : Char → Bool} {s t : Text} (h : s.head? = t.head?) :
    endsHere inWord s = endsHere inWord t := by
  cases s <;> cases t <;> simp_all [endsHere]

theorem endsHere_dropWhile (inWord : Char → Bool) (s : Text) :
    endsHere inWord (s.dropWhile inWord) = true := by
  have hhead := List.head?_dropWhile_not inWord s
  cases hs : s.dropWhile inWord with
  | nil => rfl
  | cons c r =>
    rw [hs] at hhead
    simpa [endsHere] using hhead

/-- A word of a class ends where the text does not go on with the class. -/
theorem takeWhile_append_of_endsHere {inWord : Char → Bool} {w r : Text}
    (hw : ∀ c ∈ w, inWord c = true) (hr : endsHere inWord r = true) :
    (w ++ r).takeWhile inWord = w ∧ (w ++ r).dropWhile inWord = r := by
  have hstop : r.takeWhile inWord = [] ∧ r.dropWhile inWord = r := by
    cases r with
    | nil => exact ⟨rfl, rfl⟩
    | cons d r =>
      rw [endsHere, Bool.not_eq_true'] at hr
      simp [hr]
  rw [List.takeWhile_append_of_pos hw, List.dropWhile_append_of_pos hw, hstop.1, hstop.2]
  exact ⟨List.append_nil _, rfl⟩

theorem wordHere_iff {word s : Text} :
    wordHere word s = true ↔ ∃ rest, s = word ++ rest ∧ endsHere isWordChar rest = true := by
  unfold wordHere
  cases h : after? word s with
  | none =>
    simp only [Bool.false_eq_true, false_iff, not_exists, not_and]
    intro rest hs
    simp [after?_eq_some_iff.2 hs] at h
  | some rest =>
    have hs := after?_eq_some_iff.1 h
    constructor
    · exact fun he => ⟨rest, hs, he⟩
    · rintro ⟨rest', hs', he⟩
      rwa [← List.append_cancel_left (hs.symm.trans hs')] at he

/-- A character that stands in no word ends the look at a text. -/
theorem wordHere_append {word m y : Text} {d : Char} (hd : isWordChar d = false) (hw : d ∉ word) :
    wordHere word (m ++ d :: y) = wordHere word m := by
  have he : endsHere isWordChar (d :: y) = true := by simp [endsHere, hd]
  rw [Bool.eq_iff_iff, wordHere_iff, wordHere_iff]
  constructor
  · rintro ⟨rest, hs, hr⟩
    rcases List.append_eq_append_iff.1 hs with ⟨a, ha, hy⟩ | ⟨a, ha, hy⟩
    · cases a with
      | nil => exact ⟨[], by simpa using ha.symm, rfl⟩
      | cons x a =>
        obtain ⟨rfl, -⟩ := List.cons.inj hy
        exact absurd (ha ▸ by simp) hw
    · rw [hy, endsHere_append he] at hr
      exact ⟨a, ha, hr⟩
  · rintro ⟨rest, rfl, hr⟩
    exact ⟨rest ++ d :: y, by simp, by rwa [endsHere_append he]⟩

/-! ## The start of a word -/

theorem getLast?_cons_eq_or (c : Char) (x : Text) :
    (c :: x).getLast? = x.getLast?.or (some c) := by
  cases x <;> simp [List.getLast?_cons]

/-- Whether a word can start after a text: it is empty or ends with no word character. -/
def boundaryAfter (front : Text) : Bool := front.getLast?.all (!isWordChar ·)

theorem boundaryAfter_append_cons {x y : Text} {d : Char} (hd : isWordChar d = false) :
    boundaryAfter (x ++ d :: y) = boundaryAfter y := by
  unfold boundaryAfter
  cases y with
  | nil => simp [hd]
  | cons e y => simp [List.getLast?_append, List.getLast?_cons]

theorem atWordStart_go_iff {accepts : Text → Bool} {start : Bool} {s : Text} :
    atWordStart.go accepts start s = true ↔ ∃ front rest, s = front ++ rest ∧
      front.getLast?.elim start (!isWordChar ·) = true ∧ accepts rest = true := by
  induction s generalizing start with
  | nil =>
    simp only [atWordStart.go, Bool.and_eq_true, List.nil_eq, List.append_eq_nil_iff]
    constructor
    · exact fun ⟨hs, ha⟩ => ⟨[], [], ⟨rfl, rfl⟩, hs, ha⟩
    · rintro ⟨_, _, ⟨rfl, rfl⟩, hs, ha⟩
      exact ⟨hs, ha⟩
  | cons c s ih =>
    simp only [atWordStart.go, Bool.or_eq_true, Bool.and_eq_true, ih]
    constructor
    · rintro (⟨hs, ha⟩ | ⟨front, rest, rfl, hb, ha⟩)
      · exact ⟨[], c :: s, rfl, hs, ha⟩
      · refine ⟨c :: front, rest, rfl, ?_, ha⟩
        cases front with
        | nil => simpa using hb
        | cons d front => simpa [List.getLast?_cons] using hb
    · rintro ⟨front, rest, hs, hb, ha⟩
      cases front with
      | nil =>
        subst hs
        exact .inl ⟨hb, ha⟩
      | cons d front =>
        obtain ⟨rfl, rfl⟩ := List.cons.inj hs
        refine .inr ⟨front, rest, rfl, ?_, ha⟩
        cases front with
        | nil => simpa using hb
        | cons d front => simpa [List.getLast?_cons] using hb

/-- A reader succeeds at a word start exactly when it accepts what follows some boundary. -/
theorem atWordStart_iff {accepts : Text → Bool} {s : Text} :
    atWordStart accepts s = true ↔ ∃ front rest, s = front ++ rest ∧
      boundaryAfter front = true ∧ accepts rest = true := by
  rw [atWordStart, atWordStart_go_iff]
  refine exists_congr fun front => exists_congr fun rest => and_congr_right fun _ => ?_
  unfold boundaryAfter
  cases front.getLast? <;> simp

/-- **The search divided** at a character that is no word character and past which the reader does
not look. -/
theorem atWordStart_append {accepts : Text → Bool} {x y : Text} {d : Char}
    (hd : isWordChar d = false) (ha : ∀ m, accepts (m ++ d :: y) = accepts m) :
    atWordStart accepts (x ++ d :: y) = (atWordStart accepts x || atWordStart accepts y) := by
  rw [Bool.eq_iff_iff, Bool.or_eq_true, atWordStart_iff, atWordStart_iff, atWordStart_iff]
  constructor
  · rintro ⟨front, rest, hs, hb, hr⟩
    rcases List.append_eq_append_iff.1 hs with ⟨a, rfl, hy⟩ | ⟨a, rfl, hy⟩
    · cases a with
      | nil =>
        -- the place right before the divider: nothing of `x` is left to be accepted
        refine .inl ⟨x, [], by simp, by simpa using hb, ?_⟩
        rw [← ha [], List.nil_append, show d :: y = rest from hy]
        exact hr
      | cons e a =>
        obtain ⟨rfl, rfl⟩ := List.cons.inj hy
        exact .inr ⟨a, rest, rfl, by rwa [boundaryAfter_append_cons hd] at hb, hr⟩
    · exact .inl ⟨front, a, rfl, hb, by rw [← ha]; rwa [hy] at hr⟩
  · rintro (⟨front, rest, rfl, hb, hr⟩ | ⟨front, rest, rfl, hb, hr⟩)
    · exact ⟨front, rest ++ d :: y, by simp, hb, by rwa [ha]⟩
    · exact ⟨x ++ d :: front, rest, by simp, by rwa [boundaryAfter_append_cons hd], hr⟩

end SpecHarvest.Text
