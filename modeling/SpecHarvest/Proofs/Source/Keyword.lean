import SpecHarvest.Proofs.Text.Collapse
import SpecHarvest.Proofs.Text.Occurrence
import SpecHarvest.Source.Keyword

/-!
# Places of a keyword

`StandsAlone b word s front tail`: in the text `s`, before which the character `b` comes if there
is one, `word` stands between `front` and `tail` and is no part of a longer identifier.

* `mem_afterKeyword_iff`: `afterKeyword` lists what follows the word at all of its places.
* `findSome?_afterKeyword_eq_some_iff`: a reader that is tried at each of them succeeds at the
  leftmost place where it can.
* `keywordSearch_leftmost`: the search finds the first place, if there is one.
* `standsAlone_append_iff`: a character of no identifier divides the places.
* `keyword?_append_cons`: it divides the search for the first of them, too.
-/

namespace SpecHarvest.Source

open Text

/-- A word between two texts that is no part of a longer identifier. -/
structure StandsAlone (before : Option Char) (word s front tail : Text) : Prop where
  eq : s = front ++ word ++ tail
  start : startsHere (front.getLast?.or before) = true
  stop : endsHere isIdentChar tail = true

variable {before : Option Char} {word : Text}

theorem StandsAlone.isPrefix_front {s front tail : Text} (h : StandsAlone before word s front tail) :
    front <+: s := ⟨word ++ tail, by rw [h.eq, List.append_assoc]⟩

theorem keywordHere?_eq_some_iff {s tail : Text} :
    keywordHere? word before s = some tail ↔ StandsAlone before word s [] tail := by
  unfold keywordHere?
  constructor
  · intro h
    split at h
    · rename_i r hr
      split at h
      · rename_i hb
        obtain rfl := Option.some.inj h
        rw [Bool.and_eq_true] at hb
        exact ⟨by simpa using after?_eq_some_iff.1 hr, hb.1, hb.2⟩
      · cases h
    · cases h
  · rintro ⟨hs, hb, he⟩
    rw [after?_eq_some_iff.2 (by simpa using hs)]
    simp only [List.getLast?_nil, Option.none_or] at hb
    simp [hb, he]

theorem standsAlone_cons {c d : Char} {s front tail : Text} :
    StandsAlone before word (c :: s) (d :: front) tail ↔
      c = d ∧ StandsAlone (some c) word s front tail := by
  constructor
  · rintro ⟨hs, hb, he⟩
    obtain ⟨rfl, hs'⟩ := List.cons.inj hs
    refine ⟨rfl, hs', ?_, he⟩
    rw [getLast?_cons_eq_or, Option.or_assoc] at hb
    exact hb
  · rintro ⟨rfl, hs, hb, he⟩
    refine ⟨by simp [hs], ?_, he⟩
    rw [getLast?_cons_eq_or, Option.or_assoc]
    exact hb

/-- The places of a word after a part of a text. -/
theorem standsAlone_append_left_iff {x s front tail : Text} :
    StandsAlone before word (x ++ s) (x ++ front) tail ↔
      StandsAlone (x.getLast?.or before) word s front tail := by
  have hlast : (x ++ front).getLast?.or before = front.getLast?.or (x.getLast?.or before) := by
    rw [List.getLast?_append, Option.or_assoc]
  constructor
  · rintro ⟨hs, hb, he⟩
    rw [List.append_assoc, List.append_assoc] at hs
    exact ⟨by rw [List.append_cancel_left hs, List.append_assoc], hlast ▸ hb, he⟩
  · rintro ⟨rfl, hb, he⟩
    exact ⟨by simp, hlast ▸ hb, he⟩

theorem eq_nil_of_standsAlone_nil {front tail : Text} (h : StandsAlone before word [] front tail) :
    front = [] := by
  have := congrArg List.length h.eq
  simp only [List.length_nil, List.length_append] at this
  exact List.length_eq_zero_iff.1 (by omega)

theorem mem_afterKeyword_iff {s tail : Text} :
    tail ∈ afterKeyword word before s ↔ ∃ front, StandsAlone before word s front tail := by
  induction s generalizing before with
  | nil =>
    rw [afterKeyword, Option.mem_toList, keywordHere?_eq_some_iff]
    exact ⟨fun h => ⟨[], h⟩, fun ⟨front, h⟩ => eq_nil_of_standsAlone_nil h ▸ h⟩
  | cons c s ih =>
    rw [afterKeyword, List.mem_append, Option.mem_toList, keywordHere?_eq_some_iff, ih]
    constructor
    · rintro (h | ⟨front, h⟩)
      · exact ⟨[], h⟩
      · exact ⟨c :: front, standsAlone_cons.2 ⟨rfl, h⟩⟩
    · rintro ⟨front, h⟩
      cases front with
      | nil => exact .inl h
      | cons d front => exact .inr ⟨front, (standsAlone_cons.1 h).2⟩

/-- The first place of a word divides the text. -/
theorem eq_of_keywordSearch {s front tail : Text}
    (h : keywordSearch word before s = some (front, tail)) : s = front ++ word ++ tail := by
  induction s generalizing before front with
  | nil =>
    obtain ⟨t, ht, he⟩ := Option.map_eq_some_iff.1 h
    obtain ⟨rfl, rfl⟩ := Prod.mk.inj he
    exact (keywordHere?_eq_some_iff.1 ht).eq
  | cons c s ih =>
    rw [keywordSearch] at h
    split at h
    · next t ht =>
      obtain ⟨rfl, rfl⟩ := Prod.mk.inj (Option.some.inj h)
      exact (keywordHere?_eq_some_iff.1 ht).eq
    · split at h
      · cases h
      · obtain ⟨⟨f, t⟩, hf, he⟩ := Option.map_eq_some_iff.1 h
        obtain ⟨rfl, rfl⟩ := Prod.mk.inj he
        rw [ih hf]
        rfl

/-! ## Texts put together -/

theorem exists_of_append_eq_append_cons {q : Char} {word x y front tail : Text} (hw : q ∉ word)
    (h : x ++ q :: y = front ++ word ++ tail) :
    (∃ t, tail = t ++ q :: y ∧ x = front ++ word ++ t) ∨
      (∃ f, front = x ++ q :: f ∧ y = f ++ word ++ tail) := by
  rcases List.append_eq_append_iff.1 h with ⟨a, ha, hy⟩ | ⟨a, hx, ht⟩
  · -- the dividing character stands in the word or before it
    rcases List.append_eq_append_iff.1 ha with ⟨b, rfl, hw'⟩ | ⟨b, rfl, hb⟩
    · cases a with
      | nil => exact .inl ⟨[], by simpa using hy.symm, by simp [hw']⟩
      | cons d a =>
        obtain ⟨rfl, -⟩ := List.cons.inj hy
        exact absurd (by simp [hw']) hw
    · cases b with
      | nil =>
        have haw : a = word := by simpa using hb
        cases a with
        | nil => exact .inl ⟨[], by simpa using hy.symm, by simp [← haw]⟩
        | cons d a =>
          obtain ⟨rfl, -⟩ := List.cons.inj hy
          exact absurd (by simp [← haw]) hw
      | cons d b =>
        rw [hb] at hy
        obtain ⟨rfl, hy⟩ := List.cons.inj hy
        exact .inr ⟨b, rfl, by simpa using hy⟩
  · exact .inl ⟨a, ht, hx⟩

theorem StandsAlone.append_left {q : Char} (hq : isIdentChar q = false) {x front tail : Text}
    (h : StandsAlone before word x front tail) (y : Text) :
    StandsAlone before word (x ++ q :: y) front (tail ++ q :: y) := by
  have hend : endsHere isIdentChar (q :: y) = true := by simp [endsHere, hq]
  exact ⟨by simp [h.eq], h.start, by rw [endsHere_append hend]; exact h.stop⟩

theorem startsHere_append_cons {q : Char} (hq : isIdentChar q = false) (x f : Text) :
    startsHere ((x ++ q :: f).getLast?.or before) = startsHere (f.getLast?.or none) := by
  cases hf : f.getLast? <;>
    simp [List.getLast?_append, getLast?_cons_eq_or, hf, startsHere, hq]

theorem StandsAlone.append_right {q : Char} (hq : isIdentChar q = false) {y front tail : Text}
    (h : StandsAlone none word y front tail) (x : Text) :
    StandsAlone before word (x ++ q :: y) (x ++ q :: front) tail :=
  ⟨by simp [h.eq], by rw [startsHere_append_cons hq]; exact h.start, h.stop⟩

/-- **The places of a word divided** at a character that belongs to no identifier. -/
theorem standsAlone_append_iff {q : Char} (hq : isIdentChar q = false) (hw : q ∉ word)
    {x y front tail : Text} : StandsAlone before word (x ++ q :: y) front tail ↔
      (∃ t, tail = t ++ q :: y ∧ StandsAlone before word x front t) ∨
        (∃ f, front = x ++ q :: f ∧ StandsAlone none word y f tail) := by
  have hend : endsHere isIdentChar (q :: y) = true := by simp [endsHere, hq]
  constructor
  · rintro ⟨hs, hb, he⟩
    rcases exists_of_append_eq_append_cons hw hs with ⟨t, rfl, hx⟩ | ⟨f, rfl, hy⟩
    · rw [endsHere_append hend] at he
      exact .inl ⟨t, rfl, hx, hb, he⟩
    · rw [startsHere_append_cons hq] at hb
      exact .inr ⟨f, rfl, hy, hb, he⟩
  · rintro (⟨t, rfl, h⟩ | ⟨f, rfl, h⟩)
    · exact h.append_left hq y
    · exact h.append_right hq x

theorem not_standsAlone_of_not_mem {c : Char} {s front tail : Text} (hc : c ∈ word) (hs : c ∉ s) :
    ¬StandsAlone before word s front tail := by
  intro h
  exact hs (h.eq ▸ by simp [hc])

/-! ## The first success of a reader -/

variable {α : Type} {read : Text → Option α}

theorem findSome?_afterKeyword_eq_none_iff {s : Text} :
    (afterKeyword word before s).findSome? read = none ↔
      ∀ front tail, StandsAlone before word s front tail → read tail = none := by
  rw [List.findSome?_eq_none_iff]
  constructor
  · exact fun h front tail hp => h tail (mem_afterKeyword_iff.2 ⟨front, hp⟩)
  · intro h tail ht
    obtain ⟨front, hp⟩ := mem_afterKeyword_iff.1 ht
    exact h front tail hp

/-- **A reader succeeds at the leftmost place where it can.** -/
theorem findSome?_afterKeyword_eq_some_iff {s : Text} {a : α} :
    (afterKeyword word before s).findSome? read = some a ↔
      ∃ front tail, StandsAlone before word s front tail ∧ read tail = some a ∧
        ∀ front' tail', StandsAlone before word s front' tail' →
          front'.length < front.length → read tail' = none := by
  induction s generalizing before with
  | nil =>
    rw [afterKeyword]
    constructor
    · intro h
      obtain ⟨tail, ht, ha⟩ := List.exists_of_findSome?_eq_some h
      rw [Option.mem_toList, keywordHere?_eq_some_iff] at ht
      exact ⟨[], tail, ht, ha, by simp⟩
    · rintro ⟨front, tail, hp, ha, -⟩
      obtain rfl := eq_nil_of_standsAlone_nil hp
      simp [keywordHere?_eq_some_iff.2 hp, ha]
  | cons c s ih =>
    rw [afterKeyword, List.findSome?_append, Option.or_eq_some_iff, ih]
    constructor
    · rintro (h | ⟨hn, front, tail, hp, ha, hmin⟩)
      · obtain ⟨tail, ht, ha⟩ := List.exists_of_findSome?_eq_some h
        rw [Option.mem_toList, keywordHere?_eq_some_iff] at ht
        exact ⟨[], tail, ht, ha, by simp⟩
      · refine ⟨c :: front, tail, standsAlone_cons.2 ⟨rfl, hp⟩, ha, fun front' tail' hp' hlt => ?_⟩
        cases front' with
        | nil =>
          rw [List.findSome?_eq_none_iff] at hn
          exact hn tail' (Option.mem_toList.2 (keywordHere?_eq_some_iff.2 hp'))
        | cons d front' =>
          exact hmin front' tail' (standsAlone_cons.1 hp').2 (by simpa using hlt)
    · rintro ⟨front, tail, hp, ha, hmin⟩
      cases front with
      | nil => exact .inl (by simp [keywordHere?_eq_some_iff.2 hp, ha])
      | cons d front =>
        obtain ⟨rfl, hp'⟩ := standsAlone_cons.1 hp
        refine .inr ⟨?_, front, tail, hp', ha, fun front' tail' hp' hlt => ?_⟩
        · rw [List.findSome?_eq_none_iff]
          intro tail' ht'
          rw [Option.mem_toList, keywordHere?_eq_some_iff] at ht'
          exact hmin [] tail' ht' (by simp)
        · exact hmin (c :: front') tail' (standsAlone_cons.2 ⟨rfl, hp'⟩) (by simpa using hlt)

/-! ## The first place -/

theorem keyword?_eq_none {s : Text} (h : ¬word <:+: s) : keyword? word s = none := by
  rw [Option.eq_none_iff_forall_ne_some]
  intro tail ht
  obtain ⟨⟨front, rest⟩, hs, -⟩ := Option.map_eq_some_iff.1 ht
  exact h ⟨front, rest, (eq_of_keywordSearch hs).symm⟩

theorem keyword?_eq_none_of_not_mem {c : Char} {s : Text} (hc : c ∈ word) (hs : c ∉ s) :
    keyword? word s = none :=
  keyword?_eq_none fun h => hs (h.subset hc)

theorem keywordHere?_congr {b b' : Option Char} (h : startsHere b = startsHere b') (s : Text) :
    keywordHere? word b s = keywordHere? word b' s := by
  rw [keywordHere?, keywordHere?, h]

theorem keywordSearch_congr {b b' : Option Char} (h : startsHere b = startsHere b') (s : Text) :
    keywordSearch word b s = keywordSearch word b' s := by
  cases s with
  | nil => rw [keywordSearch, keywordSearch, keywordHere?_congr h]
  | cons c s => rw [keywordSearch, keywordSearch, keywordHere?_congr h]

theorem keywordHere?_append_cons {q : Char} (hq : isIdentChar q = false) (hw : q ∉ word)
    (x y : Text) : keywordHere? word before (x ++ q :: y) =
      (keywordHere? word before x).map (· ++ q :: y) := by
  have hend : endsHere isIdentChar (q :: y) = true := by simp [endsHere, hq]
  rw [keywordHere?, keywordHere?, after?_append_cons hw]
  cases after? word x with
  | none => rfl
  | some r =>
    rw [Option.map_some]
    dsimp only
    rw [endsHere_append hend]
    split <;> rfl

/-- A word that starts with a character of one byte is looked for at every character. -/
theorem keywordSearch_cons {d : Char} {w : Text} (hd : d.utf8Size = 1) (c : Char) (s : Text) :
    keywordSearch (d :: w) before (c :: s) = match keywordHere? (d :: w) before (c :: s) with
      | some rest => some ([], rest)
      | none => (keywordSearch (d :: w) (some c) s).map fun p => (c :: p.1, p.2) := by
  have hsize : ¬(startsWith (d :: w) (c :: s) && c.utf8Size != 1) = true := by
    rw [Bool.and_eq_true, bne_iff_ne]
    rintro ⟨hstart, hne⟩
    obtain ⟨r, hr⟩ := startsWith_iff.1 hstart
    exact hne ((List.cons.inj hr).1 ▸ hd)
  rw [keywordSearch]
  cases keywordHere? (d :: w) before (c :: s) with
  | some rest => rfl
  | none => exact if_neg hsize

/-- **The first place of a word is found**, and none only if there is none. -/
theorem keywordSearch_leftmost {b : Option Char} {d : Char} {w : Text} (hd : d.utf8Size = 1)
    (s : Text) :
    match keywordSearch (d :: w) b s with
    | some (front, tail) => StandsAlone b (d :: w) s front tail ∧
      ∀ front' tail', StandsAlone b (d :: w) s front' tail' → front.length ≤ front'.length
    | none => ∀ front tail, ¬StandsAlone b (d :: w) s front tail := by
  induction s generalizing b with
  | nil =>
    intro front tail hp
    exact absurd hp.eq (by simp)
  | cons c s ih =>
    rw [keywordSearch_cons hd]
    cases hhere : keywordHere? (d :: w) b (c :: s) with
    | some tail =>
      exact ⟨keywordHere?_eq_some_iff.1 hhere, fun _ _ _ => Nat.zero_le _⟩
    | none =>
      have hnil {tail : Text} : ¬StandsAlone b (d :: w) (c :: s) [] tail := by
        intro hp
        rw [keywordHere?_eq_some_iff.2 hp] at hhere
        cases hhere
      have ih := ih (b := some c)
      cases hsearch : keywordSearch (d :: w) (some c) s with
      | some p =>
        rw [hsearch] at ih
        refine ⟨standsAlone_cons.2 ⟨rfl, ih.1⟩, fun front' tail' hp => ?_⟩
        cases front' with
        | nil => exact absurd hp hnil
        | cons e front' => exact Nat.succ_le_succ (ih.2 front' tail' (standsAlone_cons.1 hp).2)
      | none =>
        rw [hsearch] at ih
        intro front tail hp
        cases front with
        | nil => exact hnil hp
        | cons e front => exact ih front tail (standsAlone_cons.1 hp).2

section
variable (hne : word ≠ []) (hw : word.all isIdentChar = true)
include hne hw

theorem keywordSearch_append_cons {q : Char} (hq : isIdentChar q = false) (x y : Text) :
    (keywordSearch word before (x ++ q :: y)).map (·.2) =
      ((keywordSearch word before x).map fun p => p.2 ++ q :: y).or
        ((keywordSearch word none y).map (·.2)) := by
  have hmem : q ∉ word := fun hm => by
    rw [List.all_eq_true.1 hw q hm] at hq
    cases hq
  obtain ⟨d, w, rfl⟩ := List.exists_cons_of_ne_nil hne
  have hd := utf8Size_of_isIdentChar (List.all_eq_true.1 hw d List.mem_cons_self)
  have hnil {b : Option Char} : keywordHere? (d :: w) b [] = none := rfl
  induction x generalizing before with
  | nil =>
    have hhere : keywordHere? (d :: w) before ([] ++ q :: y) = none :=
      keywordHere?_append_cons hq hmem [] y
    have hstart : startsHere (some q) = startsHere none := by simp [startsHere, hq]
    rw [List.nil_append] at hhere ⊢
    rw [keywordSearch_cons hd, hhere, keywordSearch, hnil, keywordSearch_congr hstart]
    simp [Function.comp_def]
  | cons c x ih =>
    rw [List.cons_append, keywordSearch_cons hd, keywordSearch_cons hd, ← List.cons_append,
      keywordHere?_append_cons hq hmem]
    cases keywordHere? (d :: w) before (c :: x) with
    | some r => rfl
    | none => simpa [Function.comp_def] using ih

/-- **The first place of a word, divided** at a character that belongs to no identifier. -/
theorem keyword?_append_cons {q : Char} (hq : isIdentChar q = false) (x y : Text) :
    keyword? word (x ++ q :: y) =
      ((keyword? word x).map (· ++ q :: y)).or (keyword? word y) := by
  rw [keyword?, keywordSearch_append_cons hne hw hq, keyword?, keyword?, Option.map_map]
  rfl

theorem keyword?_cons {q : Char} (hq : isIdentChar q = false) (y : Text) :
    keyword? word (q :: y) = keyword? word y := by
  have hnil : keyword? word [] = none :=
    keyword?_eq_none fun h => hne (List.eq_nil_of_infix_nil h)
  rw [← List.nil_append (q :: y), keyword?_append_cons hne hw hq, hnil]
  rfl

theorem keyword?_append_of_allBlank {g : Text} (hg : allBlank g = true) (y : Text) :
    keyword? word (g ++ y) = keyword? word y := by
  induction g with
  | nil => rfl
  | cons b g ih =>
    rw [allBlank, List.all_cons, Bool.and_eq_true] at hg
    rw [List.cons_append, keyword?_cons hne hw (isIdentChar_of_isBlank hg.1), ih hg.2]

theorem keyword?_append {r : Text} (hr : endsHere isIdentChar r = true) :
    keyword? word (word ++ r) = some r := by
  have hhere : keywordHere? word none (word ++ r) = some r :=
    keywordHere?_eq_some_iff.2 ⟨rfl, rfl, hr⟩
  obtain ⟨d, w, rfl⟩ := List.exists_cons_of_ne_nil hne
  rw [keyword?, List.cons_append, keywordSearch, ← List.cons_append, hhere]
  rfl

end

end SpecHarvest.Source
