import SpecHarvest.Text.Find

/-!
# Occurrences of a text in a text

`occurrences` counts with a number of characters still to be passed over. Its three equations hide
that number: a text that starts with what is looked for counts one more than what follows
(`occurrences_append_self`), any other text as many as without its first character
(`occurrences_cons`).

* `occurrences_append`: a character that does not occur in what is looked for divides the count.
* `occurrences_of_cut?`, `cut?_eq_none_iff`: the first occurrence is the one at which `cut?` cuts.
* `contains_iff`: a text is found if it lies anywhere.
* `cut?_singleton_eq_some_iff`, `cutLast?_eq_some_iff`: where a text is cut at a character.
-/

namespace SpecHarvest.Text

theorem startsWith_iff {lit s : Text} : startsWith lit s = true ↔ ∃ r, s = lit ++ r := by
  simp only [startsWith, Option.isSome_iff_exists, after?_eq_some_iff]

theorem startsWith_append_self (lit r : Text) : startsWith lit (lit ++ r) = true :=
  startsWith_iff.2 ⟨r, rfl⟩

theorem startsWith_singleton_cons (d c : Char) (s : Text) :
    startsWith [d] (c :: s) = (d == c) := by
  by_cases h : d = c <;> simp [startsWith, after?, h]

theorem startsWith_singleton_iff {d : Char} {s : Text} :
    startsWith [d] s = true ↔ s.head? = some d := by
  cases s with
  | nil => simp [startsWith, after?]
  | cons c s =>
    rw [startsWith_singleton_cons, beq_iff_eq, List.head?_cons, Option.some_inj, eq_comm]

variable {lit : Text}

/-! ## The equations of the count -/

@[simp] theorem occurrences_nil : occurrences lit [] = 0 := by simp [occurrences, occurrences.count]

/-- What is passed over is not looked at. -/
theorem count_append (x y : Text) :
    occurrences.count lit x.length (x ++ y) = occurrences lit y := by
  induction x with
  | nil => simp [occurrences]
  | cons c x ih => simpa [occurrences.count] using ih

theorem occurrences_append_self (h : lit ≠ []) (r : Text) :
    occurrences lit (lit ++ r) = occurrences lit r + 1 := by
  cases lit with
  | nil => exact absurd rfl h
  | cons c l =>
    have hs : startsWith (c :: l) (c :: (l ++ r)) = true := startsWith_append_self (c :: l) r
    rw [List.cons_append, occurrences, occurrences.count, if_pos hs]
    simpa using count_append l r

theorem occurrences_cons {c : Char} {s : Text} (h : startsWith lit (c :: s) = false) :
    occurrences lit (c :: s) = occurrences lit s := by
  simp [occurrences, occurrences.count, h]

/-! ## The count divided -/

/-- A character that does not occur in what is looked for ends the look at a text. -/
theorem startsWith_append {d : Char} (hd : d ∉ lit) (x y : Text) :
    startsWith lit (x ++ d :: y) = startsWith lit x := by
  rw [Bool.eq_iff_iff, startsWith_iff, startsWith_iff]
  constructor
  · rintro ⟨r, hr⟩
    rcases List.append_eq_append_iff.1 hr with ⟨a, ha, hy⟩ | ⟨a, ha, -⟩
    · cases a with
      | nil => exact ⟨[], by simpa using ha.symm⟩
      | cons e a =>
        obtain ⟨rfl, -⟩ := List.cons.inj hy
        exact absurd (ha ▸ by simp) hd
    · exact ⟨a, ha⟩
  · rintro ⟨r, rfl⟩
    exact ⟨r ++ d :: y, by simp⟩

/-- A character that does not occur in what a text should end with ends the look at it. -/
theorem endsWith_append_cons {d : Char} (hd : d ∉ lit) (x y : Text) :
    endsWith lit (x ++ d :: y) = endsWith lit y := by
  have hrev : ∀ s, endsWith lit s = startsWith lit.reverse s.reverse := by
    intro s
    rw [endsWith, before?, Option.isSome_map, startsWith]
  rw [hrev, hrev, List.reverse_append, List.reverse_cons, List.append_assoc,
    List.singleton_append, startsWith_append (by simpa using hd)]

/-- **The count divided** at a character that does not occur in what is looked for. -/
theorem occurrences_append {d : Char} (h : lit ≠ []) (hd : d ∉ lit) (x y : Text) :
    occurrences lit (x ++ d :: y) = occurrences lit x + occurrences lit y := by
  -- an occurrence takes several characters off `x` at once, so the induction is on the length
  induction hn : x.length using Nat.strongRecOn generalizing x with
  | ind n ih =>
    cases x with
    | nil =>
      have : startsWith lit (d :: y) = false := by
        rw [← List.nil_append (d :: y), startsWith_append hd]
        cases lit with
        | nil => exact absurd rfl h
        | cons c l => rfl
      simp [occurrences_cons this]
    | cons c x =>
      cases hs : startsWith lit (c :: x) with
      | true =>
        obtain ⟨r, hr⟩ := startsWith_iff.1 hs
        have hlen : r.length < n := by
          have := congrArg List.length hr
          have := List.length_pos_iff.2 h
          simp only [List.length_append] at *
          omega
        rw [hr, List.append_assoc, occurrences_append_self h, occurrences_append_self h,
          ih _ hlen r rfl]
        omega
      | false =>
        have hs' : startsWith lit (c :: (x ++ d :: y)) = false := by
          rw [← List.cons_append, startsWith_append hd, hs]
        rw [List.cons_append, occurrences_cons hs', occurrences_cons hs]
        exact ih x.length (by simp [← hn]) x rfl

/-! ## The first occurrence -/

theorem eq_of_cut? {s front rest : Text} (h : cut? lit s = some (front, rest)) :
    s = front ++ lit ++ rest := by
  fun_induction cut? lit s generalizing front with
  | case1 hl =>
    simp only [List.isEmpty_iff] at hl
    obtain ⟨rfl, rfl⟩ := Prod.mk.inj (Option.some.inj h)
    simp [hl]
  | case2 => simp at h
  | case3 c s r hr =>
    obtain ⟨rfl, rfl⟩ := Prod.mk.inj (Option.some.inj h)
    simpa using after?_eq_some_iff.1 hr
  | case4 c s _ ih =>
    obtain ⟨⟨f, r⟩, hf, he⟩ := Option.map_eq_some_iff.1 h
    obtain ⟨rfl, rfl⟩ := Prod.mk.inj he
    simpa using ih hf

theorem occurrences_of_cut? {s front rest : Text} (hl : lit ≠ [])
    (h : cut? lit s = some (front, rest)) : occurrences lit s = occurrences lit rest + 1 := by
  fun_induction cut? lit s generalizing front with
  | case1 he => exact absurd (List.isEmpty_iff.1 he) hl
  | case2 => simp at h
  | case3 c s r hr =>
    obtain ⟨rfl, rfl⟩ := Prod.mk.inj (Option.some.inj h)
    rw [after?_eq_some_iff.1 hr, occurrences_append_self hl]
  | case4 c s hn ih =>
    obtain ⟨⟨f, r⟩, hf, he⟩ := Option.map_eq_some_iff.1 h
    obtain ⟨rfl, rfl⟩ := Prod.mk.inj he
    rw [occurrences_cons (by simp [startsWith, hn]), ih hf]

theorem cut?_eq_none_iff (hl : lit ≠ []) {s : Text} :
    cut? lit s = none ↔ occurrences lit s = 0 := by
  constructor
  · intro h
    fun_induction cut? lit s with
    | case1 => simp at h
    | case2 => simp
    | case3 => simp at h
    | case4 c s hn ih =>
      rw [occurrences_cons (by simp [startsWith, hn])]
      exact ih (by simpa using h)
  · intro h
    cases hc : cut? lit s with
    | none => rfl
    | some p =>
      obtain ⟨front, rest⟩ := p
      have := occurrences_of_cut? hl hc
      omega

theorem cut?_append_self (h : lit ≠ []) (rest : Text) :
    cut? lit (lit ++ rest) = some ([], rest) := by
  cases lit with
  | nil => exact absurd rfl h
  | cons c lit =>
    rw [List.cons_append, cut?, ← List.cons_append, after?_eq_some_iff.2 rfl]

/-- **A text is found where it lies.** -/
theorem contains_iff {lit s : Text} : contains lit s = true ↔ lit <:+: s := by
  rw [contains, Option.isSome_iff_exists]
  constructor
  · rintro ⟨⟨front, rest⟩, h⟩
    exact ⟨front, rest, (eq_of_cut? h).symm⟩
  · rintro ⟨front, rest, rfl⟩
    induction front with
    | nil =>
      cases lit with
      | nil => cases rest <;> exact ⟨_, rfl⟩
      | cons c lit => exact ⟨_, cut?_append_self (List.cons_ne_nil c lit) rest⟩
    | cons c front ih =>
      rw [List.cons_append, List.cons_append, cut?]
      cases after? lit (c :: (front ++ lit ++ rest)) with
      | some r => exact ⟨_, rfl⟩
      | none =>
        obtain ⟨q, hq⟩ := ih
        rw [hq]
        exact ⟨_, rfl⟩

theorem length_le_of_cut? {s front rest f r : Text} (h : cut? lit s = some (front, rest))
    (hs : s = f ++ lit ++ r) : front.length ≤ f.length := by
  fun_induction cut? lit s generalizing front f with
  | case1 =>
    obtain ⟨rfl, -⟩ := Prod.mk.inj (Option.some.inj h)
    exact Nat.zero_le _
  | case2 => cases h
  | case3 =>
    obtain ⟨rfl, -⟩ := Prod.mk.inj (Option.some.inj h)
    exact Nat.zero_le _
  | case4 c s hn ih =>
    obtain ⟨⟨t, u⟩, ht, he⟩ := Option.map_eq_some_iff.1 h
    obtain ⟨rfl, rfl⟩ := Prod.mk.inj he
    cases f with
    | nil =>
      rw [List.nil_append] at hs
      rw [after?_eq_some_iff.2 hs] at hn
      cases hn
    | cons d f => exact Nat.succ_le_succ (ih ht (List.cons.inj hs).2)

/-- **A text is cut at the first occurrence.** -/
theorem cut?_eq_some_iff {s front rest : Text} : cut? lit s = some (front, rest) ↔
    s = front ++ lit ++ rest ∧ ∀ f r, s = f ++ lit ++ r → front.length ≤ f.length := by
  constructor
  · exact fun h => ⟨eq_of_cut? h, fun f r => length_le_of_cut? h⟩
  · rintro ⟨hs, hfirst⟩
    obtain ⟨⟨f, r⟩, hc⟩ : ∃ q, cut? lit s = some q :=
      Option.isSome_iff_exists.1 (contains_iff.2 ⟨front, rest, hs.symm⟩)
    have hle := length_le_of_cut? hc hs
    have hge := hfirst f r (eq_of_cut? hc)
    have heq := hs.symm.trans (eq_of_cut? hc)
    rw [List.append_assoc, List.append_assoc] at heq
    obtain ⟨rfl, ht⟩ := List.append_inj heq (Nat.le_antisymm hge hle)
    rw [hc, List.append_cancel_left ht]

theorem after?_append_cons {d : Char} (hd : d ∉ lit) (x y : Text) :
    after? lit (x ++ d :: y) = (after? lit x).map (· ++ d :: y) := by
  induction lit generalizing x with
  | nil => rfl
  | cons l lit ih =>
    rw [List.mem_cons, not_or] at hd
    cases x with
    | nil => simp [after?, Ne.symm hd.1]
    | cons c x =>
      rw [List.cons_append, after?, after?, ih hd.2]
      split <;> rfl

theorem after?_append_of_not_mem {d : Char} {y : Text} (hd : d ∉ y) (x : Text) :
    after? (lit ++ [d]) (x ++ y) = (after? (lit ++ [d]) x).map (· ++ y) := by
  have hnone : ∀ lit : Text, after? (lit ++ [d]) y = none := by
    intro lit
    rw [Option.eq_none_iff_forall_ne_some]
    intro r hr
    exact hd (by rw [after?_eq_some_iff.1 hr]; simp)
  induction lit generalizing x with
  | nil =>
    cases x with
    | nil => simpa [after?] using hnone []
    | cons c x => by_cases h : d = c <;> simp [after?, h]
  | cons l lit ih =>
    cases x with
    | nil => simpa [after?] using hnone (l :: lit)
    | cons c x => by_cases h : l = c <;> simp [after?, h, ih]

/-- Nothing is found that ends after the last character with which an occurrence can end. -/
theorem cut?_append_of_not_mem {d : Char} {y : Text} (hd : d ∉ y) (x : Text) :
    cut? (lit ++ [d]) (x ++ y) = (cut? (lit ++ [d]) x).map fun p => (p.1, p.2 ++ y) := by
  have hnone : cut? (lit ++ [d]) y = none := by
    rw [Option.eq_none_iff_forall_ne_some]
    rintro ⟨front, rest⟩ h
    exact hd (by rw [eq_of_cut? h]; simp)
  induction x with
  | nil =>
    have hnil : cut? (lit ++ [d]) [] = none := by simp [cut?]
    rw [List.nil_append, hnone, hnil]
    rfl
  | cons c x ih =>
    rw [List.cons_append, cut?, cut?, ← List.cons_append, after?_append_of_not_mem hd]
    cases after? (lit ++ [d]) (c :: x) with
    | some r => rfl
    | none =>
      rw [Option.map_none, ih]
      cases cut? (lit ++ [d]) x <;> rfl

/-- An occurrence is looked for after the characters that can start none. -/
theorem cut?_append_of_forall {l : Char} {x : Text} (h : ∀ c ∈ x, l ≠ c) (y : Text) :
    cut? (l :: lit) (x ++ y) = (cut? (l :: lit) y).map fun p => (x ++ p.1, p.2) := by
  induction x with
  | nil => simp
  | cons c x ih =>
    rw [List.forall_mem_cons] at h
    have hnone : after? (l :: lit) (c :: (x ++ y)) = none := by simp [after?, h.1]
    rw [List.cons_append, cut?, hnone, ih h.2]
    cases cut? (l :: lit) y <;> rfl

theorem contains_append_of_forall {l : Char} {x : Text} (h : ∀ c ∈ x, l ≠ c) (y : Text) :
    contains (l :: lit) (x ++ y) = contains (l :: lit) y := by
  rw [contains, cut?_append_of_forall h, Option.isSome_map, contains]

theorem cut?_singleton_eq_some_iff {d : Char} {s front rest : Text} :
    cut? [d] s = some (front, rest) ↔ s = front ++ d :: rest ∧ d ∉ front := by
  induction s generalizing front with
  | nil => simp [cut?]
  | cons c s ih =>
    by_cases hc : d = c
    · subst hc
      have hcut : cut? [d] (d :: s) = some ([], s) := by simp [cut?, after?]
      rw [hcut]
      constructor
      · intro h
        obtain ⟨rfl, rfl⟩ := Prod.mk.inj (Option.some.inj h)
        simp
      · rintro ⟨h, hm⟩
        cases front with
        | nil => simpa using (List.cons.inj h).2
        | cons e front => simp_all
    · have hcut : cut? [d] (c :: s) = (cut? [d] s).map fun p => (c :: p.1, p.2) := by
        simp [cut?, after?, hc]
      rw [hcut, Option.map_eq_some_iff]
      constructor
      · rintro ⟨⟨f, r⟩, hf, he⟩
        obtain ⟨rfl, rfl⟩ := Prod.mk.inj he
        obtain ⟨rfl, hm⟩ := ih.1 hf
        exact ⟨rfl, by simp [hc, hm]⟩
      · rintro ⟨h, hm⟩
        cases front with
        | nil => exact absurd (List.cons.inj h).1.symm hc
        | cons e front =>
          obtain ⟨rfl, rfl⟩ := List.cons.inj h
          exact ⟨(front, rest), ih.2 ⟨rfl, fun hd => hm (by simp [hd])⟩, rfl⟩

theorem cutLast?_eq_some_iff {d : Char} {s front rest : Text} :
    cutLast? d s = some (front, rest) ↔ s = front ++ d :: rest ∧ d ∉ rest := by
  rw [cutLast?, Option.map_eq_some_iff]
  constructor
  · rintro ⟨⟨b, f⟩, hc, he⟩
    obtain ⟨rfl, rfl⟩ := Prod.mk.inj he
    obtain ⟨hs, hm⟩ := cut?_singleton_eq_some_iff.1 hc
    have := congrArg List.reverse hs
    simp only [List.reverse_reverse, List.reverse_append, List.reverse_cons] at this
    exact ⟨by simpa using this, by simpa using hm⟩
  · rintro ⟨rfl, hm⟩
    refine ⟨(rest.reverse, front.reverse), cut?_singleton_eq_some_iff.2 ⟨?_, ?_⟩, ?_⟩
    · simp
    · simpa using hm
    · simp

end SpecHarvest.Text
