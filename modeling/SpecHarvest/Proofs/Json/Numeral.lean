import Mathlib.Algebra.Group.Int.Defs
import SpecHarvest.Json.Syntax

/-!
# Integers as they are printed

An integer of 64 bits is printed as a numeral that has it as its value, and the integers that
numerals have as values are of 64 bits.

* `Fits k`: an integer of 64 bits, signed or unsigned.
* `numeral?_render`: the text of an integer is read as `numeralOf k`, up to its last digit.
* `value?_numeralOf`: that numeral has the integer as its value.
* `fits_of_value?`: a numeral that has an integer as its value has one of 64 bits.
-/

namespace SpecHarvest.Json

open Binary64

/-- An integer that fits 64 bits, signed or unsigned. -/
def Fits (k : Int) : Prop := -2 ^ 63 ≤ k ∧ k < 2 ^ 64

instance (k : Int) : Decidable (Fits k) := inferInstanceAs (Decidable (_ ∧ _))

/-- Whether a text does not go on with a character that a numeral could have there. -/
def Stops (rest : Text) : Prop :=
  ∀ c ∈ rest.head?, c.isDigit = false ∧ c ≠ '.' ∧ c ≠ 'e' ∧ c ≠ 'E'

/-- The numeral that an integer is printed as. -/
def numeralOf (k : Int) : Numeral := ⟨k < 0, digitsOf k.natAbs, [], none⟩

/-! ## Digits -/

theorem isDigit_of_mem_digitsOf {n : Nat} {c : Char} (h : c ∈ digitsOf n) : c.isDigit = true :=
  Nat.isDigit_of_mem_toDigits (by decide) (by decide) h

theorem digitsOf_of_lt {n : Nat} (h : n < 10) : digitsOf n = [n.digitChar] :=
  Nat.toDigits_of_lt_base h

theorem digitsOf_of_le {n : Nat} (h : 10 ≤ n) :
    digitsOf n = digitsOf (n / 10) ++ [(n % 10).digitChar] :=
  Nat.toDigits_of_base_le (by decide) h

/-- Only zero is printed with a leading zero. -/
theorem exists_digitsOf_eq_cons (n : Nat) :
    ∃ c ds, digitsOf n = c :: ds ∧ (c = '0' → ds = []) ∧ c.isDigit = true := by
  induction n using Nat.strongRecOn with
  | ind n ih =>
    by_cases hlt : n < 10
    · refine ⟨n.digitChar, [], digitsOf_of_lt hlt, fun _ => rfl, ?_⟩
      simp [hlt]
    · obtain ⟨c, ds, hds, hzero, hc⟩ := ih (n / 10) (by omega)
      refine ⟨c, ds ++ [(n % 10).digitChar], ?_, fun h => ?_, hc⟩
      · rw [digitsOf_of_le (by omega), hds, List.cons_append]
      · -- a number from 10 on has no zero as its leading part
        rw [hzero h, h] at hds
        by_cases hsmall : n / 10 < 10
        · rw [digitsOf_of_lt hsmall, List.cons.injEq, Nat.digitChar_eq_zero] at hds
          omega
        · rw [digitsOf_of_le (by omega)] at hds
          have := congrArg List.length hds
          have hpos : 0 < (digitsOf (n / 10 / 10)).length := Nat.length_toDigits_pos
          simp only [List.length_append, List.length_singleton] at this
          omega

theorem digitsOf_ne_nil (n : Nat) : digitsOf n ≠ [] := by
  obtain ⟨c, ds, hds, -⟩ := exists_digitsOf_eq_cons n
  rw [hds]
  exact List.cons_ne_nil c ds

theorem foldDigits_append_singleton {m k : Nat} {ds : Text} (h : foldDigits m ds = (k, []))
    {c : Char} (hlt : 10 * k + digitValue c < pow2 64) :
    foldDigits m (ds ++ [c]) = (10 * k + digitValue c, []) := by
  induction ds generalizing m with
  | nil =>
    obtain rfl : m = k := (Prod.mk.inj h).1
    simp [foldDigits, hlt]
  | cons d ds ih =>
    rw [foldDigits] at h
    rw [List.cons_append, foldDigits]
    split at h
    · next hd => rw [if_pos hd, ih h]
    · cases h

theorem digitValue_digitChar {n : Nat} (h : n < 10) : digitValue n.digitChar = n :=
  Nat.toNat_digitChar_sub_48_of_lt_ten h

/-- The digits of a number of 64 bits add up to it. -/
theorem foldDigits_digitsOf {n : Nat} (h : n < pow2 64) : foldDigits 0 (digitsOf n) = (n, []) := by
  induction n using Nat.strongRecOn with
  | ind n ih =>
    by_cases hlt : n < 10
    · rw [digitsOf_of_lt hlt]
      simp [foldDigits, digitValue_digitChar hlt, h]
    · have hdigit : digitValue (n % 10).digitChar = n % 10 := digitValue_digitChar (by omega)
      have hn : 10 * (n / 10) + n % 10 = n := by omega
      rw [digitsOf_of_le (by omega), foldDigits_append_singleton (ih _ (by omega) (by omega)),
        hdigit, hn]
      rw [hdigit, hn]
      exact h

/-! ## Reading -/

theorem takeWhile_digits {ds rest : Text} (hd : ∀ c ∈ ds, c.isDigit = true) (hr : Stops rest) :
    (ds ++ rest).takeWhile Char.isDigit = ds ∧ (ds ++ rest).dropWhile Char.isDigit = rest := by
  have hstop : rest.takeWhile Char.isDigit = [] ∧ rest.dropWhile Char.isDigit = rest := by
    cases rest with
    | nil => exact ⟨rfl, rfl⟩
    | cons c rest =>
      have hc := (hr c rfl).1
      simp [hc]
  rw [List.takeWhile_append_of_pos hd, List.dropWhile_append_of_pos hd, hstop.1, hstop.2]
  exact ⟨List.append_nil _, rfl⟩

theorem wholePart?_digitsOf (n : Nat) {rest : Text} (hr : Stops rest) :
    wholePart? (digitsOf n ++ rest) = some (digitsOf n, rest) := by
  obtain ⟨c, ds, hds, hzero, -⟩ := exists_digitsOf_eq_cons n
  obtain ⟨htake, hdrop⟩ := takeWhile_digits (fun _ => isDigit_of_mem_digitsOf (n := n)) hr
  by_cases hc : c = '0'
  · obtain rfl := hzero hc
    subst hc
    have hnone : ∀ c ∈ ([] : Text), c.isDigit = true := by simp
    have hrest : rest.takeWhile Char.isDigit = [] := (takeWhile_digits hnone hr).1
    rw [hds, List.singleton_append, wholePart?, hrest]
    rfl
  · have hdigits : digits? (digitsOf n ++ rest) = some (digitsOf n, rest) := by
      rw [digits?, htake, hdrop, hds]
      rfl
    rw [← hdigits, hds, List.cons_append, wholePart?]
    simpa using hc

theorem unsigned?_digitsOf (negative : Bool) (n : Nat) {rest : Text} (hr : Stops rest) :
    unsigned? negative (digitsOf n ++ rest) = some (⟨negative, digitsOf n, [], none⟩, rest) := by
  have hfraction : fractionPart? rest = some ([], rest) := by
    cases rest with
    | nil => rfl
    | cons c rest => simp [fractionPart?, (hr c rfl).2.1]
  have hexponent : exponentPart? rest = some (none, rest) := by
    cases rest with
    | nil => rfl
    | cons c rest => simp [exponentPart?, (hr c rfl).2.2]
  simp [unsigned?, wholePart?_digitsOf n hr, hfraction, hexponent]

/-- **A printed integer is read up to its last digit.** -/
theorem numeral?_render (k : Int) {rest : Text} (hr : Stops rest) :
    numeral? ((Number.int k).render ++ rest) = some (numeralOf k, rest) := by
  by_cases hk : k < 0
  · simp [Number.render, hk, numeral?, unsigned?_digitsOf true k.natAbs hr, numeralOf]
  · obtain ⟨c, ds, hds, -, hc⟩ := exists_digitsOf_eq_cons k.natAbs
    have hminus : c ≠ '-' := by
      rintro rfl
      cases hc
    have hread := unsigned?_digitsOf false k.natAbs hr
    rw [hds, List.cons_append] at hread
    simp only [Number.render, hk, if_false, numeralOf, hds, List.cons_append]
    rw [numeral?]
    · simpa using hread
    · simpa using hminus

/-! ## Values -/

theorem pow2_eq : pow2 64 = 18446744073709551616 ∧ pow2 63 = 9223372036854775808 := by decide

/-- **The value of a printed integer.** -/
theorem value?_numeralOf {k : Int} (h : Fits k) : (numeralOf k).value? = some (.int k) := by
  obtain ⟨hlow, hhigh⟩ := h
  have hnat : k.natAbs < pow2 64 := by
    rw [pow2_eq.1]
    omega
  simp only [Numeral.value?, numeralOf, foldDigits_digitsOf hnat]
  by_cases hk : k < 0
  · have hzero : ¬k.natAbs = 0 := by omega
    have hsmall : ¬pow2 63 < k.natAbs := by
      rw [pow2_eq.2]
      omega
    have habs : -(k.natAbs : Int) = k := by omega
    simp only [hk, hzero, hsmall, habs, decide_true, decide_false, Bool.or_false,
      Bool.false_eq_true, if_false]
    rfl
  · have habs : (k.natAbs : Int) = k := by omega
    simp only [hk, habs, decide_false]
    rfl

theorem foldDigits_lt {m : Nat} (h : m < pow2 64) (ds : Text) : (foldDigits m ds).1 < pow2 64 := by
  induction ds generalizing m with
  | nil => exact h
  | cons c ds ih =>
    rw [foldDigits]
    split
    · next hlt => exact ih hlt
    · exact h

/-- **The integers that are values of numerals fit 64 bits.** -/
theorem fits_of_value? {n : Numeral} {k : Int} (h : n.value? = some (.int k)) : Fits k := by
  have hlt : (foldDigits 0 n.whole).1 < pow2 64 := foldDigits_lt (by decide) n.whole
  rw [pow2_eq.1] at hlt
  unfold Numeral.value? at h
  simp only at h
  split at h
  · split at h
    · simp only [Option.some.injEq, Number.int.injEq] at h
      unfold Fits
      omega
    · split at h
      · simp at h
      · next hsmall =>
        simp only [Bool.or_eq_true, decide_eq_true_eq, not_or, pow2_eq.2] at hsmall
        simp only [Option.some.injEq, Number.int.injEq] at h
        unfold Fits
        omega
  · simp at h

end SpecHarvest.Json
