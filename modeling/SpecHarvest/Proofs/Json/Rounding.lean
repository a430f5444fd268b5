import Mathlib.Algebra.Ring.Parity
import Mathlib.Tactic.Ring
import SpecHarvest.Proofs.Json.Equality

/-!
# Integers as floating-point numbers

Numbers are compared as floating-point numbers, of 53 binary digits, and an integer of 64 bits can
have more of them.

* `RoundsTo u k q`: the quotient of `k` by `u` is `q` when rounded. `Nearest k r`: the integer `k`
  is `r` when rounded to 53 binary digits.
* `Binary64.multiple`: the value of a floating-point number, in units of the least one. Normal
  numbers of one value are the same (`Binary64.eq_of_multiple`).
* `exists_double`: an integer becomes a floating-point number, of the value that it has when
  rounded, so by `double_int_iff` integers are the same number if they round to one.
* `Value.equal_iff_of_integers`: equality of values whose numbers are integers is equality up to the
  order of keys with the integers rounded. Different integers can be equal
  (`Value.not_equal_iff_of_integers`).
-/

namespace SpecHarvest.Json

/-! ## Rounding to a multiple -/

/-- The quotient `k / u` rounded to the nearest integer `q`, to the even one of two. -/
def RoundsTo (u : Nat) (k q : Int) : Prop :=
  2 * (k - q * u).natAbs < u ∨ 2 * (k - q * u).natAbs = u ∧ Even q

section

variable {u : Nat} {k q q' : Int}

theorem RoundsTo.not_lt (hu : 0 < u) (h : RoundsTo u k q) (h' : RoundsTo u k q') : ¬q < q' := by
  intro hlt
  -- two quotients as near as that are neighbours, and both are ties
  have hstep : u * (q + 1) ≤ u * q' := by
    exact Int.mul_le_mul_of_nonneg_left hlt (by omega)
  have hmul : (u : Int) * (q + 1) = q * u + u := by ring
  have hmul' : (u : Int) * q' = q' * u := by ring
  unfold RoundsTo at h h'
  have hq : 2 * (k - q * u).natAbs = u ∧ Even q := by
    refine h.resolve_left fun hnear => ?_
    rcases h' with h' | ⟨h', -⟩ <;> omega
  have hq' : 2 * (k - q' * u).natAbs = u ∧ Even q' := by
    refine h'.resolve_left fun hnear => ?_
    omega
  have hnext : (u : Int) * (q + 1) = u * q' := by omega
  have hsucc : q + 1 = q' := Int.eq_of_mul_eq_mul_left (by omega) hnext
  obtain ⟨a, ha⟩ := hq.2
  obtain ⟨b, hb⟩ := hq'.2
  omega

/-- **A quotient rounds to one integer.** -/
theorem RoundsTo.unique (hu : 0 < u) (h : RoundsTo u k q) (h' : RoundsTo u k q') : q = q' := by
  have hlt := h.not_lt hu h'
  have hgt := h'.not_lt hu h
  omega

theorem RoundsTo.neg (h : RoundsTo u k q) : RoundsTo u (-k) (-q) := by
  have habs : (-k - -q * u).natAbs = (k - q * u).natAbs := by
    rw [← Int.natAbs_neg]
    congr 1
    ring
  unfold RoundsTo
  rw [habs, even_neg]
  exact h

theorem roundsTo_roundDiv (hu : 0 < u) (n : Nat) :
    RoundsTo u n (Binary64.roundDiv n u) := by
  have hdiv := Nat.div_add_mod n u
  have hmod := Nat.mod_lt n hu
  have hmul : (n / u + 1) * u = u * (n / u) + u := by ring
  have hmul' : n / u * u = u * (n / u) := by ring
  unfold Binary64.roundDiv RoundsTo
  simp only
  split
  · left
    rw [← Nat.cast_mul, hmul']
    omega
  · split
    · left
      rw [← Nat.cast_mul, hmul]
      omega
    · right
      by_cases heven : n / u % 2 = 0
      · rw [heven, Nat.add_zero, ← Nat.cast_mul, hmul']
        exact ⟨by omega, by rw [Int.even_coe_nat]; exact Nat.even_iff.2 heven⟩
      · have hodd : n / u % 2 = 1 := by omega
        rw [hodd, ← Nat.cast_mul, hmul]
        exact ⟨by omega, by rw [Int.even_coe_nat, Nat.even_iff]; omega⟩

end

/-! ## The floating-point number of an integer -/

namespace Binary64

/-- A number of the format whose mantissa has all its 53 binary digits. -/
structure IsNormal (a : Binary64) : Prop where
  le_mantissa : 2 ^ 52 ≤ a.mantissa
  mantissa_lt : a.mantissa < 2 ^ 53
  le_exponent : minExponent ≤ a.exponent

/-- Where the mantissa of a number stands, counted from the least exponent. -/
def place (a : Binary64) : Nat := (a.exponent - minExponent).toNat

/-- A number in units of the least exponent, of which all numbers are multiples. -/
def multiple (a : Binary64) : Int :=
  if a.negative then -(a.mantissa * 2 ^ a.place : Nat) else (a.mantissa * 2 ^ a.place : Nat)

theorem zero_multiple : (zero false).multiple = 0 := rfl

/-- The product of a mantissa with all its digits and a power of two tells the power. -/
theorem place_le_of_eq {m m' e e' : Nat} (hm : 2 ^ 52 ≤ m) (hm' : m' < 2 ^ 53)
    (h : m * 2 ^ e = m' * 2 ^ e') : e ≤ e' := by
  by_contra hlt
  have hpow : 2 ^ e = 2 ^ (e - e' - 1) * 2 * 2 ^ e' := by
    rw [← pow_succ, ← pow_add]
    congr 1
    omega
  rw [hpow, ← mul_assoc] at h
  have hdouble := Nat.eq_of_mul_eq_mul_right (Nat.two_pow_pos e') h
  have hle : m * 2 ≤ m * (2 ^ (e - e' - 1) * 2) :=
    Nat.mul_le_mul_left m (Nat.le_mul_of_pos_left 2 (Nat.two_pow_pos _))
  omega

theorem IsNormal.multiple_pos {a : Binary64} (h : a.IsNormal) : 0 < a.mantissa * 2 ^ a.place :=
  Nat.mul_pos (Nat.lt_of_lt_of_le (by decide) h.le_mantissa) (Nat.two_pow_pos _)

theorem IsNormal.mantissa_ne_zero {a : Binary64} (h : a.IsNormal) : a.mantissa ≠ 0 := by
  have hle := h.le_mantissa
  omega

theorem IsNormal.multiple_ne_zero {a : Binary64} (h : a.IsNormal) : a.multiple ≠ 0 := by
  have hpos := h.multiple_pos
  unfold multiple
  split <;> omega

/-- A normal number is known by its value. -/
theorem IsNormal.eq_of_multiple {a b : Binary64} (ha : a.IsNormal) (hb : b.IsNormal)
    (h : a.multiple = b.multiple) : a = b := by
  have hpa := ha.multiple_pos
  have hpb := hb.multiple_pos
  have hsign : a.negative = b.negative ∧
      a.mantissa * 2 ^ a.place = b.mantissa * 2 ^ b.place := by
    unfold multiple at h
    generalize a.mantissa * 2 ^ a.place = x, b.mantissa * 2 ^ b.place = y at *
    generalize a.negative = s, b.negative = s' at h ⊢
    cases s <;> cases s' <;> simp at h ⊢ <;> omega
  obtain ⟨hneg, hmul⟩ := hsign
  have hplace : a.place = b.place := Nat.le_antisymm
    (place_le_of_eq ha.le_mantissa hb.mantissa_lt hmul)
    (place_le_of_eq hb.le_mantissa ha.mantissa_lt hmul.symm)
  rw [hplace] at hmul
  have hmantissa := Nat.eq_of_mul_eq_mul_right (Nat.two_pow_pos _) hmul
  have hexp : a.exponent = b.exponent := by
    have hea := ha.le_exponent
    have heb := hb.le_exponent
    unfold place at hplace
    omega
  cases a
  cases b
  simp_all

/-- The leading `p + 1` binary digits of a number. -/
theorem leading_bounds {n : Nat} (h : n ≠ 0) (p : Nat) :
    2 ^ p ≤ n * 2 ^ (p - n.log2) / 2 ^ (n.log2 - p) ∧
      n * 2 ^ (p - n.log2) / 2 ^ (n.log2 - p) < 2 ^ (p + 1) := by
  have hle := Nat.mul_le_mul_right (2 ^ (p - n.log2)) (Nat.log2_self_le h)
  have hlt := Nat.mul_lt_mul_of_pos_right (Nat.lt_log2_self (n := n))
    (Nat.two_pow_pos (p - n.log2))
  rw [← Nat.pow_add] at hle hlt
  rw [Nat.le_div_iff_mul_le (Nat.two_pow_pos _), Nat.div_lt_iff_lt_mul (Nat.two_pow_pos _),
    ← Nat.pow_add, ← Nat.pow_add]
  have hexp : p + (n.log2 - p) = n.log2 + (p - n.log2) := by omega
  have hexp' : p + 1 + (n.log2 - p) = n.log2 + 1 + (p - n.log2) := by omega
  rw [hexp, hexp']
  exact ⟨hle, hlt⟩

theorem roundDiv_bounds (num den : Nat) :
    num / den ≤ roundDiv num den ∧ roundDiv num den ≤ num / den + 1 := by
  unfold roundDiv
  simp only
  split
  · omega
  · split <;> omega

theorem scaled_eq (n l p : Nat) (s : Int) (hs : s = p - l) :
    scaled n 1 s = (n * 2 ^ (p - l), 2 ^ (l - p)) := by
  have hnum : s.toNat = p - l := by omega
  have hden : (-s).toNat = l - p := by omega
  rw [scaled, hnum, hden, Nat.one_mul]
  rfl

/-- **The number nearest to an integer** has its 53 leading digits as mantissa, rounded. -/
theorem ofNat_eq {n : Nat} (h : n ≠ 0) (hn : n < 2 ^ 64) (negative : Bool) :
    let m := roundDiv (n * 2 ^ (52 - n.log2)) (2 ^ (n.log2 - 52))
    ofNat negative n = some (if m < 2 ^ 53 then ⟨negative, m, n.log2 - 52⟩
      else ⟨negative, 2 ^ 52, n.log2 - 51⟩) := by
  intro m
  have hlog : n.log2 < 64 := (Nat.log2_lt h).2 hn
  have hlow : max ((n.log2 : Int) - (Nat.log2 1 : Nat) + 0 - 53) minExponent = n.log2 - 53 := by
    have hone : Nat.log2 1 = 0 := by decide
    rw [hone, minExponent]
    omega
  have hfirst := scaled_eq n n.log2 53 (0 - (n.log2 - 53)) (by omega)
  have hlong : ¬n * 2 ^ (53 - n.log2) / 2 ^ (n.log2 - 53) < 2 ^ 53 :=
    Nat.not_lt.2 (leading_bounds h 53).1
  have hexp : (n.log2 : Int) - 53 + 1 = n.log2 - 52 := by omega
  have hsecond := scaled_eq n n.log2 52 (0 - (n.log2 - 52)) (by omega)
  have hpow : pow2 53 = 2 ^ 53 := rfl
  have hmax : (n.log2 : Int) - 52 ≤ maxExponent ∧ (n.log2 : Int) - 52 + 1 ≤ maxExponent := by
    rw [maxExponent]
    omega
  unfold ofNat ofRatio
  simp only [h, if_false, hlow, hfirst, hpow, hlong, hexp, hsecond]
  by_cases hm : m < 2 ^ 53
  · simp only [m] at hm
    simp only [m, hm, if_true, hmax.1]
  · simp only [m] at hm
    have hcarry : (n.log2 : Int) - 52 + 1 = n.log2 - 51 := by omega
    have hmax' := hmax.2
    rw [hcarry] at hmax'
    simp only [m, hm, if_false, hcarry, hmax', if_true]
    rfl

/-- The place of the number one. -/
def onePlace : Nat := minExponent.natAbs

theorem onePlace_eq : onePlace = 1074 := rfl

/-- The number one in units of the least exponent. -/
def one : Nat := 2 ^ onePlace

/-- The leading digits, rounded, are the number rounded to a multiple of their last place. -/
theorem leading_mul (n : Nat) :
    roundDiv (n * 2 ^ (52 - n.log2)) (2 ^ (n.log2 - 52)) * 2 ^ (n.log2 + 1022) =
      roundDiv n (2 ^ (n.log2 - 52)) * 2 ^ (n.log2 - 52) * one := by
  generalize n.log2 = l
  rw [one, Nat.mul_assoc, ← Nat.pow_add]
  have hone := onePlace_eq
  rcases Nat.le_total l 52 with hl | hl
  · have hshort : l - 52 = 0 := by omega
    have hexp : 52 - l + (l + 1022) = 0 + onePlace := by omega
    have hexact : ∀ x, roundDiv x (2 ^ 0) = x := by
      intro x
      simp [roundDiv, Nat.mod_one]
    rw [hshort, hexact, hexact, Nat.mul_assoc, ← Nat.pow_add, hexp]
  · have hlong : 52 - l = 0 := by omega
    have hexp : l - 52 + onePlace = l + 1022 := by omega
    rw [hlong, Nat.pow_zero, Nat.mul_one, hexp]

/-- **The number nearest to an integer** is normal, and the integer rounded to 53 digits. -/
theorem exists_ofNat {n : Nat} (h : n ≠ 0) (hn : n < 2 ^ 64) (negative : Bool) :
    ∃ a, ofNat negative n = some a ∧ a.IsNormal ∧ a.negative = negative ∧
      a.mantissa * 2 ^ a.place = roundDiv n (2 ^ (n.log2 - 52)) * 2 ^ (n.log2 - 52) * one := by
  have hbounds := leading_bounds h 52
  have hround := roundDiv_bounds (n * 2 ^ (52 - n.log2)) (2 ^ (n.log2 - 52))
  refine ⟨_, ofNat_eq h hn negative, ?_⟩
  rw [← leading_mul]
  generalize roundDiv (n * 2 ^ (52 - n.log2)) (2 ^ (n.log2 - 52)) = m at *
  split
  · next hm =>
    refine ⟨⟨by simp only; omega, hm, by simp only [minExponent]; omega⟩, rfl, ?_⟩
    have hplace : (⟨negative, m, n.log2 - 52⟩ : Binary64).place = n.log2 + 1022 := by
      simp only [place, minExponent]
      omega
    rw [hplace]
  · next hm =>
    refine ⟨⟨Nat.le_refl _, Nat.pow_lt_pow_right (by decide) (by decide),
      by simp only [minExponent]; omega⟩, rfl, ?_⟩
    have hplace : (⟨negative, 2 ^ 52, n.log2 - 51⟩ : Binary64).place = 1 + (n.log2 + 1022) := by
      simp only [place, minExponent]
      omega
    have hm53 : m = 2 ^ 52 * 2 ^ 1 := by omega
    rw [hplace, hm53, Nat.pow_add 2 1, Nat.mul_assoc]

/-- Zero and the normal numbers are known by their values. -/
theorem eq_of_multiple {a b : Binary64} (ha : a = zero false ∨ a.IsNormal)
    (hb : b = zero false ∨ b.IsNormal) (h : a.multiple = b.multiple) : a = b := by
  rcases ha with rfl | ha <;> rcases hb with rfl | hb
  · rfl
  · exact absurd (h.symm.trans zero_multiple) hb.multiple_ne_zero
  · exact absurd (h.trans zero_multiple) ha.multiple_ne_zero
  · exact ha.eq_of_multiple hb h

end Binary64

/-! ## Integers -/

/-- The place value of the last of the 53 leading binary digits of an integer. -/
def ulp (k : Int) : Nat := 2 ^ (k.natAbs.log2 - 52)

/-- The integer `k` is `r` when rounded to 53 binary digits, half-way to an even last digit. -/
def Nearest (k r : Int) : Prop := ∃ q, RoundsTo (ulp k) k q ∧ r = q * ulp k

theorem ulp_pos (k : Int) : 0 < ulp k := Nat.two_pow_pos _

theorem Nearest.unique {k r r' : Int} (h : Nearest k r) (h' : Nearest k r') : r = r' := by
  obtain ⟨q, hq, rfl⟩ := h
  obtain ⟨q', hq', rfl⟩ := h'
  rw [hq.unique (ulp_pos k) hq']

theorem nearest_of_dvd {k : Int} (h : (ulp k : Int) ∣ k) : Nearest k k := by
  obtain ⟨q, hq⟩ := h
  rw [Int.mul_comm] at hq
  exact ⟨q, .inl (by rw [← hq]; simpa using ulp_pos k), hq⟩

/-- Integers up to the 53rd power of two need no rounding. -/
theorem nearest_of_le {k : Int} (h : k.natAbs ≤ 2 ^ 53) : Nearest k k := by
  apply nearest_of_dvd
  rcases Nat.lt_or_eq_of_le h with hlt | heq
  · have hulp : ulp k = 1 := by
      have hlog : k.natAbs.log2 - 52 = 0 := by
        by_cases hk : k.natAbs = 0
        · rw [hk, Nat.log2_zero]
        · have := (Nat.log2_lt hk).2 hlt
          omega
      rw [ulp, hlog, Nat.pow_zero]
    rw [hulp]
    exact ⟨k, by omega⟩
  · have hulp : ulp k = 2 := by
      rw [ulp, heq, Nat.log2_two_pow]
      rfl
    rw [hulp]
    omega

theorem Nearest.neg {k r : Int} (h : Nearest k r) : Nearest (-k) (-r) := by
  obtain ⟨q, hq, rfl⟩ := h
  have hulp : ulp (-k) = ulp k := by rw [ulp, ulp, Int.natAbs_neg]
  exact ⟨-q, hulp.symm ▸ hq.neg, by rw [hulp, Int.neg_mul]⟩

theorem nearest_natCast (n : Nat) :
    Nearest n (Binary64.roundDiv n (2 ^ (n.log2 - 52)) * 2 ^ (n.log2 - 52) : Nat) :=
  ⟨_, roundsTo_roundDiv (ulp_pos n) n, Nat.cast_mul _ _⟩

/-- **The floating-point number of an integer** has the value that the integer has when rounded. -/
theorem exists_double {k : Int} (hk : Fits k) : ∃ a r, (Number.int k).double = some a ∧
    Nearest k r ∧ a.multiple = r * Binary64.one ∧ (a = Binary64.zero false ∨ a.IsNormal) := by
  by_cases hzero : k = 0
  · subst hzero
    have hmul : (Binary64.zero false).multiple = 0 * Binary64.one := by
      rw [Binary64.zero_multiple, Int.zero_mul]
    exact ⟨.zero false, 0, rfl, nearest_of_le (by decide), hmul, .inl rfl⟩
  · have hfits : k.natAbs < 2 ^ 64 := by
      unfold Fits at hk
      omega
    obtain ⟨a, ha, hnormal, hneg, hmul⟩ :=
      Binary64.exists_ofNat (Int.natAbs_ne_zero.2 hzero) hfits (decide (k < 0))
    have hdouble : (Number.int k).double = some a := by
      rw [Number.double, Number.toBinary64, ha, Option.map_some, Binary64.unsignedZero,
        if_neg hnormal.mantissa_ne_zero]
    have hround := nearest_natCast k.natAbs
    by_cases hsign : k < 0
    · have habs : -(k.natAbs : Int) = k := by omega
      have hnear := hround.neg
      rw [habs] at hnear
      refine ⟨a, _, hdouble, hnear, ?_, .inr hnormal⟩
      rw [Binary64.multiple.eq_def, hneg, hmul, if_pos (decide_eq_true hsign), Nat.cast_mul,
        Int.neg_mul]
    · have habs : (k.natAbs : Int) = k := by omega
      rw [habs] at hround
      refine ⟨a, _, hdouble, hround, ?_, .inr hnormal⟩
      rw [Binary64.multiple.eq_def, hneg, hmul, if_neg (by simpa using hsign), Nat.cast_mul]

/-- Integers are the same number if one rounds to what the other does. -/
theorem double_int_iff {j k : Int} (hj : Fits j) (hk : Fits k) :
    (Number.int j).double = (Number.int k).double ↔ ∃ r, Nearest j r ∧ Nearest k r := by
  obtain ⟨a, r, ha, hr, hmul, hform⟩ := exists_double hj
  obtain ⟨b, r', hb, hr', hmul', hform'⟩ := exists_double hk
  rw [ha, hb, Option.some_inj]
  constructor
  · rintro rfl
    have hone : (Binary64.one : Int) ≠ 0 := Int.natCast_ne_zero.2 (Nat.two_pow_pos _).ne'
    have heq := Int.eq_of_mul_eq_mul_right hone (hmul.symm.trans hmul')
    exact ⟨r, hr, heq ▸ hr'⟩
  · rintro ⟨s, hs, hs'⟩
    have heq : r = r' := (hr.unique hs).trans (hs'.unique hr')
    exact Binary64.eq_of_multiple hform hform' (hmul.trans (heq ▸ hmul'.symm))

/-! ## Values whose numbers are integers -/

namespace Number

/-- Two numbers are integers that round to one. -/
def Meets (m n : Number) : Prop := ∃ j k r, m = int j ∧ n = int k ∧ Nearest j r ∧ Nearest k r

/-- Whether a number is an integer up to the 53rd power of two, which needs no rounding. -/
def isShort : Number → Bool
  | int k => k.natAbs ≤ 2 ^ 53
  | float _ => false

theorem double_eq_iff_meets {m n : Number} (hm : m.isInteger = true) (hn : n.isInteger = true) :
    m.double = n.double ↔ m.Meets n := by
  obtain ⟨j, rfl, hj⟩ := exists_of_isInteger hm
  obtain ⟨k, rfl, hk⟩ := exists_of_isInteger hn
  rw [double_int_iff hj hk]
  constructor
  · rintro ⟨r, hr, hr'⟩
    exact ⟨j, k, r, rfl, rfl, hr, hr'⟩
  · rintro ⟨_, _, r, ⟨⟩, ⟨⟩, hr, hr'⟩
    exact ⟨r, hr, hr'⟩

theorem Meets.eq {m n : Number} (h : m.Meets n) (hm : m.isShort = true) (hn : n.isShort = true) :
    m = n := by
  obtain ⟨j, k, r, rfl, rfl, hr, hr'⟩ := h
  rw [(nearest_of_le (of_decide_eq_true hm)).unique hr,
    (nearest_of_le (of_decide_eq_true hn)).unique hr']

end Number

namespace Value

/-- All numbers are integers that need no rounding and no object repeats a key. -/
abbrev Short : Value → Prop := All (·.isShort = true) List.Nodup

variable {v w : Value}

theorem Regular.distinct (h : v.Regular) : v.Distinct := h.imp (fun _ _ => trivial) fun _ => id

theorem equal_iff_meets (hv : v.Regular) (hw : w.Regular) :
    equal v w = true ↔ Agree Number.Meets v w := by
  rw [equal_iff_agree hv.distinct hw.distinct]
  exact ⟨fun h => h.imp hv hw fun m n hm hn => (Number.double_eq_iff_meets hm hn).1,
    fun h => h.imp hv hw fun m n hm hn => (Number.double_eq_iff_meets hm hn).2⟩

/-- **Equality of values whose numbers are integers** is equality up to the order of keys, with the
integers rounded to 53 binary digits; so it is exact if these are no longer. -/
theorem equal_iff_of_integers (hv : v.Regular) (hw : w.Regular) :
    (equal v w = true ↔ Agree Number.Meets v w) ∧ (Agree (· = ·) v w → equal v w = true) ∧
      (v.Short → w.Short → (equal v w = true ↔ Agree (· = ·) v w)) := by
  have hexact : Agree (· = ·) v w → equal v w = true := by
    intro h
    rw [equal_iff_agree hv.distinct hw.distinct]
    exact h.imp hv.distinct hw.distinct fun _ _ _ _ => congrArg Number.double
  refine ⟨equal_iff_meets hv hw, hexact, fun hvs hws => ⟨fun h => ?_, hexact⟩⟩
  exact ((equal_iff_meets hv hw).1 h).imp hvs hws fun _ _ hm hn hmeets => hmeets.eq hm hn

/-- `{"a": 9007199254740992, "b": [-1]}` -/
def counts : Value :=
  .object [("a".toList, .number (.int 9007199254740992)),
    ("b".toList, .array [.number (.int (-1))])]

/-- `{"b": [-1], "a": 9007199254740992}` -/
def countsAgain : Value :=
  .object [("b".toList, .array [.number (.int (-1))]),
    ("a".toList, .number (.int 9007199254740992))]

theorem equal_iff_of_integers_counts : counts.Regular ∧ countsAgain.Regular ∧ counts.Short ∧
    countsAgain.Short ∧ Agree Number.Meets counts countsAgain ∧
    Agree (· = ·) counts countsAgain := by
  have hv : counts.Regular := by decide
  have hw : countsAgain.Regular := by decide
  have hvs : counts.Short := by decide
  have hws : countsAgain.Short := by decide
  have he : equal counts countsAgain = true := by decide +kernel
  obtain ⟨hmeets, -, hexact⟩ := equal_iff_of_integers hv hw
  exact ⟨hv, hw, hvs, hws, hmeets.1 he, (hexact hvs hws).1 he⟩

/-- **Equality is not exact**: integers that differ in the last of 54 binary digits are equal. -/
theorem not_equal_iff_of_integers :
    ¬∀ v w : Value, v.Regular → w.Regular → (equal v w = true ↔ Agree (· = ·) v w) := by
  intro h
  have he := (h (.number (.int 9007199254740993)) (.number (.int 9007199254740992)) (by decide)
    (by decide)).1 (by decide +kernel)
  cases he with
  | number he => exact absurd he (by decide)

end Value

end SpecHarvest.Json
