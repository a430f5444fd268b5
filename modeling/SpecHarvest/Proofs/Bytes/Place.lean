import Mathlib.Order.Bounds.Basic
import SpecHarvest.Proofs.Bytes.Keyword

/-!
# Places of a keyword, by bytes

* `WordAt word s i`: the bytes of `word` stand at the offset `i`, and neither the byte before them
  nor the one after them belongs to an identifier. `wordAt_iff`: these are the places where
  `StandsAlone` says so by characters.
* `keywordAt?_isLeast`: from a character boundary on, the search finds the least such offset, and
  none only if there is none.
* `findWord_at_boundary`: the search over bytes, which goes on one byte after a place that it
  rejects, finds the same.
-/

namespace SpecHarvest.Bytes

open Text Source

/-- A word at an offset, with no byte of an identifier right before it or right after it. -/
structure WordAt (word s : Text) (i : Nat) : Prop where
  stands : bytes word <+: (bytes s).drop i
  before : ∀ b, 0 < i → byte? s (i - 1) = some b → ascii isIdentChar b = false
  after : ∀ b, byte? s (i + width word) = some b → ascii isIdentChar b = false

/-! ## Bytes and characters -/

/-- Of two starts of a text the wider one is the longer one. -/
theorem width_le_width_iff {x y s : Text} (hx : x <+: s) (hy : y <+: s) :
    width x ≤ width y ↔ x.length ≤ y.length := by
  constructor
  · intro hle
    by_contra hlt
    obtain ⟨z, rfl⟩ := List.prefix_of_prefix_length_le hy hx (Nat.le_of_not_le hlt)
    cases z with
    | nil => simp at hlt
    | cons c z =>
      have := width_pos c z
      rw [width_append] at hle
      omega
  · intro hle
    exact width_le_of_sublist (List.prefix_of_prefix_length_le hx hy hle).sublist

theorem prefix_of_bytes {word s : Text} (hw : IsAscii word) (h : bytes word <+: bytes s) :
    word <+: s := by
  induction word generalizing s with
  | nil => exact List.nil_prefix
  | cons d w ih =>
    have hd := hw d (by simp)
    rw [bytes_cons, utf8EncodeChar_of_lt hd, List.singleton_append] at h
    cases s with
    | nil => simp at h
    | cons c s =>
      obtain ⟨b, bs, hbs⟩ := List.exists_cons_of_length_pos
        (String.length_utf8EncodeChar c ▸ c.utf8Size_pos)
      rw [bytes_cons, hbs, List.cons_append, List.cons_prefix_cons] at h
      obtain rfl : c = d := (eq_toUInt8_iff (by simp [hbs]) hd).1 h.1.symm
      rw [utf8EncodeChar_of_lt hd] at hbs
      obtain ⟨-, rfl⟩ := List.cons.inj hbs
      exact List.cons_prefix_cons.2 ⟨rfl, ih (fun e he => hw e (by simp [he])) h.2⟩

theorem At.unique {s rest rest' : Text} {i : Nat} (h : At s i rest) (h' : At s i rest') :
    rest = rest' := by
  have := h.sliceFrom
  rw [h'.sliceFrom] at this
  exact (Except.ok.inj this).symm

theorem startsHere_iff (front rest : Text) : startsHere front.getLast? = true ↔
    ∀ b, 0 < width front → byte? (front ++ rest) (width front - 1) = some b →
      ascii isIdentChar b = false := by
  rcases List.eq_nil_or_concat' front with rfl | ⟨f, d, rfl⟩
  · simp [startsHere]
  · obtain ⟨b, hmem, hb⟩ := exists_byte_before f d rest
    have hident : ascii isIdentChar b = isIdentChar d := onBytes_ascii lt_of_isIdentChar d b hmem
    have hpos : 0 < width (f ++ [d]) := by
      have := d.utf8Size_pos
      simp only [width_append, width_cons]
      omega
    rw [List.getLast?_concat, startsHere, Bool.not_eq_true']
    constructor
    · intro hd b' _ hb'
      obtain rfl := Option.some.inj (hb.symm.trans hb')
      rw [hident, hd]
    · intro h
      rw [← hident]
      exact h b hpos hb

theorem endsHere_iff {s rest : Text} {j : Nat} (h : At s j rest) :
    endsHere isIdentChar rest = true ↔
      ∀ b, byte? s j = some b → ascii isIdentChar b = false := by
  cases rest with
  | nil =>
    have hb := h.byte? 0
    rw [Nat.add_zero] at hb
    simp [endsHere, hb]
  | cons d t =>
    have hident : ascii isIdentChar (lead d) = isIdentChar d :=
      onBytes_ascii lt_of_isIdentChar d _ (lead_mem d)
    simp [endsHere, h.byte?_cons, hident]

theorem keywordAt?_width (word front rest : Text) : keywordAt? word (width front) (front ++ rest) =
    (keywordSearch word front.getLast? rest).map fun p => width front + width p.1 := by
  rw [keywordAt?, cutAt?_width, Option.bind_some]

section

variable {word s : Text} (hw : IsWord word)
include hw

/-- **The places of a keyword** are the same by bytes and by characters. -/
theorem wordAt_iff {i : Nat} : WordAt word s i ↔
    ∃ front tail, StandsAlone none word s front tail ∧ width front = i := by
  have hlast (front : Text) : front.getLast?.or none = front.getLast? := Option.or_none
  constructor
  · intro h
    obtain ⟨d, w, rfl⟩ := List.exists_cons_of_ne_nil hw.1
    have hd := hw.2 d (by simp)
    have hbyte : byte? s i = some d.toUInt8 := by
      obtain ⟨t, ht⟩ := h.stands
      rw [bytes_cons, utf8EncodeChar_of_lt hd] at ht
      have hget := congrArg (·[0]?) ht
      simpa [byte?] using hget.symm
    obtain ⟨rest, hat⟩ := at_of_byte? hd hbyte
    have hprefix := h.stands
    rw [hat.drop_bytes] at hprefix
    obtain ⟨tail, ht⟩ := prefix_of_bytes hw.2 hprefix
    rw [← ht] at hat
    obtain ⟨front, hs, rfl⟩ := hat
    have htail : At s (width front + width (d :: w)) tail := At.append ⟨front, hs, rfl⟩
    refine ⟨front, tail, ⟨by rw [hs, List.append_assoc], ?_, (endsHere_iff htail).2 h.after⟩, rfl⟩
    rw [hlast, startsHere_iff front (d :: w ++ tail), ← hs]
    exact h.before
  · rintro ⟨front, tail, hp, rfl⟩
    have hs : s = front ++ (word ++ tail) := by rw [hp.eq, List.append_assoc]
    have hat : At s (width front) (word ++ tail) := ⟨front, hs, rfl⟩
    have hstart := hp.start
    rw [hlast, startsHere_iff front (word ++ tail), ← hs] at hstart
    refine ⟨?_, hstart, (endsHere_iff hat.append).1 hp.stop⟩
    rw [hat.drop_bytes, bytes_append]
    exact List.prefix_append _ _

/-- The places from a character boundary on. -/
theorem wordAt_from_iff {front rest : Text} {i : Nat} :
    (width front ≤ i ∧ WordAt word (front ++ rest) i) ↔
      ∃ f tail, StandsAlone front.getLast? word rest f tail ∧ width front + width f = i := by
  have hlast : front.getLast?.or none = front.getLast? := Option.or_none
  constructor
  · rintro ⟨hle, h⟩
    obtain ⟨g, tail, hp, rfl⟩ := (wordAt_iff hw).1 h
    have hfront : front <+: front ++ rest := List.prefix_append _ _
    obtain ⟨f, rfl⟩ := List.prefix_of_prefix_length_le hfront hp.isPrefix_front
      ((width_le_width_iff hfront hp.isPrefix_front).1 hle)
    rw [standsAlone_append_left_iff, hlast] at hp
    exact ⟨f, tail, hp, by rw [width_append]⟩
  · rintro ⟨f, tail, hp, rfl⟩
    rw [← hlast, ← standsAlone_append_left_iff] at hp
    exact ⟨Nat.le_add_right _ _, (wordAt_iff hw).2 ⟨_, tail, hp, width_append front f⟩⟩

/-! ## The search -/

/-- **The search of a keyword misses nothing**: from a character boundary on, it finds the least
place, and none only if there is none. -/
theorem keywordAt?_isLeast {start : Nat} {rest : Text} (h : At s start rest) :
    (∀ i, keywordAt? word start s = some i ↔ IsLeast {i | start ≤ i ∧ WordAt word s i} i) ∧
      (keywordAt? word start s = none ↔ ∀ i, start ≤ i → ¬WordAt word s i) := by
  obtain ⟨front, rfl, rfl⟩ := h
  obtain ⟨d, w, rfl⟩ := List.exists_cons_of_ne_nil hw.1
  have hleft := keywordSearch_leftmost (b := front.getLast?) (w := w)
    (utf8Size_of_lt (hw.2 d (by simp))) rest
  have hsome (i : Nat) : keywordAt? (d :: w) (width front) (front ++ rest) = some i →
      IsLeast {i | width front ≤ i ∧ WordAt (d :: w) (front ++ rest) i} i := by
    rw [keywordAt?_width]
    intro hi
    obtain ⟨⟨f, tail⟩, hf, rfl⟩ := Option.map_eq_some_iff.1 hi
    rw [hf] at hleft
    refine ⟨(wordAt_from_iff hw).2 ⟨f, tail, hleft.1, rfl⟩, fun j hj => ?_⟩
    obtain ⟨f', tail', hp, rfl⟩ := (wordAt_from_iff hw).1 hj
    exact Nat.add_le_add_left ((width_le_width_iff hleft.1.isPrefix_front hp.isPrefix_front).2
      (hleft.2 f' tail' hp)) _
  have hnone : keywordAt? (d :: w) (width front) (front ++ rest) = none →
      ∀ i, width front ≤ i → ¬WordAt (d :: w) (front ++ rest) i := by
    rw [keywordAt?_width, Option.map_eq_none_iff]
    intro hn i hi hword
    rw [hn] at hleft
    obtain ⟨f, tail, hp, -⟩ := (wordAt_from_iff hw).1 ⟨hi, hword⟩
    exact hleft f tail hp
  refine ⟨fun i => ⟨hsome i, fun hi => ?_⟩, ⟨hnone, fun hall => ?_⟩⟩
  · cases hk : keywordAt? (d :: w) (width front) (front ++ rest) with
    | none => exact absurd hi.1.2 (hnone hk i hi.1.1)
    | some j => rw [(hsome j hk).unique hi]
  · cases hk : keywordAt? (d :: w) (width front) (front ++ rest) with
    | none => rfl
    | some j => exact absurd (hsome j hk).1.2 (hall j (hsome j hk).1.1)

/-- **The search over bytes** finds the same, without a fault. -/
theorem findWord_at_boundary (hs : Small s) {start : Nat} {rest : Text} (h : At s start rest) :
    findWord s word start = .ok (keywordAt? word start s) := by
  obtain ⟨front, rfl, rfl⟩ := h
  rw [findWord_width hw hs rfl, keywordAt?_width]

end

end SpecHarvest.Bytes
