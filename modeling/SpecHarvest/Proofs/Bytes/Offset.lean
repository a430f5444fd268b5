import Mathlib.Algebra.Group.Int.Defs
import Mathlib.Algebra.Group.Nat.Defs
import SpecHarvest.Text.Offset
import SpecHarvest.Text.WordChar

/-!
# Checked steps on bytes

A reader that goes over the UTF-8 form of a text by offsets can fail where a reader of characters
cannot: a slice can begin or end past the text or inside a character, an index can lie past the end,
a number can leave its machine type. `Checked` is a computation in which every such step is told
apart (`Fault`), and `Found` one that may find nothing, too.

* `At s i rest`: the offset `i` is a character boundary of `s`, and `rest` is what follows. There
  a slice succeeds (`At.sliceFrom`, `At.slice`), and the byte is the first one of `rest`
  (`At.byte?`).
* `OnBytes p q`: a class of bytes that says of every byte of a character what a class of
  characters says of the character. ASCII delimiters are such classes (`onBytes_ascii`), so a byte
  scan stops at character boundaries only.
* `At.pass`: a loop that passes over single bytes passes over a character, also from inside it.
-/

namespace SpecHarvest.Bytes

open Text

/-! ## Checked steps -/

/-- How a step goes wrong. -/
inductive Fault where
  /-- A slice that ends before it begins, or has an end past the text or inside a character. -/
  | slice
  /-- An index past the end. -/
  | index
  /-- A number that its machine type does not hold. -/
  | overflow
  deriving DecidableEq, Repr

/-- A result, or what went wrong. -/
abbrev Checked := Except Fault

/-- A result that may be missing, or what went wrong. -/
abbrev Found := OptionT Checked

/-- An offset or a count fits a machine word, even one of 32 bits. -/
def fits (n : Nat) : Checked Unit := if n < 2 ^ 32 then .ok () else .error .overflow

/-- A sum of offsets. -/
def add (m n : Nat) : Checked Nat := do
  fits (m + n)
  return m + n

/-- A difference of offsets. -/
def sub (m n : Nat) : Checked Nat := if n ≤ m then .ok (m - n) else .error .overflow

/-- The entry of a list at an index. -/
def entryAt {α : Type} (xs : List α) (i : Nat) : Checked α :=
  match xs[i]? with
  | some x => .ok x
  | none => .error .index

/-- A result together with the fact that it is one, for recursions that end because of what was
found. -/
def attach {α : Type} (x : Checked α) : Checked {a : α // x = .ok a} :=
  match x with
  | .ok a => .ok ⟨a, rfl⟩
  | .error e => .error e

/-- The UTF-8 form of a text. -/
def bytes (s : Text) : List UInt8 := s.flatMap String.utf8EncodeChar

/-- The byte at an offset, if there is one. -/
def byte? (s : Text) (i : Nat) : Option UInt8 := (bytes s)[i]?

/-- The byte at an offset, of which there must be one. -/
def byteAt (s : Text) (i : Nat) : Checked UInt8 := entryAt (bytes s) i

/-- The text from an offset on. -/
def sliceFrom (s : Text) (i : Nat) : Checked Text :=
  match cutAt? i s with
  | some (_, rest) => .ok rest
  | none => .error .slice

/-- The text between two offsets. -/
def slice (s : Text) (i j : Nat) : Checked Text := do
  let rest ← sliceFrom s i
  if j < i then throw .slice
  else
    match cutAt? (j - i) rest with
    | some (front, _) => return front
    | none => throw .slice

@[simp] theorem ok_bind {α β : Type} (a : α) (f : α → Checked β) :
    ((.ok a : Checked α) >>= f) = f a := rfl

@[simp] theorem checked_pure {α : Type} (a : α) : (pure a : Checked α) = .ok a := rfl

theorem bind_eq_ok_iff {α β : Type} {x : Checked α} {f : α → Checked β} {b : β} :
    (x >>= f) = .ok b ↔ ∃ a, x = .ok a ∧ f a = .ok b := by
  constructor
  · intro h
    cases x with
    | error e => cases h
    | ok a => exact ⟨a, rfl, h⟩
  · rintro ⟨a, rfl, h⟩
    exact h

theorem attach_of_eq {α : Type} {x : Checked α} {a : α} (h : x = .ok a) :
    attach x = .ok ⟨a, h⟩ := by
  subst h
  rfl

theorem attach_bind {α β : Type} {x : Checked α} {f : {a // x = .ok a} → Checked β}
    {g : α → Checked β} (h : ∀ a, f a = g a.1) : (attach x >>= f) = x >>= g := by
  cases x with
  | error e => rfl
  | ok a => exact h ⟨a, rfl⟩

theorem fits_of_lt {n : Nat} (h : n < 2 ^ 32) : fits n = .ok () := if_pos h

theorem add_of_lt {m n : Nat} (h : m + n < 2 ^ 32) : add m n = .ok (m + n) := by
  simp [add, fits_of_lt h]

theorem sub_of_le {m n : Nat} (h : n ≤ m) : sub m n = .ok (m - n) := if_pos h

theorem entryAt_of_getElem? {α : Type} {xs : List α} {i : Nat} {x : α} (h : xs[i]? = some x) :
    entryAt xs i = .ok x := by
  simp [entryAt, h]

/-! ## Bytes and widths -/

@[simp] theorem width_nil : width [] = 0 := rfl

theorem width_pos (c : Char) (s : Text) : 0 < width (c :: s) := by
  have := c.utf8Size_pos
  simp only [width_cons]
  omega

@[simp] theorem bytes_nil : bytes [] = [] := rfl

@[simp] theorem bytes_cons (c : Char) (s : Text) :
    bytes (c :: s) = String.utf8EncodeChar c ++ bytes s := rfl

@[simp] theorem bytes_append (s t : Text) : bytes (s ++ t) = bytes s ++ bytes t := by
  simp [bytes]

@[simp] theorem length_bytes (s : Text) : (bytes s).length = width s := by
  induction s with
  | nil => rfl
  | cons c s ih => simp [ih, String.length_utf8EncodeChar]

/-- A text that is part of another one is no wider. -/
theorem width_le_of_sublist {s t : Text} (h : s.Sublist t) : width s ≤ width t := by
  induction h with
  | slnil => exact Nat.le_refl _
  | cons c _ ih =>
    simp only [width_cons]
    omega
  | cons_cons c _ ih =>
    simp only [width_cons]
    omega

/-! ## Character boundaries -/

/-- The offset `i` is a character boundary of `s`, before `rest`. -/
def At (s : Text) (i : Nat) (rest : Text) : Prop := ∃ front, s = front ++ rest ∧ width front = i

theorem at_zero (s : Text) : At s 0 s := ⟨[], rfl, rfl⟩

theorem cutAt?_width (front rest : Text) :
    cutAt? (width front) (front ++ rest) = some (front, rest) := by
  induction front with
  | nil => cases rest <;> rfl
  | cons c front ih =>
    obtain ⟨n, hn⟩ := Nat.exists_eq_add_one_of_ne_zero (Nat.ne_of_gt (width_pos c front))
    have hw : n + 1 = c.utf8Size + width front := by rw [← hn, width_cons]
    rw [hn, List.cons_append, cutAt?, if_pos (by omega),
      show n + 1 - c.utf8Size = width front by omega, ih]
    rfl

theorem cutFrom_width (front rest : Text) :
    cutFrom (width front) (front ++ rest) = (front, rest) := by
  induction front with
  | nil => cases rest <;> rfl
  | cons c front ih =>
    obtain ⟨n, hn⟩ := Nat.exists_eq_add_one_of_ne_zero (Nat.ne_of_gt (width_pos c front))
    have hw : n + 1 = c.utf8Size + width front := by rw [← hn, width_cons]
    rw [hn, List.cons_append, cutFrom, show n + 1 - c.utf8Size = width front by omega, ih]

namespace At

variable {s rest : Text} {i : Nat}

theorem add_width (h : At s i rest) : i + width rest = width s := by
  obtain ⟨front, rfl, rfl⟩ := h
  rw [width_append]

theorem sublist (h : At s i rest) : rest.Sublist s := by
  obtain ⟨front, rfl, -⟩ := h
  exact List.sublist_append_right front rest

theorem append {a : Text} (h : At s i (a ++ rest)) : At s (i + width a) rest := by
  obtain ⟨front, rfl, rfl⟩ := h
  exact ⟨front ++ a, by simp, by simp⟩

theorem cons {c : Char} (h : At s i (c :: rest)) : At s (i + c.utf8Size) rest := by
  have := append (a := [c]) h
  simpa [width] using this

theorem lt {c : Char} (h : At s i (c :: rest)) : i < width s := by
  have := h.add_width
  have := width_pos c rest
  omega

theorem eq_width (h : At s i []) : i = width s := by simpa [width] using h.add_width

theorem sliceFrom (h : At s i rest) : sliceFrom s i = .ok rest := by
  obtain ⟨front, rfl, rfl⟩ := h
  simp [Bytes.sliceFrom, cutAt?_width]

theorem slice {a : Text} {j : Nat} (h : At s i (a ++ rest)) (hj : j = i + width a) :
    slice s i j = .ok a := by
  subst hj
  simp [Bytes.slice, h.sliceFrom, cutAt?_width]

theorem drop_bytes (h : At s i rest) : (bytes s).drop i = bytes rest := by
  obtain ⟨front, rfl, rfl⟩ := h
  rw [bytes_append, ← length_bytes, List.drop_left]

theorem byte? (h : At s i rest) (k : Nat) : byte? s (i + k) = (bytes rest)[k]? := by
  rw [← h.drop_bytes, List.getElem?_drop]
  rfl

end At

/-! ## Classes of bytes -/

/-- A class of bytes that holds of each byte of a character if a class of characters holds of the
character. -/
def OnBytes (p : UInt8 → Bool) (q : Char → Bool) : Prop :=
  ∀ c, ∀ b ∈ String.utf8EncodeChar c, p b = q c

/-- The bytes that are ASCII characters of a class. -/
def ascii (q : Char → Bool) (b : UInt8) : Bool := b.toNat < 0x80 && q (Char.ofNat b.toNat)

/-- A text of ASCII characters. -/
def IsAscii (s : Text) : Prop := ∀ c ∈ s, c.toNat < 0x80

instance (s : Text) : Decidable (IsAscii s) := List.decidableBAll _ s

theorem utf8EncodeChar_of_lt {c : Char} (h : c.toNat < 0x80) :
    String.utf8EncodeChar c = [c.toUInt8] := by
  have hv : c.val ≤ 127 := UInt32.le_iff_toNat_le.2 (Nat.le_of_lt_succ h)
  exact String.utf8EncodeChar_eq_singleton (Char.utf8Size_eq_one_iff.2 hv)

theorem utf8Size_of_lt {c : Char} (h : c.toNat < 0x80) : c.utf8Size = 1 := by
  rw [← String.length_utf8EncodeChar, utf8EncodeChar_of_lt h]
  rfl

theorem toNat_toUInt8 {c : Char} (h : c.toNat < 0x80) : c.toUInt8.toNat = c.toNat := by
  have : c.toUInt8.toNat = c.toNat % 256 := UInt32.toNat_toUInt8 c.val
  omega

/-- A character outside ASCII has no byte of ASCII. -/
theorem le_of_mem_utf8EncodeChar {c : Char} (h : 0x80 ≤ c.toNat) {b : UInt8}
    (hb : b ∈ String.utf8EncodeChar c) : 0x80 ≤ b.toNat := by
  have hv : ¬c.val.toNat ≤ 0x7f := Nat.not_le.2 h
  simp only [String.utf8EncodeChar, if_neg hv] at hb
  split at hb
  · simp only [List.mem_cons, List.not_mem_nil, or_false] at hb
    rcases hb with rfl | rfl <;> simp only [UInt8.toNat_ofNat'] <;> omega
  · split at hb
    · simp only [List.mem_cons, List.not_mem_nil, or_false] at hb
      rcases hb with rfl | rfl | rfl <;> simp only [UInt8.toNat_ofNat'] <;> omega
    · simp only [List.mem_cons, List.not_mem_nil, or_false] at hb
      rcases hb with rfl | rfl | rfl | rfl <;> simp only [UInt8.toNat_ofNat'] <;> omega

theorem onBytes_ascii {q : Char → Bool} (hq : ∀ c, q c = true → c.toNat < 0x80) :
    OnBytes (ascii q) q := by
  intro c b hb
  by_cases hc : c.toNat < 0x80
  · rw [utf8EncodeChar_of_lt hc, List.mem_singleton] at hb
    subst hb
    rw [ascii, toNat_toUInt8 hc, Char.ofNat_toNat]
    simp [hc]
  · have := le_of_mem_utf8EncodeChar (Nat.le_of_not_lt hc) hb
    rw [Bool.eq_false_iff.2 (mt (hq c) hc), ascii, decide_eq_false (Nat.not_lt.2 this),
      Bool.false_and]

theorem At.cons_ascii {s rest : Text} {i : Nat} {c : Char} (h : At s i (c :: rest))
    (hc : c.toNat < 0x80) : At s (i + 1) rest := utf8Size_of_lt hc ▸ h.cons

/-- An ASCII character has a byte in common with no other character. -/
theorem eq_toUInt8_iff {c d : Char} {b : UInt8} (hb : b ∈ String.utf8EncodeChar c)
    (hd : d.toNat < 0x80) : b = d.toUInt8 ↔ c = d := by
  constructor
  · rintro rfl
    by_cases hc : c.toNat < 0x80
    · rw [utf8EncodeChar_of_lt hc, List.mem_singleton] at hb
      have := congrArg UInt8.toNat hb
      rw [toNat_toUInt8 hd, toNat_toUInt8 hc] at this
      exact Char.toNat_inj.1 this.symm
    · have := le_of_mem_utf8EncodeChar (Nat.le_of_not_lt hc) hb
      rw [toNat_toUInt8 hd] at this
      omega
  · rintro rfl
    rw [utf8EncodeChar_of_lt hd, List.mem_singleton] at hb
    exact hb

theorem ne_toUInt8_of_le {b : UInt8} (hb : 0x80 ≤ b.toNat) {d : Char} (hd : d.toNat < 0x80) :
    b ≠ d.toUInt8 := by
  rintro rfl
  rw [toNat_toUInt8 hd] at hb
  omega

theorem OnBytes.takeWhile {p : UInt8 → Bool} {q : Char → Bool} (h : OnBytes p q) (s : Text) :
    (bytes s).takeWhile p = bytes (s.takeWhile q) := by
  induction s with
  | nil => rfl
  | cons c s ih =>
    rw [bytes_cons, List.takeWhile_cons]
    cases hc : q c with
    | true =>
      rw [List.takeWhile_append_of_pos fun b hb => (h c b hb).trans hc, ih]
      rfl
    | false =>
      obtain ⟨b, bs, hbs⟩ := List.exists_cons_of_length_pos
        (String.length_utf8EncodeChar c ▸ c.utf8Size_pos)
      have hb := h c b (by simp [hbs])
      simp [hbs, hb, hc, bytes]

theorem OnBytes.all {p : UInt8 → Bool} {q : Char → Bool} (h : OnBytes p q) (s : Text) :
    (bytes s).all p = s.all q := by
  induction s with
  | nil => rfl
  | cons c s ih =>
    have hc : (String.utf8EncodeChar c).all p = q c := by
      obtain ⟨b, bs, hbs⟩ := List.exists_cons_of_length_pos
        (String.length_utf8EncodeChar c ▸ c.utf8Size_pos)
      cases hq : q c with
      | true => exact List.all_eq_true.2 fun b hb => (h c b hb).trans hq
      | false =>
        have hb := h c b (by simp [hbs])
        simp [hbs, hb, hq]
    rw [bytes_cons, List.all_append, hc, ih, List.all_cons]

/-- Where a byte is an ASCII character, the character stands there. -/
theorem at_of_byte? {s : Text} {i : Nat} {d : Char} (hd : d.toNat < 0x80)
    (h : byte? s i = some d.toUInt8) : ∃ rest, At s i (d :: rest) := by
  induction s generalizing i with
  | nil => simp [byte?] at h
  | cons c s ih =>
    rw [byte?, bytes_cons] at h
    rcases Nat.lt_or_ge i c.utf8Size with hi | hi
    · rw [List.getElem?_append_left (by rwa [String.length_utf8EncodeChar])] at h
      obtain rfl := (eq_toUInt8_iff (List.mem_of_getElem? h) hd).1 rfl
      rw [utf8Size_of_lt hd] at hi
      obtain rfl : i = 0 := by omega
      exact ⟨s, at_zero _⟩
    · rw [List.getElem?_append_right (by rwa [String.length_utf8EncodeChar]),
        String.length_utf8EncodeChar] at h
      obtain ⟨rest, front, hs, hw⟩ := ih h
      exact ⟨rest, c :: front, by rw [hs]; rfl, by rw [width_cons, hw]; omega⟩

/-! ## Passing over characters -/

/-- The first byte of a character. -/
def lead (c : Char) : UInt8 := (String.utf8EncodeChar c).headD 0

theorem head?_utf8EncodeChar (c : Char) : (String.utf8EncodeChar c).head? = some (lead c) := by
  obtain ⟨b, bs, hbs⟩ := List.exists_cons_of_length_pos
    (String.length_utf8EncodeChar c ▸ c.utf8Size_pos)
  simp [lead, hbs]

theorem lead_mem (c : Char) : lead c ∈ String.utf8EncodeChar c :=
  List.mem_of_head? (head?_utf8EncodeChar c)

theorem lead_of_lt {c : Char} (h : c.toNat < 0x80) : lead c = c.toUInt8 := by
  simp [lead, utf8EncodeChar_of_lt h]

theorem lead_eq_iff {c d : Char} (hd : d.toNat < 0x80) : lead c = d.toUInt8 ↔ c = d :=
  eq_toUInt8_iff (lead_mem c) hd

namespace At

variable {s rest : Text} {i : Nat}

theorem byte?_cons {c : Char} (h : At s i (c :: rest)) : Bytes.byte? s i = some (lead c) := by
  have := h.byte? 0
  rw [Nat.add_zero, bytes_cons, ← List.head?_eq_getElem?, List.head?_append,
    head?_utf8EncodeChar] at this
  exact this

theorem byteAt {c : Char} (h : At s i (c :: rest)) : byteAt s i = .ok (lead c) :=
  entryAt_of_getElem? h.byte?_cons

variable {α : Type} {c : Char}

theorem pass_from (loop : Nat → α) (h : At s i (c :: rest))
    (hs : ∀ j b, Bytes.byte? s j = some b → b ∈ String.utf8EncodeChar c → loop j = loop (j + 1))
    {k : Nat} (hk : k ≤ c.utf8Size) : loop (i + k) = loop (i + c.utf8Size) := by
  obtain ⟨n, hn⟩ := Nat.exists_eq_add_of_le hk
  induction n generalizing k with
  | zero => rw [hn, Nat.add_zero]
  | succ n ih =>
    have hlt : k < (String.utf8EncodeChar c).length := by
      rw [String.length_utf8EncodeChar]
      omega
    have hb := h.byte? k
    rw [bytes_cons, List.getElem?_append_left hlt, List.getElem?_eq_getElem hlt] at hb
    rw [hs _ _ hb (List.getElem_mem hlt), Nat.add_assoc]
    exact ih (by omega) (by omega)

/-- A loop that passes over every byte of a character passes over the character. -/
theorem pass (loop : Nat → α) (h : At s i (c :: rest))
    (hs : ∀ j b, Bytes.byte? s j = some b → b ∈ String.utf8EncodeChar c → loop j = loop (j + 1)) :
    loop i = loop (i + c.utf8Size) := h.pass_from loop hs (Nat.zero_le _)

/-- A loop that passes over every byte outside ASCII, and over a character if it is of ASCII. -/
theorem pass_of (loop : Nat → α) (h : At s i (c :: rest))
    (ha : c.toNat < 0x80 → loop i = loop (i + 1))
    (hs : ∀ j b, Bytes.byte? s j = some b → 0x80 ≤ b.toNat → loop j = loop (j + 1)) :
    loop i = loop (i + c.utf8Size) := by
  by_cases hc : c.toNat < 0x80
  · rw [utf8Size_of_lt hc, ha hc]
  · have hc := Nat.le_of_not_lt hc
    exact h.pass loop fun j b hj hb => hs j b hj (le_of_mem_utf8EncodeChar hc hb)

/-- A loop that passes over every byte outside ASCII leaves a character that it stands in. -/
theorem pass_inside (loop : Nat → α) (h : At s i (c :: rest))
    (hs : ∀ j b, Bytes.byte? s j = some b → 0x80 ≤ b.toNat → loop j = loop (j + 1)) :
    loop (i + 1) = loop (i + c.utf8Size) := by
  by_cases hc : c.toNat < 0x80
  · rw [utf8Size_of_lt hc]
  · have hc := Nat.le_of_not_lt hc
    exact h.pass_from loop (fun j b hj hb => hs j b hj (le_of_mem_utf8EncodeChar hc hb))
      c.utf8Size_pos

end At

end SpecHarvest.Bytes
