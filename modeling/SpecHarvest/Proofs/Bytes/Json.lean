import SpecHarvest.Json.Relaxed
import SpecHarvest.Json.Syntax
import SpecHarvest.Proofs.Bytes.Cursor
import SpecHarvest.Proofs.Json.Relaxed

/-!
# Relaxed JSON over bytes

The scan that puts bare keys into quotes copies slices of its text: strings, identifiers and single
characters. It remembers the last byte that was no white space where `quoteKeysAfter` remembers a
character; the two say the same about whether a key may follow (`opensKeyByte`).
`quoteBareKeys_eq`: every slice is between boundaries, and the outcome is the same.
-/

namespace SpecHarvest.Bytes

open Text Source Json

/-- What an identifier starts with. -/
def startsName (c : Char) : Bool := c.isAlpha || c == '_'

/-- Whether a key may follow the last byte that was not white space. -/
def opensKeyByte : Option UInt8 → Bool
  | some b => b == '{'.toUInt8 || b == ','.toUInt8
  | none => false

/-- The width of the first character, and 1 at the end. -/
def headWidth : Text → Nat
  | c :: _ => c.utf8Size
  | [] => 1

theorem headWidth_pos (s : Text) : 0 < headWidth s := by
  cases s with
  | nil => exact Nat.one_pos
  | cons c s => exact c.utf8Size_pos

theorem length_takeWhile_pos {s : Text} {i : Nat} {b : UInt8} {p : UInt8 → Bool}
    (hb : byteAt s i = .ok b) (hp : p b = true) :
    0 < (((bytes s).drop i).takeWhile p).length := by
  rw [Bytes.byteAt, entryAt] at hb
  split at hb
  · next b' hget =>
    cases hb
    obtain ⟨hi, hget⟩ := List.getElem?_eq_some_iff.1 hget
    rw [List.drop_eq_getElem_cons hi, hget, List.takeWhile_cons, if_pos hp]
    exact Nat.succ_pos _
  · cases hb

theorem isIdentByte_of_startsName {b : UInt8} (h : ascii startsName b = true) :
    ascii isIdentChar b = true := by
  simp only [ascii, startsName, Bool.and_eq_true, Bool.or_eq_true] at h
  simp only [ascii, isIdentChar, Char.isAlphanum, Bool.and_eq_true, Bool.or_eq_true]
  exact ⟨h.1, h.2.imp_left .inl⟩

/-- The text from an offset on, with its bare keys in quotes. -/
def quoteKeysFrom (s : Text) (last : Option UInt8) (i : Nat) : Checked Text :=
  if i < width s then do
    let ⟨b, _hb⟩ ← attach (byteAt s i)
    if b = '"'.toUInt8 then do
      let ⟨found, _h⟩ ← attach (closingQuote s i)
      let _ ← sub (width s) 1
      let close := found.getD (width s - 1)
      fits (close + 1)
      let kept ← slice s i (close + 1)
      return kept ++ (← quoteKeysFrom s (some '"'.toUInt8) (close + 1))
    else if _hk : (ascii startsName b && opensKeyByte last) = true then do
      let len := (((bytes s).drop i).takeWhile (ascii isIdentChar)).length
      fits (i + len)
      let name ← slice s i (i + len)
      let tail ← sliceFrom s (i + len)
      let previous ← byteAt s (← sub (i + len) 1)
      let kept := if startsWith [':'] (trimStart tail) then '"' :: name ++ ['"'] else name
      return kept ++ (← quoteKeysFrom s (some previous) (i + len))
    else do
      let len := headWidth (← sliceFrom s i)
      fits (i + len)
      let kept ← slice s i (i + len)
      return kept ++ (← quoteKeysFrom s (if ascii isKeySpace b then last else some b) (i + len))
  else return []
termination_by width s - i
decreasing_by
  · match found, _h with
    | some c, h =>
      have := lt_of_closingQuote h
      simp only [Option.getD_some]
      omega
    | none, _ =>
      simp only [Option.getD_none]
      omega
  · rw [Bool.and_eq_true] at _hk
    have : 0 < len := length_takeWhile_pos _hb (isIdentByte_of_startsName _hk.1)
    omega
  · have : 0 < len := headWidth_pos _
    omega

/-- A text with its bare keys in quotes. -/
def quoteBareKeys (s : Text) : Checked Text := quoteKeysFrom s none 0

section

variable {s rest : Text} {i : Nat}

theorem lt_of_startsName (c : Char) (h : startsName c = true) : c.toNat < 0x80 := by
  rw [startsName, Bool.or_eq_true, beq_iff_eq] at h
  rcases h with h | rfl
  · exact lt_of_isAlpha c h
  · decide

theorem lt_of_isKeySpace (c : Char) (h : isKeySpace c = true) : c.toNat < 0x80 := by
  simp only [isKeySpace, Bool.or_eq_true, beq_iff_eq] at h
  rcases h with (((rfl | rfl) | rfl) | rfl) | rfl <;> decide

theorem opensKeyByte_lead (c : Char) : opensKeyByte (some (lead c)) = opensKey (some c) := by
  rw [opensKeyByte, opensKey, Bool.eq_iff_iff]
  simp only [Bool.or_eq_true, beq_iff_eq]
  rw [lead_eq_iff (by decide), lead_eq_iff (by decide)]

/-- No key follows the last byte of an identifier. -/
theorem exists_last_byte {name : Text} (h : At s i (name ++ rest)) (hne : name ≠ [])
    (hn : ∀ d ∈ name, isIdentChar d = true) :
    ∃ b, byteAt s (i + width name - 1) = .ok b ∧ opensKeyByte (some b) = false := by
  rcases List.eq_nil_or_concat' name with rfl | ⟨f, d, rfl⟩
  · exact absurd rfl hne
  · have hd := hn d (by simp)
    have hat : At s (i + width f) (d :: rest) := by
      rw [List.append_assoc] at h
      exact h.append
    have hw : i + width (f ++ [d]) - 1 = i + width f := by
      rw [width_append, width_cons, utf8Size_of_isIdentChar hd, width_nil]
      omega
    refine ⟨lead d, hw ▸ hat.byteAt, ?_⟩
    rw [opensKeyByte_lead, (quiet_of_isIdentChar hd).2]

theorem quoteKeysFrom_quote {last : Option UInt8} (h : At s i ('"' :: rest)) {o : Option Nat}
    (ho : closingQuote s i = .ok o) : quoteKeysFrom s last i = (do
      let _ ← sub (width s) 1
      fits (o.getD (width s - 1) + 1)
      let kept ← slice s i (o.getD (width s - 1) + 1)
      return kept ++ (← quoteKeysFrom s (some '"'.toUInt8) (o.getD (width s - 1) + 1))) := by
  rw [quoteKeysFrom, if_pos h.lt, attach_of_eq h.byteAt, ok_bind]
  show (if lead '"' = _ then _ else _) = _
  rw [if_pos (lead_of_lt (by decide)), attach_of_eq ho, ok_bind]

theorem quoteKeysFrom_at (hs : Small s) {last : Option UInt8} {last' : Option Char}
    (h : At s i rest) (hl : opensKeyByte last = opensKey last') :
    quoteKeysFrom s last i = .ok (quoteKeysAfter last' rest) := by
  fun_induction quoteKeysAfter last' rest generalizing i last with
  | case1 =>
    rw [quoteKeysFrom, if_neg (by have := h.eq_width; omega)]
    rfl
  | case2 last' t raw rest hq ih =>
    have hquote : closingQuote s i = .ok (some (i + 1 + width raw)) := by
      rw [closingQuote_at hs h]
      simp [quoted?, hq]
    have hat : At s i ('"' :: raw ++ ['"'] ++ rest) := by
      simpa [eq_of_closeQuote? hq] using h
    have hw : width ('"' :: raw ++ ['"']) = 1 + width raw + 1 := by simp; rfl
    have hrest := hat.append
    rw [hw] at hrest
    have hlen := hrest.add_width
    rw [quoteKeysFrom_quote h hquote, Option.getD_some, sub_of_le (by omega), ok_bind,
      fits_of_small hs (by omega), ok_bind, hat.slice (by omega), ok_bind]
    rw [ih (by simpa [Nat.add_assoc] using hrest) (by decide)]
    simp
  | case3 last' t hq =>
    have hquote : closingQuote s i = .ok none := by
      rw [closingQuote_at hs h]
      simp [quoted?, hq]
    have hlen := h.add_width
    have hpos := width_pos '"' t
    have hat : At s i ('"' :: t ++ []) := by simpa using h
    have hend : width s - 1 + 1 = width s := by omega
    rw [quoteKeysFrom_quote h hquote, Option.getD_none, sub_of_le (by omega), ok_bind, hend,
      fits_of_small hs (by omega), ok_bind, hat.slice (by omega), ok_bind, quoteKeysFrom,
      if_neg (Nat.lt_irrefl _)]
    simp
  | case4 last' c t hc hk name =>
    rename_i rest ih
    have hident : isIdentChar c = true := isIdentChar_of_startsName (Bool.and_eq_true_iff.1 hk).1
    have hname : (c :: t).takeWhile isIdentChar = name := by
      rw [List.takeWhile_cons, if_pos hident]
    have hat : At s i (name ++ rest) := by
      have : name ++ rest = c :: t := by
        rw [List.cons_append, List.takeWhile_append_dropWhile]
      exact this ▸ h
    have hlen : (((bytes s).drop i).takeWhile (ascii isIdentChar)).length = width name := by
      rw [h.drop_bytes, length_takeWhile lt_of_isIdentChar, hname]
    have hkey : (ascii startsName (lead c) && opensKeyByte last) = true := by
      rw [onBytes_ascii lt_of_startsName c _ (lead_mem c), hl]
      exact hk
    have hw := hat.append.add_width
    have hpos : 0 < width name := width_pos _ _
    obtain ⟨b, hb, hopens⟩ := exists_last_byte hat (by simp [name])
      (fun d hd => List.mem_takeWhile_imp (hname ▸ hd))
    rw [quoteKeysFrom, if_pos h.lt, attach_of_eq h.byteAt, ok_bind]
    show (if lead c = _ then _ else if _hk : _ then _ else _) = _
    rw [if_neg (mt (lead_eq_iff (by decide)).1 hc), dif_pos hkey]
    simp only [hlen]
    rw [fits_of_small hs (by omega), ok_bind, hat.slice rfl, ok_bind, hat.append.sliceFrom, ok_bind,
      sub_of_le (by omega), ok_bind, hb, ok_bind, ih hat.append (hopens.trans ?_)]
    · rfl
    · exact (quiet_of_isIdentChar hident).2.symm
  | case5 last' c t hc hk ih =>
    have hkey : ¬(ascii startsName (lead c) && opensKeyByte last) = true := by
      rw [onBytes_ascii lt_of_startsName c _ (lead_mem c), hl]
      exact hk
    have hat : At s i ([c] ++ t) := h
    have hlen := h.cons.add_width
    have hlast : opensKeyByte (if ascii isKeySpace (lead c) then last else some (lead c)) =
        opensKey (if isKeySpace c then last' else some c) := by
      rw [onBytes_ascii lt_of_isKeySpace c _ (lead_mem c)]
      split
      · exact hl
      · exact opensKeyByte_lead c
    rw [quoteKeysFrom, if_pos h.lt, attach_of_eq h.byteAt, ok_bind]
    show (if lead c = _ then _ else if _hk : _ then _ else _) = _
    rw [if_neg (mt (lead_eq_iff (by decide)).1 hc), dif_neg hkey, h.sliceFrom, ok_bind]
    simp only [headWidth]
    rw [fits_of_small hs (by omega), ok_bind, hat.slice (by simp), ok_bind, ih h.cons hlast]
    rfl

/-- **Bare keys are put into quotes without a fault.** -/
theorem quoteBareKeys_eq (hs : Small s) : quoteBareKeys s = .ok (Json.quoteBareKeys s) :=
  quoteKeysFrom_at hs (at_zero s) rfl

end

/-- The value of a relaxed JSON text. -/
def parseRelaxed (s : Text) : Checked (Except Unreadable Value) :=
  let t := trim s
  if t.isEmpty then return .ok .null
  else
    match Value.parse? t with
    | some v => return .ok v
    | none => do
      let keyed ← quoteBareKeys t
      let doubled := keyed.map fun c => if c == '\x27' then '"' else c
      match (Value.parse? keyed).or (Value.parse? doubled) with
      | some v => return .ok v
      | none => return .error ⟨t.take snippetLength⟩

theorem parseRelaxed_eq {s : Text} (hs : Small s) :
    parseRelaxed s = .ok (Json.parseRelaxed s) := by
  have ht : Small (trim s) := hs.of_sublist (trim_sublist s)
  rw [parseRelaxed, Json.parseRelaxed]
  cases (trim s).isEmpty with
  | true => rfl
  | false =>
    rw [if_neg Bool.false_ne_true, if_neg Bool.false_ne_true]
    cases Value.parse? (trim s) with
    | some v => rfl
    | none =>
      simp only [quoteBareKeys_eq ht, ok_bind, Option.none_or]
      generalize (Value.parse? (Json.quoteBareKeys (trim s))).or _ = o
      cases o <;> rfl

end SpecHarvest.Bytes
