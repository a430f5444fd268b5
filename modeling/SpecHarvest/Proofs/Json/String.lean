import SpecHarvest.Json.Printer

/-!
# Strings as they are printed

The escapes of a printed string are read back as the characters that they stand for.

* `escaped`: a text as it stands between the quotes.
* `stringRest?_escaped`: a string is read up to its own closing quote.
* `decodeString?_escaped`: it denotes the text it is printed from.
* `renderString_append_inj`: so no printed string is the start of another.
-/

namespace SpecHarvest.Json

/-- A text as it stands in a string. -/
def escaped (s : Text) : Text := s.flatMap stringChar

theorem escaped_cons (c : Char) (s : Text) : escaped (c :: s) = stringChar c ++ escaped s := rfl

theorem renderString_append (s rest : Text) :
    renderString s ++ rest = '"' :: (escaped s ++ '"' :: rest) := by
  simp [renderString, escaped]

/-! ## One character -/

/-- The characters that are printed as two. -/
def shortEscapes : List Char := ['"', '\\', '\x08', '\t', '\n', '\x0c', '\r']

theorem hexValue?_hexDigit {n : Nat} (h : n < 16) : hexValue? (hexDigit n) = some n := by
  revert n
  decide

theorem hexQuad?_hexDigit {n : Nat} (h : n < 256) :
    hexQuad? '0' '0' (hexDigit (n / 16)) (hexDigit (n % 16)) = some n := by
  have hzero : hexValue? '0' = some 0 := by decide
  have hhigh : hexValue? (hexDigit (n / 16)) = some (n / 16) := hexValue?_hexDigit (by omega)
  have hlow : hexValue? (hexDigit (n % 16)) = some (n % 16) := hexValue?_hexDigit (by omega)
  simp only [hexQuad?, hzero, hhigh, hlow, Option.bind_eq_bind, Option.bind_some, Option.pure_def,
    Option.some.injEq]
  omega

/-- A character is printed with a short escape, with its number, or as it is. -/
theorem stringChar_cases (c : Char) :
    (∃ e, stringChar c = ['\\', e] ∧ e ≠ 'u' ∧ simpleEscape? e = some c) ∨
    (c.toNat < 0x20 ∧ stringChar c =
      ['\\', 'u', '0', '0', hexDigit (c.toNat / 16), hexDigit (c.toNat % 16)]) ∨
    (stringChar c = [c] ∧ c ≠ '"' ∧ c ≠ '\\' ∧ ¬c.toNat < 0x20) := by
  by_cases hs : c ∈ shortEscapes
  · left
    simp only [shortEscapes, List.mem_cons, List.not_mem_nil, or_false] at hs
    rcases hs with rfl | rfl | rfl | rfl | rfl | rfl | rfl <;>
      exact ⟨_, rfl, by decide, by decide⟩
  · right
    simp only [shortEscapes, List.mem_cons, List.not_mem_nil, or_false, not_or] at hs
    obtain ⟨hq, hb, h₁, h₂, h₃, h₄, h₅⟩ := hs
    by_cases hc : c.toNat < 0x20
    · exact .inl ⟨hc, by simp [stringChar, *]⟩
    · exact .inr ⟨by simp [stringChar, *], hq, hb, hc⟩

theorem stringRest?_stringChar (c : Char) (s : Text) : stringRest? (stringChar c ++ s) =
    (stringRest? s).map fun (raw, rest) => (stringChar c ++ raw, rest) := by
  rcases stringChar_cases c with ⟨e, he, hu, hc⟩ | ⟨hlt, he⟩ | ⟨he, hq, hb, hc⟩
  · rw [he]
    simp [stringRest?, hu, hc]
  · rw [he]
    simp [stringRest?, hexQuad?_hexDigit (show c.toNat < 256 by omega)]
  · rw [he]
    simp [stringRest?, hq, hb, hc]

theorem decodeString?_stringChar (c : Char) (s : Text) :
    decodeString? (stringChar c ++ s) = (decodeString? s).map (c :: ·) := by
  rcases stringChar_cases c with ⟨e, he, hu, hc⟩ | ⟨hlt, he⟩ | ⟨he, hq, hb, hc⟩
  · rw [he]
    simp [decodeString?, hu, hc]
  · rw [he]
    have hlow : ¬(0xDC00 ≤ c.toNat ∧ c.toNat ≤ 0xDFFF) := by omega
    have hhigh : ¬(0xD800 ≤ c.toNat ∧ c.toNat ≤ 0xDBFF) := by omega
    simp [decodeString?, hexQuad?_hexDigit (show c.toNat < 256 by omega), hlow, hhigh]
  · rw [he]
    simp [decodeString?, hb]

/-! ## Whole strings -/

/-- **A printed string is read up to its closing quote.** -/
theorem stringRest?_escaped (s rest : Text) :
    stringRest? (escaped s ++ '"' :: rest) = some (escaped s, rest) := by
  induction s with
  | nil => simp [escaped, stringRest?]
  | cons c s ih =>
    rw [escaped_cons, List.append_assoc, stringRest?_stringChar, ih]
    rfl

/-- **A printed string denotes the text it is printed from.** -/
theorem decodeString?_escaped (s : Text) : decodeString? (escaped s) = some s := by
  induction s with
  | nil => simp [escaped, decodeString?]
  | cons c s ih =>
    rw [escaped_cons, decodeString?_stringChar, ih]
    rfl

/-- **A text has one printed string at its start.** -/
theorem renderString_append_inj {s t x y : Text}
    (h : renderString s ++ x = renderString t ++ y) : s = t ∧ x = y := by
  rw [renderString_append, renderString_append, List.cons_inj_right] at h
  have hread := congrArg stringRest? h
  rw [stringRest?_escaped, stringRest?_escaped, Option.some_inj] at hread
  obtain ⟨hraw, rfl⟩ := Prod.mk.inj hread
  have hdecode := congrArg decodeString? hraw
  rw [decodeString?_escaped, decodeString?_escaped, Option.some_inj] at hdecode
  exact ⟨hdecode, rfl⟩

end SpecHarvest.Json
