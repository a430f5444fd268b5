import SpecHarvest.Proofs.ExpectedExpr.Body
import SpecHarvest.Replay.Mismatch

/-!
# What is expected and what is accepted

A test states a body as a literal, and a response is compared with what the literal denotes.

* `Accepts s got`: a response with status 200, no headers and the body `got` satisfies the
  expectation that the text `s` states.
* `AsksNoMore s`: the record of match attributes that is read in `s`, if there is one, asks for no
  other status and for no headers.
* `accepts_denoted_iff`: when the response is accepted whose body is the very text that a body
  literal is made from. It need not be (`not_accepts_denoted`): JSON strings are compared with the
  body as it is.
-/

namespace SpecHarvest

open Text Source Json Http ExpectedExpr

/-- The text states an expectation that a response with status 200, no headers and a given body
satisfies. -/
def Accepts (s got : Text) : Prop :=
  ∃ e, Expected.parse? s = some e ∧ mismatches ⟨200, [], got⟩ e = []

/-- The first record of match attributes, which is the one that is read, asks for no status other
than 200, for no header with a value and for no header that contains a text. There may be none, and
what later records hold does not count. -/
def AsksNoMore (s : Text) : Prop :=
  ∀ block, attributes? s = some block →
    statusOf? block = some defaultStatus ∧ (matchersOf block).exact = [] ∧
      (matchersOf block).contain = []

/-! ## Responses without headers -/

theorem mismatches_eq_nil_iff {got : Text} {e : Expected} : mismatches ⟨200, [], got⟩ e = [] ↔
    e.status = 200 ∧ (∀ v ∈ e.body, bodyMismatches v e.bodyExact got = []) ∧ e.headers = [] ∧
      e.headersContain = [] := by
  have hvalue : ∀ name, valueOf? name [] = none := fun _ => rfl
  have hstatus : (if 200 = e.status then [] else [Mismatch.status e.status 200]) = [] ↔
      e.status = 200 := by
    by_cases h : e.status = 200
    · simp [h]
    · simp [h, Ne.symm h]
  unfold mismatches
  simp only [hvalue, List.append_eq_nil_iff, hstatus, List.filterMap_eq_nil_iff]
  cases e.body <;> simp [List.eq_nil_iff_forall_not_mem, and_assoc]

theorem bodyMismatches_eq_nil_iff {v : Value} {got : Text} : bodyMismatches v true got = [] ↔
    v = .string got ∨
      (∀ s, v ≠ .string s) ∧ ∃ w, Value.parse? got = some w ∧ v.equal w = true := by
  by_cases hv : ∃ s, v = .string s
  · obtain ⟨s, rfl⟩ := hv
    by_cases hs : got = s
    · simp [bodyMismatches, hs]
    · simp [bodyMismatches, hs, Ne.symm hs]
  · rw [not_exists] at hv
    unfold bodyMismatches
    split
    · next s => exact absurd rfl (hv s)
    · cases Value.parse? got with
      | none => simp [hv]
      | some w => simp [hv]

/-- When a text with a body literal accepts a response. -/
theorem accepts_iff {s got : Text} (ht : trim s = s) (hd : s.all Char.isDigit = false) :
    Accepts s got ↔ AsksNoMore s ∧
      ∃ body, body? s = some body ∧ ∀ v ∈ body, bodyMismatches v true got = [] := by
  unfold Accepts AsksNoMore
  rw [Expected.parse?_of_trim ht hd]
  cases body? s with
  | none => simp
  | some body =>
    simp only [Option.bind_some, Option.some.injEq, exists_eq_left']
    cases attributes? s with
    | none => simp [expectation?, mismatches_eq_nil_iff, Expected.ofStatus, defaultStatus]
    | some block =>
      cases hk : statusOf? block with
      | none => simp [expectation?, hk]
      | some k =>
        simp only [expectation?, hk, Option.map_some, Option.some.injEq, exists_eq_left',
          mismatches_eq_nil_iff, forall_eq', defaultStatus]
        tauto

/-! ## Literals -/

/-- The quasi-literal of a value accepts the compact text of the value, unless it is a string. -/
theorem accepts_quasi_iff {v : Value} (h : v.Regular) (hd : v.depth ≤ maxDepth)
    (hc : contains quasiClose v.compact = false) : Accepts (quasi v.compact) v.compact ↔
      AsksNoMore (quasi v.compact) ∧ ∀ s, v ≠ .string s := by
  have hparse : Value.parse? v.compact = some v := by rw [Value.parse?_compact h, if_pos hd]
  have hself : v.equal v = true := Value.equal_self (Value.sound_of_parse? hparse).1
  rw [accepts_iff (trim_quasi _) (all_isDigit_quasi _), body?_quasi h hd hc]
  refine and_congr_right fun _ => ?_
  simp only [Option.some.injEq, exists_eq_left', Option.mem_def, forall_eq',
    bodyMismatches_eq_nil_iff, hparse]
  constructor
  · rintro (hv | hv)
    · exact absurd (by rw [← hv]) (Value.string_ne_compact v.compact)
    · exact hv.1
  · exact fun hv => .inr ⟨hv, hself⟩

/-- A string literal accepts the text it denotes, unless that is the JSON text of a string. -/
theorem accepts_literal_iff {raw : Text} (h : Raw raw) (hq : quasiContent? (literal raw) = none) :
    Accepts (literal raw) (unescape raw) ↔ AsksNoMore (literal raw) ∧
      ∀ s, Value.parse? (unescape raw) ≠ some (.string s) := by
  rw [accepts_iff (trim_literal raw) (all_isDigit_literal raw), body?_literal h hq]
  refine and_congr_right fun _ => ?_
  simp only [Option.some.injEq, exists_eq_left', Option.mem_def, forall_eq',
    bodyMismatches_eq_nil_iff]
  cases hp : Value.parse? (unescape raw) with
  | none => simp
  | some w =>
    have hself : w.equal w = true := Value.equal_self (Value.sound_of_parse? hp).1
    have hne : w ≠ .string (unescape raw) := by
      rintro rfl
      exact Nat.lt_irrefl _ (Value.length_lt_of_parse? hp)
    simp [hne, hself]

/-- A string literal that holds a quasi-literal is compared with the value of that. -/
theorem accepts_literal_iff_of_quasiContent? {raw content : Text} (u : Text)
    (hq : quasiContent? (literal raw) = some content) : Accepts (literal raw) u ↔
      AsksNoMore (literal raw) ∧ ∃ v, parseRelaxed content = .ok v ∧ (v = .string u ∨
        (∀ s, v ≠ .string s) ∧ ∃ w, Value.parse? u = some w ∧ v.equal w = true) := by
  rw [accepts_iff (trim_literal raw) (all_isDigit_literal raw)]
  refine and_congr_right fun _ => ?_
  simp only [body?_eq_some_iff_of_quasiContent? hq]
  constructor
  · rintro ⟨body, ⟨v, hv, rfl⟩, hm⟩
    exact ⟨v, hv, bodyMismatches_eq_nil_iff.1 (hm v rfl)⟩
  · rintro ⟨v, hv, hm⟩
    refine ⟨some v, ⟨v, hv, rfl⟩, ?_⟩
    rintro w ⟨⟩
    exact bodyMismatches_eq_nil_iff.2 hm

/-- **When a literal accepts the text it is made from.** The quasi-literal of a value states the
value, and accepts its compact text unless the value is a string. A string literal that holds no
quasi-literal accepts the text it denotes unless that is the JSON text of a string; one that holds a
quasi-literal is compared with the value of that. The first record of match attributes in either, if
there is one, must not ask for more. -/
theorem accepts_denoted_iff :
    (∀ v : Value, v.Regular → v.depth ≤ maxDepth → contains quasiClose v.compact = false →
      (AsksNoMore (quasi v.compact) →
        ∃ e, Expected.parse? (quasi v.compact) = some e ∧ e.body = some v) ∧
      (Accepts (quasi v.compact) v.compact ↔
        AsksNoMore (quasi v.compact) ∧ ∀ s, v ≠ .string s)) ∧
    (∀ u raw : Text, Raw raw → unescape raw = u → quasiContent? (literal raw) = none →
      (Accepts (literal raw) u ↔
        AsksNoMore (literal raw) ∧ ∀ s, Value.parse? u ≠ some (.string s))) ∧
    (∀ u raw content : Text, unescape raw = u → quasiContent? (literal raw) = some content →
      (Accepts (literal raw) u ↔ AsksNoMore (literal raw) ∧ ∃ v, parseRelaxed content = .ok v ∧
        (v = .string u ∨
          (∀ s, v ≠ .string s) ∧ ∃ w, Value.parse? u = some w ∧ v.equal w = true))) := by
  refine ⟨fun v hv hd hc => ⟨fun hask => ?_, accepts_quasi_iff hv hd hc⟩,
    fun u raw hraw hu hq => ?_, fun u raw content _ hq => ?_⟩
  · rw [Expected.parse?_of_trim (trim_quasi _) (all_isDigit_quasi _), body?_quasi hv hd hc,
      Option.bind_some]
    cases ha : attributes? (quasi v.compact) with
    | none => exact ⟨_, rfl, rfl⟩
    | some block =>
      obtain ⟨hstatus, -, -⟩ := hask block ha
      exact ⟨_, by rw [expectation?, hstatus, Option.map_some], rfl⟩
  · rw [← hu]
    exact accepts_literal_iff hraw hq
  · exact accepts_literal_iff_of_quasiContent? u hq

/-- The value `{"k": [1, -2]}`. -/
def sampleValue : Value :=
  .object [(['k'], .array [.number (.int 1), .number (.int (-2))])]

theorem accepts_denoted_iff_sample :
    Accepts (quasi sampleValue.compact) sampleValue.compact ∧ Accepts (literal ['x']) ['x'] := by
  have hrecord : attributes? (quasi sampleValue.compact) = none := by decide +kernel
  have hask : AsksNoMore (quasi sampleValue.compact) := by
    intro block hb
    rw [hrecord] at hb
    cases hb
  have hraw : Raw ['x'] := .plain (by decide) (by decide) .nil
  have hask' : AsksNoMore (literal ['x']) := by
    intro block hb
    have hnone : attributes? (literal ['x']) = none := by decide
    rw [hnone] at hb
    cases hb
  have hparse : (Value.parse? ['x']).isNone = true := by decide +kernel
  refine ⟨(accepts_denoted_iff.1 sampleValue (by decide +kernel) (by decide +kernel)
    (by decide +kernel)).2.2 ⟨hask, nofun⟩,
    (accepts_denoted_iff.2.1 ['x'] ['x'] hraw (by decide) (by decide)).2 ⟨hask', ?_⟩⟩
  intro s hs
  rw [hs] at hparse
  cases hparse

/-- **A body literal need not accept the text it is made from**: neither the quasi-literal of the
string `a` nor the string literal of the text `"a"` does. -/
theorem not_accepts_denoted :
    (¬∀ v : Value, v.Regular → v.depth ≤ maxDepth → contains quasiClose v.compact = false →
      ∃ e, Expected.parse? (quasi v.compact) = some e ∧
        mismatches ⟨200, [], v.compact⟩ e = []) ∧
    ¬∀ u raw : Text, u ≠ [] → Raw raw → unescape raw = u →
      ∀ e, Expected.parse? (literal raw) = some e → mismatches ⟨200, [], u⟩ e = [] := by
  have hstring : Value.Regular (.string ['a']) := .string _
  constructor
  · intro h
    have haccepts := h (.string ['a']) hstring (by decide) (by decide)
    exact ((accepts_quasi_iff hstring (by decide) (by decide)).1 haccepts).2 ['a'] rfl
  · intro h
    have hraw : Raw (escape (Value.string ['a']).compact) := raw_escape _
    have hsome : (Expected.parse?
        (literal (escape (Value.string ['a']).compact))).isSome = true := by decide +kernel
    obtain ⟨e, he⟩ := Option.isSome_iff_exists.1 hsome
    have haccepts : Accepts (literal (escape (Value.string ['a']).compact))
        (unescape (escape (Value.string ['a']).compact)) :=
      ⟨e, he, h _ _ (by decide) hraw rfl e he⟩
    have hparse : Value.parse? (Value.string ['a']).compact = some (.string ['a']) := by
      rw [Value.parse?_compact hstring]
      rfl
    refine ((accepts_literal_iff hraw (by decide)).1 haccepts).2 ['a'] ?_
    rw [unescape_escape, hparse]

end SpecHarvest
