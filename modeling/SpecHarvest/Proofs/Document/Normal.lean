import SpecHarvest.Proofs.Document.Reading

/-!
# Reading a document settles its form

A document may be written in many ways: records as arrays of their fields, methods as objects, keys
that nobody knows. What is read is written in one way only, and that is read as the same document.

* `Expected.IsRead`: what holds of an expectation that is read. Its body is not null and not nested
  too deep, the two things that would keep it from being read back.
* `Decode.isRead_of_specDocument`: this for all test cases of a document.
* `parse?_pretty_of_parse?`: what is read, written and read again is the same.
-/

namespace SpecHarvest

open Text Http Json Json.Value

/-- What an expectation is that is read: it has a status of 16 bits and a sound body, which is not
null and not nested deeper than a body in a document may be. -/
structure Expected.IsRead (e : Expected) : Prop where
  status : (e.status : Int) ≤ Decode.maxStatus
  body : ∀ v ∈ e.body, v.Sound ∧ v ≠ .null ∧ v.depth ≤ Decode.bodyDepth

namespace Decode

theorem le_of_status {t : Tree} {n : Nat} (h : status t = some n) : (n : Int) ≤ maxStatus := by
  unfold status at h
  split at h
  · split at h
    · split at h
      · next k _ hk =>
        obtain rfl := Option.some.inj h
        omega
      · cases h
    · cases h
  · cases h

theorem ne_null_of_nullable {t : Tree} {d : Nat} {v : Value}
    (h : nullable (ofTree? d) t = some (some v)) : ofTree? d t = some v ∧ v ≠ .null := by
  unfold nullable at h
  split at h
  · cases h
  · next hne =>
    obtain ⟨w, hw, he⟩ := Option.map_eq_some_iff.1 h
    obtain rfl := Option.some.inj he
    refine ⟨hw, ?_⟩
    rintro rfl
    exact hne (eq_null_of_ofTree? hw)

theorem body_of_optional {field : Option Tree} {body : Option Value}
    (h : optional (ofTree? bodyDepth) field = some body) :
    ∀ v ∈ body, v.Sound ∧ v ≠ .null ∧ v.depth ≤ bodyDepth := by
  rintro v rfl
  cases field with
  | none => cases h
  | some t =>
    obtain ⟨hread, hnull⟩ := ne_null_of_nullable h
    obtain ⟨hsound, hdepth⟩ := sound_of_ofTree? hread
    exact ⟨hsound, hnull, hdepth⟩

/-- **An expectation that is read.** -/
theorem isRead_of_expected {t : Tree} {e : Expected} (h : expected t = some e) : e.IsRead := by
  obtain ⟨fields, -, h⟩ := Option.bind_eq_some_iff.1 h
  split at h
  · simp only [Option.bind_eq_bind, Option.bind_eq_some_iff, Option.pure_def,
      Option.some.injEq] at h
    obtain ⟨status, hs, body, hb, _, -, _, -, _, -, _, -, rfl⟩ := h
    obtain ⟨tree, -, hs⟩ := Option.bind_eq_some_iff.1 hs
    exact ⟨le_of_status hs, body_of_optional hb⟩
  · cases h

theorem isRead_of_testCase {t : Tree} {c : TestCase} (h : testCase t = some c) :
    c.expected.IsRead := by
  obtain ⟨fields, -, h⟩ := Option.bind_eq_some_iff.1 h
  split at h
  · simp only [Option.bind_eq_bind, Option.bind_eq_some_iff, Option.pure_def,
      Option.some.injEq] at h
    obtain ⟨_, -, _, -, e, he, rfl⟩ := h
    obtain ⟨tree, -, he⟩ := Option.bind_eq_some_iff.1 he
    exact isRead_of_expected he
  · cases h

/-- **The expectations of a document that is read.** -/
theorem isRead_of_specDocument {t : Tree} {d : SpecDocument} (h : specDocument t = some d) :
    ∀ c ∈ d.tests, c.expected.IsRead := by
  obtain ⟨fields, -, h⟩ := Option.bind_eq_some_iff.1 h
  split at h
  · simp only [Option.bind_eq_bind, Option.bind_eq_some_iff, Option.pure_def,
      Option.some.injEq] at h
    obtain ⟨_, -, _, -, tests, ht, rfl⟩ := h
    obtain ⟨tree, -, ht⟩ := Option.bind_eq_some_iff.1 ht
    unfold array at ht
    split at ht
    · intro c hc
      obtain ⟨item, -, hi⟩ := exists_of_mem_mapM ht c hc
      exact isRead_of_testCase hi
    · cases ht
  · cases h

end Decode

/-- **Reading a document settles its form.** A document without floating-point numbers that is read
from any text, is written, and is read again is the same. -/
theorem parse?_pretty_of_parse? {s : Text} {d : SpecDocument}
    (h : SpecDocument.parse? s = some d)
    (hfloat : ∀ t ∈ d.tests, ∀ v ∈ t.expected.body, v.NoFloat) :
    SpecDocument.parse? d.toJson.pretty = some d := by
  obtain ⟨tree, -, hd⟩ := Option.bind_eq_some_iff.1 h
  have hread := Decode.isRead_of_specDocument hd
  have hwritable : ∀ t ∈ d.tests, t.expected.Writable := fun t ht =>
    ⟨(hread t ht).status, fun v hv =>
      regular_of_sound ((hread t ht).body v hv).1 (hfloat t ht v hv)⟩
  have hshallow : ∀ t ∈ d.tests, t.expected.isShallow = true := fun t ht =>
    isShallow_iff.2 fun v hv => ((hread t ht).body v hv).2.2
  have hsame : d.withoutNull = d :=
    withoutNull_eq_self_iff.2 fun t ht hnull => ((hread t ht).body .null hnull).2.1 rfl
  rw [SpecDocument.parse?_pretty hwritable, if_pos hshallow, hsame]

/-- A document as an array, with a method as an object, a key that is repeated and one that nobody
knows. -/
def documentAsArray : Text :=
  "[\"A\", \"default\", [\x7b\"description\": [\"x\"], ".toList ++
    "\"request\": [\x7b\"GET\": null\x7d, \"/\", [], null], ".toList ++
    "\"expected\": \x7b\"status\": 200, \"body\": \x7b\"k\": 1, \"k\": 2\x7d, ".toList ++
    "\"bodyExact\": true, \"headers\": [], \"headersAbsent\": [], ".toList ++
    "\"headersContain\": [], \"more\": 0\x7d\x7d]]".toList

theorem parse?_pretty_of_parse?_documentAsArray :
    ∃ d, SpecDocument.parse? documentAsArray = some d ∧
      (∀ t ∈ d.tests, ∀ v ∈ t.expected.body, v.NoFloat) ∧
      (∃ t ∈ d.tests, t.expected.body.isSome = true) ∧
      SpecDocument.parse? d.toJson.pretty = some d := by
  obtain ⟨d, hd, hfloat, hbody⟩ : ∃ d ∈ SpecDocument.parse? documentAsArray,
      (∀ t ∈ d.tests, ∀ v ∈ t.expected.body, v.NoFloat) ∧
      ∃ t ∈ d.tests, t.expected.body.isSome = true := by
    decide +kernel
  exact ⟨d, hd, hfloat, hbody, parse?_pretty_of_parse? hd hfloat⟩

end SpecHarvest
