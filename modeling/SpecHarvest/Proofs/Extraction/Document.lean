import SpecHarvest.Proofs.Document.Reading
import SpecHarvest.Proofs.ExpectedExpr.Body
import SpecHarvest.Proofs.Extraction.Outcome

/-!
# Documents of what is extracted

* `writable_of_ofSource`: a document can hold every test case without floating-point numbers.
* `parse?_pretty_ofSource`: what is read back from the document of a source.
  `not_parse?_pretty_ofSource`: it need not be that document.
-/

namespace SpecHarvest

open Text Source Json

/-! ## Documents -/

theorem Yields.sound_expected {source : Text} {b : Block} {c : Context} {t : TestCase}
    (h : Yields source b c t) :
    (100 ≤ t.expected.status ∧ t.expected.status ≤ 599) ∧
      ∀ v ∈ t.expected.body, v.Sound ∧ v.depth ≤ maxDepth := by
  obtain ⟨-, part, -, hp⟩ := h.exists_part
  obtain ⟨front, rest, -, -, he⟩ := parseAssertion?_eq_some_iff.1 hp
  exact Expected.sound_of_parse? he

theorem writable_of_ofSource {filename source config : Text} {t : TestCase}
    (ht : t ∈ (Extraction.ofSource filename source config).tests)
    (h : ∀ v ∈ t.expected.body, v.NoFloat) : t.expected.Writable := by
  obtain ⟨b, c, hy⟩ := Extraction.mem_tests_iff.1 ht
  obtain ⟨hstatus, hbody⟩ := hy.sound_expected
  refine ⟨?_, fun v hv => ?_⟩
  · unfold Decode.maxStatus
    omega
  · exact Value.regular_of_sound (hbody v hv).1 (h v hv)

/-- **What is read back from the document of a source**: the document, if no body in it is null and
none is nested deeper than 123. A body that is null is read as none, and from a document with a body
that is nested deeper nothing is read. -/
theorem parse?_pretty_ofSource {filename source config : Text} {d : SpecDocument}
    (hd : (Extraction.ofSource filename source config).toDocument = d)
    (h : ∀ t ∈ d.tests, ∀ v ∈ t.expected.body, v.NoFloat) :
    (SpecDocument.parse? d.toJson.pretty =
      if ∀ t ∈ d.tests, t.expected.isShallow = true then some d.withoutNull else none) ∧
    (SpecDocument.parse? d.toJson.pretty = some d ↔
      ∀ t ∈ d.tests, ∀ v ∈ t.expected.body, v ≠ .null ∧ v.depth ≤ Decode.bodyDepth) := by
  have hread := SpecDocument.parse?_pretty (d := d) fun t ht => by
    have hmem : t ∈ (Extraction.ofSource filename source config).tests := by
      rw [← hd] at ht
      exact ht
    exact writable_of_ofSource hmem (h t ht)
  refine ⟨hread, ?_⟩
  rw [hread]
  by_cases hs : ∀ t ∈ d.tests, t.expected.isShallow = true
  · rw [if_pos hs, Option.some.injEq, withoutNull_eq_self_iff]
    constructor
    · intro hnull t ht v hv
      refine ⟨?_, isShallow_iff.1 (hs t ht) v hv⟩
      rintro rfl
      exact hnull t ht hv
    · intro hall t ht hbody
      exact (hall t ht .null hbody).1 rfl
  · rw [if_neg hs]
    constructor
    · intro he
      cases he
    · intro hall
      exact absurd (fun t ht => isShallow_iff.2 fun v hv => (hall t ht v hv).2) hs

/-- What is extracted from a source as the file `ASpec.hs`. -/
def extracted (source : Text) : Extraction :=
  Extraction.ofSource "ASpec.hs".toList source "default".toList

theorem writable_of_extracted {source : Text}
    (h : ∀ t ∈ (extracted source).tests, ∀ v ∈ t.expected.body, v.NoFloat) :
    ∀ t ∈ (extracted source).toDocument.tests, t.expected.Writable := by
  intro t ht
  have hmem : t ∈ (Extraction.ofSource "ASpec.hs".toList source "default".toList).tests := ht
  exact writable_of_ofSource hmem (h t ht)

/-- A test whose body is an object. -/
def readsObject : Text :=
  "it \"x\" $ get \"/a\" `shouldRespondWith` [json|\x7b\"k\": [1, -2]\x7d|]".toList

theorem parse?_pretty_ofSource_readsObject :
    (∃ t ∈ (extracted readsObject).tests, t.expected.body.isSome = true) ∧
    SpecDocument.parse? (extracted readsObject).toDocument.toJson.pretty =
      some (extracted readsObject).toDocument := by
  have htext : readsObject = _ := String.toList_ofList
  obtain ⟨hsome, hfloat, hbodies⟩ :
      (∃ t ∈ (extracted readsObject).tests, t.expected.body.isSome = true) ∧
      (∀ t ∈ (extracted readsObject).tests, ∀ v ∈ t.expected.body, v.NoFloat) ∧
      ∀ t ∈ (extracted readsObject).tests, ∀ v ∈ t.expected.body,
        v ≠ .null ∧ v.depth ≤ Decode.bodyDepth := by
    rw [htext]
    decide +kernel
  exact ⟨hsome, (parse?_pretty_ofSource rfl hfloat).2.2 hbodies⟩

/-- A test whose body is null. -/
def readsNull : Text := "it \"x\" $ get \"/\" `shouldRespondWith` [json|null|]".toList

/-- A test whose body is nested 124 deep. -/
def readsDeep : Text :=
  "it \"x\" $ get \"/\" `shouldRespondWith` [json|".toList ++ List.replicate 124 '[' ++
    List.replicate 124 ']' ++ "|]".toList

/-- **Not every document of a source is read back**: that of `readsNull` loses its body, and that of
`readsDeep` cannot be read. -/
theorem not_parse?_pretty_ofSource :
    (¬∀ (filename source config : Text) (d : SpecDocument),
      (Extraction.ofSource filename source config).toDocument = d →
      (∀ t ∈ d.tests, ∀ v ∈ t.expected.body, v.NoFloat) →
      SpecDocument.parse? d.toJson.pretty = some d) ∧
    SpecDocument.parse? (extracted readsDeep).toDocument.toJson.pretty = none := by
  constructor
  · intro h
    have htext : readsNull = _ := String.toList_ofList
    obtain ⟨hfloat, t, ht, v, hv, rfl⟩ :
        (∀ t ∈ (extracted readsNull).tests, ∀ v ∈ t.expected.body, v.NoFloat) ∧
        ∃ t ∈ (extracted readsNull).tests, ∃ v ∈ t.expected.body, v = .null := by
      rw [htext]
      decide +kernel
    have hread := h _ _ _ (extracted readsNull).toDocument rfl hfloat
    rw [SpecDocument.parse?_pretty (writable_of_extracted hfloat)] at hread
    split at hread
    · exact withoutNull_eq_self_iff.1 (Option.some.inj hread) t ht hv
    · cases hread
  · obtain ⟨hfloat, hdeep⟩ :
        (∀ t ∈ (extracted readsDeep).tests, ∀ v ∈ t.expected.body, v.NoFloat) ∧
        ¬∀ t ∈ (extracted readsDeep).tests, t.expected.isShallow = true := by
      decide +kernel
    rw [SpecDocument.parse?_pretty (writable_of_extracted hfloat)]
    exact if_neg hdeep

end SpecHarvest
