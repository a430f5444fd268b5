import SpecHarvest.Document
import SpecHarvest.Proofs.Json.Scan

/-!
# Documents are read back

* `record_tree`: the fields of a record that is written are found again by their names.
* `request_tree`, `expected_tree`, `testCase_tree`: so are requests, expectations and test cases,
  but for two things. A body that is null is read as no body (`withoutNull`), and a body that is
  nested deeper than `bodyDepth` is not read at all (`Expected.isShallow`).
* `SpecDocument.parse?_pretty`: what is read from a document on disk.
-/

namespace SpecHarvest

open Text Http Json Json.Value

/-! ## Records -/

namespace Decode

theorem filter_key_of_mem {α : Type} {m : List (Text × α)} (h : (m.map (·.1)).Nodup) {k : Text}
    {v : α} (hm : (k, v) ∈ m) : m.filter (·.1 == k) = [(k, v)] := by
  induction m with
  | nil => cases hm
  | cons e m ih =>
    rw [List.map_cons, List.nodup_cons] at h
    rcases List.mem_cons.1 hm with rfl | hm
    · have hrest : m.filter (·.1 == k) = [] := by
        refine List.filter_eq_nil_iff.2 fun d hd hk => h.1 ?_
        rw [← beq_iff_eq.1 hk]
        exact List.mem_map.2 ⟨d, hd, rfl⟩
      rw [List.filter_cons_of_pos (by simp), hrest]
    · have hne : e.1 ≠ k := by
        rintro rfl
        exact h.1 (List.mem_map.2 ⟨_, hm, rfl⟩)
      rw [List.filter_cons_of_neg (by simpa using hne), ih h.2 hm]

theorem nodup_map_toList {names : List String} (h : names.Nodup) :
    (names.map String.toList).Nodup :=
  List.Nodup.map (fun _ _ => String.toList_inj.1) h

/-- **A record is read by the names of its fields.** -/
theorem record_tree (fields : List (String × Value)) (h : (fields.map (·.1)).Nodup) :
    record (fields.map (·.1)) (Value.record fields).tree =
      some (fields.map fun f => some f.2.tree) := by
  have hkeys : ((fields.map fun f => (f.1.toList, f.2.tree)).map (·.1)).Nodup := by
    have := nodup_map_toList h
    rw [List.map_map] at this ⊢
    exact this
  have hdecode : ((fields.map fun f => (f.1.toList, f.2)).map fun f =>
      (escaped f.1, f.2.tree)).mapM (fun f => (decodeString? f.1).bind fun k => pure (k, f.2)) =
        some (fields.map fun f => (f.1.toList, f.2.tree)) := by
    rw [List.map_map]
    refine mapM_map_of_some fun f _ => ?_
    simp [decodeString?_escaped]
  have hfield : (fields.map (·.1)).mapM (fun name =>
      uniqueField? name.toList (fields.map fun f => (f.1.toList, f.2.tree))) =
        some (fields.map fun f => some f.2.tree) := by
    refine mapM_map_of_some fun f hf => ?_
    rw [uniqueField?, filter_key_of_mem hkeys (List.mem_map.2 ⟨f, hf, rfl⟩)]
  rw [Value.record, tree, fieldTrees_eq_map, record]
  simp only [Option.bind_eq_bind]
  rw [hdecode, Option.bind_some]
  exact hfield

/-! ## Texts, headers and requests -/

theorem text_tree (s : Text) : text (Value.string s).tree = some s := by
  rw [tree, text, decodeString?_escaped]

theorem texts_tree (ss : List Text) : array text (ofTexts ss).tree = some ss := by
  rw [ofTexts, tree, itemTrees_eq_map, array, List.map_map]
  refine (mapM_map_of_some (h := id) fun s _ => text_tree s).trans ?_
  rw [List.map_id]

theorem header_tree (h : Header) : header h.toJson.tree = some h := by
  simp [Header.toJson, ofTexts, tree, itemTrees, header, text, decodeString?_escaped]

theorem headers_tree (hs : List Header) : array header (headersToJson hs).tree = some hs := by
  rw [headersToJson, tree, itemTrees_eq_map, array, List.map_map]
  refine (mapM_map_of_some (h := id) fun h _ => header_tree h).trans ?_
  rw [List.map_id]

theorem ofName?_name (m : Method) : Method.ofName? m.name = some m := by cases m <;> decide

theorem method_tree (m : Method) : method (Value.string m.name).tree = some m := by
  rw [tree, method, decodeString?_escaped, Option.bind_some, ofName?_name]

theorem optional_text_tree (s : Option Text) :
    optional text (some (ofOption (s.map .string)).tree) = some s := by
  cases s with
  | none => rfl
  | some s => simp [optional, ofOption, tree, nullable, text, decodeString?_escaped]

/-- **A request is read back.** -/
theorem request_tree (r : Request) : request r.toJson.tree = some r := by
  rw [request, Request.toJson]
  have hr := record_tree [("method", .string r.method.name), ("path", .string r.path),
    ("headers", headersToJson r.headers), ("body", .ofOption (r.body.map .string))] (by simp)
  simp only [List.map_cons, List.map_nil] at hr
  simp [hr, required, method_tree, text_tree, headers_tree, optional_text_tree]

/-! ## Expectations -/

theorem status_tree {n : Nat} (h : (n : Int) ≤ maxStatus) :
    status (Value.ofNat n).tree = some n := by
  have hfits : Fits n := by
    unfold maxStatus at h
    unfold Fits
    omega
  rw [Value.ofNat, tree, Number.numeral_int, status, value?_numeralOf hfits]
  simp [h]

end Decode

/-- A body, none if it is null. -/
def dropNull : Option Value → Option Value
  | some .null => none
  | body => body

/-- The expectation without a body that is null. -/
def Expected.withoutNull (e : Expected) : Expected := { e with body := dropNull e.body }

/-- The test case without a body that is null. -/
def TestCase.withoutNull (t : TestCase) : TestCase := { t with expected := t.expected.withoutNull }

/-- The document without bodies that are null. -/
def SpecDocument.withoutNull (d : SpecDocument) : SpecDocument :=
  { d with tests := d.tests.map TestCase.withoutNull }

/-- Whether the body is nested no deeper than one in a document may be. -/
def Expected.isShallow (e : Expected) : Bool := e.body.all fun v => v.depth ≤ Decode.bodyDepth

/-- What a document can hold of an expectation: a status of 16 bits and a body without
floating-point numbers. -/
structure Expected.Writable (e : Expected) : Prop where
  status : (e.status : Int) ≤ Decode.maxStatus
  body : ∀ v ∈ e.body, v.Regular

namespace Decode

theorem body_tree {body : Option Value} (h : ∀ v ∈ body, v.Regular) :
    optional (ofTree? bodyDepth) (some (ofOption body).tree) =
      if (body.all fun v => v.depth ≤ bodyDepth) = true then some (dropNull body) else none := by
  cases body with
  | none => rfl
  | some v =>
    have hread := ofTree?_tree_of_regular (h v rfl) bodyDepth
    by_cases hv : v = .null
    · subst hv
      rfl
    · have hnullable : nullable (ofTree? bodyDepth) v.tree =
          (ofTree? bodyDepth v.tree).map some := by
        cases v <;> first | exact absurd rfl hv | rfl
      have hkeep : dropNull (some v) = some v := by
        cases v <;> first | exact absurd rfl hv | rfl
      rw [optional, ofOption, hnullable, hread, hkeep, Option.all_some]
      by_cases hd : v.depth ≤ bodyDepth <;> simp [hd]

/-- **An expectation is read back** without a body that is null, if its body is shallow. -/
theorem expected_tree {e : Expected} (h : e.Writable) :
    expected e.toJson.tree = if e.isShallow = true then some e.withoutNull else none := by
  have hr := record_tree [("status", .ofNat e.status), ("body", .ofOption e.body),
    ("bodyExact", .bool e.bodyExact), ("headers", headersToJson e.headers),
    ("headersAbsent", .ofTexts e.headersAbsent),
    ("headersContain", headersToJson e.headersContain)] (by simp)
  have hbool : bool (Value.bool e.bodyExact).tree = some e.bodyExact := rfl
  have hbody : optional (ofTree? bodyDepth) (some (ofOption e.body).tree) =
      if e.isShallow = true then some (dropNull e.body) else none := body_tree h.body
  simp only [List.map_cons, List.map_nil] at hr
  rw [expected, Expected.toJson, hr]
  simp only [Option.bind_eq_bind, Option.bind_some, hbody]
  by_cases hs : e.isShallow = true
  · rw [if_pos hs, if_pos hs]
    simp [required, status_tree h.status, hbool, headers_tree, texts_tree, Expected.withoutNull]
  · rw [if_neg hs, if_neg hs]
    simp

/-- **A test case is read back** if its expectation is. -/
theorem testCase_tree {t : TestCase} (h : t.expected.Writable) :
    testCase t.toJson.tree = if t.expected.isShallow = true then some t.withoutNull else none := by
  have hr := record_tree [("description", .ofTexts t.description),
    ("request", t.request.toJson), ("expected", t.expected.toJson)] (by simp)
  simp only [List.map_cons, List.map_nil] at hr
  rw [testCase, TestCase.toJson, hr]
  by_cases hs : t.expected.isShallow = true
  · simp [required, texts_tree, request_tree, expected_tree h, hs, TestCase.withoutNull]
  · simp [required, texts_tree, request_tree, expected_tree h, hs]

/-- **A document is read back** if all its test cases are. -/
theorem specDocument_tree {d : SpecDocument} (h : ∀ t ∈ d.tests, t.expected.Writable) :
    specDocument d.toJson.tree =
      if ∀ t ∈ d.tests, t.expected.isShallow = true then some d.withoutNull else none := by
  have hr := record_tree [("file", .string d.file), ("config", .string d.config),
    ("tests", .array (d.tests.map TestCase.toJson))] (by simp)
  have htests : array testCase (Value.array (d.tests.map TestCase.toJson)).tree =
      if ∀ t ∈ d.tests, t.expected.isShallow = true then some (d.tests.map TestCase.withoutNull)
      else none := by
    rw [tree, itemTrees_eq_map, array, List.map_map]
    exact mapM_map_of_ite fun t ht => testCase_tree (h t ht)
  simp only [List.map_cons, List.map_nil] at hr
  rw [specDocument, SpecDocument.toJson, hr]
  by_cases hs : ∀ t ∈ d.tests, t.expected.isShallow = true
  · rw [if_pos hs] at htests ⊢
    simp [required, text_tree, htests, SpecDocument.withoutNull]
  · rw [if_neg hs] at htests ⊢
    simp [required, text_tree, htests]

end Decode

/-! ## Documents without bodies that are null -/

theorem dropNull_eq_self_iff {body : Option Value} : dropNull body = body ↔ body ≠ some .null := by
  cases body with
  | none => simp [dropNull]
  | some v => cases v <;> simp [dropNull]

theorem withoutNull_eq_self_iff {d : SpecDocument} :
    d.withoutNull = d ↔ ∀ t ∈ d.tests, t.expected.body ≠ some .null := by
  obtain ⟨file, config, tests⟩ := d
  have htest : ∀ t : TestCase, t.withoutNull = t ↔ t.expected.body ≠ some .null := by
    rintro ⟨_, _, ⟨_, body, _, _, _, _⟩⟩
    simp [TestCase.withoutNull, Expected.withoutNull, dropNull_eq_self_iff]
  have hmap : tests.map TestCase.withoutNull = tests ↔ ∀ t ∈ tests, t.withoutNull = t := by
    nth_rewrite 2 [← List.map_id tests]
    exact List.map_inj_left
  simp only [SpecDocument.withoutNull, SpecDocument.mk.injEq, true_and, hmap, htest]

theorem isShallow_iff {e : Expected} :
    e.isShallow = true ↔ ∀ v ∈ e.body, v.depth ≤ Decode.bodyDepth := by
  simp [Expected.isShallow, Option.all_eq_true]

/-! ## Documents on disk -/

namespace Json.Value

theorem regular_record {fields : List (String × Value)} (h : (fields.map (·.1)).Nodup)
    (hf : ∀ f ∈ fields, f.2.Regular) : (record fields).Regular := by
  refine .object ?_ ?_
  · have := Decode.nodup_map_toList h
    rw [List.map_map] at this ⊢
    exact this
  · intro f hm
    obtain ⟨e, he, rfl⟩ := List.mem_map.1 hm
    exact hf e he

theorem regular_array_map {α : Type} {f : α → Value} {xs : List α} (h : ∀ x ∈ xs, (f x).Regular) :
    (array (xs.map f)).Regular := by
  refine .array fun v hv => ?_
  obtain ⟨x, hx, rfl⟩ := List.mem_map.1 hv
  exact h x hx

theorem regular_ofOption {v : Option Value} (h : ∀ w ∈ v, w.Regular) : (ofOption v).Regular := by
  cases v with
  | none => exact .null
  | some v => exact h v rfl

theorem regular_ofTexts (ss : List Text) : (ofTexts ss).Regular :=
  regular_array_map fun s _ => .string s

theorem regular_headersToJson (hs : List Header) : (headersToJson hs).Regular :=
  regular_array_map fun _ _ => regular_ofTexts _

end Json.Value

theorem Request.regular_toJson (r : Request) : r.toJson.Regular := by
  refine regular_record (by simp) ?_
  have hbody : (ofOption (r.body.map .string)).Regular := by
    refine regular_ofOption fun v hv => ?_
    obtain ⟨s, -, rfl⟩ := Option.map_eq_some_iff.1 hv
    exact .string s
  simp only [List.forall_mem_cons]
  exact ⟨.string _, .string _, regular_headersToJson _, hbody, by simp⟩

theorem Expected.Writable.regular_toJson {e : Expected} (h : e.Writable) : e.toJson.Regular := by
  refine regular_record (by simp) ?_
  have hstatus : Fits e.status := by
    have := h.status
    unfold Decode.maxStatus at this
    unfold Fits
    omega
  simp only [List.forall_mem_cons]
  exact ⟨.number (Number.isInteger_of_fits hstatus), regular_ofOption h.body, .bool _,
    regular_headersToJson _, regular_ofTexts _, regular_headersToJson _, by simp⟩

theorem SpecDocument.regular_toJson {d : SpecDocument} (h : ∀ t ∈ d.tests, t.expected.Writable) :
    d.toJson.Regular := by
  have htest : ∀ t ∈ d.tests, t.toJson.Regular := by
    intro t ht
    refine regular_record (by simp) ?_
    simp only [List.forall_mem_cons]
    exact ⟨regular_ofTexts _, t.request.regular_toJson, (h t ht).regular_toJson, by simp⟩
  refine regular_record (by simp) ?_
  simp only [List.forall_mem_cons]
  exact ⟨.string _, .string _, regular_array_map htest, by simp⟩

/-- **What is read from a document on disk**: the document without bodies that are null, if no body
is nested too deep, and else nothing. -/
theorem SpecDocument.parse?_pretty {d : SpecDocument} (h : ∀ t ∈ d.tests, t.expected.Writable) :
    SpecDocument.parse? d.toJson.pretty =
      if ∀ t ∈ d.tests, t.expected.isShallow = true then some d.withoutNull else none := by
  rw [SpecDocument.parse?, tree_parse?_pretty (regular_toJson h), Option.bind_some,
    Decode.specDocument_tree h]

end SpecHarvest
