import SpecHarvest.Proofs.ExpectedExpr.Body
import SpecHarvest.Proofs.Extraction.Account

/-!
# Test cases are well formed

* `Header.Filled`: a header with a name and a value. Whatever reads headers reads such ones:
  `HeaderExpr.filled_of_resolveList?`, `HeaderMatchers.filled_of_parse?`.
* `Request.filled_of_parse?`, `Expected.filled_of_parse?`: nor does a request that is read have an
  empty body.
* `TestCase.WellFormed`: what the replay of a test case relies on. `wellFormed_of_mem_tests`: every
  test case that is extracted is well formed.
-/

namespace SpecHarvest

open Text Source Http Json

/-- Whether a header has a name and a value. -/
def Http.Header.Filled (h : Header) : Prop := h.name ≠ [] ∧ h.value ≠ []

/-- A literal of the library that is not empty, told from its first character. -/
theorem toList_ofList_ne_nil {c : Char} {s : List Char} : (String.ofList (c :: s)).toList ≠ [] := by
  rw [String.toList_ofList]
  exact List.cons_ne_nil c s

theorem Http.Header.filled_of {c d : Char} {s t : List Char} :
    (Header.of (String.ofList (c :: s)) (String.ofList (d :: t))).Filled :=
  ⟨toList_ofList_ne_nil, toList_ofList_ne_nil⟩

/-! ## Headers of requests -/

theorem ne_nil_of_nonemptyQuoted? {s raw rest : Text}
    (h : nonemptyQuoted? s = some (raw, rest)) : raw ≠ [] := by
  simpa using (Option.filter_eq_some_iff.1 h).2

namespace HeaderExpr

/-- Whether the texts that become headers as they are, or parts of one, are not empty. -/
def Filled : HeaderExpr → Prop
  | tuple name value => name ≠ [] ∧ value ≠ []
  | accept mime => mime ≠ []
  | _ => True

theorem filled_of_tuple? {s : Text} {e : HeaderExpr} (h : tuple? s = some e) : e.Filled := by
  simp only [tuple?, Option.bind_eq_bind, Option.bind_eq_some_iff, Option.pure_def,
    Option.some.injEq] at h
  obtain ⟨_, -, ⟨name, _⟩, hname, _, -, ⟨value, _⟩, hvalue, _, -, _, -, rfl⟩ := h
  exact ⟨unescape_ne_nil (ne_nil_of_nonemptyQuoted? hname),
    unescape_ne_nil (ne_nil_of_nonemptyQuoted? hvalue)⟩

theorem ne_nil_of_stringArgument? {helper s arg : Text}
    (h : stringArgument? helper s = some arg) : arg ≠ [] := by
  simp only [stringArgument?, Option.bind_eq_bind, Option.bind_eq_some_iff, Option.pure_def,
    Option.some.injEq] at h
  obtain ⟨_, -, _, -, ⟨raw, _⟩, hraw, _, -, rfl⟩ := h
  exact unescape_ne_nil (ne_nil_of_nonemptyQuoted? hraw)

/-- **An expression that is read** has no empty name and no empty value. -/
theorem filled_of_parse? {s : Text} {e : HeaderExpr} (h : parse? s = some e) : e.Filled := by
  obtain ⟨reader, hr, he⟩ := List.exists_of_findSome?_eq_some h
  simp only [readers, List.mem_cons, List.not_mem_nil, or_false] at hr
  rcases hr with rfl | rfl | rfl | rfl | rfl | rfl | rfl | rfl
  · exact filled_of_tuple? he
  · obtain ⟨mime, hm, rfl⟩ := Option.map_eq_some_iff.1 he
    exact ne_nil_of_stringArgument? hm
  · obtain ⟨token, -, rfl⟩ := Option.map_eq_some_iff.1 he
    trivial
  all_goals
    simp only [plan?, rangeFromTo?, rangeFrom?, rangeWithCount?, binding?] at he
    split at he
    · obtain rfl := Option.some.inj he
      trivial
    · cases he

theorem filled_of_headers {e : HeaderExpr} (he : e.Filled) {hs : List Header}
    (h : e.headers = .inl hs) : ∀ header ∈ hs, header.Filled := by
  have hunit : rangeUnit.Filled := Header.filled_of
  have hcount : (Header.of "Prefer" "count=exact").Filled := Header.filled_of
  have hrange : ∀ front back, (⟨"Range".toList, front ++ '-' :: back⟩ : Header).Filled :=
    fun front back => ⟨toList_ofList_ne_nil, by simp⟩
  cases e with
  | binding name => cases h
  | tuple name value =>
    obtain rfl := Sum.inl.inj h
    exact List.forall_mem_singleton.2 he
  | accept mime =>
    obtain rfl := Sum.inl.inj h
    exact List.forall_mem_singleton.2 ⟨toList_ofList_ne_nil, he⟩
  | bearer token =>
    obtain rfl := Sum.inl.inj h
    exact List.forall_mem_singleton.2 ⟨toList_ofList_ne_nil, by simp⟩
  | plan =>
    obtain rfl := Sum.inl.inj h
    exact List.forall_mem_singleton.2 Header.filled_of
  | rangeFromTo first last =>
    obtain rfl := Sum.inl.inj h
    exact List.forall_mem_cons.2 ⟨hunit, List.forall_mem_singleton.2 (hrange _ _)⟩
  | rangeFrom first =>
    obtain rfl := Sum.inl.inj h
    exact List.forall_mem_cons.2 ⟨hunit, List.forall_mem_singleton.2 (hrange _ _)⟩
  | rangeWithCount first last =>
    obtain rfl := Sum.inl.inj h
    refine List.forall_mem_cons.2 ⟨hcount, List.forall_mem_cons.2 ⟨hunit, ?_⟩⟩
    exact List.forall_mem_singleton.2 (hrange _ _)

/-- Bindings lead to no other headers than those of expressions. -/
theorem filled_of_resolve? {bindings : Bindings} {s : Text} {hs : List Header}
    (h : resolve? bindings s = some hs) : ∀ header ∈ hs, header.Filled := by
  fun_induction resolve? bindings s with
  | case1 => cases h
  | case2 bindings s e he hs' hh =>
    obtain rfl := Option.some.inj h
    exact filled_of_headers (filled_of_parse? he) hh
  | case3 => cases h
  | case4 bindings s e he name hn bound hb ih => exact ih h

/-- **Resolved headers have a name and a value.** -/
theorem filled_of_resolveList? {bindings : Bindings} {s : Text} {hs : List Header}
    (h : resolveList? bindings s = some hs) : ∀ header ∈ hs, header.Filled := by
  unfold resolveList? at h
  split at h
  · simp only [Option.bind_eq_bind, Option.bind_eq_some_iff, Option.pure_def,
      Option.some.injEq] at h
    obtain ⟨inner, -, hss, hm, rfl⟩ := h
    intro header hh
    obtain ⟨hs, hmem, hh⟩ := List.mem_flatten.1 hh
    obtain ⟨element, -, he⟩ := Value.exists_of_mem_mapM hm _ hmem
    exact filled_of_resolve? he header hh
  · exact filled_of_resolve? h

end HeaderExpr

/-! ## Header matchers -/

namespace HeaderMatcher

/-- Whether a matcher has no empty name and no empty value. -/
def Filled : HeaderMatcher → Prop
  | exact name value => name ≠ [] ∧ value ≠ []
  | absent name => name ≠ []
  | contain name value => name ≠ [] ∧ value ≠ []

theorem filled_of_exactPair? {s : Text} {m : HeaderMatcher} (h : exactPair? s = some m) :
    m.Filled := by
  simp only [exactPair?, Option.bind_eq_bind, Option.bind_eq_some_iff] at h
  obtain ⟨_, -, _, -, ⟨_, name⟩, -, ⟨value, _⟩, -, h⟩ := h
  dsimp only at h
  split at h
  · cases h
  · next hne =>
    obtain rfl := Option.some.inj h
    simp only [Bool.or_eq_true, List.isEmpty_iff, not_or] at hne
    exact ⟨unescape_ne_nil hne.1, unescape_ne_nil hne.2⟩

theorem contentType_ne_nil : contentType ≠ [] := toList_ofList_ne_nil

theorem ne_nil_of_mem_contentTypes : ∀ p ∈ contentTypes, p.2 ≠ [] := by
  simp only [contentTypes, List.forall_mem_cons]
  exact ⟨toList_ofList_ne_nil, toList_ofList_ne_nil, toList_ofList_ne_nil, toList_ofList_ne_nil,
    nofun⟩

/-- **A matcher that is read** has no empty name and no empty value. -/
theorem filled_of_parse? {s : Text} {m : HeaderMatcher} (h : parse? s = some m) : m.Filled := by
  obtain ⟨reader, hr, hm⟩ := List.exists_of_findSome?_eq_some h
  simp only [readers, List.mem_cons, List.not_mem_nil, or_false] at hr
  rcases hr with rfl | rfl | rfl | rfl
  · exact filled_of_exactPair? hm
  · simp only [absentContentType?, Option.bind_eq_bind, Option.bind_eq_some_iff, Option.pure_def,
      Option.some.injEq] at hm
    obtain ⟨_, -, _, -, rfl⟩ := hm
    exact contentType_ne_nil
  · simp only [absentNamed?, Option.bind_eq_bind, Option.bind_eq_some_iff, Option.pure_def,
      Option.some.injEq] at hm
    obtain ⟨_, -, ⟨name, _⟩, hname, rfl⟩ := hm
    exact unescape_ne_nil (ne_nil_of_nonemptyQuoted? hname)
  · obtain ⟨p, hp, rfl⟩ := Option.map_eq_some_iff.1 hm
    exact ⟨contentType_ne_nil, ne_nil_of_mem_contentTypes p (List.mem_of_find?_eq_some hp)⟩

end HeaderMatcher

namespace HeaderMatchers

/-- Whether the sorted matchers have no empty name and no empty value. -/
structure Filled (ms : HeaderMatchers) : Prop where
  exact : ∀ h ∈ ms.exact, h.Filled
  absent : ∀ name ∈ ms.absent, name ≠ []

theorem filled_ofList {ms : List HeaderMatcher} (h : ∀ m ∈ ms, m.Filled) : (ofList ms).Filled := by
  constructor
  · intro header hh
    obtain ⟨m, hm, he⟩ := List.mem_filterMap.1 hh
    cases m with
    | exact name value =>
      obtain rfl := Option.some.inj he
      exact h _ hm
    | absent name => cases he
    | contain name value => cases he
  · intro name hn
    obtain ⟨m, hm, he⟩ := List.mem_filterMap.1 hn
    cases m with
    | exact name value => cases he
    | absent name =>
      obtain rfl := Option.some.inj he
      exact h _ hm
    | contain name value => cases he

theorem filled_of_parse? {s : Text} {ms : HeaderMatchers} (h : parse? s = some ms) :
    ms.Filled := by
  have hlist : ∀ {elements : List Text} {ms : HeaderMatchers},
      (elements.mapM HeaderMatcher.parse?).bind (fun list => some (ofList list)) = some ms →
        ms.Filled := by
    intro elements ms h
    obtain ⟨list, hm, he⟩ := Option.bind_eq_some_iff.1 h
    obtain rfl := Option.some.inj he
    refine filled_ofList fun m hmem => ?_
    obtain ⟨element, -, he⟩ := Value.exists_of_mem_mapM hm _ hmem
    exact HeaderMatcher.filled_of_parse? he
  unfold parse? at h
  split at h
  · obtain ⟨inner, -, hi⟩ := Option.bind_eq_some_iff.1 h
    exact hlist hi
  · exact hlist h

end HeaderMatchers

/-- The matchers of a record, which are none if they are not understood. -/
theorem ExpectedExpr.filled_matchersOf (block : Text) : (matchersOf block).Filled := by
  unfold matchersOf
  cases hm : ((field? "matchHeaders".toList block).bind listAt?).bind HeaderMatchers.parse? with
  | none => exact HeaderMatchers.filled_ofList (by simp)
  | some ms =>
    obtain ⟨list, -, hp⟩ := Option.bind_eq_some_iff.1 hm
    exact HeaderMatchers.filled_of_parse? hp

/-! ## Requests and expectations -/

/-- A body that is sent is not empty. -/
theorem Body.ne_nil_of_resolve? {s : Text} {body : Option Text} (h : Body.resolve? s = some body) :
    ∀ b ∈ body, b ≠ [] := by
  unfold Body.resolve? at h
  dsimp only at h
  split at h
  · obtain rfl := Option.some.inj h
    simp
  split at h
  · split at h
    · obtain rfl := Option.some.inj h
      rintro b ⟨⟩
      exact Value.compact_ne_nil _
    · cases h
  split at h
  · next raw _ =>
    obtain rfl := Option.some.inj h
    split
    · simp
    · next hne =>
      rintro b ⟨⟩
      unfold Body.ofText
      split
      · exact Value.compact_ne_nil _
      · simpa using hne
  · cases h

/-- **A request that a text states** has no empty body, and no header without a name or a value. -/
theorem Request.filled_of_parse? {bindings : Bindings} {s : Text} {r : Request}
    (h : Request.parse? bindings s = some r) :
    (∀ b ∈ r.body, b ≠ []) ∧ ∀ header ∈ r.headers, header.Filled := by
  obtain ⟨e, -, hr⟩ := Option.bind_eq_some_iff.1 h
  cases e with
  | get path =>
    obtain rfl := Option.some.inj hr
    simp
  | post path body =>
    simp only [RequestExpr.resolve?, Option.bind_eq_bind, Option.bind_eq_some_iff, Option.pure_def,
      Option.some.injEq] at hr
    obtain ⟨b, hb, rfl⟩ := hr
    exact ⟨Body.ne_nil_of_resolve? hb, by simp⟩
  | general method path arguments =>
    simp only [RequestExpr.resolve?, Option.bind_eq_bind, Option.bind_eq_some_iff, Option.pure_def,
      Option.some.injEq] at hr
    obtain ⟨m, -, ⟨headers, body⟩, -, b, hb, rfl⟩ := hr
    refine ⟨Body.ne_nil_of_resolve? hb, ?_⟩
    dsimp only
    cases hl : HeaderExpr.resolveList? bindings headers with
    | none => simp
    | some hs => exact HeaderExpr.filled_of_resolveList? hl

/-- **An expectation that a text states** expects no header without a name or a value. -/
theorem Expected.filled_of_parse? {s : Text} {e : Expected} (h : Expected.parse? s = some e) :
    (∀ header ∈ e.headers, header.Filled) ∧ ∀ name ∈ e.headersAbsent, name ≠ [] := by
  rw [Expected.parse?_eq] at h
  split at h
  · obtain ⟨q, -, hq⟩ := Option.bind_eq_some_iff.1 h
    obtain ⟨k, -, rfl⟩ := Option.map_eq_some_iff.1 hq
    simp [Expected.ofStatus]
  · obtain ⟨body, -, he⟩ := Option.bind_eq_some_iff.1 h
    cases hr : ExpectedExpr.attributes? (trim s) with
    | none =>
      rw [hr] at he
      obtain rfl := Option.some.inj he
      simp [Expected.ofStatus]
    | some block =>
      rw [hr] at he
      obtain ⟨k, -, rfl⟩ := Option.map_eq_some_iff.1 he
      have hm := ExpectedExpr.filled_matchersOf block
      exact ⟨hm.exact, hm.absent⟩

/-! ## Test cases -/

/-- What a test case needs to be replayed: it is described, it sends no empty body, it expects a
status of HTTP, and its headers have names and values. -/
structure TestCase.WellFormed (t : TestCase) : Prop where
  described : t.description ≠ []
  texts : ∀ s ∈ t.description, s ≠ []
  status : 100 ≤ t.expected.status ∧ t.expected.status ≤ 599
  body : ∀ b ∈ t.request.body, b ≠ []
  sent : ∀ h ∈ t.request.headers, h.Filled
  expected : ∀ h ∈ t.expected.headers, h.Filled
  absent : ∀ name ∈ t.expected.headersAbsent, name ≠ []

/-- The description of a test case is that of its block, or that with a number in its last text. -/
theorem Yields.described {source : Text} {b : Block} {c : Context} {t : TestCase}
    (h : Yields source b c t) : t.description ≠ [] ∧ ∀ s ∈ t.description, s ≠ [] := by
  obtain ⟨init, last, hd⟩ := exists_description_eq h.leaf
  by_cases hw : b.IsWhole
  · obtain ⟨o, ho, hdesc, hs⟩ := Block.outcomes_of_isWhole hw c.bindings
    obtain rfl : .test t = o := by simpa [ho] using h.test
    have hnil : [] ∉ b.description := (hs t rfl).1
    rw [show t.description = b.description from hdesc]
    refine ⟨by simp [hd], fun s hs => ?_⟩
    rintro rfl
    exact hnil hs
  · obtain ⟨i, hi⟩ := List.mem_iff_getElem?.1 h.test
    obtain ⟨parts, -, -, -, hparts⟩ := Block.outcomes_of_not_isWhole hw c.bindings hd
    have hnil : [] ∉ b.description := fun hmem => hw (.inl hmem)
    rw [show t.description = _ from (hparts i _ hi).1]
    refine ⟨by simp, fun s hs => ?_⟩
    rcases List.mem_append.1 hs with hs | hs
    · rintro rfl
      exact hnil (by simp [hd, hs])
    · rw [List.mem_singleton] at hs
      simp [hs]

/-- **Every test case that is extracted is well formed.** -/
theorem wellFormed_of_mem_tests {filename source config : Text} {t : TestCase}
    (h : t ∈ (Extraction.ofSource filename source config).tests) : t.WellFormed := by
  obtain ⟨b, c, hy⟩ := Extraction.mem_tests_iff.1 h
  obtain ⟨-, part, -, hp⟩ := hy.exists_part
  obtain ⟨front, rest, -, hr, he⟩ := parseAssertion?_eq_some_iff.1 hp
  obtain ⟨described, texts⟩ := hy.described
  obtain ⟨body, sent⟩ := Request.filled_of_parse? hr
  obtain ⟨expected, absent⟩ := Expected.filled_of_parse? he
  exact ⟨described, texts, (Expected.sound_of_parse? he).1, body, sent, expected, absent⟩

/-- A test that sends a header and a body and expects headers. -/
def createsItem : Text :=
  "it \"x\" $ request methodPost \"/a\" [(\"Prefer\", \"b\")] [json|[1]|] ".toList ++
    "`shouldRespondWith` \"\" \x7b matchStatus = 201, ".toList ++
    "matchHeaders = [\"Location\" <:> \"/a\", matchHeaderAbsent hContentType] \x7d".toList

theorem wellFormed_of_mem_tests_createsItem :
    ∃ t ∈ (Extraction.ofSource "ASpec.hs".toList createsItem "default".toList).tests,
      (t.request.body.isSome = true ∧ t.expected.status = 201 ∧ t.request.headers.length = 1 ∧
        t.expected.headers.length = 1 ∧ t.expected.headersAbsent.length = 1) ∧ t.WellFormed := by
  obtain ⟨t, ht, hparts⟩ :
      ∃ t ∈ (Extraction.ofSource "ASpec.hs".toList createsItem "default".toList).tests,
        t.request.body.isSome = true ∧ t.expected.status = 201 ∧ t.request.headers.length = 1 ∧
          t.expected.headers.length = 1 ∧ t.expected.headersAbsent.length = 1 := by
    decide +kernel
  exact ⟨t, ht, hparts, wellFormed_of_mem_tests ht⟩

end SpecHarvest
