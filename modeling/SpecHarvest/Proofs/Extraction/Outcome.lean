import SpecHarvest.Extraction
import SpecHarvest.Proofs.Assertion.Span

/-!
# What a block yields

A block is either refused, and yields one flagged test, or every part of it is read on its own.

* `Block.refusal?` is the reason for which a block is refused, `Block.parts` are the texts that are
  read, each by `Block.outcomeAt`. `outcomes_of_refusal` and `outcomes_of_accepted` say that these
  give all outcomes.
* `Yields` relates a source to its blocks and their test cases. `Extraction.mem_tests_iff`: these
  are the test cases that are extracted.
-/

namespace SpecHarvest

open Text Source

/-! ## One assertion -/

theorem parseAssertion?_eq_some_iff {bindings : Bindings} {s : Text} {r : Request} {e : Expected} :
    parseAssertion? bindings s = some (r, e) ↔ ∃ front rest, cut? separator s = some (front, rest) ∧
      Request.parse? bindings front = some r ∧ Expected.parse? rest = some e := by
  simp only [parseAssertion?, Option.bind_eq_bind, Option.bind_eq_some_iff, Option.pure_def,
    Option.some.injEq, Prod.mk.injEq, Prod.exists]
  constructor
  · rintro ⟨front, rest, hc, r', hr, e', he, rfl, rfl⟩
    exact ⟨front, rest, hc, hr, he⟩
  · rintro ⟨front, rest, hc, hr, he⟩
    exact ⟨front, rest, hc, r, hr, e, he, rfl, rfl⟩

theorem parseAssertion?_of_cut? {bindings : Bindings} {s front rest : Text} {r : Request}
    {e : Expected} (h : cut? separator s = some (front, rest)) :
    parseAssertion? bindings s = some (r, e) ↔
      Request.parse? bindings front = some r ∧ Expected.parse? rest = some e := by
  rw [parseAssertion?_eq_some_iff]
  constructor
  · rintro ⟨front', rest', hc, hp⟩
    obtain ⟨rfl, rfl⟩ := Prod.mk.inj (Option.some.inj (h.symm.trans hc))
    exact hp
  · exact fun hp => ⟨front, rest, h, hp⟩

theorem isSome_parseAssertion?_of_cut? {bindings : Bindings} {s front rest : Text}
    (h : cut? separator s = some (front, rest)) : (parseAssertion? bindings s).isSome = true ↔
      (Request.parse? bindings front).isSome = true ∧ (Expected.parse? rest).isSome = true := by
  simp only [Option.isSome_iff_exists, Prod.exists]
  constructor
  · rintro ⟨r, e, hp⟩
    obtain ⟨hr, he⟩ := (parseAssertion?_of_cut? h).1 hp
    exact ⟨⟨r, hr⟩, e, he⟩
  · rintro ⟨⟨r, hr⟩, e, he⟩
    exact ⟨r, e, (parseAssertion?_of_cut? h).2 ⟨hr, he⟩⟩

theorem one_le_occurrences_of_parse {bindings : Bindings} {s : Text} {p : Request × Expected}
    (h : parseAssertion? bindings s = some p) : 1 ≤ occurrences separator s := by
  obtain ⟨front, rest, hc, -⟩ := parseAssertion?_eq_some_iff.1 h
  rw [occurrences_of_cut? (by decide) hc]
  omega

namespace Block

/-! ## Refused and accepted blocks -/

/-- The text of a block without its comments. -/
def code (b : Block) : Text := stripComments b.text

/-- Why a block is flagged before any part of it is read. -/
def refusal? (b : Block) : Option FlagReason :=
  if b.description.any List.isEmpty then some .unreadable
  else
    match Construct.first? b.code with
    | some c => some (.construct c)
    | none =>
      if occurrences separator b.code = 0 then some .noAssertion
      else if 2 ≤ occurrences separator b.code ∧ (assertionSpans b.code).any isMutating then
        some .mutation
      else none

/-- The texts of a block that are read as one assertion each. -/
def parts (b : Block) : List Text :=
  if occurrences separator b.code < 2 then [b.code] else assertionSpans b.code

/-- What is left out of a block before its first part. -/
def lead (b : Block) : Text :=
  if occurrences separator b.code < 2 then [] else preamble b.code

/-- The outcome of a part, given its place. -/
def outcomeAt (b : Block) (bindings : Bindings) (i : Nat) (part : Text) : Outcome :=
  if occurrences separator b.code < 2 then
    b.outcomeOf bindings b.description .unreadable b.text part
  else b.outcomeOf bindings (numbered b.description (i + 1)) .unreadableSpan part part

variable {b : Block} {bindings : Bindings}

theorem outcomes_of_refusal {r : FlagReason} (h : b.refusal? = some r) :
    b.outcomes bindings = [b.flagWhole r] := by
  unfold refusal? at h
  unfold outcomes
  rw [code] at h
  split at h
  · rename_i hd
    simp only [Option.some.injEq] at h
    simp [hd, h]
  rename_i hd
  split at h
  · rename_i c hc
    simp only [Option.some.injEq] at h
    simp [hd, hc, h]
  rename_i hc
  split at h
  · rename_i h0
    simp only [Option.some.injEq] at h
    simp [hd, hc, h0, h]
  split at h
  · rename_i h2
    simp only [Option.some.injEq] at h
    obtain ⟨k, hk⟩ := Nat.exists_eq_add_of_le h2.1
    rw [Nat.add_comm] at hk
    simp only [hd, hc, hk, splitAssertions?, h2.2]
    simp [h]
  · cases h

theorem stripComments_text (b : Block) : stripComments b.text = b.code := rfl

/-- An accepted block has a description, uses no construct that a test case does not express, and
makes an assertion; of several assertions none writes. -/
theorem refusal?_eq_none_iff : b.refusal? = none ↔
    b.description.any List.isEmpty = false ∧ Construct.first? b.code = none ∧
      1 ≤ occurrences separator b.code ∧
      (2 ≤ occurrences separator b.code →
        ∀ span ∈ assertionSpans b.code, isMutating span = false) := by
  unfold refusal?
  cases b.description.any List.isEmpty with
  | true => simp
  | false =>
    cases Construct.first? b.code with
    | some c => simp
    | none =>
      by_cases h0 : occurrences separator b.code = 0
      · simp [h0]
      · have h1 : 1 ≤ occurrences separator b.code := Nat.one_le_iff_ne_zero.2 h0
        simp [h0, h1]

theorem outcomes_of_accepted (h : b.refusal? = none) :
    b.outcomes bindings = b.parts.mapIdx (b.outcomeAt bindings) := by
  obtain ⟨hd, hc, h1, hm⟩ := refusal?_eq_none_iff.1 h
  simp only [outcomes, stripComments_text, hd, Bool.false_eq_true, if_false, hc]
  rcases Nat.lt_or_ge (occurrences separator b.code) 2 with h2 | h2
  · have h1 : occurrences separator b.code = 1 := by omega
    simp [h1, parts, outcomeAt]
  · have hf : (assertionSpans b.code).any isMutating = false := by simpa using hm h2
    obtain ⟨k, hk⟩ := Nat.exists_eq_add_of_le h2
    rw [Nat.add_comm] at hk
    have h2' : ¬k + 2 < 2 := by omega
    have hp : b.parts = assertionSpans b.code := by simp only [parts, hk, if_neg h2']
    simp only [hk, splitAssertions?, hf, hp, Bool.false_eq_true, if_false]
    congr 1
    funext i part
    simp only [outcomeAt, hk, if_neg h2']

theorem isMutating_of_accepted (h : b.refusal? = none)
    (h2 : 2 ≤ occurrences separator b.code) : ∀ part ∈ b.parts, isMutating part = false := by
  intro part hp
  rw [parts, if_neg (Nat.not_lt.2 h2)] at hp
  exact (refusal?_eq_none_iff.1 h).2.2.2 h2 part hp

/-! ## Test cases -/

theorem parseAssertion?_of_outcomeAt {i : Nat} {part : Text} {t : TestCase}
    (h : b.outcomeAt bindings i part = .test t) :
    parseAssertion? bindings part = some (t.request, t.expected) := by
  unfold outcomeAt outcomeOf at h
  cases ha : parseAssertion? bindings part with
  | none => split at h <;> simp [ha, flag] at h
  | some p =>
    obtain ⟨r, e⟩ := p
    split at h
    all_goals
      simp only [ha, Outcome.test.injEq] at h
      rw [← h]

theorem exists_outcomeAt_eq_test {part : Text} (h : (parseAssertion? bindings part).isSome = true)
    (i : Nat) : ∃ t, b.outcomeAt bindings i part = .test t := by
  obtain ⟨⟨r, e⟩, ha⟩ := Option.isSome_iff_exists.1 h
  unfold outcomeAt outcomeOf
  rw [ha]
  split
  · exact ⟨_, rfl⟩
  · exact ⟨_, rfl⟩

/-- A test case is what some part of an accepted block states. -/
theorem exists_part_of_test {i : Nat} {t : TestCase}
    (h : (b.outcomes bindings)[i]? = some (.test t)) : b.refusal? = none ∧
      ∃ part, b.parts[i]? = some part ∧
        parseAssertion? bindings part = some (t.request, t.expected) := by
  cases hr : b.refusal? with
  | some r =>
    rw [outcomes_of_refusal hr] at h
    cases i <;> simp [flagWhole, flag] at h
  | none =>
    rw [outcomes_of_accepted hr, List.getElem?_mapIdx, Option.map_eq_some_iff] at h
    obtain ⟨part, hp, ht⟩ := h
    exact ⟨rfl, part, hp, parseAssertion?_of_outcomeAt ht⟩

/-- The requests of the test cases of a block. -/
def requests (b : Block) (bindings : Bindings) : List Request :=
  (b.outcomes bindings).filterMap fun o => o.test?.map (·.request)

end Block

/-! ## Sources -/

/-- A source has a leaf block, found in a context, and a test case comes from it. -/
structure Yields (source : Text) (b : Block) (c : Context) (t : TestCase) : Prop where
  leaf : (b, c) ∈ (segment source).1
  test : .test t ∈ b.outcomes c.bindings

/-- **When a test case comes from a block**: it is accepted, and some part of it states an
assertion. -/
theorem exists_yields_iff {source : Text} {b : Block} {c : Context}
    (hb : (b, c) ∈ (segment source).1) : (∃ t, Yields source b c t) ↔ b.refusal? = none ∧
      ∃ part ∈ b.parts, (parseAssertion? c.bindings part).isSome = true := by
  constructor
  · rintro ⟨t, -, ht⟩
    obtain ⟨i, hi⟩ := List.mem_iff_getElem?.1 ht
    obtain ⟨hr, part, hp, ha⟩ := Block.exists_part_of_test hi
    exact ⟨hr, part, List.mem_of_getElem? hp, by simp [ha]⟩
  · rintro ⟨hr, part, hp, ha⟩
    obtain ⟨i, hi, rfl⟩ := List.mem_iff_getElem.1 hp
    obtain ⟨t, ht⟩ := Block.exists_outcomeAt_eq_test (b := b) ha i
    refine ⟨t, hb, ?_⟩
    rw [Block.outcomes_of_accepted hr]
    exact List.mem_mapIdx.2 ⟨i, hi, ht⟩

/-- A request that a block of a source makes is that of a test case. -/
theorem exists_yields_of_mem_requests {source : Text} {b : Block} {c : Context} {r : Request}
    (hb : (b, c) ∈ (segment source).1) (h : r ∈ b.requests c.bindings) :
    ∃ t, Yields source b c t ∧ t.request = r := by
  obtain ⟨o, ho, hr⟩ := List.mem_filterMap.1 h
  obtain ⟨t, ht, rfl⟩ := Option.map_eq_some_iff.1 hr
  cases o with
  | test u =>
    obtain rfl : u = t := by simpa [Outcome.test?] using ht
    exact ⟨u, ⟨hb, ho⟩, rfl⟩
  | flagged f => simp [Outcome.test?] at ht

/-- **The test cases of a source are those of its leaf blocks.** -/
theorem Extraction.mem_tests_iff {filename source config : Text} {t : TestCase} :
    t ∈ (Extraction.ofSource filename source config).tests ↔ ∃ b c, Yields source b c t := by
  simp only [Extraction.ofSource, outcomesOf, List.mem_filterMap, List.mem_flatMap]
  constructor
  · rintro ⟨o, ⟨⟨b, c⟩, hb, ho⟩, ht⟩
    cases o with
    | test u =>
      obtain rfl : u = t := by simpa [Outcome.test?] using ht
      exact ⟨b, c, hb, ho⟩
    | flagged f => simp [Outcome.test?] at ht
  · rintro ⟨b, c, hb, ht⟩
    exact ⟨.test t, ⟨(b, c), hb, ht⟩, rfl⟩

theorem Yields.exists_part {source : Text} {b : Block} {c : Context} {t : TestCase}
    (h : Yields source b c t) : b.refusal? = none ∧
      ∃ part ∈ b.parts, parseAssertion? c.bindings part = some (t.request, t.expected) := by
  obtain ⟨i, hi⟩ := List.mem_iff_getElem?.1 h.test
  obtain ⟨hr, part, hp, ha⟩ := Block.exists_part_of_test hi
  exact ⟨hr, part, List.mem_of_getElem? hp, ha⟩

end SpecHarvest
