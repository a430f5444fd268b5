import SpecHarvest.Proofs.Extraction.Outcome

/-!
# The assertions of a split block

A block is read part by part, and only the first separator of a part counts. So a block yields as
many outcomes as it has parts, which need not be as many as it has separators.

* `outcomes_of_yields`: one outcome for each part; a test case is read from its part, which holds a
  separator; and where every part holds exactly one, a separator can be lost only before the first
  part.
* `not_outcome_for_each_separator`: two assertions chained on one line give one outcome.
-/

namespace SpecHarvest

open Text

namespace Block

theorem lead_append_parts (b : Block) : b.lead ++ b.parts.flatten = b.code := by
  unfold lead parts
  split
  · simp
  · exact preamble_append_spans b.code

/-- The separators of a block are those of what is left out and of its parts. -/
theorem occurrences_lead_add_parts (b : Block) :
    occurrences separator b.lead + (b.parts.map (occurrences separator)).sum =
      occurrences separator b.code := by
  unfold lead parts
  split
  · simp
  · exact occurrences_preamble_add_spans b.code

end Block

/-- **The outcomes of a block from which a test case comes.** There is one for each part of the
block, and the parts are all of its text but for what precedes the first. A test case is what its
part states up to and after the first separator, of which it has at least one. No separator lies
across two parts, so that, if every part has exactly one, there are as many outcomes as separators
exactly when none precedes the first part. -/
theorem outcomes_of_yields {source : Text} {b : Block} {c : Context} {t : TestCase}
    (h : Yields source b c t) :
    (b.outcomes c.bindings).length = b.parts.length ∧
      b.lead ++ b.parts.flatten = b.code ∧
      (∀ (i : Nat) (u : TestCase), (b.outcomes c.bindings)[i]? = some (.test u) →
        ∃ part, b.parts[i]? = some part ∧
        1 ≤ occurrences separator part ∧
        parseAssertion? c.bindings part = some (u.request, u.expected)) ∧
      occurrences separator b.lead + (b.parts.map (occurrences separator)).sum =
        occurrences separator b.code ∧
      ((∀ part ∈ b.parts, occurrences separator part = 1) →
        ((b.outcomes c.bindings).length = occurrences separator b.code ↔
          occurrences separator b.lead = 0)) := by
  have hlen : (b.outcomes c.bindings).length = b.parts.length := by
    rw [Block.outcomes_of_accepted h.exists_part.1, List.length_mapIdx]
  have hsum := b.occurrences_lead_add_parts
  refine ⟨hlen, b.lead_append_parts, fun i u hu => ?_, hsum, fun hone => ?_⟩
  · obtain ⟨-, part, hp, ha⟩ := Block.exists_part_of_test hu
    exact ⟨part, hp, one_le_occurrences_of_parse ha, ha⟩
  · have hmap : b.parts.map (occurrences separator) = List.replicate b.parts.length 1 := by
      rw [List.eq_replicate_iff]
      exact ⟨by simp, fun n hn => by
        obtain ⟨part, hp, rfl⟩ := List.mem_map.1 hn
        exact hone part hp⟩
    rw [hmap, List.sum_replicate_nat] at hsum
    omega

/-- A test that reads twice. -/
def readTwice : Text :=
  "it \"x\" $ do\n  get \"/a\" `shouldRespondWith` 200\n  get \"/b\" `shouldRespondWith` 404".toList

def readTwiceBlock : Block := ⟨["x".toList], readTwice, 1⟩

theorem outcomes_of_yields_readTwice : ∃ t, Yields readTwice readTwiceBlock .empty t ∧
    (readTwiceBlock.outcomes []).length = occurrences separator readTwiceBlock.code := by
  -- evaluated on the characters, since the literal takes far longer to decode than to read
  have htext : readTwice = _ := String.toList_ofList
  obtain ⟨hb, hr, hone, hlead⟩ : (readTwiceBlock, .empty) ∈ (segment readTwice).1 ∧
      ⟨.get, "/a".toList, [], none⟩ ∈ readTwiceBlock.requests [] ∧
      (∀ part ∈ readTwiceBlock.parts, occurrences separator part = 1) ∧
      occurrences separator readTwiceBlock.lead = 0 := by
    rw [readTwiceBlock, htext]
    decide +kernel
  obtain ⟨t, h, -⟩ := exists_yields_of_mem_requests hb hr
  exact ⟨t, h, ((outcomes_of_yields h).2.2.2.2 hone).2 hlead⟩

/-- A test that makes two assertions on one line. -/
def chained : Text :=
  "it \"x\" $ get \"/a\" `shouldRespondWith` 200 >> get \"/b\" `shouldRespondWith` 404".toList

def chainedBlock : Block := ⟨["x".toList], chained, 1⟩

/-- **Not every separator has an outcome of its own**: `chained` has two and yields one. -/
theorem not_outcome_for_each_separator :
    ¬ ∀ (source : Text) (b : Block) (c : Context), 1 ≤ occurrences separator b.code →
      (∃ t, Yields source b c t) →
      (b.outcomes c.bindings).length = occurrences separator b.code ∧
        ∀ t, Yields source b c t → ∃ span, span <:+: b.code ∧ occurrences separator span = 1 ∧
          parseAssertion? c.bindings span = some (t.request, t.expected) := by
  intro h
  have htext : chained = _ := String.toList_ofList
  obtain ⟨hb, hr, hone, hlen⟩ : (chainedBlock, .empty) ∈ (segment chained).1 ∧
      ⟨.get, "/a".toList, [], none⟩ ∈ chainedBlock.requests [] ∧
      1 ≤ occurrences separator chainedBlock.code ∧
      (chainedBlock.outcomes []).length ≠ occurrences separator chainedBlock.code := by
    rw [chainedBlock, htext]
    decide +kernel
  obtain ⟨t, ht, -⟩ := exists_yields_of_mem_requests hb hr
  exact hlen (h chained chainedBlock .empty hone ⟨t, ht⟩).1

end SpecHarvest
