import SpecHarvest.Proofs.Assertion.Write
import SpecHarvest.Proofs.Block.Leaf

/-!
# Blocks that write

A block with several assertions is refused if one of its parts writes. What precedes the first part
is not searched.

* `Block.WritesOnlyBefore`: all writing comes before the first part.
* `exists_yields_iff_of_isMutating`: of the blocks that write after their description, exactly these
  are not refused for it.
* `not_refused_of_isMutating`: there is such a block.
-/

namespace SpecHarvest

open Text Source

/-- The declaration of a test hides no writing after it. -/
theorem IsTestHead.isMutating_append {t rest : Text} (h : IsTestHead t)
    (hm : isMutating rest = true) : isMutating (t ++ rest) = true := by
  obtain ⟨z, rfl⟩ := List.getLast?_eq_some_iff.1 h.getLast?_eq
  have hq : NoMethodAhead ('"' :: rest) := noMethodAhead_cons (by decide) (by decide) rest
  rw [List.append_assoc, List.singleton_append, SpecHarvest.isMutating_append (by decide) hq, hm,
    Bool.or_true]

namespace Block

/-- Of a text that ends with the parts of a block, what precedes them writes, and no part does. -/
def WritesOnlyBefore (b : Block) (rest : Text) : Prop :=
  ∃ between, rest = between ++ b.parts.flatten ∧ isMutating between = true ∧
    ∀ part ∈ b.parts, isMutating part = false

theorem parts_of_le {b : Block} (h : 2 ≤ occurrences separator b.code) :
    b.parts = assertionSpans b.code :=
  if_neg (Nat.not_lt.2 h)

/-- If no part of a block writes, all its writing comes before them. -/
theorem writesOnlyBefore_of_isMutating {b : Block} {t rest : Text}
    (hcode : b.code = t ++ rest) (hhead : IsTestHead t) (hn : '\n' ∉ t)
    (h2 : 2 ≤ occurrences separator b.code) (hm : isMutating rest = true)
    (hparts : ∀ part ∈ b.parts, isMutating part = false) : b.WritesOnlyBefore rest := by
  have hall : isMutating b.code = true := hcode ▸ hhead.isMutating_append hm
  have hps := parts_of_le h2
  -- uncut, the block would be one part
  have hreq : 2 ≤ requestLines b.code := by
    refine Nat.not_lt.1 fun hlt => ?_
    rw [hps, assertionSpans_of_lt hlt] at hparts
    rw [hparts b.code (by simp)] at hall
    cases hall
  obtain ⟨between, hp, hrest⟩ :=
    exists_preamble_eq_append hn hhead.startsRequest_append (hcode ▸ hreq)
  rw [← hcode] at hp hrest
  have hend := endsLine_of_append (hp ▸ preamble_endsLine b.code)
  have hsplit := isMutating_append_flatten hend (linesEnd_assertionSpans b.code)
    fun p hp => startsRequest_of_mem_spans hreq hp
  rw [← hrest, hm, ← hps] at hsplit
  refine ⟨between, hps ▸ hrest, ?_, hparts⟩
  have hany : b.parts.any isMutating = false := by simpa using hparts
  rwa [hany, Bool.or_false, eq_comm] at hsplit

end Block

/-- **The blocks that write and are split.** Let a block with several separators write after the
literal that describes it. A test case comes from it exactly if all of that writing precedes the
first of its parts, and nothing else refuses the block or keeps every part from being understood. -/
theorem exists_yields_iff_of_isMutating {source : Text} {b : Block} {c : Context}
    (hb : (b, c) ∈ (segment source).1) (h2 : 2 ≤ occurrences separator b.code) :
    ∃ rest, afterTitle? b.code = some rest ∧ (isMutating rest = true →
      ((∃ t, Yields source b c t) ↔ b.WritesOnlyBefore rest ∧
        b.description.any List.isEmpty = false ∧ Construct.first? b.code = none ∧
        ∃ part ∈ b.parts, (parseAssertion? c.bindings part).isSome = true)) := by
  obtain ⟨t, rest, hcode, hhead, hn⟩ := exists_testHead hb
  refine ⟨rest, by rw [hcode, hhead.afterTitle?_append], fun hm => ?_⟩
  rw [exists_yields_iff hb]
  constructor
  · rintro ⟨hr, hpart⟩
    obtain ⟨hd, hc, -⟩ := Block.refusal?_eq_none_iff.1 hr
    exact ⟨Block.writesOnlyBefore_of_isMutating hcode hhead hn h2 hm
      (Block.isMutating_of_accepted hr h2), hd, hc, hpart⟩
  · rintro ⟨⟨between, -, -, hparts⟩, hd, hc, hpart⟩
    exact ⟨Block.refusal?_eq_none_iff.2 ⟨hd, hc, by omega, fun _ => Block.parts_of_le h2 ▸ hparts⟩,
      hpart⟩

/-- A test that writes on the line that declares it and reads on the lines after. -/
def postThenReads : Text :=
  "it \"x\" $ post \"/a\" \"\" >> do\n".toList ++
    "  get \"/a\" `shouldRespondWith` 200\n  get \"/b\" `shouldRespondWith` 404".toList

def postThenReadsBlock : Block := ⟨["x".toList], postThenReads, 1⟩

theorem exists_yields_postThenReads :
    (∃ t, Yields postThenReads postThenReadsBlock .empty t) ∧
      2 ≤ occurrences separator postThenReadsBlock.code ∧
      ∃ rest, afterTitle? postThenReadsBlock.code = some rest ∧ isMutating rest = true := by
  have htext : postThenReads = _ ++ _ :=
    congrArg₂ (· ++ ·) String.toList_ofList String.toList_ofList
  obtain ⟨hb, hr, h2, hm⟩ : (postThenReadsBlock, .empty) ∈ (segment postThenReads).1 ∧
      ⟨.get, "/a".toList, [], none⟩ ∈ postThenReadsBlock.requests [] ∧
      2 ≤ occurrences separator postThenReadsBlock.code ∧
      (afterTitle? postThenReadsBlock.code).any isMutating = true := by
    rw [postThenReadsBlock, htext]
    decide +kernel
  obtain ⟨t, ht, -⟩ := exists_yields_of_mem_requests hb hr
  obtain ⟨rest, hr, hm⟩ := (Option.any_eq_true _ _).1 hm
  exact ⟨⟨t, ht⟩, h2, rest, hr, hm⟩

theorem exists_yields_iff_of_isMutating_postThenReads :
    ∃ rest, afterTitle? postThenReadsBlock.code = some rest ∧ isMutating rest = true ∧
      postThenReadsBlock.WritesOnlyBefore rest := by
  obtain ⟨⟨t, ht⟩, h2, rest, hr, hm⟩ := exists_yields_postThenReads
  obtain ⟨rest', hr', hiff⟩ := exists_yields_iff_of_isMutating ht.leaf h2
  obtain rfl : rest' = rest := by simpa [hr'] using hr
  exact ⟨rest', hr', hm, ((hiff hm).1 ⟨t, ht⟩).1⟩

/-- **Not every block that writes after its description is refused.** -/
theorem not_refused_of_isMutating : ¬ ∀ (source : Text) (b : Block) (c : Context) (rest : Text),
    (b, c) ∈ (segment source).1 → 2 ≤ occurrences separator b.code →
      afterTitle? b.code = some rest → isMutating rest = true → ∀ t, ¬ Yields source b c t := by
  intro h
  obtain ⟨⟨t, ht⟩, h2, rest, hr, hm⟩ := exists_yields_postThenReads
  exact h _ _ _ rest ht.leaf h2 hr hm t ht

end SpecHarvest
