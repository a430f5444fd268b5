import SpecHarvest.Extraction
import SpecHarvest.Proofs.Bytes.Expected
import SpecHarvest.Proofs.Bytes.Segment
import SpecHarvest.Proofs.Bytes.Span

/-!
# Extraction over bytes

`extractFile` is the whole extraction with every slice at byte offsets, every index and every counter
checked. It goes through segmentation, comments, splitting, requests and expectations as the other
modules have them; `extractFile_eq` puts their agreements together: from a source of fewer than 2^31
bytes nothing goes wrong, and what is extracted is `Extraction.ofSource`.
-/

namespace SpecHarvest.Bytes

open Text Source

/-- The request and the expectation of a text that makes one assertion. -/
def parseSingle (bindings : Bindings) (s : Text) : Found (Request × Expected) := do
  let (front, rest) ← (OptionT.mk (.ok (cut? separator s)) : Found (Text × Text))
  let request ← parseRequest bindings front
  let expected ← parseExpected rest
  return (request, expected)

/-- The outcome of one assertion of a block. -/
def outcomeOf (b : Block) (bindings : Bindings) (description : List Text) (reason : FlagReason)
    (source text : Text) : Checked Outcome := do
  match ← (parseSingle bindings text).run with
  | some (request, expected) => return .test ⟨description, request, expected⟩
  | none => return b.flag description reason source

/-- The outcomes of the parts of a block, after so many others. -/
def spanOutcomes (b : Block) (bindings : Bindings) (i : Nat) : List Text → Checked (List Outcome)
  | [] => return []
  | span :: spans => do
    let n ← add i 1
    let outcome ← outcomeOf b bindings (numbered b.description n) .unreadableSpan span span
    return outcome :: (← spanOutcomes b bindings (i + 1) spans)

/-- The outcomes of a block. -/
def processBlock (b : Block) (bindings : Bindings) : Checked (List Outcome) := do
  let text ← stripComments b.text
  if b.description.any List.isEmpty then return [b.flagWhole .unreadable]
  else
    match Construct.first? text with
    | some c => return [b.flagWhole (.construct c)]
    | none =>
      match occurrences separator text with
      | 0 => return [b.flagWhole .noAssertion]
      | 1 => return [← outcomeOf b bindings b.description .unreadable b.text text]
      | _ =>
        match ← splitAssertions text with
        | none => return [b.flagWhole .mutation]
        | some spans => spanOutcomes b bindings 0 spans

/-- The outcomes of blocks, each in its context. -/
def processBlocks : List (Block × Context) → Checked (List Outcome)
  | [] => return []
  | (b, c) :: blocks => do
    let outcomes ← processBlock b c.bindings
    return outcomes ++ (← processBlocks blocks)

/-- What is extracted from a source. -/
def extractFile (filename source config : Text) : Checked Extraction := do
  let (blocks, _) ← segmentSource source
  let outcomes ← processBlocks blocks
  return {
    file := specName filename
    config := config
    tests := outcomes.filterMap Outcome.test?
    flagged := outcomes.filterMap Outcome.flagged? }

section

variable {b : Block} {bindings : Bindings} {s : Text}

theorem parseSingle_agrees (hs : Small s) (hb : SmallBindings bindings) :
    Agrees Eq (parseSingle bindings s) (parseAssertion? bindings s) := by
  refine (Agrees.eq_iff.2 rfl).bind_of ?_
  rintro ⟨front, rest⟩ _ hcut rfl
  have hsplit := eq_of_cut? hcut
  have hfront : Small front := by
    refine hs.of_sublist ?_
    rw [hsplit, List.append_assoc]
    exact List.sublist_append_left _ _
  have hrest : Small rest := by
    refine hs.of_sublist ?_
    rw [hsplit]
    exact List.sublist_append_right _ _
  refine (parseRequest_agrees hfront hb).bind ?_
  rintro request _ rfl
  refine (parseExpected_agrees hrest).bind ?_
  rintro expected _ rfl
  exact .pure rfl

theorem outcomeOf_eq (hs : Small s) (hb : SmallBindings bindings) (b : Block)
    (description : List Text) (reason : FlagReason) (source : Text) :
    outcomeOf b bindings description reason source s =
      .ok (b.outcomeOf bindings description reason source s) := by
  rw [outcomeOf, Agrees.eq_iff.1 (parseSingle_agrees hs hb), ok_bind, Block.outcomeOf]
  cases parseAssertion? bindings s <;> rfl

theorem spanOutcomes_eq {spans : List Text} {i : Nat} (hs : ∀ p ∈ spans, Small p)
    (hb : SmallBindings bindings) (hi : i + spans.length < 2 ^ 32) (b : Block) :
    spanOutcomes b bindings i spans = .ok (spans.mapIdx fun j span =>
      b.outcomeOf bindings (numbered b.description (i + j + 1)) .unreadableSpan span span) := by
  induction spans generalizing i with
  | nil => rfl
  | cons p spans ih =>
    rw [List.length_cons] at hi
    rw [spanOutcomes, add_of_lt (by omega), ok_bind, outcomeOf_eq (hs p (by simp)) hb, ok_bind,
      ih (fun q hq => hs q (by simp [hq])) (by omega), ok_bind, List.mapIdx_cons]
    simp only [Nat.add_right_comm i 1, Nat.add_assoc]
    rfl

theorem processBlock_eq (hs : Small b.text) (hb : SmallBindings bindings) :
    processBlock b bindings = .ok (b.outcomes bindings) := by
  have ht : Small (Source.stripComments b.text) := hs.of_sublist (stripComments_sublist b.text)
  rw [processBlock, stripComments_eq hs, ok_bind, Block.outcomes]
  generalize Source.stripComments b.text = t at ht
  split
  · rfl
  cases Construct.first? t with
  | some c => rfl
  | none =>
    show (match occurrences separator t with | 0 => _ | 1 => _ | _ => _) =
      Except.ok (match occurrences separator t with | 0 => _ | 1 => _ | _ => _)
    generalize occurrences separator t = n
    match n with
    | 0 => rfl
    | 1 => exact congrArg (· >>= fun o => Except.ok [o]) (outcomeOf_eq ht hb ..)
    | n + 2 =>
      show (splitAssertions t >>= fun _ => _) = _
      rw [splitAssertions_eq ht, ok_bind]
      cases hspans : splitAssertions? t with
      | none => rfl
      | some spans =>
        obtain rfl := eq_of_splitAssertions? hspans
        have hlen := length_assertionSpans_le t
        have htw : width t < 2 ^ 31 := ht
        have hp : ∀ p ∈ assertionSpans t, Small p :=
          fun p hp => ht.of_sublist (sublist_of_mem_assertionSpans hp)
        have hall := spanOutcomes_eq (i := 0) hp hb (by omega) b
        simp only [Nat.zero_add] at hall
        exact hall

theorem processBlocks_eq {blocks : List (Block × Context)}
    (h : ∀ p ∈ blocks, Small p.1.text ∧ SmallBindings p.2.bindings) :
    processBlocks blocks = .ok (blocks.flatMap fun p => p.1.outcomes p.2.bindings) := by
  induction blocks with
  | nil => rfl
  | cons p blocks ih =>
    obtain ⟨ht, hb⟩ := h p (by simp)
    rw [processBlocks, processBlock_eq ht hb, ok_bind, ih fun q hq => h q (by simp [hq])]
    rfl

end

/-- **Nothing goes wrong in the extraction from a source of fewer than 2^31 bytes**: every offset that
a text is sliced at is in range and a character boundary, no index is past an end, and no offset,
depth or counter leaves its type. -/
theorem extractFile_eq (filename config : Text) {source : Text} (hs : width source < 2 ^ 31) :
    extractFile filename source config = .ok (Extraction.ofSource filename source config) := by
  have hblocks : ∀ p ∈ (segment source).1, Small p.1.text ∧ SmallBindings p.2.bindings :=
    fun p hp => small_of_mem_segment hs hp
  rw [extractFile, segmentSource_eq hs, ok_bind]
  show (processBlocks (segment source).1 >>= fun _ => _) = _
  rw [processBlocks_eq hblocks]
  rfl

/-- A literal in which a backslash stands before a character of two bytes. -/
def accented : Text := "it \"caf\\é\" $\n  get \"/caf\\é\" `shouldRespondWith` 200".toList

theorem extractFile_accented : width accented < 2 ^ 31 ∧
    extractFile "CaféSpec.hs".toList accented "default".toList =
      .ok (Extraction.ofSource "CaféSpec.hs".toList accented "default".toList) :=
  ⟨by decide, extractFile_eq _ _ (by decide)⟩

end SpecHarvest.Bytes
