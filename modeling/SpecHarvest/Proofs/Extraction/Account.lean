import SpecHarvest.Proofs.Block.Leaf
import SpecHarvest.Proofs.Block.Segment

/-!
# Every test is accounted for

The test cases and the flagged tests of a file are the outcomes of its blocks, told apart but kept
in their order (`Merges`).

* A block that is not cut (`Block.IsWhole`) has one outcome, with the description of the block. It is
  a test case only of a block that is not refused and has exactly one separator.
* Any other block has one outcome for each part, with the number of the part in its description.
* `merges_accounted`: this for all blocks of a source.
-/

namespace SpecHarvest

open Text Source

/-! ## Two lists in one -/

/-- Test cases and flagged tests put together to outcomes, each kind in its order. -/
inductive Merges : List TestCase → List FlaggedTest → List Outcome → Prop
  | nil : Merges [] [] []
  | test {t ts fs os} : Merges ts fs os → Merges (t :: ts) fs (.test t :: os)
  | flagged {f ts fs os} : Merges ts fs os → Merges ts (f :: fs) (.flagged f :: os)

theorem merges_filterMap (os : List Outcome) :
    Merges (os.filterMap Outcome.test?) (os.filterMap Outcome.flagged?) os := by
  induction os with
  | nil => exact .nil
  | cons o os ih =>
    cases o with
    | test t => exact .test ih
    | flagged f => exact .flagged ih

/-! ## The outcomes of one block -/

/-- The description of an outcome. -/
def Outcome.description : Outcome → List Text
  | .test t => t.description
  | .flagged f => f.description

namespace Block

variable {b : Block} {bindings : Bindings}

/-- Whether a block is not cut: a text of its description is empty, it uses a construct that a test
case does not express, it has fewer than two separators, or a part of it writes. -/
def IsWhole (b : Block) : Prop :=
  [] ∈ b.description ∨ (∃ c : Construct, c.usedIn b.code = true) ∨
    occurrences separator b.code ≤ 1 ∨ splitAssertions? b.code = none

/-- Whether a block is read as one assertion: it is described, uses no construct that a test case
does not express and has one separator. -/
def IsSingle (b : Block) : Prop :=
  [] ∉ b.description ∧ (∀ c : Construct, c.usedIn b.code = false) ∧
    occurrences separator b.code = 1

theorem any_isEmpty_eq_false_iff :
    b.description.any List.isEmpty = false ↔ [] ∉ b.description := by
  rw [Bool.eq_false_iff, ne_eq, List.any_eq_true]
  simp

theorem first?_eq_none_iff {s : Text} :
    Construct.first? s = none ↔ ∀ c : Construct, c.usedIn s = false := by
  have hall : ∀ c, c ∈ Construct.all := by
    intro c
    cases c <;> decide
  rw [Construct.first?, List.find?_eq_none]
  exact ⟨fun h c => by simpa using h c (hall c), fun h c _ => by simp [h c]⟩

theorem splitAssertions?_eq_none_iff {s : Text} :
    splitAssertions? s = none ↔ (assertionSpans s).any isMutating = true := by
  simp [splitAssertions?]

theorem isSingle_of_isWhole (hr : b.refusal? = none) (hw : b.IsWhole) : b.IsSingle := by
  obtain ⟨hd, hc, h1, hm⟩ := refusal?_eq_none_iff.1 hr
  rw [any_isEmpty_eq_false_iff] at hd
  rw [first?_eq_none_iff] at hc
  refine ⟨hd, hc, ?_⟩
  rcases hw with hw | ⟨c, hw⟩ | hw | hw
  · exact absurd hw hd
  · rw [hc c] at hw
    cases hw
  · omega
  · by_contra hne
    rw [splitAssertions?_eq_none_iff, List.any_eq_true] at hw
    obtain ⟨span, hs, hw⟩ := hw
    rw [hm (by omega) span hs] at hw
    cases hw

/-- A block that is cut is not refused. -/
theorem refusal?_of_not_isWhole (h : ¬b.IsWhole) : b.refusal? = none ∧
    2 ≤ occurrences separator b.code ∧ splitAssertions? b.code = some b.parts := by
  simp only [IsWhole, not_or, not_exists, Bool.not_eq_true, not_le] at h
  obtain ⟨hd, hc, h2, hs⟩ := h
  rw [splitAssertions?_eq_none_iff, Bool.not_eq_true] at hs
  have hparts : b.parts = assertionSpans b.code := if_neg (by omega)
  refine ⟨?_, h2, ?_⟩
  · refine refusal?_eq_none_iff.2 ⟨any_isEmpty_eq_false_iff.2 hd, first?_eq_none_iff.2 hc,
      by omega, fun _ => ?_⟩
    simpa using hs
  · simp [splitAssertions?, hs, hparts]

theorem description_outcomeOf (d : List Text) (r : FlagReason) (source text : Text) :
    (b.outcomeOf bindings d r source text).description = d := by
  unfold outcomeOf
  split <;> rfl

/-- Every flagged test of a block has the line of the block. -/
theorem line_of_flagged {f : FlaggedTest} (h : .flagged f ∈ b.outcomes bindings) :
    f.line = b.line := by
  cases hr : b.refusal? with
  | some r =>
    rw [outcomes_of_refusal hr, List.mem_singleton, flagWhole, flag] at h
    rw [Outcome.flagged.inj h]
  | none =>
    rw [outcomes_of_accepted hr] at h
    obtain ⟨i, hi, ho⟩ := List.mem_mapIdx.1 h
    unfold outcomeAt outcomeOf flag at ho
    cases ha : parseAssertion? bindings b.parts[i] with
    | none =>
      simp only [ha] at ho
      split at ho <;> rw [← Outcome.flagged.inj ho]
    | some p =>
      simp only [ha] at ho
      split at ho <;> cases ho

/-- **A block that is not cut** has one outcome, with its own description. -/
theorem outcomes_of_isWhole (h : b.IsWhole) (bindings : Bindings) :
    ∃ o, b.outcomes bindings = [o] ∧ o.description = b.description ∧
      (∀ t, o = .test t → b.IsSingle) := by
  cases hr : b.refusal? with
  | some r =>
    refine ⟨b.flagWhole r, outcomes_of_refusal hr, rfl, fun t ht => ?_⟩
    cases ht
  | none =>
    have hs := isSingle_of_isWhole hr h
    refine ⟨b.outcomeOf bindings b.description .unreadable b.text b.code, ?_,
      description_outcomeOf .., fun _ _ => hs⟩
    have h1 := hs.2.2
    have hp : b.parts = [b.code] := if_pos (by omega)
    rw [outcomes_of_accepted hr, hp]
    simp [outcomeAt, h1]

theorem parts_ne_nil (b : Block) : b.parts ≠ [] := by
  unfold parts
  split
  · simp
  · exact assertionSpans_ne_nil b.code

/-- **A block that is cut** has an outcome for each part, numbered in the last text of its
description: what the part states, or the part itself flagged. -/
theorem outcomes_of_not_isWhole (h : ¬b.IsWhole) (bindings : Bindings) {init : List Text}
    {last : Text} (hd : b.description = init ++ [last]) :
    ∃ parts, splitAssertions? b.code = some parts ∧ parts ≠ [] ∧
      (b.outcomes bindings).length = parts.length ∧
      ∀ k o, (b.outcomes bindings)[k]? = some o →
        o.description = init ++ [last ++ " (".toList ++ ofNat (k + 1) ++ [')']] ∧
        ∃ part, parts[k]? = some part ∧
          (∀ t, o = .test t →
            parseAssertion? bindings part = some (t.request, t.expected)) ∧
          ∀ f, o = .flagged f → parseAssertion? bindings part = none ∧ f.source = trim part := by
  obtain ⟨hr, h2, hs⟩ := refusal?_of_not_isWhole h
  refine ⟨b.parts, hs, parts_ne_nil b, by rw [outcomes_of_accepted hr, List.length_mapIdx], ?_⟩
  intro k o ho
  rw [outcomes_of_accepted hr, List.getElem?_mapIdx, Option.map_eq_some_iff] at ho
  obtain ⟨part, hp, rfl⟩ := ho
  have hat : b.outcomeAt bindings k part =
      b.outcomeOf bindings (numbered b.description (k + 1)) .unreadableSpan part part :=
    if_neg (by omega)
  refine ⟨?_, part, hp, fun t ht => parseAssertion?_of_outcomeAt ht, fun f hf => ?_⟩
  · rw [hat, description_outcomeOf, numbered, hd]
    simp
  · rw [hat, outcomeOf] at hf
    split at hf
    · cases hf
    · rename_i ha
      rw [flag] at hf
      rw [← Outcome.flagged.inj hf]
      exact ⟨ha, rfl⟩

end Block

/-! ## All blocks of a source -/

theorem exists_blockAt?_of_mem {source : Text} {b : Block} {c : Context}
    (h : (b, c) ∈ (segment source).1) :
    ∃ head ∈ Line.all source, active (Line.all source) head = true ∧ head.isTest = true ∧
      blockAt? (Line.all source) head = some b ∧ b.line = head.number := by
  have hb : b ∈ (segment source).1.map Prod.fst := List.mem_map_of_mem h
  rw [map_segment, mem_blocks_iff] at hb
  obtain ⟨head, hm, ha, hb⟩ := hb
  obtain ⟨ht, hl⟩ := isTest_of_blockAt? hb
  exact ⟨head, hm, ha, ht, hb, hl⟩

theorem exists_description_eq {source : Text} {b : Block} {c : Context}
    (h : (b, c) ∈ (segment source).1) : ∃ init last, b.description = init ++ [last] := by
  obtain ⟨l, -, title, body, -, rfl⟩ := mem_segmentLines h
  exact ⟨_, title, rfl⟩

/-- **Every test of a source is accounted for.** What is extracted are the outcomes of its blocks in
their order, told apart. A block that is not cut has one outcome, and that is a flagged test unless
the block is read as a single assertion; a block that is cut has one for each part. A flagged test
has the number of the line that declares its block. -/
theorem merges_accounted (filename source config : Text) :
    Merges (Extraction.ofSource filename source config).tests
      (Extraction.ofSource filename source config).flagged
      ((segment source).1.flatMap fun p => p.1.outcomes p.2.bindings) ∧
    ∀ b c, (b, c) ∈ (segment source).1 →
      (b.IsWhole → ∃ o, b.outcomes c.bindings = [o] ∧ o.description = b.description ∧
        ∀ t, o = .test t → b.IsSingle) ∧
      (¬b.IsWhole → ∃ init last parts, b.description = init ++ [last] ∧
        splitAssertions? b.code = some parts ∧ parts ≠ [] ∧
        (b.outcomes c.bindings).length = parts.length ∧
        ∀ k o, (b.outcomes c.bindings)[k]? = some o →
          o.description = init ++ [last ++ " (".toList ++ ofNat (k + 1) ++ [')']] ∧
          ∃ part, parts[k]? = some part ∧
            (∀ t, o = .test t →
              parseAssertion? c.bindings part = some (t.request, t.expected)) ∧
            ∀ f, o = .flagged f →
              parseAssertion? c.bindings part = none ∧ f.source = trim part) ∧
      ∃ head ∈ Line.all source, active (Line.all source) head = true ∧ head.isTest = true ∧
        blockAt? (Line.all source) head = some b ∧
        ∀ f, .flagged f ∈ b.outcomes c.bindings → f.line = head.number := by
  refine ⟨merges_filterMap _, fun b c hb => ⟨fun hw => ?_, fun hw => ?_, ?_⟩⟩
  · exact Block.outcomes_of_isWhole hw c.bindings
  · obtain ⟨init, last, hd⟩ := exists_description_eq hb
    obtain ⟨parts, h⟩ := Block.outcomes_of_not_isWhole hw c.bindings hd
    exact ⟨init, last, parts, hd, h⟩
  · obtain ⟨head, hm, ha, ht, hbl, hl⟩ := exists_blockAt?_of_mem hb
    refine ⟨head, hm, ha, ht, hbl, fun f hf => ?_⟩
    rw [Block.line_of_flagged hf, hl]

end SpecHarvest
