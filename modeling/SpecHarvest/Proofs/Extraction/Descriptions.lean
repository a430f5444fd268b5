import Mathlib.Data.List.Pairwise
import SpecHarvest.Proofs.Extraction.Account

/-!
# Descriptions of what is extracted

A block that is cut yields several tests, which are told apart by a number at the end of the
description. The number keeps them apart from the tests of other blocks that are cut, but not from a
block that is left whole and has such a description itself.

* `numbered_inj`: a numbered description tells the description and the number.
* `mem_descriptions_iff`: the descriptions of what a block yields, `nodup_descriptions_block`: they
  are distinct.
* `perm_descriptions`: the test cases and the flagged tests of a source have the descriptions of its
  outcomes.
* `nodup_descriptions_iff`: when all of them are distinct.
-/

namespace SpecHarvest

open Text

/-! ## Numbered descriptions -/

theorem ofNat_inj {m n : Nat} (h : ofNat m = ofNat n) : m = n := by
  have hvalue := congrArg (fun ds => Nat.ofDigitChars 10 ds 0) h
  simpa [ofNat, Nat.ofDigitChars_toDigits] using hvalue

theorem paren_not_mem_ofNat (n : Nat) : '(' ∉ ofNat n := by
  intro h
  have hd : '('.isDigit = true := Nat.isDigit_of_mem_toDigits (by decide) (by decide) h
  exact absurd hd (by decide)

theorem numbered_concat (init : List Text) (last : Text) (n : Nat) :
    numbered (init ++ [last]) n = init ++ [last ++ " (".toList ++ ofNat n ++ [')']] := by
  simp [numbered]

/-- **A numbered description tells the description and the number.** -/
theorem numbered_inj {d d' : List Text} {m n : Nat} (hd : d ≠ []) (hd' : d' ≠ [])
    (h : numbered d m = numbered d' n) : d = d' ∧ m = n := by
  obtain ⟨init, last, rfl⟩ := List.eq_nil_or_concat' d |>.resolve_left hd
  obtain ⟨init', last', rfl⟩ := List.eq_nil_or_concat' d' |>.resolve_left hd'
  rw [numbered_concat, numbered_concat] at h
  obtain ⟨rfl, hlast⟩ := List.append_inj' h rfl
  have hcut : ∀ (s : Text) (k : Nat), cutLast? '(' (s ++ " (".toList ++ ofNat k) =
      some (s ++ [' '], ofNat k) := fun s k =>
    cutLast?_eq_some_iff.2 ⟨by simp, paren_not_mem_ofNat k⟩
  have hfront := (List.append_inj' (List.singleton_inj.1 hlast) rfl).1
  have hsome := congrArg (cutLast? '(') hfront
  rw [hcut, hcut] at hsome
  obtain ⟨htext, hnumber⟩ := Prod.mk.inj (Option.some.inj hsome)
  rw [(List.append_inj' htext rfl).1]
  exact ⟨rfl, ofNat_inj hnumber⟩

/-! ## The descriptions of one block -/

namespace Block

variable {b : Block} {bindings : Bindings}

/-- A block that is cut has one description for each part. -/
theorem descriptions_of_not_isWhole (h : ¬b.IsWhole) (bindings : Bindings) :
    (b.outcomes bindings).map Outcome.description =
      (List.range b.parts.length).map fun k => numbered b.description (k + 1) := by
  obtain ⟨hr, h2, -⟩ := refusal?_of_not_isWhole h
  rw [outcomes_of_accepted hr]
  refine List.ext_getElem (by simp) fun k _ _ => ?_
  simp only [List.getElem_map, List.getElem_mapIdx, List.getElem_range]
  rw [outcomeAt, if_neg (by omega), description_outcomeOf]

theorem mem_descriptions_iff {d : List Text} :
    d ∈ (b.outcomes bindings).map Outcome.description ↔ (b.IsWhole ∧ d = b.description) ∨
      (¬b.IsWhole ∧ ∃ k < b.parts.length, d = numbered b.description (k + 1)) := by
  by_cases h : b.IsWhole
  · obtain ⟨o, ho, hd, -⟩ := outcomes_of_isWhole h bindings
    simp [h, ho, hd]
  · rw [descriptions_of_not_isWhole h]
    simp [h, eq_comm]

theorem nodup_descriptions_block (hd : b.description ≠ []) (bindings : Bindings) :
    ((b.outcomes bindings).map Outcome.description).Nodup := by
  by_cases h : b.IsWhole
  · obtain ⟨o, ho, -⟩ := outcomes_of_isWhole h bindings
    rw [ho]
    exact List.nodup_singleton _
  · rw [descriptions_of_not_isWhole h]
    refine List.Nodup.map (fun i j hij => ?_) List.nodup_range
    exact Nat.succ_inj.1 (numbered_inj hd hd hij).2

end Block

/-! ## All descriptions of a source -/

theorem Merges.perm_descriptions {ts : List TestCase} {fs : List FlaggedTest} {os : List Outcome}
    (h : Merges ts fs os) :
    (ts.map (·.description) ++ fs.map (·.description)).Perm (os.map Outcome.description) := by
  induction h with
  | nil => exact .nil
  | test h ih => exact ih.cons _
  | flagged h ih => exact List.perm_middle.trans (ih.cons _)

/-- The descriptions of the test cases and of the flagged tests. -/
def Extraction.descriptions (e : Extraction) : List (List Text) :=
  e.tests.map (·.description) ++ e.flagged.map (·.description)

theorem Extraction.perm_descriptions (filename source config : Text) :
    (ofSource filename source config).descriptions.Perm
      ((segment source).1.flatMap fun p =>
        (p.1.outcomes p.2.bindings).map Outcome.description) := by
  have h := (merges_filterMap (outcomesOf source)).perm_descriptions
  rwa [outcomesOf, List.map_flatMap] at h

theorem description_ne_nil {source : Text} {b : Block} {c : Context}
    (h : (b, c) ∈ (segment source).1) : b.description ≠ [] := by
  obtain ⟨init, last, hd⟩ := exists_description_eq h
  rw [hd]
  exact List.append_ne_nil_of_right_ne_nil init (List.cons_ne_nil last [])

/-- **When the descriptions of what is extracted are distinct**, given that those of the blocks are:
no block that is left whole has a description that a part of a block that is cut gets. -/
theorem nodup_descriptions_iff {source : Text}
    (h : ((segment source).1.map (·.1.description)).Nodup) (filename config : Text) :
    (Extraction.ofSource filename source config).descriptions.Nodup ↔
      ∀ p ∈ (segment source).1, ∀ q ∈ (segment source).1, ¬p.1.IsWhole → q.1.IsWhole →
        ∀ k < p.1.parts.length, q.1.description ≠ numbered p.1.description (k + 1) := by
  rw [(Extraction.perm_descriptions filename source config).nodup_iff, List.nodup_flatMap]
  constructor
  · rintro ⟨-, hdisjoint⟩ p hp q hq hpw hqw k hk he
    have hpq : p ≠ q := fun he => hpw (he ▸ hqw)
    have hsymm : Std.Symm (Function.onFun List.Disjoint fun p : Block × Context =>
        (p.1.outcomes p.2.bindings).map Outcome.description) :=
      ⟨fun _ _ hd _ hl hr => hd hr hl⟩
    exact hdisjoint.forall hp hq hpq (Block.mem_descriptions_iff.2 (.inr ⟨hpw, k, hk, he⟩))
      (Block.mem_descriptions_iff.2 (.inl ⟨hqw, rfl⟩))
  · intro hnone
    refine ⟨fun p hp => Block.nodup_descriptions_block (description_ne_nil hp) _, ?_⟩
    refine (List.pairwise_map.1 h).imp_of_mem fun {p q} hp hq hne d hdp hdq => ?_
    -- two blocks that are cut cannot meet, since a number tells the description before it
    rw [Block.mem_descriptions_iff] at hdp hdq
    rcases hdp with ⟨hpw, rfl⟩ | ⟨hpw, k, hk, rfl⟩
    · rcases hdq with ⟨-, he⟩ | ⟨hqw, k, hk, he⟩
      · exact hne he
      · exact hnone q hq p hp hqw hpw k hk he
    · rcases hdq with ⟨hqw, he⟩ | ⟨-, j, -, he⟩
      · exact hnone p hp q hq hpw hqw k hk he.symm
      · exact hne (numbered_inj (description_ne_nil hp) (description_ne_nil hq) he).1

/-- A test with two assertions, and another one with such a title as it is given. -/
def pairAndTitled (title : Text) : Text :=
  "it \"x\" $ do\n  get \"/a\" `shouldRespondWith` 200\n  get \"/b\" ".toList ++
    "`shouldRespondWith` 200\nit \"".toList ++ title ++
    "\" $ get \"/c\" `shouldRespondWith` 200".toList

theorem nodup_descriptions_otherTitle :
    (Extraction.ofSource "ASpec.hs".toList (pairAndTitled "y".toList)
      "default".toList).descriptions.Nodup := by
  have hblocks : ((segment (pairAndTitled "y".toList)).1.map (·.1.description)).Nodup := by
    decide +kernel
  have hnone : ∀ p ∈ (segment (pairAndTitled "y".toList)).1,
      ∀ q ∈ (segment (pairAndTitled "y".toList)).1, ∀ k < p.1.parts.length,
        q.1.description ≠ numbered p.1.description (k + 1) := by decide +kernel
  exact (nodup_descriptions_iff hblocks _ _).2 fun p hp q hq _ _ => hnone p hp q hq

/-- **A number does not always keep descriptions apart.** -/
theorem not_nodup_descriptions : ¬∀ filename source config : Text,
    ((segment source).1.map (·.1.description)).Nodup →
      (Extraction.ofSource filename source config).descriptions.Nodup := by
  intro h
  have hblocks : ((segment (pairAndTitled "x (1)".toList)).1.map (·.1.description)).Nodup := by
    decide +kernel
  have hdescriptions := h "ASpec.hs".toList _ "default".toList hblocks
  exact absurd hdescriptions (by decide +kernel)

end SpecHarvest
