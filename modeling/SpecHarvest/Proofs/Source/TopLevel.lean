import SpecHarvest.Proofs.Source.Nested

/-!
# Parts that are joined again

A text is cut at the commas outside brackets and literals, and joined with commas again.

* `intercalate_topLevelParts`: no character is lost, whatever brackets and literals are open.
* `topLevel_joins`: joining the parts gives the text back, up to a blank last part, and balanced
  texts that are joined are the parts.
-/

namespace SpecHarvest.Source

open Text

theorem intercalate_modifyHead (sep x : Text) {ps : List Text} (h : ps ≠ []) :
    sep.intercalate (ps.modifyHead (x ++ ·)) = x ++ sep.intercalate ps := by
  obtain ⟨p, ps, rfl⟩ := List.exists_cons_of_ne_nil h
  rw [List.modifyHead_cons]
  cases ps with
  | nil => rw [List.intercalate_singleton, List.intercalate_singleton]
  | cons q ps => simp only [List.intercalate_cons_cons, List.append_assoc]

/-- **No character is lost.** -/
theorem intercalate_topLevelParts (delim : Char) (n : Int) (q : Bool) (s : Text) :
    [delim].intercalate (topLevelParts delim n q s) = s := by
  have step {x t : Text} {n : Int} {q : Bool}
      (ih : [delim].intercalate (topLevelParts delim n q t) = t) :
      [delim].intercalate ((topLevelParts delim n q t).modifyHead (x ++ ·)) = x ++ t := by
    rw [intercalate_modifyHead _ _ (topLevelParts_ne_nil delim n q t), ih]
  fun_induction topLevelParts delim n q s with
  | case1 => exact List.intercalate_singleton
  | case2 n c s ih => exact step (x := ['\\', c]) ih
  | case3 n c s _ ih => exact step (x := [c]) ih
  | case4 n s ih => exact step (x := ['"']) ih
  | case5 n c s _ _ ih => exact step (x := [c]) ih
  | case6 n c s _ _ hcut ih =>
    have hc : c = delim := by simp_all
    rw [List.intercalate_cons_of_ne_nil (topLevelParts_ne_nil delim n false s), ih, hc]
    rfl
  | case7 n c s _ _ _ ih => exact step (x := [c]) ih

/-- The parts of a text, and a blank last one if there is one, are joined to the text. -/
theorem topLevel_or_blank (delim : Char) (s : Text) : [delim].intercalate (topLevel delim s) = s ∨
    ∃ w, allBlank w = true ∧ [delim].intercalate (topLevel delim s ++ [w]) = s := by
  have hjoin := intercalate_topLevelParts delim 0 false s
  obtain ⟨front, last, hparts⟩ : ∃ front last, topLevelParts delim 0 false s = front ++ [last] :=
    ⟨_, _, (List.dropLast_append_getLast (topLevelParts_ne_nil delim 0 false s)).symm⟩
  unfold topLevel
  rw [hparts] at hjoin ⊢
  simp only [List.getLast?_concat, Option.getD_some, List.dropLast_concat]
  split
  · next hblank => exact .inr ⟨last, hblank, hjoin⟩
  · exact .inl hjoin

/-- **Cutting and joining.** Joined with commas, the parts of a text are the text, or they are with a
blank part after them; and balanced texts that are joined with commas are the parts of what they are
joined to, if the last of them is not blank. -/
theorem topLevel_joins :
    (∀ s, [','].intercalate (topLevel ',' s) = s ∨
      ∃ w, allBlank w = true ∧ [','].intercalate (topLevel ',' s ++ [w]) = s) ∧
    ∀ parts, (∀ p ∈ parts, Balanced ',' p) → (∀ p ∈ parts.getLast?, allBlank p = false) →
      topLevel ',' ([','].intercalate parts) = parts :=
  ⟨topLevel_or_blank ',', fun _ hparts hlast =>
    topLevel_intercalate (by decide) (by decide) (fun p hp => (hparts p hp).isPart) hlast⟩

/-- Three texts with brackets of all kinds, a literal and an empty text among them. -/
def bracketedParts : List Text := ["(a, [b, \x7b\x7d])".toList, [], " \x7b\"x,]\\\"é\"\x7d ".toList]

theorem topLevel_joins_brackets :
    ((∀ p ∈ bracketedParts, Balanced ',' p) ∧ ∀ p ∈ bracketedParts.getLast?, allBlank p = false) ∧
      topLevel ',' "(a, [b, \x7b\x7d]),, \x7b\"x,]\\\"é\"\x7d ".toList = bracketedParts :=
  have hparts : ∀ p ∈ bracketedParts, Balanced ',' p := by decide
  have hlast : ∀ p ∈ bracketedParts.getLast?, allBlank p = false := by decide
  ⟨⟨hparts, hlast⟩, topLevel_joins.2 bracketedParts hparts hlast⟩

example : topLevel ',' "a, )b,(\"c, ".toList = ["a".toList, " )b,(\"c, ".toList] := by decide

end SpecHarvest.Source
