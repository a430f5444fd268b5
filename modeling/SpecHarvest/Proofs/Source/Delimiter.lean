import SpecHarvest.Proofs.Source.Literal
import SpecHarvest.Source.Delimiter

/-!
# Literals among delimiters

The searches for delimiters pass over string literals character by character. That is to say: a
literal is passed over as a whole.

* `matching?_literal`: a search inside a literal goes on after the quote that closes it.
* `eq_of_matching?`: a search divides its text at a closing bracket.
* `topLevelParts_literal`: a cut inside a literal goes on after it; a literal that is not closed is
  the end of the last part.
* `sublist_of_mem_topLevel`: a part of a text has no other characters than the text.
-/

namespace SpecHarvest.Source

/-- Outside literals a bracket is looked at whatever the depth is. -/
theorem matching?_cons (opened closed : Char) (n : Nat) (c : Char) (s : Text) :
    matching? opened closed n false (c :: s) =
      if c = '"' then (matching? opened closed n true s).map fun p => (c :: p.1, p.2)
      else if c = opened then
        (matching? opened closed (n + 1) false s).map fun p => (c :: p.1, p.2)
      else if c = closed then
        match n with
        | 0 => none
        | 1 => some ([], s)
        | n + 1 => (matching? opened closed n false s).map fun p => (c :: p.1, p.2)
      else (matching? opened closed n false s).map fun p => (c :: p.1, p.2) := by
  match n with
  | 0 => rw [matching?]
  | 1 =>
    rw [matching?]
    rfl
  | n + 2 =>
    rw [matching?]
    · rfl
    · exact Nat.succ_ne_zero n

theorem matching?_literal (opened closed : Char) (n : Nat) (s : Text) :
    matching? opened closed n true s = (closeQuote? s).bind fun p =>
      (matching? opened closed n false p.2).map fun q => (p.1 ++ '"' :: q.1, q.2) := by
  fun_induction closeQuote? s with
  | case1 => rfl
  | case2 c s ih =>
    rw [matching?, ih]
    cases closeQuote? s with
    | none => rfl
    | some p => simp [Function.comp_def]
  | case3 s hb =>
    rw [matching? ]
    · rfl
    · exact hb
  | case4 c s hb hc ih =>
    have hne : (c != '"') = true := by simpa using hc
    rw [matching?, hne, ih]
    · cases closeQuote? s with
      | none => rfl
      | some p => simp [Function.comp_def]
    · exact hb

theorem eq_of_matching? {opened closed : Char} {n : Nat} {q : Bool} {s inner rest : Text}
    (h : matching? opened closed n q s = some (inner, rest)) : s = inner ++ closed :: rest := by
  have step {o : Option (Text × Text)} {x t inner : Text}
      (ih : ∀ i, o = some (i, rest) → t = i ++ closed :: rest)
      (h : (o.map fun p => (x ++ p.1, p.2)) = some (inner, rest)) :
      x ++ t = inner ++ closed :: rest := by
    obtain ⟨⟨i, r⟩, ho, he⟩ := Option.map_eq_some_iff.1 h
    obtain ⟨rfl, rfl⟩ := Prod.mk.inj he
    rw [ih i ho, List.append_assoc]
  fun_induction matching? opened closed n q s generalizing inner with
  | case1 => cases h
  | case2 n c s ih => exact step (x := ['\\', c]) (fun i => ih) h
  | case3 n c s _ ih => exact step (x := [c]) (fun i => ih) h
  | case4 n s ih => exact step (x := ['"']) (fun i => ih) h
  | case5 n s _ ih => exact step (x := [opened]) (fun i => ih) h
  | case6 => cases h
  | case7 => cases h; rfl
  | case8 n s _ _ _ ih => exact step (x := [closed]) (fun i => ih) h
  | case9 n c s _ _ _ ih => exact step (x := [c]) (fun i => ih) h

theorem topLevelParts_literal (delim : Char) (n : Int) (s : Text) :
    topLevelParts delim n true s = match closeQuote? s with
      | some (raw, rest) =>
        (topLevelParts delim n false rest).modifyHead fun part => raw ++ '"' :: part
      | none => [s] := by
  fun_induction closeQuote? s with
  | case1 => rfl
  | case2 c s ih =>
    rw [topLevelParts, ih]
    cases closeQuote? s with
    | none => rfl
    | some p => simp [Function.comp_def]
  | case3 s hb =>
    rw [topLevelParts]
    · rfl
    · exact hb
  | case4 c s hb hc ih =>
    have hne : (c != '"') = true := by simpa using hc
    rw [topLevelParts, hne, ih]
    · cases closeQuote? s with
      | none => rfl
      | some p => simp [Function.comp_def]
    · exact hb

/-! ## Parts of a text -/

theorem topLevelParts_ne_nil (delim : Char) (n : Int) (q : Bool) (s : Text) :
    topLevelParts delim n q s ≠ [] := by
  fun_induction topLevelParts delim n q s <;> simp_all

theorem sublist_of_mem_modifyHead {ps : List Text} {a t p : Text} (h : ∀ p ∈ ps, p.Sublist t)
    (hp : p ∈ ps.modifyHead (a ++ ·)) : p.Sublist (a ++ t) := by
  cases ps with
  | nil => simp at hp
  | cons r ps =>
    rcases List.mem_cons.1 hp with rfl | hp
    · exact (List.Sublist.refl a).append (h r (by simp))
    · exact (h p (by simp [hp])).trans (List.sublist_append_right a t)

theorem sublist_of_mem_topLevelParts {delim : Char} {n : Int} {q : Bool} {s p : Text}
    (h : p ∈ topLevelParts delim n q s) : p.Sublist s := by
  fun_induction topLevelParts delim n q s generalizing p with
  | case1 => exact List.mem_singleton.1 h ▸ List.Sublist.refl _
  | case2 n c t ih => exact sublist_of_mem_modifyHead (a := ['\\', c]) (fun p hp => ih hp) h
  | case3 n c t hb ih => exact sublist_of_mem_modifyHead (a := [c]) (fun p hp => ih hp) h
  | case4 n t ih => exact sublist_of_mem_modifyHead (a := ['"']) (fun p hp => ih hp) h
  | case5 n c t hq hc ih => exact sublist_of_mem_modifyHead (a := [c]) (fun p hp => ih hp) h
  | case6 n c t hq hc hcut ih =>
    rcases List.mem_cons.1 h with rfl | h
    · exact List.nil_sublist _
    · exact (ih h).cons c
  | case7 n c t hq hc hcut ih => exact sublist_of_mem_modifyHead (a := [c]) (fun p hp => ih hp) h

theorem sublist_of_mem_topLevel {delim : Char} {s p : Text} (h : p ∈ topLevel delim s) :
    p.Sublist s := by
  have hp : p ∈ topLevelParts delim 0 false s := by
    unfold topLevel at h
    dsimp only at h
    split at h
    · exact (List.dropLast_sublist _).subset h
    · exact h
  exact sublist_of_mem_topLevelParts hp

end SpecHarvest.Source
