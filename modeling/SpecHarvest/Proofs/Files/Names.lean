import SpecHarvest.Files.Harvest
import SpecHarvest.Files.Replay
import SpecHarvest.Proofs.Files.Tree
import SpecHarvest.Proofs.Text.WordStart

/-!
# The names of spec files and documents

* `sortNames_of_pairwise`, `pairwise_sortNames`: names are sorted by a total order (`notAfter`).
* `outputName_of_source`: a spec file is some name before `sourceEnd`, and its document is that name
  in lower case with hyphens, before `.json`. `isEntryName_outputName`: it is the name of an entry.
* `isSpecName_outputName`: the documents that are found again are those of the spec files that do
  not start with an underscore and have a name before `sourceEnd`.
-/

namespace SpecHarvest

open Text

/-! ## The order of names -/

section

variable {s t u : Text}

theorem notAfter_cons {c d : Char} : notAfter (c :: s) (d :: t) = true ↔
    c.toNat < d.toNat ∨ c = d ∧ notAfter s t = true := by
  simp [notAfter]

theorem notAfter_total (s t : Text) : (notAfter s t || notAfter t s) = true := by
  induction s generalizing t with
  | nil => rfl
  | cons c s ih =>
    cases t with
    | nil => rfl
    | cons d t =>
      rw [Bool.or_eq_true, notAfter_cons, notAfter_cons]
      rcases Nat.lt_trichotomy c.toNat d.toNat with h | h | h
      · exact .inl (.inl h)
      · obtain rfl := Char.toNat_inj.1 h
        rcases Bool.or_eq_true_iff.1 (ih t) with h | h
        · exact .inl (.inr ⟨rfl, h⟩)
        · exact .inr (.inr ⟨rfl, h⟩)
      · exact .inr (.inl h)

theorem notAfter_self (s : Text) : notAfter s s = true := by
  simpa using notAfter_total s s

theorem notAfter_trans (h : notAfter s t = true) (h' : notAfter t u = true) :
    notAfter s u = true := by
  induction s generalizing t u with
  | nil => rfl
  | cons c s ih =>
    cases t with
    | nil => cases h
    | cons d t =>
      cases u with
      | nil => cases h'
      | cons e u =>
        rw [notAfter_cons] at h h' ⊢
        rcases h with h | ⟨rfl, h⟩
        · rcases h' with h' | ⟨rfl, -⟩
          · exact .inl (h.trans h')
          · exact .inl h
        · exact h'.imp_right fun h' => ⟨h'.1, ih h h'.2⟩

theorem notAfter_antisymm (h : notAfter s t = true) (h' : notAfter t s = true) : s = t := by
  induction s generalizing t with
  | nil =>
    cases t with
    | nil => rfl
    | cons d t => cases h'
  | cons c s ih =>
    cases t with
    | nil => cases h
    | cons d t =>
      rw [notAfter_cons] at h h'
      rcases h with h | ⟨rfl, h⟩
      · rcases h' with h' | ⟨rfl, -⟩ <;> omega
      · rcases h' with h' | ⟨-, h'⟩
        · omega
        · rw [ih h h']

end

theorem pairwise_sortNames (names : List Text) :
    (sortNames names).Pairwise (notAfter · · = true) :=
  @List.pairwise_mergeSort _ notAfter (fun _ _ _ => notAfter_trans) notAfter_total names

theorem sortNames_of_pairwise {names : List Text} (h : names.Pairwise (notAfter · · = true)) :
    sortNames names = names :=
  List.mergeSort_of_pairwise h

theorem nodup_sortNames {names : List Text} (h : names.Nodup) : (sortNames names).Nodup :=
  (List.mergeSort_perm names notAfter).nodup_iff.2 h

/-- Distinct names are sorted strictly. -/
theorem pairwise_sortNames_of_nodup {names : List Text} (h : names.Nodup) :
    (sortNames names).Pairwise fun a b => notAfter a b = true ∧ a ≠ b :=
  (pairwise_sortNames names).and (nodup_sortNames h)

theorem mem_sourceNames_iff {name : Text} {names : List Text} :
    name ∈ sourceNames names ↔ name ∈ names ∧ endsWith sourceEnd name = true := by
  rw [sourceNames, sortNames, List.mem_mergeSort, List.mem_filter]

/-! ## The names of documents -/

/-- A character that is no letter is the lower case of itself and of no other character. -/
theorem toLower_eq_iff {c d : Char} (hd : d.isAlpha = false) : c.toLower = d ↔ c = d := by
  rw [Bool.eq_false_iff, Ne, isAlpha_iff] at hd
  unfold Char.toLower
  split
  · next hc =>
    have hupper : 65 ≤ c.toNat ∧ c.toNat ≤ 90 := hc
    have hlower : (c.val + ('a'.val - 'A'.val)).toNat = c.toNat + 32 := by
      rw [UInt32.toNat_add]
      refine Nat.mod_eq_of_lt ?_
      change c.toNat + 32 < 2 ^ 32
      omega
    -- both the letter and its lower case are letters
    refine iff_of_false ?_ ?_
    · rintro rfl
      refine hd (.inr ?_)
      change 97 ≤ (c.val + ('a'.val - 'A'.val)).toNat ∧ (c.val + ('a'.val - 'A'.val)).toNat ≤ 122
      omega
    · rintro rfl
      exact hd (.inl hupper)
  · rfl

theorem mem_of_mem_hyphenate {d : Char} (hd : d.isAlpha = false) (hne : d ≠ '-') {b : Bool}
    {s : Text} (h : d ∈ hyphenate b s) : d ∈ s := by
  induction s generalizing b with
  | nil => cases h
  | cons c s ih =>
    rw [hyphenate, List.mem_append] at h
    rcases h with h | h
    · have hc : d = c.toLower := by
        split at h <;> simp_all
      exact List.mem_cons.2 (.inl ((toLower_eq_iff hd).1 hc.symm).symm)
    · exact List.mem_cons_of_mem _ (ih h)

/-- The name of the document of a spec file. -/
def outputName (name : Text) : Text := documentName (stemOf name)

variable {name base : Text}

theorem endsWith_sourceEnd_iff :
    endsWith sourceEnd name = true ↔ ∃ base, name = base ++ sourceEnd := by
  simp [endsWith, Option.isSome_iff_exists, before?_eq_some_iff]

theorem sourceEnd_eq_append : sourceEnd = "Spec".toList ++ ".hs".toList := by decide

theorem stemOf_of_source (base : Text) : stemOf (base ++ sourceEnd) = base ++ "Spec".toList := by
  have h : before? ".hs".toList (base ++ sourceEnd) = some (base ++ "Spec".toList) :=
    before?_eq_some_iff.2 (by rw [sourceEnd_eq_append, List.append_assoc])
  rw [stemOf, h, Option.getD_some]

theorem outputName_of_source (base : Text) :
    outputName (base ++ sourceEnd) = hyphenate false base ++ ".json".toList := by
  have h : before? "Spec".toList (base ++ "Spec".toList) = some base :=
    before?_eq_some_iff.2 rfl
  rw [outputName, stemOf_of_source, documentName, kebabName, h, Option.getD_some]

theorem specName_of_source (base : Text) : specName (base ++ sourceEnd) = base := by
  have h : before? "Spec.hs".toList (base ++ sourceEnd) = some base :=
    before?_eq_some_iff.2 rfl
  rw [specName, h, Option.some_or, Option.getD_some]

theorem isEntryName_append_json (h : '/' ∉ base) : IsEntryName (base ++ ".json".toList) where
  ne_nil := by simp
  not_mem := by
    rw [List.mem_append, not_or]
    exact ⟨h, by decide⟩
  ne_here he := by simpa [Path.here] using congrArg List.length he
  ne_up he := by simpa [Path.up] using congrArg List.length he

theorem isEntryName_outputName (hs : endsWith sourceEnd name = true) (hn : IsEntryName name) :
    IsEntryName (outputName name) := by
  obtain ⟨base, rfl⟩ := endsWith_sourceEnd_iff.1 hs
  rw [outputName_of_source]
  refine isEntryName_append_json fun h => hn.not_mem (List.mem_append_left _ ?_)
  exact mem_of_mem_hyphenate (by decide) (by decide) h

/-- **Which documents are found again.** -/
theorem isSpecName_outputName (hs : endsWith sourceEnd name = true) :
    isSpecName (outputName name) = true ↔ startsWith ['_'] name = false ∧ name ≠ sourceEnd := by
  obtain ⟨base, rfl⟩ := endsWith_sourceEnd_iff.1 hs
  have h : before? ".json".toList (hyphenate false base ++ ".json".toList) =
      some (hyphenate false base) := before?_eq_some_iff.2 rfl
  rw [outputName_of_source, isSpecName, h]
  cases base with
  | nil => simp [hyphenate]
  | cons c base =>
    have hhead : ('_' == c.toLower) = ('_' == c) := by
      rw [Bool.eq_iff_iff, beq_iff_eq, beq_iff_eq, eq_comm, toLower_eq_iff (by decide), eq_comm]
    have hhyphenate : hyphenate false (c :: base) = c.toLower :: hyphenate c.isLower base := rfl
    rw [hhyphenate, List.cons_append, List.cons_append, startsWith_singleton_cons,
      startsWith_singleton_cons, hhead]
    have hne : c :: (base ++ sourceEnd) ≠ sourceEnd := by
      intro he
      have hlength := congrArg List.length he
      rw [List.length_cons, List.length_append] at hlength
      omega
    simp [hne]

end SpecHarvest
