import SpecHarvest.Proofs.Files.Harvest

/-!
# Disks stay well formed

The entries of every directory keep distinct names that lead to them, whatever is done to a disk.

* `FileTree.WellFormed.put`: also where something is put at a place; paths lead to places
  (`isPlace_of_follow`).
* `Disk.wellFormed_of_write`, `Disk.wellFormed_makeDirectories`: one operation.
* `Disk.wellFormed_harvest`: a whole extraction.
-/

namespace SpecHarvest

open Text

/-! ## Places -/

namespace Path

theorem of_mem_parts {p : Path} {part : Text} (h : part ∈ p.parts) : part ≠ [] ∧ '/' ∉ part := by
  rw [parts, List.mem_filter] at h
  refine ⟨by simpa using h.2, fun hs => ?_⟩
  simpa using eq_false_of_mem_pieces h.1 _ hs

end Path

/-- Whether names lead to a place. -/
def IsPlace (place : List Text) : Prop := ∀ name ∈ place, IsEntryName name

namespace FileTree

variable {t t' : FileTree} {start place parts : List Text}

theorem isPlace_enter {part : Text} (hs : IsPlace place) (hp : part ≠ [] ∧ '/' ∉ part) :
    IsPlace (enter place part) := by
  unfold enter
  split
  · exact hs
  split
  · exact fun name hn => hs name (List.dropLast_subset _ hn)
  · next hhere hup =>
    exact List.forall_mem_append.2
      ⟨hs, List.forall_mem_singleton.2 ⟨hp.1, hp.2, hhere, hup⟩⟩

theorem isPlace_of_follow {q : List Text} (hs : IsPlace place)
    (hp : ∀ part ∈ parts, part ≠ [] ∧ '/' ∉ part) (h : t.follow place parts = .ok q) :
    IsPlace q := by
  induction parts generalizing place with
  | nil =>
    obtain rfl := Except.ok.inj h
    exact hs
  | cons part parts ih =>
    rw [List.forall_mem_cons] at hp
    exact ih (isPlace_enter hs hp.1) hp.2 (follow_cons_eq_ok_iff.1 h).2.2

/-! ## Trees -/

/-- **What is put at a place keeps a tree well formed.** -/
theorem WellFormed.put {new : FileTree} (ht : t.WellFormed) (hnew : new.WellFormed)
    (hp : IsPlace place) : (t.put place new).WellFormed := by
  induction place generalizing t with
  | nil => exact hnew
  | cons n ns ih =>
    obtain ⟨hn, hns⟩ := List.forall_mem_cons.1 hp
    cases ht with
    | file c => exact .file c
    | @directory es distinct names below =>
      have hsub : ((Assoc.get? n es).getD empty).WellFormed := by
        cases hg : Assoc.get? n es with
        | none => exact wellFormed_empty
        | some u => exact below _ (Assoc.mem_of_get? hg)
      rw [FileTree.put]
      refine .directory (Assoc.nodup_set distinct _) (fun e he => ?_) (fun e he => ?_)
      · rcases Assoc.mem_of_mem_set he with rfl | he
        · exact hn
        · exact names e he
      · rcases Assoc.mem_of_mem_set he with rfl | he
        · exact ih hsub hns
        · exact below e he

theorem wellFormed_of_makeDirectory (ht : t.WellFormed) (hs : IsPlace start)
    (hp : ∀ part ∈ parts, part ≠ [] ∧ '/' ∉ part) (h : t.makeDirectory start parts = .ok t') :
    t'.WellFormed := by
  unfold makeDirectory at h
  cases hf : t.follow start parts with
  | error e =>
    rw [hf] at h
    cases h
  | ok place =>
    simp only [hf, bind, Except.bind] at h
    split at h
    · cases h
    · obtain rfl := Except.ok.inj h
      exact ht.put wellFormed_empty (isPlace_of_follow hs hp hf)

theorem wellFormed_settle (ht : t.WellFormed) (hs : IsPlace start)
    (hp : ∀ part ∈ parts, part ≠ [] ∧ '/' ∉ part) : (settle start parts t).2.WellFormed := by
  unfold settle
  cases hm : t.makeDirectory start parts with
  | ok t' => exact wellFormed_of_makeDirectory ht hs hp hm
  | error e =>
    dsimp only
    split <;> exact ht

theorem wellFormed_makeChain {chain : List (List Text)} (ht : t.WellFormed) (hs : IsPlace start)
    (hp : ∀ parts ∈ chain, ∀ part ∈ parts, part ≠ [] ∧ '/' ∉ part) :
    (makeChain start chain t).2.WellFormed := by
  induction chain generalizing t with
  | nil => exact ht
  | cons parts outer ih =>
    obtain ⟨hparts, houter⟩ := List.forall_mem_cons.1 hp
    have hfirst := wellFormed_settle ht hs hparts
    unfold makeChain
    split
    · next t₁ h₁ =>
      rw [h₁] at hfirst
      have hrest := ih hfirst houter
      split
      · next t₂ h₂ =>
        rw [h₂] at hrest
        exact wellFormed_settle hrest hs hparts
      · exact hrest
    · exact hfirst

end FileTree

/-! ## Disks -/

namespace Disk

/-- Whether the tree of a disk is well formed and paths start from a place in it. -/
structure WellFormed (d : Disk) : Prop where
  root : d.root.WellFormed
  home : IsPlace d.home

variable {d d' : Disk} {p : Path}

theorem WellFormed.isPlace_start (h : d.WellFormed) (p : Path) : IsPlace (d.start p) := by
  unfold start
  split
  · exact fun _ hn => absurd hn List.not_mem_nil
  · exact h.home

/-- **Writing a file** keeps a disk well formed. -/
theorem wellFormed_of_write {c : Content} (hd : d.WellFormed) (h : write c d p = .ok d') :
    d'.WellFormed := by
  obtain ⟨place, hp, -, -, rfl⟩ := write_eq_ok_iff.1 h
  have hplace := FileTree.isPlace_of_follow (hd.isPlace_start p) (fun _ => Path.of_mem_parts)
    (place_eq_ok_iff.1 hp).2
  exact ⟨hd.root.put (.file c) hplace, hd.home⟩

theorem mem_of_mem_above {ps : List Text} {outer : List Text} (h : outer ∈ Path.above ps) :
    ∀ part ∈ outer, part ∈ ps := by
  intro part hpart
  unfold Path.above at h
  obtain ⟨n, -, rfl⟩ := List.mem_map.1 h
  rcases List.mem_append.1 (List.mem_of_mem_take hpart) with hm | hm
  · exact List.mem_of_mem_take hm
  · exact List.mem_of_mem_drop (List.mem_of_mem_filter hm)

/-- **A new directory** keeps a disk well formed. -/
theorem wellFormed_makeDirectories (hd : d.WellFormed) (p : Path) :
    (d.makeDirectories p).2.WellFormed := by
  unfold makeDirectories
  split
  · exact hd
  · refine ⟨FileTree.wellFormed_makeChain hd.root (hd.isPlace_start p) ?_, hd.home⟩
    refine List.forall_mem_cons.2 ⟨fun _ => Path.of_mem_parts, fun outer ho part hpart => ?_⟩
    exact Path.of_mem_parts (mem_of_mem_above ho part hpart)

/-- A disk with nothing on it is well formed. -/
theorem wellFormed_empty {home : List Text} (hh : IsPlace home) : (empty home).WellFormed :=
  ⟨FileTree.wellFormed_empty.put FileTree.wellFormed_empty hh, hh⟩

theorem wellFormed_writeArtifacts {as : List Artifact} (hd : d.WellFormed) (dir : Path) :
    (writeArtifacts system dir as d).2.WellFormed := by
  induction as generalizing d with
  | nil => exact hd
  | cons a as ih =>
    rw [writeArtifacts, bind_apply, system_write]
    cases hw : write (.text a.content.pretty) d (dir.join a.name) with
    | error cause => exact hd
    | ok d₁ => exact ih (wellFormed_of_write hd hw)

/-- **An extraction** keeps a disk well formed, whether it succeeds or not. -/
theorem wellFormed_harvest (hd : d.WellFormed) (dir output : Path) :
    (harvest system dir output d).2.WellFormed := by
  rw [harvest, bind_apply]
  rcases readConfigs_system d dir with hc | ⟨e, hc⟩
  · rw [hc]
    dsimp only
    rw [bind_apply, system_names]
    cases d.names dir with
    | error cause => exact hd
    | ok names =>
      dsimp only
      rw [bind_apply, system_makeDirectories]
      have hmade := wellFormed_makeDirectories hd output
      generalize d.makeDirectories output = made at hmade ⊢
      obtain ⟨result, d₁⟩ := made
      cases result with
      | error cause => exact hmade
      | ok _ =>
        dsimp only
        rw [bind_apply, readSources_system]
        exact wellFormed_writeArtifacts hmade output
  · rw [hc]
    exact hd

end Disk

end SpecHarvest
