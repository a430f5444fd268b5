import SpecHarvest.Files.Tree
import SpecHarvest.Proofs.Assoc
import SpecHarvest.Proofs.Text.Collapse
import SpecHarvest.Proofs.Text.Occurrence

/-!
# The files of a directory

* `IsEntryName`: a name that leads from a directory to one of its entries. `parts_join`: a path that
  is joined with such a name has it as its last part.
* `follow_cons_eq_ok_iff`: what one part of a path does, for all that is said about paths.
* `KeepsDirectories`: a tree in which every directory of another is still there. Paths lead to the
  same places in it (`follow_of_keeps`), and putting something where no directory is gives such a
  tree (`keepsDirectories_put`).
* `FileTree.WellFormed`: the entries of every directory have distinct names that lead to them.
* `Disk.write_eq_ok_iff`: when a file is written, and what is changed then.
* `Disk.read_join_iff`, `Disk.at?_of_write`: what an entry of a directory holds, and the entries
  that the directory has after one of them is written.
* `Disk.write_join_eq_error_iff`: why an entry of a directory is not written.
* `Disk.makeDirectories_of_directory`: a directory that is there is not made again.
-/

namespace SpecHarvest

open Text

/-! ## The paths of entries -/

/-- Whether a name can be that of an entry of a directory. -/
structure IsEntryName (name : Text) : Prop where
  ne_nil : name ≠ []
  not_mem : '/' ∉ name
  ne_here : name ≠ Path.here
  ne_up : name ≠ Path.up

instance (name : Text) : Decidable (IsEntryName name) :=
  decidable_of_iff (name ≠ [] ∧ '/' ∉ name ∧ name ≠ Path.here ∧ name ≠ Path.up)
    ⟨fun h => ⟨h.1, h.2.1, h.2.2.1, h.2.2.2⟩,
      fun h => ⟨h.ne_nil, h.not_mem, h.ne_here, h.ne_up⟩⟩

namespace Path

variable {dir : Path} {name : Text}

/-- How many bytes the path of an entry, and its name, may have. -/
def Fits (dir : Path) (name : Text) : Prop :=
  width (dir.join name) ≤ maxWidth ∧ width name ≤ maxPartWidth

instance (dir : Path) (name : Text) : Decidable (dir.Fits name) :=
  inferInstanceAs (Decidable (_ ∧ _))

theorem parts_append_slash (p q : Path) : parts (p ++ '/' :: q) = parts p ++ parts q := by
  rw [parts, pieces_append_cons rfl, List.filter_append]
  rfl

theorem parts_of_not_mem (hn : name ≠ []) (hs : '/' ∉ name) : parts name = [name] := by
  have hpieces : pieces (· == '/') name = [name] :=
    pieces_of_forall fun c hc => beq_eq_false_iff_ne.2 fun he => hs (he ▸ hc)
  simp [parts, hpieces, hn]

/-- A name is joined with a slash, unless there is nothing to join it with. -/
theorem join_cases (dir : Path) (name : Text) : (dir = [] ∧ dir.join name = name) ∨
    ∃ p, (dir = p ++ ['/'] ∨ dir = p ∧ p ≠ []) ∧ dir.join name = p ++ '/' :: name := by
  unfold join
  split
  · next h =>
    rw [Bool.or_eq_true, List.isEmpty_iff] at h
    rcases h with rfl | h
    · exact .inl ⟨rfl, rfl⟩
    · obtain ⟨p, hp⟩ := Option.isSome_iff_exists.1 h
      have hdir := before?_eq_some_iff.1 hp
      exact .inr ⟨p, .inl hdir, by simp [hdir]⟩
  · next h =>
    rw [Bool.or_eq_true, List.isEmpty_iff, not_or] at h
    exact .inr ⟨dir, .inr ⟨rfl, h.1⟩, rfl⟩

/-- **An entry is the last part of its path.** -/
theorem parts_join (dir : Path) (h : IsEntryName name) :
    (dir.join name).parts = dir.parts ++ [name] := by
  have hname := parts_of_not_mem h.ne_nil h.not_mem
  rcases join_cases dir name with ⟨rfl, hj⟩ | ⟨p, rfl | ⟨rfl, -⟩, hj⟩
  · rw [hj, hname]
    rfl
  · have hdir : parts (p ++ ['/']) = parts p := by
      rw [parts_append_slash]
      exact List.append_nil _
    rw [hj, hdir, parts_append_slash, hname]
  · rw [hj, parts_append_slash, hname]

theorem isAbsolute_cons (c : Char) (p : Path) : isAbsolute (c :: p) = ('/' == c) :=
  startsWith_singleton_cons '/' c p

theorem isAbsolute_join (dir : Path) (h : IsEntryName name) :
    (dir.join name).isAbsolute = dir.isAbsolute := by
  rcases join_cases dir name with ⟨rfl, hj⟩ | ⟨p, rfl | ⟨rfl, hp⟩, hj⟩
  · cases name with
    | nil => exact absurd rfl h.ne_nil
    | cons c s =>
      rw [hj, isAbsolute_cons]
      exact beq_eq_false_iff_ne.2 fun he => h.not_mem (he ▸ List.mem_cons_self)
  · rw [hj]
    cases p <;> simp [isAbsolute_cons]
  · rw [hj]
    cases dir with
    | nil => exact absurd rfl hp
    | cons c p => simp [isAbsolute_cons]

theorem endsInSlash_join (dir : Path) (h : IsEntryName name) :
    (dir.join name).endsInSlash = false := by
  have hlast : ∀ p : Path, (p ++ name).endsInSlash = false := by
    intro p
    rw [Bool.eq_false_iff]
    intro he
    obtain ⟨r, hr⟩ := Option.isSome_iff_exists.1 he
    have hslash := before?_eq_some_iff.1 hr
    obtain ⟨s, c, hs⟩ := List.eq_nil_or_concat name |>.resolve_left h.ne_nil
    rw [hs, List.concat_eq_append, ← List.append_assoc] at hslash
    obtain ⟨-, hc⟩ := List.append_inj' hslash rfl
    refine h.not_mem ?_
    rw [hs, List.concat_eq_append, hc]
    simp
  rcases join_cases dir name with ⟨rfl, hj⟩ | ⟨p, -, hj⟩
  · rw [hj]
    exact hlast []
  · rw [hj, ← List.singleton_append, ← List.append_assoc]
    exact hlast _

end Path

/-! ## Trees -/

/-- Whether the entries of all directories have distinct names that lead to them. -/
inductive FileTree.WellFormed : FileTree → Prop
  | file (c : Content) : WellFormed (.file c)
  | directory {es : List (Text × FileTree)} (distinct : (es.map (·.1)).Nodup)
      (names : ∀ e ∈ es, IsEntryName e.1) (below : ∀ e ∈ es, WellFormed e.2) :
      WellFormed (.directory es)

namespace FileTree

variable {t t' : FileTree} {es : List (Text × FileTree)}

theorem get_append (t : FileTree) (p q : List Text) :
    t.get (p ++ q) = (t.get p).bind fun u => u.get q := by
  induction p generalizing t with
  | nil => simp [get, Except.bind]
  | cons n p ih =>
    cases t with
    | file c => simp [get, Except.bind]
    | directory es =>
      simp only [List.cons_append, get]
      cases Assoc.get? n es with
      | none => rfl
      | some u => exact ih u

theorem wellFormed_empty : empty.WellFormed := .directory .nil (by simp) (by simp)

theorem wellFormed_of_get {place : List Text} {u : FileTree} (ht : t.WellFormed)
    (h : t.get place = .ok u) : u.WellFormed := by
  induction place generalizing t with
  | nil =>
    obtain rfl := Except.ok.inj h
    exact ht
  | cons n ns ih =>
    cases ht with
    | file c => cases h
    | @directory es distinct names below =>
      rw [get] at h
      cases hn : Assoc.get? n es with
      | none =>
        rw [hn] at h
        cases h
      | some v =>
        rw [hn] at h
        exact ih (below _ (Assoc.mem_of_get? hn)) h

theorem get_singleton (es : List (Text × FileTree)) (name : Text) :
    (directory es).get [name] =
      match Assoc.get? name es with
      | some u => .ok u
      | none => .error .notFound := by
  rw [get]
  cases Assoc.get? name es <;> simp [get]

/-! ## Paths in a tree -/

section

variable {place parts q : List Text} {part : Text}

/-- Where a part of a path leads to from a directory. -/
def enter (place : List Text) (part : Text) : List Text :=
  if part = Path.here then place else if part = Path.up then place.dropLast else place ++ [part]

theorem follow_cons_of_directory (h : t.get place = .ok (directory es)) (part : Text)
    (parts : List Text) : t.follow place (part :: parts) =
      if Path.maxPartWidth < width part then .error .nameTooLong
      else t.follow (enter place part) parts := by
  rw [follow, h, enter]
  dsimp only
  split
  · rfl
  · split
    · rfl
    · split <;> rfl

/-- **A path leads on from directories only.** -/
theorem follow_cons_eq_ok_iff : t.follow place (part :: parts) = .ok q ↔
    (∃ es, t.get place = .ok (directory es)) ∧ width part ≤ Path.maxPartWidth ∧
      t.follow (enter place part) parts = .ok q := by
  cases hg : t.get place with
  | error e => simp [follow, hg]
  | ok u =>
    cases u with
    | file c => simp [follow, hg]
    | directory es =>
      rw [follow_cons_of_directory hg]
      split
      · next hw => exact iff_of_false nofun fun h => absurd h.2.1 (by omega)
      · next hw => exact ⟨fun h => ⟨⟨es, rfl⟩, by omega, h⟩, fun h => h.2.2⟩

theorem follow_append {ps : List Text} (h : t.follow place ps = .ok q) (qs : List Text) :
    t.follow place (ps ++ qs) = t.follow q qs := by
  induction ps generalizing place with
  | nil =>
    obtain rfl := Except.ok.inj h
    rfl
  | cons part ps ih =>
    obtain ⟨⟨es, hg⟩, hw, hrest⟩ := follow_cons_eq_ok_iff.1 h
    rw [List.cons_append, follow_cons_of_directory hg, if_neg (by omega), ih hrest]

/-- From a directory a name leads to the entry, whether it is there or not. -/
theorem follow_entry {name : Text} (h : t.get place = .ok (directory es)) (hn : IsEntryName name) :
    t.follow place [name] =
      if Path.maxPartWidth < width name then .error .nameTooLong else .ok (place ++ [name]) := by
  rw [follow_cons_of_directory h, enter, if_neg hn.ne_here, if_neg hn.ne_up, follow]

end

/-! ## What stays when something is put into a tree -/

/-- Whether every directory of a tree is a directory of another. -/
def KeepsDirectories (t t' : FileTree) : Prop :=
  ∀ place es, t.get place = .ok (directory es) → ∃ es', t'.get place = .ok (directory es')

/-- A path leads to the same place as long as the directories on the way are there. -/
theorem follow_of_keeps (h : KeepsDirectories t t') {place parts q : List Text}
    (hf : t.follow place parts = .ok q) : t'.follow place parts = .ok q := by
  induction parts generalizing place with
  | nil => exact hf
  | cons part parts ih =>
    obtain ⟨⟨es, hg⟩, hw, hrest⟩ := follow_cons_eq_ok_iff.1 hf
    exact follow_cons_eq_ok_iff.2 ⟨h place es hg, hw, ih hrest⟩

/-- **Only what is put somewhere is replaced**, so no directory is lost if none was there. -/
theorem keepsDirectories_put {place : List Text} (new : FileTree)
    (h : ∀ es, t.get place ≠ .ok (directory es)) : KeepsDirectories t (t.put place new) := by
  induction place generalizing t with
  | nil =>
    intro p es hp
    cases t with
    | file c => cases p <;> cases hp
    | directory es => exact absurd rfl (h es)
  | cons n ns ih =>
    cases t with
    | file c => exact fun p es hp => ⟨es, hp⟩
    | directory es =>
      intro p es' hp
      cases p with
      | nil => exact ⟨_, rfl⟩
      | cons m p =>
        rw [put, get, Assoc.get?_set]
        rw [get] at hp
        by_cases hm : n = m
        · subst hm
          rw [if_pos rfl]
          cases hu : Assoc.get? n es with
          | none =>
            rw [hu] at hp
            cases hp
          | some u =>
            rw [hu] at hp
            refine ih (fun es'' hes => h es'' ?_) p es' hp
            rw [get, hu]
            exact hes
        · rw [if_neg hm]
          exact ⟨es', hp⟩

/-- **An entry that is put into a directory** becomes one of its entries. -/
theorem get_put_entry {place : List Text} (name : Text) (new : FileTree)
    (h : t.get place = .ok (directory es)) :
    (t.put (place ++ [name]) new).get place = .ok (directory (Assoc.set name new es)) := by
  induction place generalizing t with
  | nil =>
    obtain rfl := Except.ok.inj h
    rfl
  | cons n ns ih =>
    cases t with
    | file c => cases h
    | directory es' =>
      rw [get] at h
      rw [List.cons_append, put, get, Assoc.get?_set, if_pos rfl]
      cases hu : Assoc.get? n es' with
      | none =>
        rw [hu] at h
        cases h
      | some u =>
        rw [hu] at h
        exact ih h

end FileTree

/-! ## Disks -/

namespace Disk

variable {d d' : Disk} {dir : Path} {name : Text} {es : List (Text × FileTree)}

theorem place_eq_ok_iff {p : Path} {place : List Text} : d.place p = .ok place ↔
    width p ≤ Path.maxWidth ∧ d.root.follow (d.start p) p.parts = .ok place := by
  unfold Disk.place
  split
  · next hw => exact iff_of_false nofun fun h => absurd h.1 (by omega)
  · next hw => exact (and_iff_right (by omega)).symm

/-- **A file is written** where no directory is and the path does not ask for one. -/
theorem write_eq_ok_iff {p : Path} {c : Content} : write c d p = .ok d' ↔
    ∃ place, d.place p = .ok place ∧ (∀ es, d.root.get place ≠ .ok (.directory es)) ∧
      p.endsInSlash = false ∧ d' = ⟨d.root.put place (.file c), d.home⟩ := by
  unfold write
  cases d.place p with
  | error e => simp [bind, Except.bind]
  | ok place =>
    simp only [bind, Except.bind, Except.ok.injEq, exists_eq_left']
    split
    · next es hes => exact iff_of_false nofun fun h => h.1 es hes
    · next hfree =>
      split
      · next hslash => exact iff_of_false nofun fun h => absurd hslash (by simp [h.2.1])
      · next hslash =>
        exact ⟨fun h => ⟨hfree, Bool.eq_false_iff.2 hslash, (Except.ok.inj h).symm⟩,
          fun h => congrArg Except.ok h.2.2.symm⟩

theorem at?_eq_directory_iff {p : Path} : d.at? p = .ok (.directory es) ↔
    ∃ place, d.place p = .ok place ∧ d.root.get place = .ok (.directory es) := by
  unfold at?
  cases hp : d.place p with
  | error e => simp [bind, Except.bind]
  | ok place =>
    cases hg : d.root.get place with
    | error e => simp [bind, Except.bind, hg]
    | ok u =>
      cases u with
      | file c =>
        simp only [bind, Except.bind, hg]
        split <;> simp [hg]
      | directory es' => simp [bind, Except.bind, hg]

theorem names_eq_ok_iff {p : Path} {names : List Text} : d.names p = .ok names ↔
    ∃ es, d.at? p = .ok (.directory es) ∧ names = es.map (·.1) := by
  unfold Disk.names
  cases d.at? p with
  | error e => simp
  | ok u => cases u <;> simp [eq_comm]

theorem read_eq_ok_iff {p : Path} {s : Text} :
    d.read p = .ok s ↔ d.at? p = .ok (.file (.text s)) := by
  unfold Disk.read
  cases d.at? p with
  | error e => simp
  | ok u =>
    cases u with
    | file c => cases c <;> simp
    | directory es => simp

/-- The entries of a directory have distinct names that lead to them. -/
theorem names_of_wellFormed {p : Path} {names : List Text} (hd : d.root.WellFormed)
    (h : d.names p = .ok names) : names.Nodup ∧ ∀ name ∈ names, IsEntryName name := by
  obtain ⟨es, hes, rfl⟩ := names_eq_ok_iff.1 h
  obtain ⟨place, -, hg⟩ := at?_eq_directory_iff.1 hes
  cases FileTree.wellFormed_of_get hd hg with
  | directory distinct names below =>
    refine ⟨distinct, fun name hn => ?_⟩
    obtain ⟨e, he, rfl⟩ := List.mem_map.1 hn
    exact names e he

/-- The place of an entry, if its name and its path are not too long. -/
theorem place_join {place : List Text} (hp : d.place dir = .ok place)
    (hg : d.root.get place = .ok (.directory es)) (hn : IsEntryName name) :
    d.place (dir.join name) =
      if dir.Fits name then .ok (place ++ [name]) else .error .nameTooLong := by
  have hstart : d.start (dir.join name) = d.start dir := by
    unfold start
    rw [Path.isAbsolute_join dir hn]
  unfold Disk.place
  rw [hstart, Path.parts_join dir hn, FileTree.follow_append (place_eq_ok_iff.1 hp).2,
    FileTree.follow_entry hg hn]
  split
  · next hpath => exact (if_neg fun hf : dir.Fits name => absurd hf.1 (by omega)).symm
  · next hpath =>
    split
    · next hname => exact (if_neg fun hf : dir.Fits name => absurd hf.2 (by omega)).symm
    · next hname => exact (if_pos (⟨by omega, by omega⟩ : dir.Fits name)).symm

/-- **What is at an entry of a directory.** -/
theorem at?_join (hd : d.at? dir = .ok (.directory es)) (hn : IsEntryName name) :
    d.at? (dir.join name) =
      if dir.Fits name then
        match Assoc.get? name es with
        | some u => .ok u
        | none => .error .notFound
      else .error .nameTooLong := by
  obtain ⟨place, hp, hg⟩ := at?_eq_directory_iff.1 hd
  unfold at?
  rw [place_join hp hg hn]
  split
  · simp only [bind, Except.bind]
    rw [FileTree.get_append, hg, Except.bind, FileTree.get_singleton]
    cases Assoc.get? name es with
    | none => rfl
    | some u =>
      cases u with
      | file c => simp [Path.endsInSlash_join dir hn]
      | directory es' => rfl
  · rfl

/-- **The text of an entry of a directory.** -/
theorem read_join_iff {s : Text} (hd : d.at? dir = .ok (.directory es)) (hn : IsEntryName name) :
    d.read (dir.join name) = .ok s ↔
      dir.Fits name ∧ Assoc.get? name es = some (.file (.text s)) := by
  rw [read_eq_ok_iff, at?_join hd hn]
  split
  · next hf => cases Assoc.get? name es <;> simp [hf]
  · next hf => simp [hf]

/-- **Writing an entry of a directory** sets it among the entries. -/
theorem at?_of_write {c : Content} (hd : d.at? dir = .ok (.directory es)) (hn : IsEntryName name)
    (h : write c d (dir.join name) = .ok d') :
    d'.at? dir = .ok (.directory (Assoc.set name (.file c) es)) ∧ dir.Fits name := by
  obtain ⟨place, hp, hg⟩ := at?_eq_directory_iff.1 hd
  obtain ⟨entry, hentry, hfree, -, rfl⟩ := write_eq_ok_iff.1 h
  rw [place_join hp hg hn] at hentry
  split at hentry
  · next hfits =>
    obtain rfl := Except.ok.inj hentry
    obtain ⟨hw, hfollow⟩ := place_eq_ok_iff.1 hp
    have hkeeps := FileTree.keepsDirectories_put (.file c) hfree
    exact ⟨at?_eq_directory_iff.2 ⟨place,
      place_eq_ok_iff.2 ⟨hw, FileTree.follow_of_keeps hkeeps hfollow⟩,
      FileTree.get_put_entry name _ hg⟩, hfits⟩
  · cases hentry

/-- **Whether an entry of a directory can be written** is told by the entries. -/
theorem write_join_eq_error_iff {c : Content} {cause : IoCause}
    (hd : d.at? dir = .ok (.directory es)) (hn : IsEntryName name) :
    write c d (dir.join name) = .error cause ↔ if dir.Fits name then
      (∃ es', Assoc.get? name es = some (.directory es')) ∧ cause = .isADirectory
    else cause = .nameTooLong := by
  obtain ⟨place, hp, hg⟩ := at?_eq_directory_iff.1 hd
  have hentry : d.root.get (place ++ [name]) = (FileTree.directory es).get [name] := by
    rw [FileTree.get_append, hg]
    rfl
  unfold write
  rw [place_join hp hg hn]
  split
  · simp only [bind, Except.bind, hentry, FileTree.get_singleton, Path.endsInSlash_join dir hn,
      Bool.false_eq_true, if_false]
    cases Assoc.get? name es with
    | none => simp
    | some u => cases u <;> simp [eq_comm]
  · simp [bind, Except.bind, eq_comm]

/-- A directory that is there is not made again. -/
theorem makeDirectories_of_directory {p : Path} (h : d.at? p = .ok (.directory es)) :
    d.makeDirectories p = (.ok (), d) := by
  obtain ⟨place, hp, hg⟩ := at?_eq_directory_iff.1 h
  obtain ⟨hw, hfollow⟩ := place_eq_ok_iff.1 hp
  have hmake : d.root.makeDirectory (d.start p) p.parts = .error .alreadyExists := by
    simp [FileTree.makeDirectory, hfollow, hg, bind, Except.bind]
  have hthere : d.root.isDirectory (d.start p) p.parts = true := by
    simp [FileTree.isDirectory, hfollow, hg, Except.bind]
  unfold makeDirectories
  rw [if_neg (by omega)]
  simp [FileTree.makeChain, FileTree.settle, hmake, hthere]

end Disk

end SpecHarvest
