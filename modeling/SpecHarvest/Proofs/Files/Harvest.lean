import SpecHarvest.Proofs.Files.Names

/-!
# What an extraction of a directory leaves

`Disk.sources` are the readable spec files of a directory and `Disk.harvested` is what they yield,
both told by the disk before the extraction.

* `writeArtifacts_system`: files are written up to the first that cannot be, each as an entry of the
  directory (`Written`).
* `harvest_system`: so an extraction into an empty directory writes a front part of the files for
  what the sources yield, and all of them unless it reports an error.
* `Disk.ofSpecs` has given spec files and an empty directory; `Disk.harvest_ofSpecs` is their
  extraction, and `Disk.Specs` are files for which it succeeds.
-/

namespace SpecHarvest

open Text

namespace Disk

/-! ## Programs on a disk -/

theorem bind_apply {α β : Type} (x : StateM Disk α) (f : α → StateM Disk β) (d : Disk) :
    (x >>= f) d = f (x d).1 (x d).2 := rfl

theorem system_names (p : Path) (d : Disk) : system.names p d = (d.names p, d) := rfl

theorem system_read (p : Path) (d : Disk) : system.read p d = (d.read p, d) := rfl

theorem system_isPresent (p : Path) (d : Disk) : system.isPresent p d = (d.isPresent p, d) := rfl

theorem system_makeDirectories (p : Path) (d : Disk) :
    system.makeDirectories p d = d.makeDirectories p := rfl

theorem system_write (p : Path) (s : Text) (d : Disk) :
    system.write p s d =
      match write (.text s) d p with
      | .ok d' => (.ok (), d')
      | .error e => (.error e, d) := rfl

/-! ## What is read -/

/-- The configurations that the main module of a directory sets up. -/
def configs (d : Disk) (dir : Path) : ConfigMap :=
  match d.read (dir.join "Main.hs".toList) with
  | .ok s => .ofMain s
  | .error _ => []

/-- The readable spec files of a directory, in increasing order, each with its text. -/
def sources (d : Disk) (dir : Path) : List (Text × Text) :=
  match d.names dir with
  | .ok names =>
    (sourceNames names).filterMap fun name => (d.read (dir.join name)).toOption.map (name, ·)
  | .error _ => []

/-- What the spec files of a directory yield. -/
def harvested (d : Disk) (dir : Path) : List Harvested :=
  (d.sources dir).map fun e => .ofSource (d.configs dir) e.1 e.2

variable {d : Disk} {dir : Path} {name s : Text}

theorem mem_sources_iff : (name, s) ∈ d.sources dir ↔
    (∃ names, d.names dir = .ok names ∧ name ∈ names) ∧ endsWith sourceEnd name = true ∧
      d.read (dir.join name) = .ok s := by
  unfold sources
  split
  · next names hn =>
    rw [List.mem_filterMap]
    constructor
    · rintro ⟨n, hmem, hr⟩
      obtain ⟨t, ht, he⟩ := Option.map_eq_some_iff.1 hr
      obtain ⟨rfl, rfl⟩ := Prod.mk.inj he
      obtain ⟨hmem, hend⟩ := mem_sourceNames_iff.1 hmem
      refine ⟨⟨names, hn, hmem⟩, hend, ?_⟩
      cases hread : d.read (dir.join n) <;> rw [hread] at ht <;> cases ht
      rfl
    · rintro ⟨⟨names', hn', hmem⟩, hend, hr⟩
      obtain rfl := Except.ok.inj (hn.symm.trans hn')
      exact ⟨name, mem_sourceNames_iff.2 ⟨hmem, hend⟩, by rw [hr]; rfl⟩
  · next e hn => simp [hn]

/-- The sources of a directory with distinct names are in strictly increasing order. -/
theorem pairwise_sources_of_nodup (h : ∀ names, d.names dir = .ok names → names.Nodup) :
    (d.sources dir).Pairwise fun e f => notAfter e.1 f.1 = true ∧ e.1 ≠ f.1 := by
  unfold sources
  split
  · next names hn =>
    refine (pairwise_sortNames_of_nodup ((h names hn).filter _)).filterMap _ ?_
    intro a b hab e he f hf
    obtain ⟨t, -, rfl⟩ := Option.map_eq_some_iff.1 he
    obtain ⟨u, -, rfl⟩ := Option.map_eq_some_iff.1 hf
    exact hab
  · exact .nil

/-- The sources of a well-formed disk are in strictly increasing order. -/
theorem pairwise_sources (hd : d.root.WellFormed) :
    (d.sources dir).Pairwise fun e f => notAfter e.1 f.1 = true ∧ e.1 ≠ f.1 :=
  pairwise_sources_of_nodup fun _ hn => (names_of_wellFormed hd hn).1

theorem isEntryName_of_mem_sources (hd : d.root.WellFormed) (h : (name, s) ∈ d.sources dir) :
    IsEntryName (outputName name) := by
  obtain ⟨⟨names, hn, hmem⟩, hend, -⟩ := mem_sources_iff.1 h
  exact isEntryName_outputName hend ((names_of_wellFormed hd hn).2 name hmem)

end Disk

theorem readSources_system (configs : ConfigMap) (dir : Path) (names : List Text) (d : Disk) :
    readSources Disk.system configs dir names d =
      ((names.filterMap fun name => (d.read (dir.join name)).toOption.map (name, ·)).map
        fun e => .ofSource configs e.1 e.2, d) := by
  induction names with
  | nil => rfl
  | cons name names ih =>
    rw [readSources, Disk.bind_apply, Disk.system_read, Disk.bind_apply, ih, List.filterMap_cons]
    cases d.read (dir.join name) <;> rfl

/-! ## What is written -/

/-- The entry that a file makes in the directory that it is written to. -/
def Artifact.entry (a : Artifact) : Text × FileTree := (a.name, .file (.text a.content.pretty))

/-- What is left when of some files the first were written into a directory with some entries, and
the rest were not. -/
structure Written (dir : Path) (es : List (Text × FileTree)) (written rest : List Artifact)
    (r : HarvestReport) (d : Disk) : Prop where
  entries : d.at? dir =
    .ok (.directory ((written.map Artifact.entry).foldl (fun m e => Assoc.set e.1 e.2 m) es))
  fits : ∀ a ∈ written, dir.Fits a.name
  output : r.output = written.flatMap Artifact.report
  error : r.error = none ↔ rest = []

/-- **Files are written up to the first that cannot be.** -/
theorem writeArtifacts_system {dir : Path} {es : List (Text × FileTree)} {as : List Artifact}
    {d d' : Disk} {r : HarvestReport} (hd : d.at? dir = .ok (.directory es))
    (has : ∀ a ∈ as, IsEntryName a.name)
    (h : writeArtifacts Disk.system dir as d = (r, d')) :
    ∃ written rest, as = written ++ rest ∧ Written dir es written rest r d' := by
  induction as generalizing es d r d' with
  | nil =>
    obtain ⟨rfl, rfl⟩ := Prod.mk.inj h
    exact ⟨[], [], rfl, hd, by simp, rfl, by simp⟩
  | cons a as ih =>
    rw [writeArtifacts, Disk.bind_apply, Disk.system_write] at h
    cases hw : Disk.write (.text a.content.pretty) d (dir.join a.name) with
    | error cause =>
      rw [hw] at h
      obtain ⟨rfl, rfl⟩ := Prod.mk.inj h
      exact ⟨[], a :: as, rfl, hd, by simp, rfl, by simp⟩
    | ok d₁ =>
      rw [hw] at h
      dsimp only at h
      rw [Disk.bind_apply] at h
      obtain ⟨rfl, rfl⟩ := Prod.mk.inj h
      obtain ⟨hd₁, hfits⟩ := Disk.at?_of_write hd (has a List.mem_cons_self) hw
      obtain ⟨written, rest, rfl, hwritten⟩ :=
        ih hd₁ (fun b hb => has b (List.mem_cons_of_mem _ hb)) rfl
      refine ⟨a :: written, rest, rfl, hwritten.entries, ?_, ?_, hwritten.error⟩
      · exact List.forall_mem_cons.2 ⟨hfits, hwritten.fits⟩
      · rw [hwritten.output, List.flatMap_cons]

/-! ## The whole extraction -/

theorem isEntryName_flaggedName : IsEntryName flaggedName :=
  isEntryName_append_json (show '/' ∉ "_flagged".toList by decide)

theorem isEntryName_statsName : IsEntryName statsName :=
  isEntryName_append_json (show '/' ∉ "_stats".toList by decide)

theorem isEntryName_of_mem_artifacts {d : Disk} {dir : Path} (hd : d.root.WellFormed)
    {a : Artifact} (ha : a ∈ artifacts (d.harvested dir)) : IsEntryName a.name := by
  rw [artifacts, List.mem_append] at ha
  rcases ha with ha | ha
  · obtain ⟨h, hh, rfl⟩ := List.mem_map.1 ha
    obtain ⟨⟨name, s⟩, hs, rfl⟩ := List.mem_map.1 hh
    exact Disk.isEntryName_of_mem_sources hd hs
  · rcases List.mem_cons.1 ha with rfl | ha
    · exact isEntryName_flaggedName
    · rw [List.mem_singleton.1 ha]
      exact isEntryName_statsName

/-- Without a main module there are no configurations. -/
theorem configs_of_absent {d : Disk} {dir : Path}
    (h : d.isPresent (dir.join "Main.hs".toList) = false) :
    d.configs dir = [] ∧ readConfigs Disk.system dir d = (.ok [], d) := by
  constructor
  · unfold Disk.configs Disk.read
    unfold Disk.isPresent at h
    cases ha : d.at? (dir.join "Main.hs".toList) with
    | ok u =>
      rw [ha] at h
      cases h
    | error e => rfl
  · rw [readConfigs, Disk.bind_apply, Disk.system_isPresent, if_neg (ne_true_of_eq_false h)]
    rfl

theorem readConfigs_system (d : Disk) (dir : Path) :
    readConfigs Disk.system dir d = (.ok (d.configs dir), d) ∨
      ∃ e, readConfigs Disk.system dir d = (.error e, d) := by
  cases hp : d.isPresent (dir.join "Main.hs".toList) with
  | false =>
    obtain ⟨hnone, hread⟩ := configs_of_absent hp
    exact .inl (hnone ▸ hread)
  | true =>
    rw [readConfigs, Disk.bind_apply, Disk.system_isPresent, if_pos hp, Disk.bind_apply,
      Disk.system_read, Disk.configs]
    cases d.read (dir.join "Main.hs".toList) with
    | ok s => exact .inl rfl
    | error cause => exact .inr ⟨_, rfl⟩

/-- An extraction into a directory that is there writes the files for what the sources yield, once
the configurations and the names of the sources are read. -/
theorem harvest_of_names {d : Disk} {dir output : Path} {es : List (Text × FileTree)}
    {names : List Text} (hc : readConfigs Disk.system dir d = (.ok (d.configs dir), d))
    (hn : d.names dir = .ok names) (he : d.at? output = .ok (.directory es)) :
    harvest Disk.system dir output d =
      writeArtifacts Disk.system output (artifacts (d.harvested dir)) d := by
  unfold harvest Disk.harvested Disk.sources
  rw [Disk.bind_apply, hc]
  dsimp only
  rw [Disk.bind_apply, Disk.system_names, hn]
  dsimp only
  rw [Disk.bind_apply, Disk.system_makeDirectories, Disk.makeDirectories_of_directory he]
  dsimp only
  rw [Disk.bind_apply, readSources_system]

theorem harvest_of_error {d : Disk} {dir output : Path} {e : HarvestError}
    (hc : readConfigs Disk.system dir d = (.error e, d)) :
    harvest Disk.system dir output d = (⟨[], some e⟩, d) := by
  rw [harvest, Disk.bind_apply, hc]
  rfl

/-- Otherwise it ends before it writes anything. -/
theorem harvest_cases {d : Disk} {output : Path} {es : List (Text × FileTree)} (dir : Path)
    (he : d.at? output = .ok (.directory es)) :
    (∃ e, harvest Disk.system dir output d = (⟨[], some e⟩, d)) ∨
      harvest Disk.system dir output d =
        writeArtifacts Disk.system output (artifacts (d.harvested dir)) d := by
  rcases readConfigs_system d dir with hc | ⟨e, hc⟩
  · cases hn : d.names dir with
    | ok names => exact .inr (harvest_of_names hc hn he)
    | error cause =>
      refine .inl ⟨.sources dir cause, ?_⟩
      rw [harvest, Disk.bind_apply, hc]
      dsimp only
      rw [Disk.bind_apply, Disk.system_names, hn]
      rfl
  · exact .inl ⟨e, harvest_of_error hc⟩

/-- **An extraction into an empty directory** writes a front part of the files for what the sources
yield, and reports an error if it is not all of them. -/
theorem harvest_system {d d' : Disk} {dir output : Path} {r : HarvestReport}
    (hd : d.root.WellFormed) (he : d.at? output = .ok (.directory []))
    (h : harvest Disk.system dir output d = (r, d')) :
    ∃ written rest, artifacts (d.harvested dir) = written ++ rest ∧
      Written output [] written rest r d' := by
  rcases harvest_cases dir he with ⟨e, hearly⟩ | hwrite
  · obtain ⟨rfl, rfl⟩ := Prod.mk.inj (hearly.symm.trans h)
    exact ⟨[], artifacts (d.harvested dir), rfl, he, by simp, rfl, by simp [artifacts]⟩
  · exact writeArtifacts_system he (fun a ha => isEntryName_of_mem_artifacts hd ha)
      (hwrite.symm.trans h)

/-- Without an error it writes all of them. -/
theorem written_of_harvest {d d' : Disk} {dir output : Path} {r : HarvestReport}
    (hd : d.root.WellFormed) (he : d.at? output = .ok (.directory []))
    (hrun : harvest Disk.system dir output d = (r, d')) (hr : r.error = none) :
    Written output [] (artifacts (d.harvested dir)) [] r d' := by
  obtain ⟨written, rest, hall, hw⟩ := harvest_system hd he hrun
  obtain rfl := hw.error.1 hr
  rw [List.append_nil] at hall
  rw [hall]
  exact hw

/-! ## Disks of spec files -/

namespace Disk

/-- Where `ofSpecs` has its spec files. -/
def specsDir : Path := "upstream".toList

/-- Where `ofSpecs` has an empty directory. -/
def emptyDir : Path := "specs".toList

/-- A disk with some entries in one directory and another one that is empty. -/
def ofEntries (es : List (Text × FileTree)) : Disk where
  root := .directory [(specsDir, .directory es), (emptyDir, .empty)]
  home := []

theorem wellFormed_ofEntries {es : List (Text × FileTree)} (h : (FileTree.directory es).WellFormed) :
    (ofEntries es).root.WellFormed := by
  refine .directory (show [specsDir, emptyDir].Nodup by decide) ?_ ?_
  · simp only [List.forall_mem_cons, List.not_mem_nil, false_imp_iff, implies_true, and_true]
    decide
  · simp only [List.forall_mem_cons, List.not_mem_nil, false_imp_iff, implies_true, and_true]
    exact ⟨h, FileTree.wellFormed_empty⟩

/-- A disk with spec files in one directory and another one that is empty. -/
def ofSpecs (files : List (Text × Text)) : Disk where
  root := .directory [(specsDir, .directory (files.map fun e => (e.1, .file (.text e.2)))),
    (emptyDir, .empty)]
  home := []

/-- Whether files are spec files in strictly increasing order. -/
def AreSpecs (files : List (Text × Text)) : Prop :=
  (files.map (·.1)).Pairwise (fun a b => notAfter a b = true ∧ a ≠ b) ∧
    ∀ e ∈ files, endsWith sourceEnd e.1 = true ∧ IsEntryName e.1 ∧ specsDir.Fits e.1

instance (files : List (Text × Text)) : Decidable (AreSpecs files) :=
  inferInstanceAs (Decidable (_ ∧ _))

variable {files : List (Text × Text)}

theorem at?_specsDir (files : List (Text × Text)) : (ofSpecs files).at? specsDir =
    .ok (.directory (files.map fun e => (e.1, .file (.text e.2)))) := rfl

theorem at?_emptyDir (files : List (Text × Text)) :
    (ofSpecs files).at? emptyDir = .ok (.directory []) := rfl

theorem AreSpecs.nodup (h : AreSpecs files) : (files.map (·.1)).Nodup := h.1.imp And.right

theorem wellFormed_ofSpecs (h : AreSpecs files) : (ofSpecs files).root.WellFormed := by
  refine wellFormed_ofEntries (.directory ?_ ?_ ?_)
  · rw [List.map_map]
    exact h.nodup
  · intro e he
    obtain ⟨f, hf, rfl⟩ := List.mem_map.1 he
    exact (h.2 f hf).2.1
  · intro e he
    obtain ⟨f, hf, rfl⟩ := List.mem_map.1 he
    exact .file _

theorem sources_ofSpecs (h : AreSpecs files) : (ofSpecs files).sources specsDir = files := by
  have hnames : (ofSpecs files).names specsDir = .ok (files.map (·.1)) := by
    refine names_eq_ok_iff.2 ⟨_, at?_specsDir files, ?_⟩
    rw [List.map_map]
    rfl
  have hend : (files.map (·.1)).filter (endsWith sourceEnd) = files.map (·.1) := by
    rw [List.filter_eq_self, List.forall_mem_map]
    exact fun e he => (h.2 e he).1
  have hread : ∀ e ∈ files, (ofSpecs files).read (specsDir.join e.1) = .ok e.2 := by
    intro e he
    refine (read_join_iff (at?_specsDir files) (h.2 e he).2.1).2 ⟨(h.2 e he).2.2, ?_⟩
    refine Assoc.get?_eq_some_of_mem ?_ (List.mem_map.2 ⟨e, he, rfl⟩)
    rw [List.map_map]
    exact h.nodup
  unfold sources
  rw [hnames]
  dsimp only
  rw [sourceNames, hend, sortNames_of_pairwise (h.1.imp And.left), List.filterMap_map]
  conv_rhs => rw [← List.filterMap_some (l := files)]
  refine List.filterMap_congr fun e he => ?_
  rw [Function.comp, hread e he]
  rfl

/-- The main module is none of the spec files. -/
theorem isPresent_main (h : AreSpecs files) :
    (ofSpecs files).isPresent (specsDir.join "Main.hs".toList) = false := by
  have hnot : Assoc.get? "Main.hs".toList
      (files.map fun e => (e.1, FileTree.file (.text e.2))) = none := by
    rw [Option.eq_none_iff_forall_ne_some]
    intro t ht
    obtain ⟨e, he, hentry⟩ := List.mem_map.1 (Assoc.mem_of_get? ht)
    have hend := (h.2 e he).1
    rw [(Prod.mk.inj hentry).1] at hend
    exact absurd hend (by decide)
  rw [isPresent, at?_join (at?_specsDir files) (by decide), hnot]
  split
  · next hfits =>
    split at hfits <;> cases hfits
  · rfl

theorem harvested_ofSpecs (h : AreSpecs files) :
    (ofSpecs files).harvested specsDir = files.map fun e => .ofSource [] e.1 e.2 := by
  rw [harvested, (configs_of_absent (isPresent_main h)).1, sources_ofSpecs h]

theorem harvest_ofSpecs (h : AreSpecs files) :
    harvest system specsDir emptyDir (ofSpecs files) =
      writeArtifacts system emptyDir (artifacts (files.map fun e => .ofSource [] e.1 e.2))
        (ofSpecs files) := by
  obtain ⟨hnone, hread⟩ := configs_of_absent (isPresent_main h)
  have hnames := names_eq_ok_iff.2 ⟨_, at?_specsDir files, rfl⟩
  rw [harvest_of_names (hnone.symm ▸ hread) hnames (at?_emptyDir files), harvested_ofSpecs h]

/-- Spec files in strictly increasing order such that all files for them can be written. -/
structure Specs where
  files : List (Text × Text)
  areSpecs : AreSpecs files
  error_eq : (writeArtifacts system emptyDir (artifacts (files.map fun e => .ofSource [] e.1 e.2))
    (ofSpecs files)).1.error = none

theorem Specs.exists_harvest (s : Specs) : ∃ r d',
    harvest system specsDir emptyDir (ofSpecs s.files) = (r, d') ∧ r.error = none :=
  ⟨_, _, (harvest_ofSpecs s.areSpecs).trans (Prod.eta _).symm, s.error_eq⟩

end Disk

end SpecHarvest
