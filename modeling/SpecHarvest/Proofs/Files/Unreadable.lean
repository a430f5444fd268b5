import SpecHarvest.CommandLine
import SpecHarvest.Proofs.Files.Harvest

/-!
# Spec files that cannot be read

A spec file that cannot be read as text leaves no trace: an extraction of the directory without it
reports and writes the same.

* `Disk.Omits`: a directory that lacks some entries of another disk's.
* `Disk.Omits.sources_eq`, `Disk.Omits.readConfigs_eq`: if these are unreadable spec files, the same
  is read from both directories.
* `writeArtifacts_congr`: two disks on which a directory has the same entries still agree on it after
  the same files are written.
* `run_extract_of_omits`: both for the whole command.

The two disks need not agree anywhere else.
-/

namespace SpecHarvest

open Text

/-! ## Directories that lack some entries -/

namespace Disk

/-- Whether a directory has the same entries on another disk, in any order, but for those with some
names. -/
def Omits (d e : Disk) (dir : Path) (omitted : List Text) : Prop :=
  ∃ es es', d.at? dir = .ok (.directory es) ∧ e.at? dir = .ok (.directory es') ∧
    es'.Perm (es.filter fun entry => decide (entry.1 ∉ omitted))

/-- Whether names are those of spec files that cannot be read as text. -/
def AreUnreadable (d : Disk) (dir : Path) (omitted : List Text) : Prop :=
  ∀ name ∈ omitted, endsWith sourceEnd name = true ∧ ∀ s, d.read (dir.join name) ≠ .ok s

namespace Omits

variable {d e : Disk} {dir : Path} {omitted : List Text} {name : Text}

/-- The names that are left. -/
theorem exists_names (hd : d.root.WellFormed) (h : d.Omits e dir omitted) : ∃ names names',
    d.names dir = .ok names ∧ e.names dir = .ok names' ∧ names'.Nodup ∧
      ∀ name, name ∈ names' ↔ name ∈ names ∧ name ∉ omitted := by
  obtain ⟨es, es', hes, hes', hperm⟩ := h
  have hnames : d.names dir = .ok (es.map (·.1)) := names_eq_ok_iff.2 ⟨es, hes, rfl⟩
  have hnodup := (names_of_wellFormed hd hnames).1
  refine ⟨_, _, hnames, names_eq_ok_iff.2 ⟨es', hes', rfl⟩, ?_, fun name => ?_⟩
  · refine (hperm.map (·.1)).nodup_iff.2 (hnodup.sublist ?_)
    exact List.filter_sublist.map _
  · rw [(hperm.map (·.1)).mem_iff]
    simp only [List.mem_map, List.mem_filter, decide_eq_true_eq]
    constructor
    · rintro ⟨entry, ⟨hmem, hkeep⟩, rfl⟩
      exact ⟨⟨entry, hmem, rfl⟩, hkeep⟩
    · rintro ⟨⟨entry, hmem, rfl⟩, hkeep⟩
      exact ⟨entry, ⟨hmem, hkeep⟩, rfl⟩

/-- **An entry that is left is the same on both disks.** -/
theorem at?_join_eq (hd : d.root.WellFormed) (h : d.Omits e dir omitted) (hn : IsEntryName name)
    (hkeep : name ∉ omitted) : e.at? (dir.join name) = d.at? (dir.join name) := by
  obtain ⟨es, es', hes, hes', hperm⟩ := h
  have hnodup := (names_of_wellFormed hd (names_eq_ok_iff.2 ⟨es, hes, rfl⟩)).1
  have hget : Assoc.get? name es' = Assoc.get? name es := by
    have hleft : ((es.filter fun entry => decide (entry.1 ∉ omitted)).map (·.1)).Nodup :=
      hnodup.sublist (List.filter_sublist.map _)
    rw [Assoc.get?_of_perm hleft hperm, Assoc.get?_filter (fun k => decide (k ∉ omitted)),
      if_pos (by simpa using hkeep)]
  rw [at?_join hes hn, at?_join hes' hn, hget]

theorem read_join_eq (hd : d.root.WellFormed) (h : d.Omits e dir omitted) (hn : IsEntryName name)
    (hkeep : name ∉ omitted) : e.read (dir.join name) = d.read (dir.join name) := by
  unfold Disk.read
  rw [h.at?_join_eq hd hn hkeep]

/-! ## What is read from them -/

/-- **The same spec files are read.** -/
theorem sources_eq (hd : d.root.WellFormed) (h : d.Omits e dir omitted)
    (hu : d.AreUnreadable dir omitted) : e.sources dir = d.sources dir := by
  obtain ⟨names, names', hnames, hnames', hnodup, hmem⟩ := h.exists_names hd
  have hiff : ∀ source, source ∈ e.sources dir ↔ source ∈ d.sources dir := by
    rintro ⟨name, s⟩
    simp only [mem_sources_iff, hnames, hnames', Except.ok.injEq, exists_eq_left', hmem]
    constructor
    · rintro ⟨⟨hin, hkeep⟩, hend, hread⟩
      rw [h.read_join_eq hd ((names_of_wellFormed hd hnames).2 name hin) hkeep] at hread
      exact ⟨hin, hend, hread⟩
    · rintro ⟨hin, hend, hread⟩
      have hkeep : name ∉ omitted := fun ho => (hu name ho).2 s hread
      refine ⟨⟨hin, hkeep⟩, hend, ?_⟩
      rwa [h.read_join_eq hd ((names_of_wellFormed hd hnames).2 name hin) hkeep]
  have hsorted : (d.sources dir).Pairwise _ := pairwise_sources hd
  have hsorted' : (e.sources dir).Pairwise _ := pairwise_sources_of_nodup fun ns hns => by
    obtain rfl := Except.ok.inj (hns.symm.trans hnames')
    exact hnodup
  have hne : ∀ {a b : Text × Text}, notAfter a.1 b.1 = true ∧ a.1 ≠ b.1 → a ≠ b :=
    fun hab he => hab.2 (congrArg Prod.fst he)
  have hperm := (List.perm_ext_iff_of_nodup (hsorted'.imp hne) (hsorted.imp hne)).2 hiff
  refine hperm.eq_of_pairwise (fun a b _ _ hab hba => ?_) hsorted' hsorted
  exact absurd (notAfter_antisymm hab.1 hba.1) hab.2

/-- **The main module is read with the same result.** It is none of the spec files. -/
theorem readConfigs_eq (hd : d.root.WellFormed) (h : d.Omits e dir omitted)
    (hu : d.AreUnreadable dir omitted) :
    e.configs dir = d.configs dir ∧
      (readConfigs system dir e).1 = (readConfigs system dir d).1 := by
  have hkeep : "Main.hs".toList ∉ omitted := fun ho => absurd (hu _ ho).1 (by decide)
  have hat := h.at?_join_eq hd (by decide) hkeep
  have hread := h.read_join_eq hd (by decide) hkeep
  have hpresent : e.isPresent (dir.join "Main.hs".toList) =
      d.isPresent (dir.join "Main.hs".toList) := by
    unfold Disk.isPresent
    rw [hat]
  refine ⟨by rw [configs, configs, hread], ?_⟩
  rw [readConfigs, bind_apply, bind_apply, system_isPresent, system_isPresent, hpresent]
  split
  · rw [bind_apply, bind_apply, system_read, system_read, hread]
    cases d.read (dir.join "Main.hs".toList) <;> rfl
  · rfl

theorem harvested_eq (hd : d.root.WellFormed) (h : d.Omits e dir omitted)
    (hu : d.AreUnreadable dir omitted) : e.harvested dir = d.harvested dir := by
  rw [harvested, harvested, (h.readConfigs_eq hd hu).1, h.sources_eq hd hu]

end Omits

end Disk

/-! ## What is written -/

/-- **Files are written alike** into a directory that two disks agree on. -/
theorem writeArtifacts_congr {dir : Path} {es : List (Text × FileTree)} {as : List Artifact}
    {d e : Disk} (hd : d.at? dir = .ok (.directory es)) (he : e.at? dir = .ok (.directory es))
    (has : ∀ a ∈ as, IsEntryName a.name) : ∃ r d' e' es',
      writeArtifacts Disk.system dir as d = (r, d') ∧
      writeArtifacts Disk.system dir as e = (r, e') ∧
      d'.at? dir = .ok (.directory es') ∧ e'.at? dir = .ok (.directory es') := by
  induction as generalizing es d e with
  | nil => exact ⟨_, d, e, es, rfl, rfl, hd, he⟩
  | cons a as ih =>
    have ha := has a List.mem_cons_self
    have hcause : ∀ cause,
        Disk.write (.text a.content.pretty) d (dir.join a.name) = .error cause ↔
          Disk.write (.text a.content.pretty) e (dir.join a.name) = .error cause := fun cause =>
      (Disk.write_join_eq_error_iff hd ha).trans (Disk.write_join_eq_error_iff he ha).symm
    simp only [writeArtifacts, Disk.bind_apply, Disk.system_write]
    cases hw : Disk.write (.text a.content.pretty) d (dir.join a.name) with
    | error cause =>
      rw [(hcause cause).1 hw]
      exact ⟨_, d, e, es, rfl, rfl, hd, he⟩
    | ok d₁ =>
      cases hw' : Disk.write (.text a.content.pretty) e (dir.join a.name) with
      | error cause =>
        rw [(hcause cause).2 hw'] at hw
        cases hw
      | ok e₁ =>
        obtain ⟨r, d', e', es', hr, hr', hd', he'⟩ := ih (Disk.at?_of_write hd ha hw).1
          (Disk.at?_of_write he ha hw').1 fun b hb => has b (List.mem_cons_of_mem _ hb)
        dsimp only
        rw [Disk.bind_apply, Disk.bind_apply, hr, hr']
        exact ⟨_, d', e', es', rfl, rfl, hd', he'⟩

/-! ## The whole command -/

/-- **An extraction reports and writes the same without the unreadable spec files**, if the output
directory is empty before. -/
theorem harvest_of_omits {d e : Disk} {dir output : Path} {omitted : List Text}
    (hd : d.root.WellFormed) (h : d.Omits e dir omitted) (hu : d.AreUnreadable dir omitted)
    (hdo : d.at? output = .ok (.directory [])) (heo : e.at? output = .ok (.directory [])) :
    ∃ r d' e' es, harvest Disk.system dir output d = (r, d') ∧
      harvest Disk.system dir output e = (r, e') ∧
      d'.at? output = .ok (.directory es) ∧ e'.at? output = .ok (.directory es) := by
  obtain ⟨names, names', hnames, hnames', -, -⟩ := h.exists_names hd
  have hfst := (h.readConfigs_eq hd hu).2
  rcases readConfigs_system d dir with hc | ⟨err, hc⟩ <;>
    rcases readConfigs_system e dir with hc' | ⟨err', hc'⟩ <;> rw [hc, hc'] at hfst
  · rw [harvest_of_names hc hnames hdo, harvest_of_names hc' hnames' heo, h.harvested_eq hd hu]
    exact writeArtifacts_congr hdo heo fun a ha => isEntryName_of_mem_artifacts hd ha
  · cases hfst
  · cases hfst
  · obtain rfl := Except.error.inj hfst
    exact ⟨_, d, e, [], harvest_of_error hc, harvest_of_error hc', hdo, heo⟩

/-- An extraction succeeds exactly if it reports no error. -/
theorem HarvestReport.completion_success_iff {quiet : Bool} {r : HarvestReport} :
    (r.completion quiet).ending = .success ↔ r.error = none := by
  unfold completion
  cases r.error <;> simp

theorem run_extract (quiet : Bool) (service : Text → Service) (dir output : Path) (d : Disk) :
    (Invocation.mk quiet (.extract dir output)).run Disk.system service d =
      ((harvest Disk.system dir output d).1.completion quiet,
        (harvest Disk.system dir output d).2) := rfl

/-- **An unreadable spec file is as if absent.** The command prints the same, ends in the same way and
leaves the same files in an output directory that was empty. If it succeeds, these are the files for
what the spec files that can be read yield. -/
theorem run_extract_of_omits {d e : Disk} {dir output : Path} {omitted : List Text} (quiet : Bool)
    (service : Text → Service) (hd : d.root.WellFormed) (h : d.Omits e dir omitted)
    (hu : d.AreUnreadable dir omitted) (hdo : d.at? output = .ok (.directory []))
    (heo : e.at? output = .ok (.directory [])) :
    ∃ c d' e' es, (Invocation.mk quiet (.extract dir output)).run Disk.system service d = (c, d') ∧
      (Invocation.mk quiet (.extract dir output)).run Disk.system service e = (c, e') ∧
      d'.at? output = .ok (.directory es) ∧ e'.at? output = .ok (.directory es) ∧
      (c.ending = .success →
        es = Assoc.ofList ((artifacts (d.harvested dir)).map Artifact.entry) ∧
          c.output = if quiet then [] else (artifacts (d.harvested dir)).flatMap Artifact.report) := by
  obtain ⟨r, d', e', es, hr, hr', hd', he'⟩ := harvest_of_omits hd h hu hdo heo
  refine ⟨r.completion quiet, d', e', es, by rw [run_extract, hr], by rw [run_extract, hr'], hd',
    he', fun hsuccess => ?_⟩
  have hw := written_of_harvest hd hdo hr (HarvestReport.completion_success_iff.1 hsuccess)
  have hes := hd'.symm.trans hw.entries
  rw [Except.ok.injEq, FileTree.directory.injEq] at hes
  exact ⟨hes, by rw [HarvestReport.completion, hw.output]⟩

/-- A spec file that can be read, alone in its directory. -/
def readableSpecs : Disk.Specs where
  files := [("BSpec.hs".toList, "it \"b\" $ get \"/b\" `shouldRespondWith` 200\n".toList)]
  areSpecs := by decide +kernel
  error_eq := by decide +kernel

/-- Two spec files that cannot be read: one holds no text, and the other is a directory. -/
def unreadableSpecs : List (Text × FileTree) :=
  [("ASpec.hs".toList, .file (.binary [255, 254, 0])), ("CSpec.hs".toList, .empty)]

/-- A disk with all of them. -/
def withUnreadable : Disk :=
  .ofEntries (readableSpecs.files.map (fun e => (e.1, .file (.text e.2))) ++ unreadableSpecs)

theorem wellFormed_withUnreadable : withUnreadable.root.WellFormed := by
  refine Disk.wellFormed_ofEntries (.directory (by decide) ?_ ?_)
  · simp only [readableSpecs, unreadableSpecs, List.map_cons, List.map_nil, List.cons_append,
      List.nil_append, List.forall_mem_cons, List.not_mem_nil, false_imp_iff, implies_true, and_true]
    decide
  · simp only [readableSpecs, unreadableSpecs, List.map_cons, List.map_nil, List.cons_append,
      List.nil_append, List.forall_mem_cons, List.not_mem_nil, false_imp_iff, implies_true, and_true]
    exact ⟨.file _, .file _, FileTree.wellFormed_empty⟩

theorem omits_withUnreadable : withUnreadable.Omits (.ofSpecs readableSpecs.files) Disk.specsDir
    (unreadableSpecs.map (·.1)) := ⟨_, _, rfl, rfl, .of_eq rfl⟩

theorem areUnreadable_withUnreadable :
    withUnreadable.AreUnreadable Disk.specsDir (unreadableSpecs.map (·.1)) := by
  simp only [Disk.AreUnreadable, unreadableSpecs, List.map_cons, List.map_nil, List.forall_mem_cons,
    List.not_mem_nil, false_imp_iff, implies_true, and_true]
  exact ⟨⟨by decide, nofun⟩, by decide, nofun⟩

theorem run_extract_of_omits_unreadableSpecs : ∃ c d' e' es,
    (Invocation.mk false (.extract Disk.specsDir Disk.emptyDir)).run Disk.system
      (fun _ _ => .error []) withUnreadable = (c, d') ∧
    (Invocation.mk false (.extract Disk.specsDir Disk.emptyDir)).run Disk.system
      (fun _ _ => .error []) (.ofSpecs readableSpecs.files) = (c, e') ∧
    d'.at? Disk.emptyDir = .ok (.directory es) ∧ e'.at? Disk.emptyDir = .ok (.directory es) ∧
    c.ending = .success ∧
    es = Assoc.ofList
      ((artifacts (readableSpecs.files.map fun e => .ofSource [] e.1 e.2)).map Artifact.entry) ∧
    es.map (·.1) = ["b.json".toList, flaggedName, statsName] ∧
    c.output = "BSpec: 1 tests, 0 flagged\n\nTotal: 1 tests, 0 flagged across 1 files\n".toList := by
  have hd := wellFormed_withUnreadable
  have homits := omits_withUnreadable
  have hu := areUnreadable_withUnreadable
  have hempty : withUnreadable.at? Disk.emptyDir = .ok (.directory []) := rfl
  obtain ⟨c, d', e', es, hrun, hrun', hd', he', hwritten⟩ :=
    run_extract_of_omits false (fun _ _ => .error []) hd homits hu hempty (Disk.at?_emptyDir _)
  obtain ⟨r, e'', hharvest, herror⟩ := readableSpecs.exists_harvest
  have hsuccess : c.ending = .success := by
    rw [run_extract, hharvest] at hrun'
    rw [← (Prod.mk.inj hrun').1]
    exact HarvestReport.completion_success_iff.2 herror
  obtain ⟨hes, houtput⟩ := hwritten hsuccess
  rw [← homits.harvested_eq hd hu, Disk.harvested_ofSpecs readableSpecs.areSpecs] at hes houtput
  refine ⟨c, d', e', es, hrun, hrun', hd', he', hsuccess, hes, ?_, houtput.trans ?_⟩
  · rw [hes]
    decide +kernel
  · decide +kernel

end SpecHarvest
