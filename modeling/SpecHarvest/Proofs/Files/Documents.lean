import Mathlib.Algebra.GroupWithZero.Nat
import SpecHarvest.Proofs.Files.Harvest
import SpecHarvest.Proofs.Json.String

/-!
# The documents that an extraction leaves

* `file_of_pretty_eq`, `pretty_toJson_ne_stats`, `pretty_toJson_ne_array`: the text of a document
  tells which file it is from, and is not that of the statistics or of the flagged tests.
* `Written.read_iff`: after an extraction into an empty directory an entry holds what was written to
  it last.
* `holds_document_iff`: which documents are still there in the end, and that the statistics count
  them if no two files have the same name.
* `specPaths_harvest`: which of them a replay loads.
-/

namespace SpecHarvest

open Text
open Json (Value)

/-! ## Texts of documents -/

namespace Json.Value

/-- The text of an object tells its first key. -/
theorem pretty_object_inj {k l : Text} {v w : Value} {fs gs : List (Text × Value)}
    (h : (object ((k, v) :: fs)).pretty = (object ((l, w) :: gs)).pretty) :
    k = l ∧ prettyAt 1 v ++ prettyFields 0 fs = prettyAt 1 w ++ prettyFields 0 gs := by
  simp only [pretty, prettyAt, List.cons_append, List.cons_inj_right, List.append_assoc,
    List.append_cancel_left_eq] at h
  obtain ⟨hkey, hrest⟩ := renderString_append_inj h
  exact ⟨hkey, by simpa using hrest⟩

theorem pretty_array_ne_object (vs : List Value) (fs : List (Text × Value)) :
    (array vs).pretty ≠ (object fs).pretty := by
  cases vs <;> cases fs <;> simp [pretty, prettyAt]

end Json.Value

theorem file_of_pretty_eq {a b : SpecDocument} (h : a.toJson.pretty = b.toJson.pretty) :
    a.file = b.file := by
  obtain ⟨-, hrest⟩ := Json.Value.pretty_object_inj h
  simp only [Json.Value.prettyAt] at hrest
  exact (Json.renderString_append_inj hrest).1

theorem pretty_toJson_ne_stats (a : SpecDocument) (s : Stats) :
    a.toJson.pretty ≠ s.toJson.pretty := by
  intro h
  exact absurd (String.toList_inj.1 (Json.Value.pretty_object_inj h).1) (by decide)

theorem pretty_toJson_ne_array (a : SpecDocument) (vs : List Value) :
    a.toJson.pretty ≠ (Value.array vs).pretty :=
  (Json.Value.pretty_array_ne_object vs _).symm

/-! ## The statistics -/

theorem statsOf_concat (hs : List Harvested) (h : Harvested) :
    statsOf (hs ++ [h]) = (statsOf hs).record h.stem h.extraction := by
  rw [statsOf, List.foldl_append]
  rfl

/-- The statistics count the spec files and their test cases. -/
theorem totals_statsOf (hs : List Harvested) : (statsOf hs).totalFiles = hs.length ∧
    (statsOf hs).totalTests = (hs.map (·.extraction.tests.length)).sum := by
  induction hs using List.reverseRecOn with
  | nil => exact ⟨rfl, rfl⟩
  | append_singleton hs h ih =>
    rw [statsOf_concat, Stats.record, List.length_append, List.map_append, List.sum_append]
    exact ⟨congrArg (· + 1) ih.1, by simp [ih.2]⟩

/-! ## What entries hold -/

namespace Disk

/-- Whether an entry of a directory holds a text. -/
def Holds (d : Disk) (dir : Path) (s : Text) : Prop :=
  ∃ names, d.names dir = .ok names ∧ ∃ name ∈ names, d.read (dir.join name) = .ok s

/-- The document of a spec file of a directory. -/
def document (d : Disk) (dir : Path) (source : Text × Text) : SpecDocument :=
  (Harvested.ofSource (d.configs dir) source.1 source.2).extraction.toDocument

/-- The names of the files that an extraction writes for a directory. -/
def outputNames (d : Disk) (dir : Path) : List Text :=
  (d.sources dir).map (outputName ·.1) ++ [flaggedName, statsName]

/-- Whether nothing that is written after the document of a spec file has its name. -/
def IsLast (d : Disk) (dir : Path) (source : Text × Text) : Prop :=
  outputName source.1 ≠ flaggedName ∧ outputName source.1 ≠ statsName ∧
    ∀ other ∈ d.sources dir, outputName other.1 = outputName source.1 →
      notAfter other.1 source.1 = true

end Disk

variable {d d' : Disk} {dir output : Path} {r : HarvestReport}

namespace Written

variable {written rest : List Artifact}

theorem names (h : Written output [] written rest r d') :
    d'.names output = .ok ((Assoc.ofList (written.map Artifact.entry)).map (·.1)) :=
  Disk.names_eq_ok_iff.2 ⟨_, h.entries, rfl⟩

/-- An entry is the text of a file that was written under its name. -/
theorem exists_of_get? {name : Text} {t : FileTree}
    (h : Assoc.get? name (Assoc.ofList (written.map Artifact.entry)) = some t) :
    ∃ a ∈ written, a.name = name ∧ .file (.text a.content.pretty) = t := by
  obtain ⟨a, ha, hentry⟩ := List.mem_map.1 (Assoc.mem_of_mem_ofList (Assoc.mem_of_get? h))
  obtain ⟨hname, htext⟩ := Prod.mk.inj hentry
  exact ⟨a, ha, hname, htext⟩

/-- An entry holds what was written last under its name. -/
theorem read_iff {name s : Text} (h : Written output [] written rest r d')
    (hn : IsEntryName name) : d'.read (output.join name) = .ok s ↔
      Assoc.get? name (Assoc.ofList (written.map Artifact.entry)) = some (.file (.text s)) := by
  rw [Disk.read_join_iff h.entries hn]
  refine ⟨And.right, fun hget => ⟨?_, hget⟩⟩
  obtain ⟨a, ha, rfl, -⟩ := exists_of_get? hget
  exact h.fits a ha

theorem holds_iff {s : Text} (h : Written output [] written rest r d')
    (hn : ∀ a ∈ written, IsEntryName a.name) : d'.Holds output s ↔
      ∃ name, Assoc.get? name (Assoc.ofList (written.map Artifact.entry)) =
        some (.file (.text s)) := by
  have hkey : ∀ name ∈ (Assoc.ofList (written.map Artifact.entry)).map (·.1),
      IsEntryName name := by
    intro name hname
    rw [Assoc.mem_map_fst_ofList, List.map_map] at hname
    obtain ⟨a, ha, rfl⟩ := List.mem_map.1 hname
    exact hn a ha
  constructor
  · rintro ⟨names, hnames, name, hname, hread⟩
    obtain rfl := Except.ok.inj (h.names.symm.trans hnames)
    exact ⟨name, (h.read_iff (hkey name hname)).1 hread⟩
  · rintro ⟨name, hget⟩
    have hname := List.mem_map_of_mem (f := (·.1)) (Assoc.mem_of_get? hget)
    exact ⟨_, h.names, name, hname, (h.read_iff (hkey name hname)).2 hget⟩

end Written

/-! ## The documents in the end -/

theorem map_name_artifacts (d : Disk) (dir : Path) :
    (artifacts (d.harvested dir)).map Artifact.name = d.outputNames dir := by
  rw [artifacts, List.map_append, Disk.harvested, List.map_map, List.map_map]
  rfl

/-- The statistics and the flagged tests are written after all documents. -/
theorem get?_artifacts (hs : List Harvested) (name : Text) :
    Assoc.get? name (Assoc.ofList ((artifacts hs).map Artifact.entry)) =
      if statsName = name then some (.file (.text (statsOf hs).toJson.pretty))
      else if flaggedName = name then some (.file (.text (flaggedOf hs).pretty))
      else Assoc.get? name (Assoc.ofList (hs.map (·.artifact.entry))) := by
  have hpairs : (artifacts hs).map Artifact.entry =
      (hs.map (·.artifact.entry) ++ [(flaggedName, .file (.text (flaggedOf hs).pretty))]) ++
        [(statsName, .file (.text (statsOf hs).toJson.pretty))] := by
    simp [artifacts, Artifact.entry]
  rw [hpairs, Assoc.ofList_concat, Assoc.get?_set, Assoc.ofList_concat, Assoc.get?_set]

/-- Two spec files of a directory do not have the same document. -/
theorem eq_of_pretty_document_eq {e f : Text × Text} (he : e ∈ d.sources dir)
    (hf : f ∈ d.sources dir)
    (h : (d.document dir e).toJson.pretty = (d.document dir f).toJson.pretty) : e.1 = f.1 := by
  have hfile : specName e.1 = specName f.1 := file_of_pretty_eq h
  obtain ⟨base, hbase⟩ := endsWith_sourceEnd_iff.1 (Disk.mem_sources_iff.1 he).2.1
  obtain ⟨base', hbase'⟩ := endsWith_sourceEnd_iff.1 (Disk.mem_sources_iff.1 hf).2.1
  rw [hbase, hbase', specName_of_source, specName_of_source] at hfile
  rw [hbase, hbase', hfile]

/-- **Of the documents with one name the last is kept.** -/
theorem get?_documents_iff {name : Text} {e : Text × Text} (hd : d.root.WellFormed)
    (he : e ∈ d.sources dir) :
    Assoc.get? name (Assoc.ofList ((d.harvested dir).map (·.artifact.entry))) =
        some (.file (.text (d.document dir e).toJson.pretty)) ↔
      name = outputName e.1 ∧
        ∀ f ∈ d.sources dir, outputName f.1 = outputName e.1 → notAfter f.1 e.1 = true := by
  have hsorted : (d.sources dir).Pairwise _ := Disk.pairwise_sources hd
  have hpairs : (d.harvested dir).map (·.artifact.entry) = (d.sources dir).map fun e =>
      (outputName e.1, .file (.text (d.document dir e).toJson.pretty)) := by
    rw [Disk.harvested, List.map_map]
    rfl
  rw [hpairs, Assoc.get?_ofList_eq_some_iff]
  constructor
  · rintro ⟨front, back, hsplit, hlast⟩
    obtain ⟨before, tail, hsources, rfl, htail⟩ := List.map_eq_append_iff.1 hsplit
    obtain ⟨f, after, rfl, hentry, rfl⟩ := List.map_eq_cons_iff.1 htail
    obtain ⟨rfl, htext⟩ := Prod.mk.inj hentry
    have hf : f ∈ d.sources dir := by simp [hsources]
    simp only [FileTree.file.injEq, Content.text.injEq] at htext
    have hname : f.1 = e.1 := eq_of_pretty_document_eq hf he htext
    refine ⟨by rw [hname], fun g hg hout => ?_⟩
    rw [hsources] at hsorted hg
    rw [← hname]
    rcases List.mem_append.1 hg with hg | hg
    · exact ((List.pairwise_append.1 hsorted).2.2 g hg f List.mem_cons_self).1
    · rcases List.mem_cons.1 hg with rfl | hg
      · exact notAfter_self _
      · refine absurd ?_ hlast
        rw [hname, ← hout, List.map_map]
        exact List.mem_map.2 ⟨g, hg, rfl⟩
  · rintro ⟨rfl, hlast⟩
    obtain ⟨before, after, hsources⟩ := List.append_of_mem he
    refine ⟨_, _, by rw [hsources, List.map_append, List.map_cons], fun hmem => ?_⟩
    rw [List.map_map] at hmem
    obtain ⟨g, hg, hout⟩ := List.mem_map.1 hmem
    rw [hsources] at hsorted
    have hafter := List.rel_of_pairwise_cons (List.pairwise_append.1 hsorted).2.1 hg
    exact hafter.2 (notAfter_antisymm hafter.1 (hlast g (by simp [hsources, hg]) hout))

theorem get?_artifacts_document_iff {name : Text} {e : Text × Text} (hd : d.root.WellFormed)
    (he : e ∈ d.sources dir) :
    Assoc.get? name (Assoc.ofList ((artifacts (d.harvested dir)).map Artifact.entry)) =
        some (.file (.text (d.document dir e).toJson.pretty)) ↔
      name = outputName e.1 ∧ d.IsLast dir e := by
  rw [get?_artifacts]
  by_cases hstats : statsName = name
  · rw [if_pos hstats]
    refine iff_of_false (fun h => ?_) fun h => h.2.2.1 (h.1.symm.trans hstats.symm)
    exact pretty_toJson_ne_stats _ _ (by simpa using h.symm)
  by_cases hflagged : flaggedName = name
  · rw [if_neg hstats, if_pos hflagged]
    refine iff_of_false (fun h => ?_) fun h => h.2.1 (h.1.symm.trans hflagged.symm)
    exact pretty_toJson_ne_array _ _ (by simpa [flaggedOf] using h.symm)
  rw [if_neg hstats, if_neg hflagged, get?_documents_iff hd he]
  refine and_congr_right ?_
  rintro rfl
  exact ⟨fun h => ⟨Ne.symm hflagged, Ne.symm hstats, h⟩, fun h => h.2.2⟩

theorem isLast_of_nodup {e : Text × Text} (h : (d.outputNames dir).Nodup)
    (he : e ∈ d.sources dir) : d.IsLast dir e := by
  obtain ⟨hnodup, -, hdisjoint⟩ := List.nodup_append.1 h
  have hmem := List.mem_map_of_mem (f := fun e : Text × Text => outputName e.1) he
  refine ⟨hdisjoint _ hmem _ (by simp), hdisjoint _ hmem _ (by simp), fun f hf hout => ?_⟩
  rw [List.inj_on_of_nodup_map hnodup hf he hout]
  exact notAfter_self _

theorem length_outputNames :
    (d.outputNames dir).length = (statsOf (d.harvested dir)).totalFiles + 2 := by
  rw [(totals_statsOf _).1]
  simp [Disk.outputNames, Disk.harvested]

/-- After a complete extraction a document is still there exactly if nothing later has its name. -/
theorem Written.holds_document_iff_isLast {e : Text × Text} (hd : d.root.WellFormed)
    (hw : Written output [] (artifacts (d.harvested dir)) [] r d') (he : e ∈ d.sources dir) :
    d'.Holds output (d.document dir e).toJson.pretty ↔ d.IsLast dir e := by
  rw [hw.holds_iff fun a ha => isEntryName_of_mem_artifacts hd ha]
  simp only [get?_artifacts_document_iff hd he, exists_eq_left]

/-- **A document is still there in the end** exactly if nothing that is written later has its name.
The statistics count the documents exactly if no two files that are written have the same name. -/
theorem holds_document_iff (hd : d.root.WellFormed) (he : d.at? output = .ok (.directory []))
    (hrun : harvest Disk.system dir output d = (r, d')) (hr : r.error = none) :
    (∀ e ∈ d.sources dir, d'.Holds output (d.document dir e).toJson.pretty ↔ d.IsLast dir e) ∧
    d'.read (output.join statsName) = .ok (statsOf (d.harvested dir)).toJson.pretty ∧
    ∃ names, d'.names output = .ok names ∧ flaggedName ∈ names ∧ statsName ∈ names ∧
      (names.length = (statsOf (d.harvested dir)).totalFiles + 2 ↔ (d.outputNames dir).Nodup) ∧
      ((d.outputNames dir).Nodup → names = d.outputNames dir ∧
        (∀ e ∈ d.sources dir, d'.read (output.join (outputName e.1)) =
          .ok (d.document dir e).toJson.pretty) ∧
        ((d.sources dir).map fun e => (d.document dir e).tests.length).sum =
          (statsOf (d.harvested dir)).totalTests) := by
  have hw := written_of_harvest hd he hrun hr
  have hkeys :
      ((artifacts (d.harvested dir)).map Artifact.entry).map (·.1) = d.outputNames dir := by
    rw [List.map_map, ← map_name_artifacts]
    rfl
  refine ⟨fun e => hw.holds_document_iff_isLast hd, ?_, _, hw.names, ?_, ?_, ?_,
    fun hnodup => ⟨?_, fun e hmem => ?_, ?_⟩⟩
  · rw [hw.read_iff isEntryName_statsName, get?_artifacts, if_pos rfl]
  · rw [Assoc.mem_map_fst_ofList, hkeys]
    simp [Disk.outputNames]
  · rw [Assoc.mem_map_fst_ofList, hkeys]
    simp [Disk.outputNames]
  · rw [← length_outputNames, ← hkeys, List.length_map, List.length_map,
      Assoc.length_ofList_eq_iff]
  · rw [Assoc.ofList_of_nodup (hkeys ▸ hnodup), hkeys]
  · rw [hw.read_iff (Disk.isEntryName_of_mem_sources hd hmem),
      get?_artifacts_document_iff hd hmem]
    exact ⟨rfl, isLast_of_nodup hnodup hmem⟩
  · rw [(totals_statsOf _).2, Disk.harvested, List.map_map]
    rfl

/-- A spec file with a test and one whose document is not found again. -/
def fooAndBar : Disk.Specs where
  files := [("FooSpec.hs".toList, "it \"x\" $ get \"/\" `shouldRespondWith` 200".toList),
    ("_BarSpec.hs".toList, [])]
  areSpecs := by decide +kernel
  error_eq := by decide +kernel

theorem holds_document_iff_fooAndBar : ∃ r d',
    harvest Disk.system Disk.specsDir Disk.emptyDir (.ofSpecs fooAndBar.files) = (r, d') ∧
      d'.names Disk.emptyDir =
        .ok ["foo.json".toList, "_bar.json".toList, flaggedName, statsName] ∧
      ∀ e ∈ fooAndBar.files, d'.Holds Disk.emptyDir
        ((Disk.ofSpecs fooAndBar.files).document Disk.specsDir e).toJson.pretty := by
  obtain ⟨r, d', hrun, hr⟩ := fooAndBar.exists_harvest
  have hsources := Disk.sources_ofSpecs fooAndBar.areSpecs
  have hout : (Disk.ofSpecs fooAndBar.files).outputNames Disk.specsDir =
      ["foo.json".toList, "_bar.json".toList, flaggedName, statsName] := by
    rw [Disk.outputNames, hsources]
    rfl
  have hnodup : ((Disk.ofSpecs fooAndBar.files).outputNames Disk.specsDir).Nodup := by
    rw [hout]
    decide
  obtain ⟨hholds, -, names, hnames, -, -, -, hall⟩ :=
    holds_document_iff (Disk.wellFormed_ofSpecs fooAndBar.areSpecs) (Disk.at?_emptyDir _) hrun hr
  refine ⟨r, d', hrun, by rw [hnames, (hall hnodup).1, hout], fun e he => ?_⟩
  rw [← hsources] at he
  exact (hholds e he).2 (isLast_of_nodup hnodup he)

/-- Two spec files whose documents have the same name. -/
def fooTwice : Disk.Specs where
  files := [("FooSpec.hs".toList, []), ("fooSpec.hs".toList, [])]
  areSpecs := by decide +kernel
  error_eq := by decide +kernel

/-- **Not every document is still there in the end**: of `fooTwice` the first is written over. -/
theorem not_holds_document : ¬∀ (d d' : Disk) (dir output : Path) (r : HarvestReport),
    d.root.WellFormed → d.at? output = .ok (.directory []) →
    harvest Disk.system dir output d = (r, d') → r.error = none →
    ∀ e ∈ d.sources dir, d'.Holds output (d.document dir e).toJson.pretty := by
  intro h
  have hd := Disk.wellFormed_ofSpecs fooTwice.areSpecs
  obtain ⟨r, d', hrun, hr⟩ := fooTwice.exists_harvest
  obtain ⟨he, hlater⟩ :
      ("FooSpec.hs".toList, []) ∈ (Disk.ofSpecs fooTwice.files).sources Disk.specsDir ∧
        ("fooSpec.hs".toList, []) ∈ (Disk.ofSpecs fooTwice.files).sources Disk.specsDir := by
    rw [Disk.sources_ofSpecs fooTwice.areSpecs]
    decide
  have hw := written_of_harvest hd (Disk.at?_emptyDir _) hrun hr
  have hlast := (hw.holds_document_iff_isLast hd he).1
    (h _ _ _ _ _ hd (Disk.at?_emptyDir _) hrun hr _ he)
  exact absurd (hlast.2.2 _ hlater (by decide)) (by decide)

/-! ## The documents that are found again -/

namespace Written

variable {written rest : List Artifact} {name : Text}

theorem mem_names_iff {names : List Text} (h : Written output [] written rest r d')
    (hnames : d'.names output = .ok names) : name ∈ names ↔ ∃ a ∈ written, a.name = name := by
  obtain rfl := Except.ok.inj (h.names.symm.trans hnames)
  rw [Assoc.mem_map_fst_ofList, List.map_map, List.mem_map]
  rfl

theorem exists_of_read {s : Text} (h : Written output [] written rest r d')
    (hn : IsEntryName name) (hread : d'.read (output.join name) = .ok s) :
    ∃ a ∈ written, a.name = name ∧ a.content.pretty = s := by
  obtain ⟨a, ha, hname, htext⟩ := exists_of_get? ((h.read_iff hn).1 hread)
  exact ⟨a, ha, hname, by simpa using htext⟩

theorem exists_read_of_mem {a : Artifact} (h : Written output [] written rest r d')
    (hn : IsEntryName a.name) (ha : a ∈ written) :
    ∃ b ∈ written, b.name = a.name ∧ d'.read (output.join a.name) = .ok b.content.pretty := by
  have hkey : a.name ∈ (Assoc.ofList (written.map Artifact.entry)).map (·.1) := by
    rw [Assoc.mem_map_fst_ofList]
    exact List.mem_map_of_mem (List.mem_map_of_mem ha)
  obtain ⟨t, hget⟩ := Assoc.exists_get?_of_mem hkey
  obtain ⟨b, hb, hname, rfl⟩ := exists_of_get? hget
  exact ⟨b, hb, hname, (h.read_iff hn).2 hget⟩

end Written

theorem specPaths_system (d : Disk) (dir : Path) {names : List Text}
    (h : d.names dir = .ok names) : specPaths Disk.system dir d =
      (.ok ((sortNames (names.filter isSpecName)).map dir.join), d) := by
  unfold specPaths
  rw [Disk.bind_apply, Disk.system_names, h]
  rfl

theorem isSpecName_flaggedName : isSpecName flaggedName = false := by decide

theorem isSpecName_statsName : isSpecName statsName = false := by decide

/-- A file that is found again is the document of a spec file. -/
theorem exists_source_of_isSpecName {a : Artifact} (ha : a ∈ artifacts (d.harvested dir))
    (hname : isSpecName a.name = true) : ∃ e ∈ d.sources dir, outputName e.1 = a.name ∧
      a.content.pretty = (d.document dir e).toJson.pretty := by
  rw [artifacts, List.mem_append] at ha
  rcases ha with ha | ha
  · obtain ⟨h, hh, rfl⟩ := List.mem_map.1 ha
    obtain ⟨e, he, rfl⟩ := List.mem_map.1 hh
    exact ⟨e, he, rfl, rfl⟩
  · rcases List.mem_cons.1 ha with rfl | ha
    · exact absurd hname (by rw [isSpecName_flaggedName]; decide)
    · rw [List.mem_singleton.1 ha, isSpecName_statsName] at hname
      cases hname

/-- Of the files that were written those with the name of a document are found, each once. -/
theorem Written.specPaths_eq {written rest : List Artifact}
    (h : Written output [] written rest r d') : ∃ names : List Text,
    specPaths Disk.system output d' = (.ok (names.map output.join), d') ∧
      names.Pairwise (fun a b => notAfter a b = true ∧ a ≠ b) ∧
      ∀ name, name ∈ names ↔ (∃ a ∈ written, a.name = name) ∧ isSpecName name = true := by
  refine ⟨_, specPaths_system d' output h.names, ?_, fun name => ?_⟩
  · exact pairwise_sortNames_of_nodup ((Assoc.nodup_ofList _).filter _)
  · rw [sortNames, List.mem_mergeSort, List.mem_filter, h.mem_names_iff h.names]

/-- **A replay finds what an extraction wrote**: if the documents have distinct names, those of the
spec files that do not start with an underscore and have a name before `sourceEnd`, as far as they
were written. -/
theorem specPaths_harvest (hd : d.root.WellFormed) (he : d.at? output = .ok (.directory []))
    (hrun : harvest Disk.system dir output d = (r, d'))
    (hdistinct : ((d.sources dir).map (outputName ·.1)).Nodup) :
    ∃ names : List Text, specPaths Disk.system output d' = (.ok (names.map output.join), d') ∧
      names.Pairwise (fun a b => notAfter a b = true ∧ a ≠ b) ∧
      (∀ name ∈ names, ∃ e ∈ d.sources dir, outputName e.1 = name) ∧
      (∀ e ∈ d.sources dir, outputName e.1 ∈ names ↔
        (startsWith ['_'] e.1 = false ∧ e.1 ≠ sourceEnd) ∧
          d'.read (output.join (outputName e.1)) = .ok (d.document dir e).toJson.pretty) ∧
      (r.error = none → ∀ e ∈ d.sources dir, startsWith ['_'] e.1 = false → e.1 ≠ sourceEnd →
        outputName e.1 ∈ names) ∧
      flaggedName ∉ names ∧ statsName ∉ names := by
  obtain ⟨written, rest, hall, hw⟩ := harvest_system hd he hrun
  have hartifact : ∀ a ∈ written, a ∈ artifacts (d.harvested dir) :=
    fun a ha => hall ▸ List.mem_append_left rest ha
  obtain ⟨names, hpaths, hsorted, hmem⟩ := hw.specPaths_eq
  refine ⟨names, hpaths, hsorted, ?_, ?_, ?_, ?_, ?_⟩
  · intro name hname
    obtain ⟨⟨a, ha, rfl⟩, hspec⟩ := (hmem name).1 hname
    obtain ⟨e, hsource, hout, -⟩ := exists_source_of_isSpecName (hartifact a ha) hspec
    exact ⟨e, hsource, hout⟩
  · intro e hsource
    have hend := (Disk.mem_sources_iff.1 hsource).2.1
    have hentry := Disk.isEntryName_of_mem_sources hd hsource
    rw [hmem, isSpecName_outputName hend, and_comm]
    refine and_congr_right fun hloaded => ⟨?_, fun hread => ?_⟩
    · rintro ⟨a, ha, hname⟩
      obtain ⟨b, hb, hsame, hread⟩ := hw.exists_read_of_mem (hname ▸ hentry) ha
      rw [hname] at hsame hread
      have hspec : isSpecName b.name = true := hsame ▸ (isSpecName_outputName hend).2 hloaded
      obtain ⟨f, hf, hout, htext⟩ := exists_source_of_isSpecName (hartifact b hb) hspec
      have hfe : f = e := List.inj_on_of_nodup_map hdistinct hf hsource (hout.trans hsame)
      rw [hread, htext, hfe]
    · obtain ⟨a, ha, hname, -⟩ := hw.exists_of_read hentry hread
      exact ⟨a, ha, hname⟩
  · intro hr e hsource hunderscore hbase
    obtain rfl := hw.error.1 hr
    rw [List.append_nil] at hall
    rw [hmem, isSpecName_outputName (Disk.mem_sources_iff.1 hsource).2.1]
    refine ⟨⟨(Harvested.ofSource (d.configs dir) e.1 e.2).artifact, ?_, rfl⟩, hunderscore, hbase⟩
    rw [← hall, artifacts, Disk.harvested, List.map_map]
    exact List.mem_append_left _ (List.mem_map_of_mem hsource)
  · rw [hmem, isSpecName_flaggedName]
    simp
  · rw [hmem, isSpecName_statsName]
    simp

theorem specPaths_harvest_fooAndBar : ∃ (r : HarvestReport) (d' : Disk) (names : List Text),
    harvest Disk.system Disk.specsDir Disk.emptyDir (.ofSpecs fooAndBar.files) = (r, d') ∧
      specPaths Disk.system Disk.emptyDir d' = (.ok (names.map Disk.emptyDir.join), d') ∧
      "foo.json".toList ∈ names ∧ "_bar.json".toList ∉ names := by
  obtain ⟨r, d', hrun, hr⟩ := fooAndBar.exists_harvest
  have hsources := Disk.sources_ofSpecs fooAndBar.areSpecs
  have hdistinct :
      (((Disk.ofSpecs fooAndBar.files).sources Disk.specsDir).map (outputName ·.1)).Nodup := by
    rw [hsources]
    decide
  obtain ⟨names, hpaths, -, -, hiff, hall, -⟩ :=
    specPaths_harvest (Disk.wellFormed_ofSpecs fooAndBar.areSpecs) (Disk.at?_emptyDir _) hrun
      hdistinct
  rw [hsources] at hiff hall
  refine ⟨r, d', names, hrun, hpaths, ?_, ?_⟩
  · exact hall hr ("FooSpec.hs".toList, _) List.mem_cons_self (by decide) (by decide)
  · intro hbar
    have hloaded := ((hiff ("_BarSpec.hs".toList, []) (by simp [fooAndBar])).1 hbar).1.1
    exact absurd hloaded (by decide)

/-- Spec files whose documents are not found again. -/
def passedOver : Disk.Specs where
  files := [(sourceEnd, []), ("_FooSpec.hs".toList, [])]
  areSpecs := by decide +kernel
  error_eq := by decide +kernel

/-- **Not every document is found again**, also where their names are distinct. -/
theorem not_mem_specPaths : ¬∀ (d d' : Disk) (dir output : Path) (r : HarvestReport),
    d.root.WellFormed → d.at? output = .ok (.directory []) →
    harvest Disk.system dir output d = (r, d') → r.error = none →
    ((d.sources dir).map (outputName ·.1)).Nodup →
    ∃ names : List Text, specPaths Disk.system output d' = (.ok (names.map output.join), d') ∧
      ∀ e ∈ d.sources dir, outputName e.1 ∈ names := by
  intro h
  have hd := Disk.wellFormed_ofSpecs passedOver.areSpecs
  have hsources := Disk.sources_ofSpecs passedOver.areSpecs
  obtain ⟨r, d', hrun, hr⟩ := passedOver.exists_harvest
  have hw := written_of_harvest hd (Disk.at?_emptyDir _) hrun hr
  obtain ⟨names, hpaths, -, hmem⟩ := hw.specPaths_eq
  -- none of the files that are written has the name of a document
  have hnone : ∀ name ∈ (Disk.ofSpecs passedOver.files).outputNames Disk.specsDir,
      isSpecName name = false := by
    rw [Disk.outputNames, hsources]
    decide
  have hnil : names = [] := by
    refine List.eq_nil_iff_forall_not_mem.2 fun name hname => ?_
    obtain ⟨⟨a, ha, rfl⟩, hspec⟩ := (hmem name).1 hname
    rw [hnone a.name (map_name_artifacts _ _ ▸ List.mem_map_of_mem ha)] at hspec
    cases hspec
  obtain ⟨names', hpaths', hfound⟩ := h _ _ _ _ _ hd (Disk.at?_emptyDir _) hrun hr (by
    rw [hsources]
    decide)
  have hsame := Except.ok.inj (Prod.mk.inj (hpaths'.symm.trans hpaths)).1
  rw [hnil, List.map_nil, List.map_eq_nil_iff] at hsame
  have hin : outputName sourceEnd ∈ names' :=
    hfound (sourceEnd, []) (by rw [hsources]; exact List.mem_cons_self)
  rw [hsame] at hin
  cases hin

end SpecHarvest
