import SpecHarvest.ConfigMap
import SpecHarvest.Files.System
import SpecHarvest.Stats

/-!
# Extraction of a directory

`harvest` reads the spec files of a directory and writes a document for each of them, the list of
flagged tests and the statistics into another. A file that is not readable is passed over.

* `sourceNames` and `documentName` name the files that are read and written.
* `Harvested` is what one file yields, and `artifacts` are the files to be written, in order, each
  with the text that reports it.
* `HarvestError` says why the extraction ends early.
-/

namespace SpecHarvest

open Text

/-! ## Names -/

/-- The end of the names of spec files. -/
def sourceEnd : Text := "Spec.hs".toList

/-- The spec files among the names of a directory, in increasing order. -/
def sourceNames (names : List Text) : List Text := sortNames (names.filter (endsWith sourceEnd))

/-- The name of a spec file without its ending. -/
def stemOf (name : Text) : Text := (before? ".hs".toList name).getD name

/-- A name in lower case, with hyphens where a lower-case letter was followed by an upper-case
one. -/
def hyphenate : (afterLower : Bool) → Text → Text
  | _, [] => []
  | afterLower, c :: s =>
    (if afterLower && c.isUpper then ['-', c.toLower] else [c.toLower]) ++ hyphenate c.isLower s

/-- The name of the document of a spec, without its ending. -/
def kebabName (stem : Text) : Text := hyphenate false ((before? "Spec".toList stem).getD stem)

/-- The name of the document of a spec. -/
def documentName (stem : Text) : Text := kebabName stem ++ ".json".toList

/-- The name of the list of flagged tests. -/
def flaggedName : Text := "_flagged.json".toList

/-- The name of the statistics. -/
def statsName : Text := "_stats.json".toList

/-! ## What is written -/

/-- What one spec file yields. -/
structure Harvested where
  stem : Text
  extraction : Extraction
  deriving Repr

/-- What a spec file with a text yields. -/
def Harvested.ofSource (configs : ConfigMap) (name source : Text) : Harvested :=
  ⟨stemOf name, .ofSource name source (configs.configFor (stemOf name))⟩

/-- A file to be written and the text that reports it. -/
structure Artifact where
  name : Text
  content : Json.Value
  report : Text
  deriving Repr

/-- The statistics of spec files. -/
def statsOf (hs : List Harvested) : Stats :=
  hs.foldl (fun s h => s.record h.stem h.extraction) .empty

/-- The flagged tests of spec files. -/
def flaggedOf (hs : List Harvested) : Json.Value :=
  .array (hs.flatMap fun h => h.extraction.flagged.map (FlaggedTest.toJson h.stem))

/-- The document of a spec file. -/
def Harvested.artifact (h : Harvested) : Artifact where
  name := documentName h.stem
  content := h.extraction.toDocument.toJson
  report := h.stem ++ ": ".toList ++ ofNat h.extraction.tests.length ++ " tests, ".toList ++
    ofNat h.extraction.flagged.length ++ " flagged\n".toList

/-- The report of a whole extraction. -/
def totalReport (s : Stats) : Text :=
  "\nTotal: ".toList ++ ofNat s.totalTests ++ " tests, ".toList ++ ofNat s.totalFlagged ++
    " flagged across ".toList ++ ofNat s.totalFiles ++ " files\n".toList

/-- The files to be written for spec files. -/
def artifacts (hs : List Harvested) : List Artifact :=
  hs.map Harvested.artifact ++
    [⟨flaggedName, flaggedOf hs, []⟩, ⟨statsName, (statsOf hs).toJson, totalReport (statsOf hs)⟩]

/-! ## The extraction -/

/-- Why an extraction ends early. -/
inductive HarvestError where
  | main (path : Path) (cause : IoCause)
  | sources (dir : Path) (cause : IoCause)
  | output (dir : Path) (cause : IoCause)
  | write (path : Path) (cause : IoCause)
  deriving DecidableEq, Repr

/-- The wording of an error. -/
def HarvestError.message : HarvestError → Text
  | .main path cause => "cannot read ".toList ++ path ++ ": ".toList ++ cause.message
  | .sources dir cause =>
    "cannot read upstream directory ".toList ++ dir ++ ": ".toList ++ cause.message
  | .output dir cause =>
    "cannot create output directory ".toList ++ dir ++ ": ".toList ++ cause.message
  | .write path cause => "cannot write ".toList ++ path ++ ": ".toList ++ cause.message

/-- What an extraction reports, and why it ended if it did so early. -/
structure HarvestReport where
  output : Text
  error : Option HarvestError
  deriving DecidableEq, Repr

section

variable {m : Type → Type} [Monad m]

/-- The configurations that the main module of a directory sets up; none without a main module. -/
def readConfigs (fs : FileSystem m) (dir : Path) : m (Except HarvestError ConfigMap) := do
  let main := dir.join "Main.hs".toList
  if ← fs.isPresent main then
    match ← fs.read main with
    | .ok s => return .ok (ConfigMap.ofMain s)
    | .error cause => return .error (.main main cause)
  else return .ok []

/-- What the readable ones of the spec files of a directory yield. -/
def readSources (fs : FileSystem m) (configs : ConfigMap) (dir : Path) :
    List Text → m (List Harvested)
  | [] => return []
  | name :: names => do
    let source ← fs.read (dir.join name)
    let rest ← readSources fs configs dir names
    match source with
    | .ok s => return .ofSource configs name s :: rest
    | .error _ => return rest

/-- Writes files into a directory up to the first that cannot be written, and collects the reports
of those that are. -/
def writeArtifacts (fs : FileSystem m) (dir : Path) : List Artifact → m HarvestReport
  | [] => return ⟨[], none⟩
  | a :: as => do
    let path := dir.join a.name
    match ← fs.write path a.content.pretty with
    | .error cause => return ⟨[], some (.write path cause)⟩
    | .ok _ =>
      let rest ← writeArtifacts fs dir as
      return ⟨a.report ++ rest.output, rest.error⟩

/-- Extracts the spec files of a directory into another. -/
def harvest (fs : FileSystem m) (dir output : Path) : m HarvestReport := do
  match ← readConfigs fs dir with
  | .error e => return ⟨[], some e⟩
  | .ok configs =>
    match ← fs.names dir with
    | .error cause => return ⟨[], some (.sources dir cause)⟩
    | .ok names =>
      match ← fs.makeDirectories output with
      | .error cause => return ⟨[], some (.output output cause)⟩
      | .ok _ =>
        let hs ← readSources fs configs dir (sourceNames names)
        writeArtifacts fs output (artifacts hs)

end

end SpecHarvest
