import SpecHarvest.Files.System
import SpecHarvest.Replay.Run
import SpecHarvest.Replay.Settings

/-!
# Replay of a directory

* `specPaths` lists the documents of a directory, `loadSpecs` reads those that take part.
* `loadOptions` combines a settings file with options that override it.
* `replayDirectory` replays the documents of a directory; `ReplayError` says why it cannot.
-/

namespace SpecHarvest

open Text

/-- Why a replay cannot start. -/
inductive ReplayError where
  | unreadable (path : Path) (cause : IoCause)
  | invalidSpec (path : Path)
  | invalidSettings (path : Path)
  | noTarget
  deriving DecidableEq, Repr

/-- The wording of an error. The cause of an unreadable file is given twice. -/
def ReplayError.message : ReplayError → Text
  | .unreadable path cause =>
    "cannot read ".toList ++ path ++ ": ".toList ++ cause.message ++ ": ".toList ++ cause.message
  | .invalidSpec path => "invalid spec JSON in ".toList ++ path
  | .invalidSettings path => "invalid replay config in ".toList ++ path
  | .noTarget =>
    "no target configured: pass --target or set `target` in the config file".toList

/-- Whether a name is that of a document: it ends in `.json`, with something before that, and does
not start with an underscore, as the other files of an extraction do. -/
def isSpecName (name : Text) : Bool :=
  !startsWith ['_'] name && (before? ".json".toList name).any (!·.isEmpty)

section

variable {m : Type → Type} [Monad m]

/-- The paths of the documents of a directory, sorted by name. -/
def specPaths (fs : FileSystem m) (dir : Path) : m (Except ReplayError (List Path)) := do
  match ← fs.names dir with
  | .ok names => return .ok ((sortNames (names.filter isSpecName)).map dir.join)
  | .error cause => return .error (.unreadable dir cause)

/-- The document of a file. -/
def readSpec (fs : FileSystem m) (path : Path) : m (Except ReplayError SpecDocument) := do
  match ← fs.read path with
  | .error cause => return .error (.unreadable path cause)
  | .ok s =>
    match SpecDocument.parse? s with
    | some d => return .ok d
    | none => return .error (.invalidSpec path)

/-- Whether a document takes part in a replay. -/
def ReplayOptions.includes (o : ReplayOptions) (d : SpecDocument) : Bool :=
  o.includesFile d.file && !o.skipsConfig d.config

/-- The documents of files that take part. Every file must be readable. -/
def readSpecs (fs : FileSystem m) (o : ReplayOptions) :
    List Path → m (Except ReplayError (List SpecDocument))
  | [] => return .ok []
  | path :: paths => do
    match ← readSpec fs path with
    | .error e => return .error e
    | .ok d =>
      match ← readSpecs fs o paths with
      | .error e => return .error e
      | .ok ds => return .ok (if o.includes d then d :: ds else ds)

/-- The documents of a directory that take part. -/
def loadSpecs (fs : FileSystem m) (dir : Path) (o : ReplayOptions) :
    m (Except ReplayError (List SpecDocument)) := do
  match ← specPaths fs dir with
  | .error e => return .error e
  | .ok paths => readSpecs fs o paths

/-- The options of a settings file, if one is given, overridden by others. -/
def loadOptions (fs : FileSystem m) (settings : Option Path) (over_ : ReplayOptions) :
    m (Except ReplayError ReplayOptions) := do
  match settings with
  | none => return .ok over_
  | some path =>
    match ← fs.read path with
    | .error cause => return .error (.unreadable path cause)
    | .ok s =>
      match ReplayOptions.ofSettings? s with
      | none => return .error (.invalidSettings path)
      | some o => return .ok (o.merge over_)

/-- Replays the documents of a directory against the service at the target. -/
def replayDirectory (fs : FileSystem m) (service : Text → Service) (dir : Path)
    (settings : Option Path) (over_ : ReplayOptions) : m (Except Text Run) := do
  match ← loadOptions fs settings over_ with
  | .error e => return .error e.message
  | .ok o =>
    match o.target with
    | none => return .error ReplayError.noTarget.message
    | some target =>
      match ← loadSpecs fs dir o with
      | .error e =>
        return .error ("replay of ".toList ++ dir ++ " failed: ".toList ++ e.message)
      | .ok docs => return .ok (replay (service target) o docs)

end

end SpecHarvest
