import SpecHarvest.Files.Harvest
import SpecHarvest.Files.Replay

/-!
# The command line

* `Command.parse?` reads the arguments: the flags `--quiet` and `--verbose` with their short forms,
  and the commands `extract` and `replay` with their operands and options.
* `Command.run` carries a command out, and `runArguments` does both. A `Completion` says what the
  program prints and how it exits.
-/

namespace SpecHarvest

open Text

/-! ## Arguments -/

/-- The directory of spec files if none is given. -/
def defaultSources : Path := "./upstream".toList

/-- The directory of documents if none is given. -/
def defaultSpecs : Path := "./specs".toList

/-- What the program is asked to do. -/
inductive Command where
  | extract (sources output : Path)
  | replay (specs : Path) (settings : Option Path) (options : ReplayOptions)
  | help
  deriving DecidableEq, Repr

/-- A command and whether it prints no report. -/
structure Invocation where
  quiet : Bool
  command : Command
  deriving DecidableEq, Repr

/-- The arguments of one command: flags, options with their values, and operands. -/
structure Arguments where
  quiet : Bool
  verbose : Bool
  help : Bool
  options : List (Text × Text)
  operands : List Text

namespace Arguments

/-- No arguments. -/
def empty : Arguments := ⟨false, false, false, [], []⟩

/-- One flag added, by its letter. A flag may not be given twice. -/
def addLetter? (a : Arguments) (c : Char) : Option Arguments :=
  if c = 'q' then if a.quiet then none else some { a with quiet := true }
  else if c = 'v' then if a.verbose then none else some { a with verbose := true }
  else if c = 'h' then some { a with help := true }
  else none

/-- One flag added, by its name without hyphens. -/
def addFlag? (a : Arguments) (name : Text) : Option Arguments :=
  if name = "quiet".toList then a.addLetter? 'q'
  else if name = "verbose".toList then a.addLetter? 'v'
  else if name = "help".toList then a.addLetter? 'h'
  else none

/-- The arguments of a command, given the names of its options. After `--` all are operands. -/
def parse? (names : List Text) (a : Arguments) : List Text → Option Arguments
  | [] => some a
  | arg :: args =>
    match after? "--".toList arg with
    | some [] => some { a with operands := a.operands ++ args }
    | some name =>
      match cut? ['='] name with
      | some (name, value) =>
        if names.contains name then
          parse? names { a with options := a.options ++ [(name, value)] } args
        else none
      | none =>
        if names.contains name then
          match args with
          | value :: args =>
            if startsWith ['-'] value && value.length != 1 then none
            else parse? names { a with options := a.options ++ [(name, value)] } args
          | [] => none
        else (a.addFlag? name).bind fun a => parse? names a args
    | none =>
      match arg with
      | '-' :: c :: cs => ((c :: cs).foldlM addLetter? a).bind fun a => parse? names a args
      | _ => parse? names { a with operands := a.operands ++ [arg] } args

/-- The values of an option, in order. -/
def values (a : Arguments) (name : String) : List Text :=
  (a.options.filter (·.1 == name.toList)).map (·.2)

/-- The values of an option whose values are lists with commas. -/
def listed (a : Arguments) (name : String) : List Text :=
  (a.values name).flatMap (pieces (· == ','))

/-- The value of an option that may be given once. -/
def single? (a : Arguments) (name : String) : Option (Option Text) :=
  match a.values name with
  | [] => some none
  | [v] => some (some v)
  | _ => none

end Arguments

namespace Command

/-- The options of a replay. -/
def replayOptions : List Text :=
  ["target".toList, "config".toList, "only".toList, "skip".toList, "skip-test".toList,
    "skip-configs".toList]

/-- A path, which may not be empty. -/
def path? (p : Text) : Option Path := if p.isEmpty then none else some p

/-- An extraction. -/
def extract? (a : Arguments) : Option Command :=
  match a.operands with
  | [] => some (.extract defaultSources defaultSpecs)
  | [s] => do return .extract (← path? s) defaultSpecs
  | [s, o] => do return .extract (← path? s) (← path? o)
  | _ => none

/-- A replay. -/
def replay? (a : Arguments) : Option Command := do
  let specs ←
    match a.operands with
    | [] => some defaultSpecs
    | [s] => path? s
    | _ => none
  let settings ←
    match ← a.single? "config" with
    | none => some none
    | some p => (path? p).map some
  return .replay specs settings {
    target := ← a.single? "target"
    only := a.listed "only"
    skip := a.listed "skip"
    skipTests := a.values "skip-test"
    skipConfigs := a.listed "skip-configs" }

/-- The arguments before the name of the command, and those from the name on. -/
def flagsBefore (args : List Text) : List Text × List Text := args.span (startsWith ['-'])

/-- What the arguments ask for; none if they ask for nothing that there is. -/
def parse? (args : List Text) : Option Invocation := do
  let (flags, rest) := flagsBefore args
  let flags ← Arguments.parse? [] .empty flags
  if flags.help then return ⟨false, .help⟩
  if (flags.quiet && flags.verbose) || !flags.operands.isEmpty then none
  else
    match rest with
    | [] => none
    | name :: rest =>
      if name = "help".toList then return ⟨false, .help⟩
      else if name = "extract".toList then
        let a ← Arguments.parse? [] .empty rest
        if a.help then return ⟨false, .help⟩
        else if a.quiet && a.verbose then none
        else return ⟨flags.quiet || a.quiet, ← extract? a⟩
      else if name = "replay".toList then
        let a ← Arguments.parse? replayOptions .empty rest
        if a.help then return ⟨false, .help⟩
        else if a.quiet && a.verbose then none
        else return ⟨flags.quiet || a.quiet, ← replay? a⟩
      else none

end Command

/-! ## Execution -/

/-- How the program ends. -/
inductive Ending where
  /-- All went well. -/
  | success
  /-- Tests failed, which the note counts. -/
  | failures (note : Text)
  /-- The command could not be carried out. -/
  | error (message : Text)
  /-- The arguments ask for nothing that there is. -/
  | usage
  deriving DecidableEq, Repr

/-- The exit status of an ending. -/
def Ending.status : Ending → Nat
  | .success => 0
  | .failures _ => 1
  | .error _ => 1
  | .usage => 2

/-- What the program prints and how it ends. -/
structure Completion where
  output : Text
  ending : Ending
  deriving DecidableEq, Repr

/-- The error message of a completion. -/
def Completion.message? (c : Completion) : Option Text :=
  match c.ending with
  | .error m => some m
  | _ => none

/-- The completion of an extraction. -/
def HarvestReport.completion (quiet : Bool) (r : HarvestReport) : Completion where
  output := if quiet then [] else r.output
  ending :=
    match r.error with
    | none => .success
    | some e => .error e.message

/-- The completion of a replay. -/
def Run.completion (r : Run) : Completion :=
  let s := Tap.summary r.entries
  { output := Tap.render r.entries
    ending :=
      if s.fail = 0 then .success
      else .failures (ofNat s.fail ++ " failed, ".toList ++ ofNat s.pass ++ " passed, ".toList ++
        ofNat s.skip ++ " skipped".toList) }

/-- How the program is called. -/
def usage : Text :=
  "extract [SOURCES] [OUTPUT]\n".toList ++
    "replay [SPECS] [--target URL] [--config FILE] [--only NAMES] [--skip NAMES]".toList ++
    " [--skip-test TEXT] [--skip-configs NAMES]\n".toList

/-- Carries a command out. -/
def Invocation.run {m : Type → Type} [Monad m] (fs : FileSystem m) (service : Text → Service)
    (i : Invocation) : m Completion := do
  match i.command with
  | .help => return ⟨usage, .success⟩
  | .extract sources output => return (← harvest fs sources output).completion i.quiet
  | .replay specs settings options =>
    match ← replayDirectory fs service specs settings options with
    | .ok r => return r.completion
    | .error message => return ⟨[], .error message⟩

/-- Carries out what the arguments ask for. -/
def runArguments {m : Type → Type} [Monad m] (fs : FileSystem m) (service : Text → Service)
    (args : List Text) : m Completion :=
  match Command.parse? args with
  | some i => i.run fs service
  | none => return ⟨[], .usage⟩

end SpecHarvest
