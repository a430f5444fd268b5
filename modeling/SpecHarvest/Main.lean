import SpecHarvest.CommandLine

/-!
# The program

The file system and the standard streams of the operating system, and `main`. Requests can only be
answered by a service inside the process, so a replay reports that the target is not reached.
-/

namespace SpecHarvest

/-- The cause that the operating system reports. -/
def causeOf (e : IO.Error) : IoCause :=
  match e with
  | .noFileOrDirectory .. => .notFound
  | .alreadyExists .. => .alreadyExists
  | .inappropriateType _ code details =>
    if code = 20 then .notADirectory else if code = 21 then .isADirectory else .other details.toList
  | e => .other e.toString.toList

/-- The result of an operation, with the cause if it fails. -/
def attempt {α : Type} (act : IO α) : IO (Except IoCause α) := do
  try return .ok (← act) catch e => return .error (causeOf e)

/-- The name of a file for the operating system. -/
def osPath (p : Path) : String := String.ofList p

/-- The file system of the operating system. -/
def osFiles : FileSystem IO where
  names p := attempt do
    let entries ← (← IO.FS.realPath (osPath p)).readDir
    return entries.toList.map (·.fileName.toList)
  read p := do
    match ← attempt (IO.FS.readBinFile (osPath p)) with
    | .error cause => return .error cause
    | .ok bytes =>
      match String.fromUTF8? bytes with
      | some s => return .ok s.toList
      | none => return .error .notText
  isPresent p := do
    match ← attempt (IO.FS.realPath (osPath p)) with
    | .ok path => path.pathExists
    | .error _ => return false
  makeDirectories p := attempt (IO.FS.createDirAll (osPath p))
  write p s := attempt (IO.FS.writeFile (osPath p) (String.ofList s))

/-- No service is reached. -/
def noService (_target : Text) : Service := fun _ => .error "the target is not reached".toList

end SpecHarvest

open SpecHarvest in
/-- Runs the command that the arguments name. -/
def main (args : List String) : IO UInt32 := do
  let c ← runArguments osFiles noService (args.map String.toList)
  IO.print (String.ofList c.output)
  match c.ending with
  | .success => pure ()
  | .failures note => IO.eprintln (String.ofList note)
  | .error message => IO.eprintln ("specport error: " ++ String.ofList message)
  | .usage => IO.eprintln ("usage: " ++ String.ofList usage)
  return c.ending.status.toUInt32
