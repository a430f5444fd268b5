import SpecHarvest.Text.Basic

/-!
# File systems

* `IoCause` says why the file system refuses an operation.
* `FileSystem m` is what the commands need of a file system whose operations run in `m`.
* `Path.join` names an entry of a directory, and `sortNames` sorts names by code points.
-/

namespace SpecHarvest

open Text

/-- Why the file system refuses an operation. -/
inductive IoCause where
  | notFound
  | alreadyExists
  | notADirectory
  | isADirectory
  | nameTooLong
  /-- A file that is read as text is none. -/
  | notText
  | other (text : Text)
  deriving DecidableEq, Repr

/-- The wording of a cause. -/
def IoCause.message : IoCause → Text
  | .notFound => "No such file or directory (os error 2)".toList
  | .alreadyExists => "File exists (os error 17)".toList
  | .notADirectory => "Not a directory (os error 20)".toList
  | .isADirectory => "Is a directory (os error 21)".toList
  | .nameTooLong => "File name too long (os error 36)".toList
  | .notText => "stream did not contain valid UTF-8".toList
  | .other text => text

/-- Names of files and directories, with slashes between the parts. -/
abbrev Path := Text

/-- The path of an entry of a directory. -/
def Path.join (dir : Path) (name : Text) : Path :=
  if dir.isEmpty || endsWith ['/'] dir then dir ++ name else dir ++ '/' :: name

/-- The last part of a path. -/
def Path.name (p : Path) : Text := (pieces (· == '/') p).getLast?.getD []

/-- The operations of a file system. -/
structure FileSystem (m : Type → Type) where
  /-- The names of the entries of a directory, in any order. -/
  names : Path → m (Except IoCause (List Text))
  /-- The text of a file. -/
  read : Path → m (Except IoCause Text)
  /-- Whether there is a file or directory. -/
  isPresent : Path → m Bool
  /-- Makes a directory, and those above it, unless it is there already. -/
  makeDirectories : Path → m (Except IoCause Unit)
  /-- Gives a file a text; the directory that holds it must be there. -/
  write : Path → Text → m (Except IoCause Unit)

/-- The order of texts by their code points. -/
def notAfter : Text → Text → Bool
  | [], _ => true
  | _ :: _, [] => false
  | c :: s, d :: t => c.toNat < d.toNat || (c == d && notAfter s t)

/-- Names in increasing order. -/
def sortNames (names : List Text) : List Text := names.mergeSort notAfter

end SpecHarvest
