import SpecHarvest.Assoc
import SpecHarvest.Files.System
import SpecHarvest.Text.Offset

/-!
# File trees

A file system as a value: directories are association lists, and a file holds a text or bytes that
are none. A `Disk` is such a tree with the place in it that paths start from.

* `FileTree.follow` is the way along a path: every part needs a directory to start from, also the
  parts `.` and `..`.
* `FileTree.makeChain` makes a directory and, where they are missing, the ones above it.
* `Disk.system` has the operations of `FileSystem` on a disk that is the state.
-/

namespace SpecHarvest

open Text

/-- What a file holds. -/
inductive Content where
  | text (t : Text)
  /-- Bytes that are no text in UTF-8. -/
  | binary (bytes : List UInt8)
  deriving DecidableEq, Repr

/-- The content with these bytes. -/
def Content.ofBytes (bytes : List UInt8) : Content :=
  match String.fromUTF8? (ByteArray.mk bytes.toArray) with
  | some s => .text s.toList
  | none => .binary bytes

/-- A file or a directory with all that it holds. -/
inductive FileTree where
  | file (content : Content)
  | directory (entries : List (Text × FileTree))
  deriving Repr

/-! ## Paths -/

namespace Path

/-- The parts of a path between its slashes. -/
def parts (p : Path) : List Text := (pieces (· == '/') p).filter (!·.isEmpty)

/-- The part of a path that stays where it is. -/
def here : Text := ['.']

/-- The part of a path that leads to the directory above. -/
def up : Text := ['.', '.']

/-- Whether a path starts from the root. -/
def isAbsolute (p : Path) : Bool := startsWith ['/'] p

/-- Whether a path ends in a slash, and so can only name a directory. -/
def endsInSlash (p : Path) : Bool := endsWith ['/'] p

/-- How many bytes a path may have. -/
def maxWidth : Nat := 4095

/-- How many bytes a part of a path may have. -/
def maxPartWidth : Nat := 255

/-- The parts of the paths above a path, from the nearest on. Only at its start does `here` count as
a part. -/
def above (parts : List Text) : List (List Text) :=
  let parts := parts.take 1 ++ (parts.drop 1).filter (· ≠ here)
  ((List.range parts.length).drop 1).reverse.map parts.take

end Path

namespace FileTree

/-- A directory that holds nothing. -/
def empty : FileTree := .directory []

/-! ## Places

The place of a file or directory is the list of the names that lead to it, without `.` and `..`. -/

/-- The file or directory at a place. -/
def get : FileTree → List Text → Except IoCause FileTree
  | t, [] => .ok t
  | .file _, _ :: _ => .error .notADirectory
  | .directory es, n :: ns =>
    match Assoc.get? n es with
    | some t => get t ns
    | none => .error .notFound

/-- The tree with a file or directory put at a place, and with the directories that lead there. -/
def put : FileTree → (place : List Text) → (new : FileTree) → FileTree
  | _, [], new => new
  | .file c, _ :: _, _ => .file c
  | .directory es, n :: ns, new =>
    .directory (Assoc.set n (put ((Assoc.get? n es).getD empty) ns new) es)

/-- The place that parts of a path lead to from a place. All places on the way must be directories;
at the last there may be nothing. -/
def follow (t : FileTree) : (place : List Text) → (parts : List Text) →
    Except IoCause (List Text)
  | place, [] => .ok place
  | place, part :: parts =>
    match t.get place with
    | .error e => .error e
    | .ok (.file _) => .error .notADirectory
    | .ok (.directory _) =>
      if Path.maxPartWidth < width part then .error .nameTooLong
      else if part = Path.here then follow t place parts
      else if part = Path.up then follow t place.dropLast parts
      else follow t (place ++ [part]) parts

/-! ## New directories -/

/-- The tree with a new directory where parts of a path lead; the directory that holds it must be
there. -/
def makeDirectory (t : FileTree) (start parts : List Text) : Except IoCause FileTree := do
  let place ← t.follow start parts
  match t.get place with
  | .ok _ => .error .alreadyExists
  | .error _ => .ok (t.put place empty)

/-- Whether parts of a path lead to a directory. -/
def isDirectory (t : FileTree) (start parts : List Text) : Bool :=
  match (t.follow start parts).bind t.get with
  | .ok (.directory _) => true
  | _ => false

/-- A new directory, unless it is there already. -/
def settle (start parts : List Text) (t : FileTree) : Except IoCause Unit × FileTree :=
  match t.makeDirectory start parts with
  | .ok t' => (.ok (), t')
  | .error e => if t.isDirectory start parts then (.ok (), t) else (.error e, t)

/-- Makes the first of several directories, each of which lies in the next. Where one of those is
missing it is made before. -/
def makeChain (start : List Text) : List (List Text) → FileTree → Except IoCause Unit × FileTree
  | [], t => (.ok (), t)
  | parts :: outer, t =>
    match settle start parts t with
    | (.error .notFound, t) =>
      match makeChain start outer t with
      | (.ok (), t) => settle start parts t
      | failed => failed
    | done => done

end FileTree

/-! ## Disks -/

/-- A tree of files and the place that paths start from. -/
structure Disk where
  root : FileTree
  home : List Text
  deriving Repr

namespace Disk

/-- A disk with nothing but the directories that lead to the place that paths start from. -/
def empty (home : List Text) : Disk := ⟨FileTree.empty.put home .empty, home⟩

/-- The place that a path starts from. -/
def start (d : Disk) (p : Path) : List Text := if p.isAbsolute then [] else d.home

/-- The place at the end of a path. -/
def place (d : Disk) (p : Path) : Except IoCause (List Text) :=
  if Path.maxWidth < width p then .error .nameTooLong else d.root.follow (d.start p) p.parts

/-- The file or directory at the end of a path. -/
def at? (d : Disk) (p : Path) : Except IoCause FileTree := do
  let found ← d.root.get (← d.place p)
  match found with
  | .file _ => if p.endsInSlash then .error .notADirectory else .ok found
  | .directory _ => .ok found

/-- The names of the entries of a directory. -/
def names (d : Disk) (p : Path) : Except IoCause (List Text) :=
  match d.at? p with
  | .ok (.directory es) => .ok (es.map (·.1))
  | .ok (.file _) => .error .notADirectory
  | .error e => .error e

/-- The text of a file. -/
def read (d : Disk) (p : Path) : Except IoCause Text :=
  match d.at? p with
  | .ok (.file (.text s)) => .ok s
  | .ok (.file (.binary _)) => .error .notText
  | .ok (.directory _) => .error .isADirectory
  | .error e => .error e

/-- Whether a path leads to a file or directory. -/
def isPresent (d : Disk) (p : Path) : Bool :=
  match d.at? p with
  | .ok _ => true
  | .error _ => false

/-- The disk with a file at the end of a path; the directory that holds it must be there. -/
def write (content : Content) (d : Disk) (p : Path) : Except IoCause Disk := do
  let place ← d.place p
  match d.root.get place with
  | .ok (.directory _) => .error .isADirectory
  | _ =>
    if p.endsInSlash then .error .isADirectory
    else .ok { d with root := d.root.put place (.file content) }

/-- The disk with a directory at the end of a path, and with the ones above it, unless they are
there already. -/
def makeDirectories (d : Disk) (p : Path) : Except IoCause Unit × Disk :=
  if Path.maxWidth < width p then (.error .nameTooLong, d)
  else
    let (result, root) := FileTree.makeChain (d.start p) (p.parts :: Path.above p.parts) d.root
    (result, { d with root := root })

/-- The operations on a disk that is the state. -/
def system : FileSystem (StateM Disk) where
  names p := fun d => (d.names p, d)
  read p := fun d => (d.read p, d)
  isPresent p := fun d => (d.isPresent p, d)
  makeDirectories p := fun d => d.makeDirectories p
  write p s := fun d =>
    match write (.text s) d p with
    | .ok d' => (.ok (), d')
    | .error e => (.error e, d)

end Disk

end SpecHarvest
