import SpecHarvest.Text.LetterCase

/-!
# HTTP methods

* `Method` has the methods that a test may use, with their names (`name`, `ofName?`).
* `Method.nameOf` is the name that a word of the test language stands for: a helper such as `post`,
  a constant such as `methodPatch`, and any other word in upper case.
-/

namespace SpecHarvest.Http

/-- The methods of requests. -/
inductive Method where
  | get
  | post
  | put
  | patch
  | delete
  | head
  | options
  deriving DecidableEq, Repr

namespace Method

/-- Every method. -/
def all : List Method := [get, post, put, patch, delete, head, options]

/-- The name on the wire. -/
def name : Method → Text
  | get => "GET".toList
  | post => "POST".toList
  | put => "PUT".toList
  | patch => "PATCH".toList
  | delete => "DELETE".toList
  | head => "HEAD".toList
  | options => "OPTIONS".toList

/-- The method with a name. -/
def ofName? (s : Text) : Option Method := all.find? (·.name == s)

/-- Whether a request with this method has a body on the wire. -/
def sendsBody : Method → Bool
  | get | head => false
  | _ => true

/-- Words of the test language that name a method. -/
def aliases : List (Text × Method) := [
  ("get".toList, get), ("post".toList, post), ("patch".toList, patch), ("put".toList, put),
  ("delete".toList, delete), ("methodGet".toList, get), ("methodPost".toList, post),
  ("methodPatch".toList, patch), ("methodPut".toList, put), ("methodDelete".toList, delete),
  ("methodHead".toList, head), ("methodOptions".toList, options)]

/-- The name of the method that a word stands for. -/
def nameOf (word : Text) : Text :=
  match aliases.lookup word with
  | some m => m.name
  | none => Text.upper word

end Method

end SpecHarvest.Http
