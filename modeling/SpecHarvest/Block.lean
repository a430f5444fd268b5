import SpecHarvest.HeaderExpr
import SpecHarvest.Source.Reader
import SpecHarvest.Text.Offset

/-!
# Blocks

A spec file declares tests (`it`) inside scopes (`describe`, `context`). Indentation alone says what
belongs together.

* `Line.kind` is what a line declares.
* A `Block` is a test: the line that declares it and the lines after it that are blank or indented
  deeper.
* A `Context` holds the scopes that are open and the `let` bindings seen so far. A scope or a test
  closes every scope that is not indented less.
* `segment` gives the blocks of a source, each with the context in which it stands, and the context
  at the end.
-/

namespace SpecHarvest

open Text Source

/-! ## Lines -/

/-- A line of a source. -/
structure Line where
  /-- The number of the line, from 1 on. -/
  number : Nat
  text : Text
  deriving DecidableEq, Repr

/-- The lines of a source. -/
def Line.all (source : Text) : List Line :=
  (lines source).mapIdx fun i text => ⟨i + 1, text⟩

/-- What a line declares. -/
inductive LineKind where
  | binding (name expr : Text)
  | scope (text : Text)
  | test (text : Text)
  | other
  deriving DecidableEq, Repr

namespace Line

/-- Whether a line holds nothing but white space. -/
def isBlank (l : Line) : Bool := allBlank l.text

/-- The number of bytes of white space at the start of a line. -/
def indent (l : Line) : Nat := width (l.text.takeWhile Text.isBlank)

/-- Whether a line belongs to a block whose first line is indented so deep. -/
def continues (depth : Nat) (l : Line) : Bool := l.isBlank || depth < l.indent

/-- Starts of lines that declare nothing. -/
def boilerplate : List Text :=
  ["module ".toList, "import ".toList, ['{', '-', '#'], "--".toList]

/-- The declaration of the spec itself: `spec :: …` or `spec = …`. -/
def isSpecHead (s : Text) : Bool :=
  match word? "spec".toList s with
  | some s => startsWith "::".toList (trimStart s) || startsWith ['='] (trimStart s)
  | none => false

/-- `let name = expression` -/
def binding? (s : Text) : Option LineKind := do
  let (name, s) ← identifier? (← blanks? (← word? "let".toList s))
  let s ← after? ['='] (trimStart s)
  if s.isEmpty then none else some (.binding name (trim s))

/-- The text of a declaration: one of the words, white space and a string literal, whose content is
given as written. -/
def declared? (words : List Text) (s : Text) : Option Text := do
  let s ← blanks? (← words.findSome? (after? · s))
  return (← quoted? s).1

/-- What a text, without white space at its start, declares. -/
def kindOf (s : Text) : LineKind :=
  if boilerplate.any (startsWith · s) || isSpecHead s then .other
  else
    ((binding? s).or
      (((declared? ["describe".toList, "context".toList] s).map .scope).or
        ((declared? ["it".toList] s).map .test))).getD .other

/-- What a line declares. -/
def kind (l : Line) : LineKind := kindOf (trimStart l.text)

end Line

/-! ## Blocks and their context -/

/-- An open scope. -/
structure Scope where
  indent : Nat
  text : Text
  deriving DecidableEq, Repr

/-- The open scopes, outermost first, and the bindings seen so far. -/
structure Context where
  scopes : List Scope
  bindings : Bindings
  deriving DecidableEq, Repr

namespace Context

/-- No scopes and no bindings. -/
def empty : Context := ⟨[], []⟩

/-- The context with the innermost scopes closed that are not indented less. -/
def close (depth : Nat) (c : Context) : Context :=
  { c with scopes := (c.scopes.reverse.dropWhile fun s => depth ≤ s.indent).reverse }

/-- The context with a scope opened. -/
def openScope (depth : Nat) (text : Text) (c : Context) : Context :=
  let c := c.close depth
  { c with scopes := c.scopes ++ [⟨depth, text⟩] }

/-- The context with a binding, which replaces an earlier one of the name. -/
def bind (name expr : Text) (c : Context) : Context :=
  { c with bindings := Assoc.set name expr c.bindings }

end Context

/-- A test as it stands in the source. -/
structure Block where
  /-- The texts of the enclosing scopes, outermost first, and of the test, as written. -/
  description : List Text
  /-- The lines of the test. -/
  text : Text
  /-- The number of the line that declares the test. -/
  line : Nat
  deriving DecidableEq, Repr

/-- The block of a test in a context, from the line that declares it and the lines that belong to
it. -/
def Block.of (c : Context) (text : Text) (head : Line) (body : List Line) : Block where
  description := c.scopes.map (·.text) ++ [text]
  text := unlines ((head :: body).map (·.text))
  line := head.number

/-- The blocks of lines, each with its context, and the context at the end. -/
def segmentLines (c : Context) : List Line → List (Block × Context) × Context
  | [] => ([], c)
  | l :: ls =>
    match l.kind with
    | .other => segmentLines c ls
    | .binding name expr => segmentLines (c.bind name expr) ls
    | .scope text => segmentLines (c.openScope l.indent text) ls
    | .test text =>
      let c := c.close l.indent
      let block := Block.of c text l (ls.takeWhile (·.continues l.indent))
      let (blocks, last) := segmentLines c (ls.dropWhile (·.continues l.indent))
      ((block, c) :: blocks, last)
termination_by ls => ls.length
decreasing_by
  all_goals simp only [List.length_cons]
  all_goals first
    | omega
    | exact Nat.lt_succ_of_le (List.dropWhile_suffix _).length_le

/-- The blocks of a source, each with its context, and the context at the end. -/
def segment (source : Text) : List (Block × Context) × Context :=
  segmentLines .empty (Line.all source)

end SpecHarvest
