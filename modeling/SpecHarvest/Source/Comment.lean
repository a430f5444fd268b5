import SpecHarvest.Source.Literal

/-!
# Line comments

A comment runs from `--` to the end of its line. Two hyphens inside a string literal or a
quasi-literal start none. A quasi-literal may go on over lines, so a line is read in the state in
which the line before it ends; a string literal ends with its line.

* `stripLine` is one line without its comment, and whether a quasi-literal is open at its end.
* `stripComments` is a whole text without comments.
-/

namespace SpecHarvest.Source

/-- Where a place of a line lies. -/
inductive Region where
  | code
  | literal
  | quasi
  deriving DecidableEq, Repr

/-- Whether a quasi-literal is open. -/
def Region.isQuasi : Region → Bool
  | .quasi => true
  | _ => false

/-- A line, or the rest of one, without its comment, and the region at its end. -/
def stripFrom : Region → Text → Text × Region
  | r, [] => ([], r)
  | .quasi, '|' :: ']' :: s =>
    let (kept, r) := stripFrom .code s
    ('|' :: ']' :: kept, r)
  | .quasi, c :: s =>
    let (kept, r) := stripFrom .quasi s
    (c :: kept, r)
  | .literal, '\\' :: c :: s =>
    let (kept, r) := stripFrom .literal s
    ('\\' :: c :: kept, r)
  | .literal, c :: s =>
    let (kept, r) := stripFrom (if c = '"' then .code else .literal) s
    (c :: kept, r)
  | .code, '-' :: '-' :: _ => ([], .code)
  | .code, '[' :: 'j' :: 's' :: 'o' :: 'n' :: '|' :: s =>
    let (kept, r) := stripFrom .quasi s
    ('[' :: 'j' :: 's' :: 'o' :: 'n' :: '|' :: kept, r)
  | .code, c :: s =>
    let (kept, r) := stripFrom (if c = '"' then .literal else .code) s
    (c :: kept, r)

/-- A line without its comment, and whether a quasi-literal is open at its end, given whether one
is open at its start. -/
def stripLine (inQuasi : Bool) (line : Text) : Text × Bool :=
  let (kept, r) := stripFrom (if inQuasi then .quasi else .code) line
  (kept, r.isQuasi)

/-- Successive lines without their comments. -/
def stripLines : (inQuasi : Bool) → List Text → List Text
  | _, [] => []
  | q, line :: lines => (stripLine q line).1 :: stripLines (stripLine q line).2 lines

/-- A text without its comments. -/
def stripComments (s : Text) : Text := Text.unlines (stripLines false (Text.lines s))

end SpecHarvest.Source
