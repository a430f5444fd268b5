import SpecHarvest.Source.Literal

/-!
# Delimiters

Brackets are counted outside string literals only.

* `matching?` finds the delimiter that balances an opening one.
* `topLevel` cuts a text at the delimiters that no bracket encloses, and drops a blank last part.
-/

namespace SpecHarvest.Source

/-- The texts before and after the first `close` that balances the `depth` delimiters open before
and the ones opened since. A `close` where none is open, an unclosed literal and the end of the
text give none. -/
def matching? (opened closed : Char) : (depth : Nat) → (inLiteral : Bool) → Text →
    Option (Text × Text)
  | _, _, [] => none
  | n, true, '\\' :: c :: s =>
    (matching? opened closed n true s).map fun (inner, rest) => ('\\' :: c :: inner, rest)
  | n, true, c :: s =>
    (matching? opened closed n (c != '"') s).map fun (inner, rest) => (c :: inner, rest)
  | n, false, c :: s =>
    if c = '"' then
      (matching? opened closed n true s).map fun (inner, rest) => (c :: inner, rest)
    else if c = opened then
      (matching? opened closed (n + 1) false s).map fun (inner, rest) => (c :: inner, rest)
    else if c = closed then
      match n with
      | 0 => none
      | 1 => some ([], s)
      | n + 1 => (matching? opened closed n false s).map fun (inner, rest) => (c :: inner, rest)
    else (matching? opened closed n false s).map fun (inner, rest) => (c :: inner, rest)

/-- What a bracketed text at the front encloses, and the text after the closing bracket. -/
def bracketed? (opened closed : Char) : Text → Option (Text × Text)
  | c :: s => if c = opened then matching? opened closed 1 false s else none
  | [] => none

/-- How one character outside a literal changes the depth of brackets. -/
def depthAfter (depth : Int) (c : Char) : Int :=
  if c == '(' || c == '[' || c == '{' then depth + 1
  else if c == ')' || c == ']' || c == '}' then depth - 1
  else depth

/-- Brackets of the three kinds. -/
def isBracket (c : Char) : Bool := depthAfter 0 c != 0

/-- The parts between the delimiters at depth 0 and outside literals, the empty ones included. -/
def topLevelParts (delim : Char) : (depth : Int) → (inLiteral : Bool) → Text → List Text
  | _, _, [] => [[]]
  | n, true, '\\' :: c :: s =>
    (topLevelParts delim n true s).modifyHead fun part => '\\' :: c :: part
  | n, true, c :: s => (topLevelParts delim n (c != '"') s).modifyHead (c :: ·)
  | n, false, c :: s =>
    if c = '"' then (topLevelParts delim n true s).modifyHead (c :: ·)
    else if isBracket c then (topLevelParts delim (depthAfter n c) false s).modifyHead (c :: ·)
    else if c = delim && n == 0 then [] :: topLevelParts delim n false s
    else (topLevelParts delim n false s).modifyHead (c :: ·)

/-- The parts between top-level delimiters, without a blank last part. -/
def topLevel (delim : Char) (s : Text) : List Text :=
  let parts := topLevelParts delim 0 false s
  if (parts.getLast?.getD []).all Text.isBlank then parts.dropLast else parts

end SpecHarvest.Source
