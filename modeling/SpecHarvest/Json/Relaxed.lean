import SpecHarvest.Source.Literal
import SpecHarvest.Text.WordChar
import SpecHarvest.Json.Value

/-!
# Relaxed JSON

Inside a quasi-literal the keys of objects may be bare identifiers, and strings may stand between
single quotes. A text is read as JSON first, then with its bare keys quoted (`quoteBareKeys`), then
with every single quote made a double one as well. A blank text is null.

`parseRelaxed` gives the value, or the start of the text that cannot be read.
-/

namespace SpecHarvest.Json

open Text Source

/-- The ASCII white space that does not count as the character before a key. -/
def isKeySpace (c : Char) : Bool :=
  c == ' ' || c == '\t' || c == '\n' || c == '\x0c' || c == '\r'

/-- Whether a key may follow the last character that was not white space. -/
def opensKey : Option Char → Bool
  | some c => c == '{' || c == ','
  | none => false

/-- A text with quotes around every identifier that stands where a key does: after a brace or a
comma and before a colon. `last` is the last character that is not white space. Strings are left
as they are. -/
def quoteKeysAfter (last : Option Char) : Text → Text
  | [] => []
  | c :: s =>
    if c = '"' then
      match _h : closeQuote? s with
      | some (raw, rest) => '"' :: raw ++ '"' :: quoteKeysAfter (some '"') rest
      | none => c :: s
    else if (c.isAlpha || c == '_') && opensKey last then
      let name := c :: s.takeWhile isIdentChar
      let rest := s.dropWhile isIdentChar
      (if startsWith [':'] (trimStart rest) then '"' :: name ++ ['"'] else name) ++
        quoteKeysAfter (some c) rest
    else c :: quoteKeysAfter (if isKeySpace c then last else some c) s
termination_by s => s.length
decreasing_by
  · have := congrArg List.length (eq_of_closeQuote? _h)
    simp only [List.length_append, List.length_cons] at this ⊢
    omega
  · have := (List.dropWhile_suffix isIdentChar (l := s)).length_le
    simp only [List.length_cons]
    omega
  · simp

/-- A text with its bare keys quoted. -/
def quoteBareKeys (s : Text) : Text := quoteKeysAfter none s

/-- How many characters of an unreadable text are shown. -/
def snippetLength : Nat := 80

/-- A text that cannot be read as JSON, by its first characters. -/
structure Unreadable where
  snippet : Text
  deriving DecidableEq, Repr

/-- The wording of the error. -/
def Unreadable.message (e : Unreadable) : Text := "unparseable JSON literal: ".toList ++ e.snippet

/-- The value of a relaxed JSON text. -/
def parseRelaxed (s : Text) : Except Unreadable Value :=
  let s := trim s
  if s.isEmpty then .ok .null
  else
    let keyed := quoteBareKeys s
    let doubled := keyed.map fun c => if c == '\x27' then '"' else c
    match (Value.parse? s).or ((Value.parse? keyed).or (Value.parse? doubled)) with
    | some v => .ok v
    | none => .error ⟨s.take snippetLength⟩

end SpecHarvest.Json
