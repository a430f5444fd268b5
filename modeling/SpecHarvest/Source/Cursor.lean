import SpecHarvest.Text.Offset
import SpecHarvest.Source.Reader

/-!
# Cursors

A cursor is a place in a text: what is read and what is left. Every operation either moves the
place past exactly what it recognised or leaves it alone (`Cursor.move`).
-/

namespace SpecHarvest.Source

open Text

/-- A place in a text. -/
structure Cursor where
  /-- The text before the place. -/
  read : Text
  /-- The text after the place. -/
  rest : Text
  deriving DecidableEq, Repr

namespace Cursor

/-- The start of a text. -/
def start (s : Text) : Cursor := ⟨[], s⟩

/-- The byte offset of the place. -/
def pos (c : Cursor) : Nat := width c.read

/-- The cursor moved to where `rest`, an end of what is left, begins. -/
def move (c : Cursor) (rest : Text) : Cursor :=
  ⟨c.read ++ c.rest.take (c.rest.length - rest.length), rest⟩

/-- Past white space, with the number of bytes passed. -/
def skipBlanks (c : Cursor) : Nat × Cursor :=
  let c' := c.move (trimStart c.rest)
  (c'.pos - c.pos, c')

/-- Past a given text. -/
def eat (lit : Text) (c : Cursor) : Bool × Cursor :=
  match after? lit c.rest with
  | some rest => (true, c.move rest)
  | none => (false, c)

/-- Past a given word that no identifier continues. -/
def eatWord (word : Text) (c : Cursor) : Bool × Cursor :=
  match word? word c.rest with
  | some rest => (true, c.move rest)
  | none => (false, c)

/-- Past what a reader recognises. -/
def take {α : Type} (reader : Text → Option (α × Text)) (c : Cursor) : Option α × Cursor :=
  match reader c.rest with
  | some (a, rest) => (some a, c.move rest)
  | none => (none, c)

/-- Past a string literal, with what it holds as written. -/
def takeQuoted : Cursor → Option Text × Cursor := take quoted?

/-- Past a number below 2^64. -/
def takeNatural : Cursor → Option Nat × Cursor := take natural?

/-- Past an identifier. -/
def takeIdentifier : Cursor → Option Text × Cursor := take identifier?

/-- Whether only white space is left. -/
def atEnd (c : Cursor) : Bool := allBlank c.rest

end Cursor

end SpecHarvest.Source
