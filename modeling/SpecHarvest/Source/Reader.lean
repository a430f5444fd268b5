import SpecHarvest.Source.Literal
import SpecHarvest.Text.WordChar

/-!
# Readers

A reader takes something from the front of a text and hands back what is left, or takes nothing at
all: a word that no identifier continues (`word?`), white space (`blanks?`), a number that fits 64
bits (`natural?`), an identifier (`identifier?`). Given texts are read by `Text.after?`, string
literals by `quoted?`.
-/

namespace SpecHarvest.Source

open Text

/-- The text after `word`, which no identifier may continue. -/
def word? (word s : Text) : Option Text :=
  (after? word s).filter (endsHere isIdentChar)

/-- The text after white space, of which there must be some. -/
def blanks? : Text → Option Text
  | c :: s => if isBlank c then some (trimStart s) else none
  | [] => none

/-- The number written in decimal digits. -/
def digitsValue (ds : Text) : Nat := ds.foldl (fun n d => 10 * n + (d.toNat - '0'.toNat)) 0

/-- The greatest number that fits 64 bits. -/
def maxNatural : Nat := 18446744073709551615

/-- A number in decimal digits, if there are any and it fits 64 bits. -/
def natural? (s : Text) : Option (Nat × Text) :=
  let digits := s.takeWhile Char.isDigit
  if digits.isEmpty then none
  else
    let n := digitsValue digits
    if n ≤ maxNatural then some (n, s.dropWhile Char.isDigit) else none

/-- An identifier character and all that follow it. -/
def identifier? (s : Text) : Option (Text × Text) :=
  let name := s.takeWhile isIdentChar
  if name.isEmpty then none else some (name, s.dropWhile isIdentChar)

/-- What a literal at the front holds, as written, unless that is nothing. -/
def nonemptyQuoted? (s : Text) : Option (Text × Text) :=
  (quoted? s).filter fun (raw, _) => !raw.isEmpty

end SpecHarvest.Source
