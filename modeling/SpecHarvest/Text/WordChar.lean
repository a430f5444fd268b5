import SpecHarvest.Text.Basic
import SpecHarvest.Text.WordChar.Ranges

/-!
# Word characters and word boundaries

* `isIdentChar`: the ASCII characters of an identifier.
* `isWordChar`: the word characters of Unicode, which decide the boundaries of `hasWord`.
-/

namespace SpecHarvest.Text

/-- Whether a code point lies in one of the inclusive ranges. -/
def inRanges (ranges : List (Nat × Nat)) (n : Nat) : Bool :=
  ranges.any fun (first, last) => first ≤ n && n ≤ last

/-- The ASCII letters, the ASCII digits and the underscore. -/
def isIdentChar (c : Char) : Bool := c.isAlphanum || c == '_'

/-- Letters, marks, decimal digits, connector punctuation and join controls of all scripts. -/
def isWordChar (c : Char) : Bool :=
  if c.toNat < 0x80 then isIdentChar c else inRanges wordRanges c.toNat

/-- Whether a text does not go on with a character of the class. -/
def endsHere (inWord : Char → Bool) : Text → Bool
  | [] => true
  | c :: _ => !inWord c

/-- Whether a reader succeeds somewhere in a text right after a word boundary, which is the start
of the text or a character that is no word character. -/
def atWordStart (accepts : Text → Bool) (s : Text) : Bool := go true s
where
  /-- The search, told whether the place is a word start. -/
  go : Bool → Text → Bool
    | start, [] => start && accepts []
    | start, c :: s => (start && accepts (c :: s)) || go (!isWordChar c) s

/-- Whether a text starts with `word` and a word boundary. -/
def wordHere (word s : Text) : Bool :=
  match after? word s with
  | some rest => endsHere isWordChar rest
  | none => false

/-- Whether `word` occurs between word boundaries. -/
def hasWord (word s : Text) : Bool := atWordStart (wordHere word) s

end SpecHarvest.Text
