import SpecHarvest.Text.Basic
import SpecHarvest.Text.WordChar
import SpecHarvest.Text.LetterCase.Tables

/-!
# Letter case

* `upper` and `lower` are the full Unicode case mappings, in which a character may become several.
  A capital sigma becomes the final form of the letter exactly at the end of a word, that is after
  a cased character and not before one, case-ignorable characters left aside.
* `lowerAscii` and `sameIgnoringCase` know the ASCII letters only.
-/

namespace SpecHarvest.Text

/-- Where the runs send a code point. -/
def shifted? (runs : List CaseRun) (n : Nat) : Option Nat :=
  runs.findSome? fun (first, last, step, shift) =>
    if first ≤ n && n ≤ last && (n - first) % step == 0 then some (n + shift : Int).toNat else none

/-- One character mapped by the tables. -/
def mapCase (runs : List CaseRun) (expansions : List (Nat × List Nat)) (c : Char) : Text :=
  match expansions.lookup c.toNat with
  | some ns => ns.map Char.ofNat
  | none => [((shifted? runs c.toNat).map Char.ofNat).getD c]

/-- The upper case of a character. -/
def upperChar (c : Char) : Text :=
  if c.toNat < 0x80 then [c.toUpper] else mapCase upperRuns upperExpansions c

/-- The lower case of a character that does not depend on its neighbours. -/
def lowerChar (c : Char) : Text :=
  if c.toNat < 0x80 then [c.toLower] else mapCase lowerRuns lowerExpansions c

/-- Characters that have a letter case. -/
def isCased (c : Char) : Bool :=
  if c.toNat < 0x80 then c.isAlpha else inRanges casedRanges c.toNat

/-- Characters that are left aside when a cased neighbour is looked for. -/
def isCaseIgnorable (c : Char) : Bool :=
  if c.toNat < 0x80 then c == '\x27' || c == '.' || c == ':' || c == '^' || c == '\x60'
  else inRanges caseIgnorableRanges c.toNat

/-- Whether the first character that is not case-ignorable is cased. -/
def casedFirst (s : Text) : Bool :=
  match s.dropWhile isCaseIgnorable with
  | [] => false
  | c :: _ => isCased c

/-- Upper case. -/
def upper (s : Text) : Text := s.flatMap upperChar

/-- Lower case. -/
def lower (s : Text) : Text := go [] s
where
  /-- The mapping, with the characters already passed, newest first. -/
  go (passed : Text) : Text → Text
    | [] => []
    | c :: s =>
      (if c == 'Σ' then [if casedFirst passed && !casedFirst s then 'ς' else 'σ']
        else lowerChar c) ++ go (c :: passed) s

/-- Lower case of the ASCII letters, all else unchanged. -/
def lowerAscii (s : Text) : Text := s.map Char.toLower

/-- Equality up to the case of ASCII letters. -/
def sameIgnoringCase (s t : Text) : Bool := lowerAscii s == lowerAscii t

end SpecHarvest.Text
