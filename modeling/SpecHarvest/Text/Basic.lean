/-!
# Texts

A text is a list of characters: every reader of the library consumes one from the front and hands
back what is left of it. This file holds what the other modules share.

* `isBlank`, `trimStart`, `trimEnd`, `trim`: white space and its removal at the ends.
* `pieces`, `lines`, `words`, `collapse`: a text cut at a class of characters, at its line breaks
  and at its white space, and the words joined again with single spaces.
* `after?`, `before?`: what is left of a text when a given start, or a given end, is taken off.
-/

namespace SpecHarvest

/-- Texts, as lists of characters. -/
abbrev Text := List Char

namespace Text

/-! ## White space -/

/-- The characters of the Unicode property `White_Space`. -/
def isBlank (c : Char) : Bool :=
  let n := c.toNat
  (0x9 ≤ n && n ≤ 0xD) || n == 0x20 || n == 0x85 || n == 0xA0 || n == 0x1680 ||
    (0x2000 ≤ n && n ≤ 0x200A) || n == 0x2028 || n == 0x2029 || n == 0x202F || n == 0x205F ||
    n == 0x3000

/-- Without the white space at the start. -/
def trimStart (s : Text) : Text := s.dropWhile isBlank

/-- Without the white space at the end. -/
def trimEnd (s : Text) : Text := (s.reverse.dropWhile isBlank).reverse

/-- Without the white space at either end. -/
def trim (s : Text) : Text := trimEnd (trimStart s)

/-- Nothing but white space. -/
def allBlank (s : Text) : Bool := s.all isBlank

/-! ## Pieces, lines and words -/

/-- The pieces between the characters of a class, the empty ones included. -/
def pieces (cut : Char → Bool) : Text → List Text
  | [] => [[]]
  | c :: s => if cut c then [] :: pieces cut s else (pieces cut s).modifyHead (c :: ·)

/-- The lines of a text, without their line feeds. A final line feed opens one more, empty, line. -/
def lines (s : Text) : List Text := pieces (· == '\n') s

/-- Lines put together again, with a line feed between each two. -/
def unlines (ls : List Text) : Text := ['\n'].intercalate ls

/-- The maximal runs of characters that are not white space. -/
def words (s : Text) : List Text := (pieces isBlank s).filter (!·.isEmpty)

/-- Every run of white space made one space, and none left at the ends. -/
def collapse (s : Text) : Text := [' '].intercalate (words s)

/-! ## Given starts and ends -/

/-- What follows `lit` in a text that starts with it. -/
def after? : (lit s : Text) → Option Text
  | [], s => some s
  | _ :: _, [] => none
  | l :: lit, c :: s => if l = c then after? lit s else none

/-- What precedes `lit` in a text that ends with it. -/
def before? (lit s : Text) : Option Text := (after? lit.reverse s.reverse).map List.reverse

/-- Whether a text starts with `lit`. -/
def startsWith (lit s : Text) : Bool := (after? lit s).isSome

/-- Whether a text ends with `lit`. -/
def endsWith (lit s : Text) : Bool := (before? lit s).isSome

/-- `after? lit s` is what completes `lit` to `s`. -/
theorem after?_eq_some_iff {lit s r : Text} : after? lit s = some r ↔ s = lit ++ r := by
  fun_induction after? lit s with
  | case1 s => simp [eq_comm]
  | case2 => simp
  | case3 lit c s ih => simpa using ih
  | case4 l lit c s h => simp [Ne.symm h]

/-- `before? lit s` is what `lit` completes to `s`. -/
theorem before?_eq_some_iff {lit s r : Text} : before? lit s = some r ↔ s = r ++ lit := by
  simp only [before?, Option.map_eq_some_iff, after?_eq_some_iff]
  constructor
  · rintro ⟨a, h, rfl⟩
    simpa using congrArg List.reverse h
  · rintro rfl
    exact ⟨r.reverse, by simp, by simp⟩

end Text

end SpecHarvest
