import SpecHarvest.Text.Basic

/-!
# Finding a text in a text

* `cut?` divides a text at the first occurrence of another, `cutLast?` at the last occurrence of a
  character.
* `contains` and `occurrences` ask whether, and how often, one text lies in another.
* `firstAt` reads at the first place where a reader succeeds.
-/

namespace SpecHarvest.Text

/-- The texts before and after the first occurrence of `lit`. -/
def cut? (lit : Text) : Text → Option (Text × Text)
  | [] => if lit.isEmpty then some ([], []) else none
  | c :: s =>
    match after? lit (c :: s) with
    | some rest => some ([], rest)
    | none => (cut? lit s).map fun (front, rest) => (c :: front, rest)

/-- The texts before and after the last occurrence of a character. -/
def cutLast? (d : Char) (s : Text) : Option (Text × Text) :=
  (cut? [d] s.reverse).map fun (back, front) => (front.reverse, back.reverse)

/-- Whether `lit` occurs in a text. -/
def contains (lit s : Text) : Bool := (cut? lit s).isSome

/-- How often `lit` occurs in a text, counted from the front and without overlaps. -/
def occurrences (lit s : Text) : Nat := count 0 s
where
  /-- The count, with so many characters still to be passed over. -/
  count : Nat → Text → Nat
    | _, [] => 0
    | n + 1, _ :: s => count n s
    | 0, c :: s =>
      if startsWith lit (c :: s) then count (lit.length - 1) s + 1 else count 0 s

/-- What a reader yields at the first place of a text, its end included, where it succeeds. -/
def firstAt {α : Type} (read : Text → Option α) : Text → Option α
  | [] => read []
  | c :: s => (read (c :: s)).or (firstAt read s)

/-- A text with one character replaced by a text everywhere. -/
def replaceChar (d : Char) (by_ : Text) (s : Text) : Text :=
  s.flatMap fun c => if c = d then by_ else [c]

end SpecHarvest.Text
