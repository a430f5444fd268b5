import SpecHarvest.Text.Basic

/-!
# Byte offsets

Positions are reported, and accepted, as offsets into the UTF-8 form of a text.

* `width` is the length of that form.
* `cutAt?` divides a text at an offset that is a character boundary.
* `cutFrom` divides at the first boundary that is not before the offset.
-/

namespace SpecHarvest.Text

/-- The number of bytes of the UTF-8 form. -/
def width : Text → Nat
  | [] => 0
  | c :: s => c.utf8Size + width s

/-- The texts before and after a byte offset; none off the character boundaries. -/
def cutAt? : Nat → Text → Option (Text × Text)
  | 0, s => some ([], s)
  | _ + 1, [] => none
  | n + 1, c :: s =>
    if c.utf8Size ≤ n + 1 then
      (cutAt? (n + 1 - c.utf8Size) s).map fun (front, rest) => (c :: front, rest)
    else none

/-- The texts before and after the first character boundary at or after a byte offset. An offset
past the end leaves nothing. -/
def cutFrom : Nat → Text → Text × Text
  | 0, s => ([], s)
  | _ + 1, [] => ([], [])
  | n + 1, c :: s =>
    let (front, rest) := cutFrom (n + 1 - c.utf8Size) s
    (c :: front, rest)

/-- The width of a text that starts with `c`. -/
@[simp] theorem width_cons (c : Char) (s : Text) : width (c :: s) = c.utf8Size + width s := rfl

/-- Widths add up. -/
@[simp] theorem width_append (s t : Text) : width (s ++ t) = width s + width t := by
  induction s with
  | nil => simp [width]
  | cons c s ih => simp [ih, Nat.add_assoc]

/-- A cut at an offset divides the text there. -/
theorem cutAt?_eq_some {n : Nat} {s front rest : Text} (h : cutAt? n s = some (front, rest)) :
    s = front ++ rest ∧ width front = n := by
  fun_induction cutAt? n s generalizing front with
  | case1 s => simp_all [width]
  | case2 => simp at h
  | case3 n c s hc ih =>
    obtain ⟨⟨f, r⟩, hf, he⟩ := Option.map_eq_some_iff.1 h
    obtain ⟨rfl, rfl⟩ := Prod.mk.inj he
    obtain ⟨rfl, hw⟩ := ih hf
    exact ⟨rfl, by simp only [width_cons]; omega⟩
  | case4 => simp at h

end SpecHarvest.Text
