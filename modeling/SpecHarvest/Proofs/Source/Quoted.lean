import SpecHarvest.Proofs.Bytes.Offset
import SpecHarvest.Proofs.Source.Literal
import SpecHarvest.Source.Cursor
import SpecHarvest.Source.Position

/-!
# Literals in a text

* `closeQuoteAt?_eq_some_iff`: the quote that closes a literal is found, wherever the literal opens.
* `takeQuoted_escape`: every text that is written in a literal is taken and denoted by it; and what a
  literal holds ends in no backslash without a character after it, and every quote in it is escaped.
-/

namespace SpecHarvest.Source

open Text

theorem closeQuoteAt?_eq_some_iff {s : Text} {start j : Nat} : closeQuoteAt? start s = some j ↔
    ∃ front raw rest, s = front ++ '"' :: (raw ++ '"' :: rest) ∧ width front = start ∧
      j = start + 1 + width raw ∧ Raw raw := by
  constructor
  · intro h
    obtain ⟨⟨front, tail⟩, hcut, h⟩ := Option.bind_eq_some_iff.1 h
    obtain ⟨⟨raw, rest⟩, hq, hj⟩ := Option.map_eq_some_iff.1 h
    obtain ⟨rfl, hw⟩ := cutAt?_eq_some hcut
    obtain ⟨hraw, rfl⟩ := quoted?_eq_some_iff.1 hq
    exact ⟨front, raw, rest, rfl, hw, hj.symm, hraw⟩
  · rintro ⟨front, raw, rest, rfl, rfl, rfl, hraw⟩
    rw [closeQuoteAt?, Bytes.cutAt?_width, Option.bind_some]
    simp only [hraw.quoted?, Option.map_some]

theorem move_append (read x rest : Text) :
    (Cursor.mk read (x ++ rest)).move rest = ⟨read ++ x, rest⟩ := by
  simp [Cursor.move]

/-- **A literal is taken and decoded to what is written in it**, whatever is before and after it.
And a literal in a text ends at a quote such that, between its quotes, every quote is escaped and no
backslash is left without a character after it. -/
theorem takeQuoted_escape :
    (∀ read t r : Text, Cursor.takeQuoted ⟨read, '"' :: (escape t ++ '"' :: r)⟩ =
        (some (escape t), ⟨read ++ '"' :: (escape t ++ ['"']), r⟩) ∧ unescape (escape t) = t) ∧
    ∀ (s : Text) (start j : Nat), closeQuoteAt? start s = some j ↔ ∃ front raw rest,
      s = front ++ '"' :: (raw ++ '"' :: rest) ∧ width front = start ∧
        j = start + 1 + width raw ∧ Even (backslashes raw) ∧
        ∀ x y, raw = x ++ '"' :: y → Odd (backslashes x) := by
  refine ⟨fun read t r => ⟨?_, unescape_escape t⟩, fun s start j => ?_⟩
  · have htext : '"' :: (escape t ++ '"' :: r) = '"' :: (escape t ++ ['"']) ++ r := by simp
    rw [Cursor.takeQuoted, Cursor.take, (raw_escape t).quoted?]
    simp only
    rw [htext, move_append]
  · simp only [closeQuoteAt?_eq_some_iff, raw_iff]

end SpecHarvest.Source
