import SpecHarvest.Source.Delimiter
import SpecHarvest.Text.Offset

/-!
# Positions of quotes and delimiters

`closeQuoteAt?` and `matchingAt?` are the searches of `closeQuote?` and `matching?` in terms of byte
offsets into a whole text.
-/

namespace SpecHarvest.Source

open Text

/-- The offset of the quote that closes the literal that opens at an offset. -/
def closeQuoteAt? (start : Nat) (s : Text) : Option Nat :=
  (cutAt? start s).bind fun (_, rest) =>
    (quoted? rest).map fun (raw, _) => start + 1 + width raw

/-- The offset of the delimiter that balances the first opening one from an offset on. -/
def matchingAt? (opened closed : Char) (start : Nat) (s : Text) : Option Nat :=
  let (front, rest) := cutFrom start s
  (matching? opened closed 0 false rest).map fun (inner, _) => width front + width inner

end SpecHarvest.Source
