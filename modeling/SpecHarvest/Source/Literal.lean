import SpecHarvest.Text.Basic

/-!
# String literals of the test language

A literal stands between double quotes; a backslash keeps the character after it from closing the
literal.

* `closeQuote?` divides a text at the quote that closes an open literal, `quoted?` reads a whole
  literal from the front. What a literal holds is given as it is written.
* `unescape` gives the meaning of what is written: `\"`, `\\`, `\n` and `\t` are escapes, and a
  backslash before any other character is a backslash. `escape` writes a text.
-/

namespace SpecHarvest.Source

/-- The texts before and after the quote that closes a literal whose opening quote is passed. -/
def closeQuote? : Text → Option (Text × Text)
  | [] => none
  | '\\' :: c :: s => (closeQuote? s).map fun (raw, rest) => ('\\' :: c :: raw, rest)
  | c :: s =>
    if c = '"' then some ([], s) else (closeQuote? s).map fun (raw, rest) => (c :: raw, rest)

/-- A literal is what it holds, the closing quote and the rest. -/
theorem eq_of_closeQuote? {s raw rest : Text} (h : closeQuote? s = some (raw, rest)) :
    s = raw ++ '"' :: rest := by
  fun_induction closeQuote? s generalizing raw with
  | case1 => simp at h
  | case2 c s ih =>
    obtain ⟨⟨r, t⟩, hr, he⟩ := Option.map_eq_some_iff.1 h
    obtain ⟨rfl, rfl⟩ := Prod.mk.inj he
    simp [ih hr]
  | case3 => simp_all
  | case4 c s _ hc ih =>
    obtain ⟨⟨r, t⟩, hr, he⟩ := Option.map_eq_some_iff.1 h
    obtain ⟨rfl, rfl⟩ := Prod.mk.inj he
    simp [ih hr]

/-- What a literal at the front holds, as written, and the text after it. -/
def quoted? : Text → Option (Text × Text)
  | '"' :: s => closeQuote? s
  | _ => none

/-- The text that a literal denotes. -/
def unescape : Text → Text
  | [] => []
  | '\\' :: c :: s =>
    (if c = '"' then ['"'] else if c = '\\' then ['\\'] else if c = 'n' then ['\n']
      else if c = 't' then ['\t'] else ['\\', c]) ++ unescape s
  | c :: s => c :: unescape s

/-- One character as it is written in a literal. -/
def escapeChar (c : Char) : Text :=
  if c = '"' then ['\\', '"'] else if c = '\\' then ['\\', '\\'] else if c = '\n' then ['\\', 'n']
  else if c = '\t' then ['\\', 't'] else [c]

/-- A text as it is written in a literal. -/
def escape (s : Text) : Text := s.flatMap escapeChar

/-! ## Quasi-literals -/

/-- What opens a JSON quasi-literal. -/
def quasiOpen : Text := "[json|".toList

/-- What closes a quasi-literal. -/
def quasiClose : Text := "|]".toList

end SpecHarvest.Source
