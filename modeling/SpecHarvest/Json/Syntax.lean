import SpecHarvest.Json.Number

/-!
# JSON texts

The grammar of JSON, without the meaning of numbers and strings.

* `Token` and `tokens?`: a text cut into brackets, marks, names, numerals and strings. A string is
  kept as it is written; its escapes are known to be well formed.
* `Tree` and `Tree.parse?`: the value that a text spells, read token by token by a machine whose
  state holds the arrays and objects that are still open (`State`, `step?`).
* `decodeString?`: the text that a string denotes; there is none for half a surrogate pair.
-/

namespace SpecHarvest.Json

/-! ## Tokens -/

/-- The smallest parts of a JSON text. -/
inductive Token where
  | openArray
  | closeArray
  | openObject
  | closeObject
  | comma
  | colon
  | null
  | bool (b : Bool)
  | number (n : Numeral)
  | string (raw : Text)
  deriving DecidableEq, Repr

/-- The white space of JSON. -/
def isSpace (c : Char) : Bool := c == ' ' || c == '\t' || c == '\n' || c == '\r'

/-- Hexadecimal digits. -/
def hexValue? (c : Char) : Option Nat :=
  if '0' ≤ c ∧ c ≤ '9' then some (c.toNat - '0'.toNat)
  else if 'a' ≤ c ∧ c ≤ 'f' then some (c.toNat - 'a'.toNat + 10)
  else if 'A' ≤ c ∧ c ≤ 'F' then some (c.toNat - 'A'.toNat + 10)
  else none

/-- The value of four hexadecimal digits. -/
def hexQuad? (a b c d : Char) : Option Nat := do
  return (((← hexValue? a) * 16 + (← hexValue? b)) * 16 + (← hexValue? c)) * 16 + (← hexValue? d)

/-- The character of a two-character escape. -/
def simpleEscape? (c : Char) : Option Char :=
  if c = '"' then some '"' else if c = '\\' then some '\\' else if c = '/' then some '/'
  else if c = 'b' then some '\x08' else if c = 'f' then some '\x0c' else if c = 'n' then some '\n'
  else if c = 'r' then some '\r' else if c = 't' then some '\t' else none

/-- What a string holds, as written, and the text after its closing quote. The opening quote is
passed already. -/
def stringRest? : Text → Option (Text × Text)
  | [] => none
  | '\\' :: 'u' :: a :: b :: c :: d :: s =>
    match hexQuad? a b c d with
    | some _ => (stringRest? s).map fun (raw, rest) =>
        ('\\' :: 'u' :: a :: b :: c :: d :: raw, rest)
    | none => none
  | '\\' :: e :: s =>
    match simpleEscape? e with
    | some _ => (stringRest? s).map fun (raw, rest) => ('\\' :: e :: raw, rest)
    | none => none
  | c :: s =>
    if c = '"' then some ([], s)
    else if c = '\\' ∨ c.toNat < 0x20 then none
    else (stringRest? s).map fun (raw, rest) => (c :: raw, rest)

/-- Digits at the front, of which there must be one. -/
def digits? (s : Text) : Option (Text × Text) :=
  let ds := s.takeWhile Char.isDigit
  if ds.isEmpty then none else some (ds, s.dropWhile Char.isDigit)

/-- The digits before the point: a zero stands alone. -/
def wholePart? : Text → Option (Text × Text)
  | '0' :: s => if (s.takeWhile Char.isDigit).isEmpty then some (['0'], s) else none
  | s => digits? s

/-- The digits after a point; the empty text if there is no point. -/
def fractionPart? : Text → Option (Text × Text)
  | '.' :: s => digits? s
  | s => some ([], s)

/-- The sign and the digits of an exponent, if there is one. -/
def exponentPart? : Text → Option (Option (Bool × Text) × Text)
  | c :: s =>
    if c = 'e' ∨ c = 'E' then
      match s with
      | '-' :: s => (digits? s).map fun (ds, rest) => (some (true, ds), rest)
      | '+' :: s => (digits? s).map fun (ds, rest) => (some (false, ds), rest)
      | s => (digits? s).map fun (ds, rest) => (some (false, ds), rest)
    else some (none, c :: s)
  | [] => some (none, [])

/-- The numeral after an optional minus. -/
def unsigned? (negative : Bool) (s : Text) : Option (Numeral × Text) := do
  let (whole, s) ← wholePart? s
  let (fraction, s) ← fractionPart? s
  let (exponent, s) ← exponentPart? s
  return (⟨negative, whole, fraction, exponent⟩, s)

/-- A numeral at the front. -/
def numeral? : Text → Option (Numeral × Text)
  | '-' :: s => unsigned? true s
  | s => unsigned? false s

/-- The token at the front of a text that starts with no white space. -/
def token? (s : Text) : Option (Token × Text) :=
  match s with
  | '[' :: s => some (.openArray, s)
  | ']' :: s => some (.closeArray, s)
  | '{' :: s => some (.openObject, s)
  | '}' :: s => some (.closeObject, s)
  | ',' :: s => some (.comma, s)
  | ':' :: s => some (.colon, s)
  | '"' :: s => (stringRest? s).map fun (raw, rest) => (.string raw, rest)
  | 'n' :: 'u' :: 'l' :: 'l' :: s => some (.null, s)
  | 't' :: 'r' :: 'u' :: 'e' :: s => some (.bool true, s)
  | 'f' :: 'a' :: 'l' :: 's' :: 'e' :: s => some (.bool false, s)
  | s => (numeral? s).map fun (n, rest) => (.number n, rest)

/-- The tokens of a text. Every token takes a character, so as many steps as there are characters
are enough. -/
def tokens? (s : Text) : Option (List Token) := go s.length s
where
  /-- The tokens, in at most so many steps. -/
  go : Nat → Text → Option (List Token)
    | 0, s => if (s.dropWhile isSpace).isEmpty then some [] else none
    | n + 1, s =>
      match s.dropWhile isSpace with
      | [] => some []
      | c :: s => (token? (c :: s)).bind fun (t, rest) => (go n rest).map (t :: ·)

/-! ## Trees -/

/-- What a JSON text spells. -/
inductive Tree where
  | null
  | bool (b : Bool)
  | number (n : Numeral)
  | string (raw : Text)
  | array (items : List Tree)
  | object (fields : List (Text × Tree))
  deriving Repr

/-- An array or object that is still open, with what it holds so far, newest first. -/
inductive Frame where
  | array (items : List Tree)
  | object (fields : List (Text × Tree)) (key : Text)

/-- What has been read, and hence what may follow. -/
inductive State where
  /-- A value must follow. -/
  | value (open_ : List Frame)
  /-- An array is just opened: a value or its closing bracket must follow. -/
  | item (open_ : List Frame)
  /-- An object is just opened: a key or its closing bracket must follow. -/
  | field (open_ : List Frame)
  /-- A comma is read in an object: a key must follow. -/
  | key (fields : List (Text × Tree)) (open_ : List Frame)
  /-- A key is read: a colon must follow. -/
  | colon (fields : List (Text × Tree)) (key : Text) (open_ : List Frame)
  /-- A value is complete. -/
  | complete (v : Tree) (open_ : List Frame)

/-- The state after a token where a value must follow. -/
def valueStep? (open_ : List Frame) : Token → Option State
  | .openArray => some (.item open_)
  | .openObject => some (.field open_)
  | .null => some (.complete .null open_)
  | .bool b => some (.complete (.bool b) open_)
  | .number n => some (.complete (.number n) open_)
  | .string raw => some (.complete (.string raw) open_)
  | _ => none

/-- The state after a token, if it may stand there. -/
def step? : State → Token → Option State
  | .value o, t => valueStep? o t
  | .item o, .closeArray => some (.complete (.array []) o)
  | .item o, t => valueStep? (.array [] :: o) t
  | .field o, .closeObject => some (.complete (.object []) o)
  | .field o, .string k => some (.colon [] k o)
  | .key fs o, .string k => some (.colon fs k o)
  | .colon fs k o, .colon => some (.value (.object fs k :: o))
  | .complete v (.array vs :: o), .comma => some (.value (.array (v :: vs) :: o))
  | .complete v (.array vs :: o), .closeArray => some (.complete (.array (v :: vs).reverse) o)
  | .complete v (.object fs k :: o), .comma => some (.key ((k, v) :: fs) o)
  | .complete v (.object fs k :: o), .closeObject =>
    some (.complete (.object ((k, v) :: fs).reverse) o)
  | _, _ => none

/-- The value that a text spells, if it spells exactly one. -/
def Tree.parse? (s : Text) : Option Tree := do
  let ts ← tokens? s
  match ← ts.foldlM step? (.value []) with
  | .complete v [] => some v
  | _ => none

/-! ## Strings -/

/-- The text that a string denotes. -/
def decodeString? : Text → Option Text
  | [] => some []
  | '\\' :: 'u' :: a :: b :: c :: d :: s =>
    (hexQuad? a b c d).bind fun n =>
      if 0xDC00 ≤ n ∧ n ≤ 0xDFFF then none
      else if 0xD800 ≤ n ∧ n ≤ 0xDBFF then
        match s with
        | '\\' :: 'u' :: a :: b :: c :: d :: s =>
          (hexQuad? a b c d).bind fun m =>
            if 0xDC00 ≤ m ∧ m ≤ 0xDFFF then
              (decodeString? s).map
                (Char.ofNat (0x10000 + (n - 0xD800) * 0x400 + (m - 0xDC00)) :: ·)
            else none
        | _ => none
      else (decodeString? s).map (Char.ofNat n :: ·)
  | '\\' :: e :: s => (simpleEscape? e).bind fun c => (decodeString? s).map (c :: ·)
  | c :: s => (decodeString? s).map (c :: ·)

end SpecHarvest.Json
