import SpecHarvest.Assoc
import SpecHarvest.Json.Syntax
import SpecHarvest.Replay.Options

/-!
# Settings files

The options of a replay can be kept in a TOML file. It knows the key `target`, with a string, and
the keys `only`, `skip`, `skip_tests` and `skip_configs`, with arrays of strings; no other key, no
other kind of value and no table may occur, and no key may occur twice.

* `settingString?` reads the four kinds of TOML strings.
* `ReplayOptions.ofSettings?` reads a file.
-/

namespace SpecHarvest

open Text

namespace Settings

/-! ## White space and comments -/

/-- Blanks within a line. -/
def isLineBlank (c : Char) : Bool := c == ' ' || c == '\t'

/-- Without the blanks at the start. -/
def skipBlanks (s : Text) : Text := s.dropWhile isLineBlank

/-- Characters that stand for themselves in a string or a comment: tabs and all that are no
controls. -/
def isPlain (c : Char) : Bool := c == '\t' || (0x20 ≤ c.toNat && c.toNat != 0x7F)

/-- Without the blanks, line breaks and comments at the start. -/
def skipTrivia : (inComment : Bool) → Text → Text
  | _, [] => []
  | _, '\n' :: s => skipTrivia false s
  | _, '\r' :: '\n' :: s => skipTrivia false s
  | true, c :: s => if isPlain c then skipTrivia true s else c :: s
  | false, c :: s =>
    if isLineBlank c then skipTrivia false s
    else if c = '#' then skipTrivia true s
    else c :: s

/-- The text after the end of a line, where only blanks and a comment may stand. -/
def lineEnd? (s : Text) : Option Text :=
  match skipBlanks s with
  | [] => some []
  | '\n' :: s => some s
  | '\r' :: '\n' :: s => some s
  | '#' :: s => some (skipTrivia true s)
  | _ => none

/-! ## Strings -/

/-- The character of a code point, which may be no surrogate. -/
def charOfCode? (n : Nat) : Option Char := if n.isValidChar then some (Char.ofNat n) else none

/-- The value of hexadecimal digits. -/
def hexNumber? (ds : Text) : Option Nat :=
  ds.foldlM (fun n d => (Json.hexValue? d).map (16 * n + ·)) 0

/-- The character of an escape with one letter. -/
def escaped? (c : Char) : Option Char :=
  if c = 'b' then some '\x08' else if c = 't' then some '\t' else if c = 'n' then some '\n'
  else if c = 'f' then some '\x0c' else if c = 'r' then some '\r' else if c = '"' then some '"'
  else if c = '\\' then some '\\' else none

/-- A text put in front of what a reader yields. -/
def prepend (front : Text) : Option (Text × Text) → Option (Text × Text) :=
  Option.map fun (t, rest) => (front ++ t, rest)

/-- A string on one line whose opening quote is passed. -/
def basic? : Text → Option (Text × Text)
  | [] => none
  | '\\' :: 'u' :: a :: b :: c :: d :: s =>
    ((hexNumber? [a, b, c, d]).bind charOfCode?).bind fun x => prepend [x] (basic? s)
  | '\\' :: 'U' :: a :: b :: c :: d :: e :: f :: g :: h :: s =>
    ((hexNumber? [a, b, c, d, e, f, g, h]).bind charOfCode?).bind fun x => prepend [x] (basic? s)
  | '\\' :: e :: s => (escaped? e).bind fun x => prepend [x] (basic? s)
  | c :: s =>
    if c = '"' then some ([], s)
    else if c = '\\' || !isPlain c then none
    else prepend [c] (basic? s)

/-- Without blanks and line breaks at the start. -/
def skipBreaks : Text → Text
  | '\r' :: '\n' :: s => skipBreaks s
  | c :: s => if isLineBlank c || c == '\n' then skipBreaks s else c :: s
  | [] => []

/-- The text after the line break that a backslash takes away, and the white space after it. -/
def joinedLine? (s : Text) : Option Text :=
  match skipBlanks s with
  | '\n' :: s => some (skipBreaks s)
  | '\r' :: '\n' :: s => some (skipBreaks s)
  | _ => none

/-- The end of a string over several lines, at a run of its quotes: up to two quotes belong to the
string before the three that close it. Fewer than three quotes close nothing. -/
def closeRun? (quote : Char) (s : Text) : Option (Text × Text) :=
  let n := (s.takeWhile (· == quote)).length
  if n < 3 then none
  else
    let inner := min (n - 3) 2
    some (List.replicate inner quote, s.drop (inner + 3))

/-- A string over several lines whose opening quotes, and a line break after them, are passed. It
has so many characters at most. -/
def basicLines? : Nat → Text → Option (Text × Text)
  | 0, _ => none
  | _ + 1, [] => none
  | n + 1, c :: s =>
    if c = '"' then (closeRun? '"' (c :: s)).or (prepend ['"'] (basicLines? n s))
    else if c = '\n' then prepend ['\n'] (basicLines? n s)
    else if c = '\r' then
      match s with
      | '\n' :: s => prepend ['\n'] (basicLines? n s)
      | _ => none
    else if c = '\\' then
      match joinedLine? s with
      | some s => basicLines? n s
      | none =>
        match s with
        | 'u' :: a :: b :: c :: d :: s =>
          ((hexNumber? [a, b, c, d]).bind charOfCode?).bind fun x => prepend [x] (basicLines? n s)
        | 'U' :: a :: b :: c :: d :: e :: f :: g :: h :: s =>
          ((hexNumber? [a, b, c, d, e, f, g, h]).bind charOfCode?).bind fun x =>
            prepend [x] (basicLines? n s)
        | e :: s => (escaped? e).bind fun x => prepend [x] (basicLines? n s)
        | [] => none
    else if isPlain c then prepend [c] (basicLines? n s)
    else none

/-- A string on one line, without escapes, whose opening quote is passed. -/
def plain? : Text → Option (Text × Text)
  | [] => none
  | c :: s =>
    if c = '\x27' then some ([], s) else if isPlain c then prepend [c] (plain? s) else none

/-- A string over several lines, without escapes, whose opening quotes, and a line break after them,
are passed. -/
def plainLines? : Text → Option (Text × Text)
  | [] => none
  | '\r' :: '\n' :: s => prepend ['\n'] (plainLines? s)
  | c :: s =>
    if c = '\x27' then (closeRun? '\x27' (c :: s)).or (prepend ['\x27'] (plainLines? s))
    else if c = '\n' || isPlain c then prepend [c] (plainLines? s)
    else none

/-- Without a line break at the start. -/
def dropBreak : Text → Text
  | '\n' :: s => s
  | '\r' :: '\n' :: s => s
  | s => s

/-- A string at the front. -/
def settingString? (s : Text) : Option (Text × Text) :=
  match after? "\"\"\"".toList s with
  | some s => basicLines? (s.length + 1) (dropBreak s)
  | none =>
    match after? ['\x27', '\x27', '\x27'] s with
    | some s => plainLines? (dropBreak s)
    | none =>
      match s with
      | '"' :: s => basic? s
      | '\x27' :: s => plain? s
      | _ => none

/-! ## Values and keys -/

/-- The value of a setting. -/
inductive Setting where
  | text (s : Text)
  | list (ss : List Text)
  deriving DecidableEq, Repr

/-- The items of an array, up to its closing bracket, of which there are so many at most. -/
def items? : Nat → Text → Option (List Text × Text)
  | 0, _ => none
  | n + 1, s =>
    match skipTrivia false s with
    | ']' :: s => some ([], s)
    | s => do
      let (item, s) ← settingString? s
      match skipTrivia false s with
      | ',' :: s =>
        let (rest, s) ← items? n s
        return (item :: rest, s)
      | ']' :: s => return ([item], s)
      | _ => none

/-- A value at the front. -/
def value? : Text → Option (Setting × Text)
  | '[' :: s => (items? (s.length + 1) s).map fun (ss, rest) => (.list ss, rest)
  | s => (settingString? s).map fun (t, rest) => (.text t, rest)

/-- Characters of a key without quotes. -/
def isKeyChar (c : Char) : Bool := c.isAlphanum || c == '_' || c == '-'

/-- A key at the front, with or without quotes. -/
def key? : Text → Option (Text × Text)
  | '"' :: s => basic? s
  | '\x27' :: s => plain? s
  | s =>
    let key := s.takeWhile isKeyChar
    if key.isEmpty then none else some (key, s.dropWhile isKeyChar)

/-- A key with its value on a line of its own. -/
def entry? (s : Text) : Option ((Text × Setting) × Text) := do
  let (key, s) ← key? s
  let s ← after? ['='] (skipBlanks s)
  let (value, s) ← value? (skipBlanks s)
  return ((key, value), ← lineEnd? s)

/-- The entries of a file, of which there are so many at most. -/
def entries? : Nat → Text → Option (List (Text × Setting))
  | 0, _ => none
  | n + 1, s =>
    match skipTrivia false s with
    | [] => some []
    | c :: s => do
      let (e, rest) ← entry? (c :: s)
      return e :: (← entries? n rest)

/-- Options with one setting made. -/
def with? (o : ReplayOptions) (key : Text) : Setting → Option ReplayOptions
  | .text s => if key = "target".toList then some { o with target := some s } else none
  | .list ss =>
    if key = "only".toList then some { o with only := ss }
    else if key = "skip".toList then some { o with skip := ss }
    else if key = "skip_tests".toList then some { o with skipTests := ss }
    else if key = "skip_configs".toList then some { o with skipConfigs := ss }
    else none

end Settings

open Settings in
/-- The options that a settings file holds. A byte order mark may come first. -/
def ReplayOptions.ofSettings? (s : Text) : Option ReplayOptions := do
  let s := (after? ['\ufeff'] s).getD s
  let es ← entries? (s.length + 1) s
  if (es.map (·.1)).eraseDups.length < es.length then none
  else es.foldlM (fun o (key, setting) => with? o key setting) .empty

end SpecHarvest
