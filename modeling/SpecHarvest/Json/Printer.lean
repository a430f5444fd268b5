import SpecHarvest.Json.Value

/-!
# The text of JSON values

* `Value.compact` has no white space.
* `Value.pretty` gives every item and field a line of its own, two spaces deeper than its bracket;
  empty arrays and objects stay on one line.
* In strings a quote, a backslash and the controls below U+0020 are escaped, and nothing else.
-/

namespace SpecHarvest.Json

/-- A hexadecimal digit in lower case. -/
def hexDigit (n : Nat) : Char := if n < 10 then Char.ofNat (48 + n) else Char.ofNat (87 + n)

/-- One character as it stands in a string. -/
def stringChar (c : Char) : Text :=
  if c = '"' then ['\\', '"']
  else if c = '\\' then ['\\', '\\']
  else if c = '\x08' then ['\\', 'b']
  else if c = '\t' then ['\\', 't']
  else if c = '\n' then ['\\', 'n']
  else if c = '\x0c' then ['\\', 'f']
  else if c = '\r' then ['\\', 'r']
  else if c.toNat < 0x20 then
    ['\\', 'u', '0', '0', hexDigit (c.toNat / 16), hexDigit (c.toNat % 16)]
  else [c]

/-- A string, between quotes. -/
def renderString (s : Text) : Text := '"' :: s.flatMap stringChar ++ ['"']

namespace Value

mutual

/-- The text without white space. -/
def compact : Value → Text
  | .null => "null".toList
  | .bool b => if b then "true".toList else "false".toList
  | .number n => n.render
  | .string s => renderString s
  | .array [] => "[]".toList
  | .array (v :: vs) => '[' :: compact v ++ compactItems vs
  | .object [] => ['{', '}']
  | .object ((k, v) :: fs) => '{' :: renderString k ++ ':' :: compact v ++ compactFields fs

/-- The items after the first of an array, and its closing bracket. -/
def compactItems : List Value → Text
  | [] => [']']
  | v :: vs => ',' :: compact v ++ compactItems vs

/-- The fields after the first of an object, and its closing bracket. -/
def compactFields : List (Text × Value) → Text
  | [] => ['}']
  | (k, v) :: fs => ',' :: renderString k ++ ':' :: compact v ++ compactFields fs

end

/-- A new line at a depth. -/
def newLine (depth : Nat) : Text := '\n' :: List.replicate (2 * depth) ' '

mutual

/-- The text with a line for each item and field, for a value at a depth. -/
def prettyAt (depth : Nat) : Value → Text
  | .null => "null".toList
  | .bool b => if b then "true".toList else "false".toList
  | .number n => n.render
  | .string s => renderString s
  | .array [] => "[]".toList
  | .array (v :: vs) =>
    '[' :: newLine (depth + 1) ++ prettyAt (depth + 1) v ++ prettyItems depth vs
  | .object [] => ['{', '}']
  | .object ((k, v) :: fs) =>
    '{' :: newLine (depth + 1) ++ renderString k ++ ':' :: ' ' :: prettyAt (depth + 1) v ++
      prettyFields depth fs

/-- The items after the first of an array at a depth, and its closing bracket. -/
def prettyItems (depth : Nat) : List Value → Text
  | [] => newLine depth ++ [']']
  | v :: vs => ',' :: newLine (depth + 1) ++ prettyAt (depth + 1) v ++ prettyItems depth vs

/-- The fields after the first of an object at a depth, and its closing bracket. -/
def prettyFields (depth : Nat) : List (Text × Value) → Text
  | [] => newLine depth ++ ['}']
  | (k, v) :: fs =>
    ',' :: newLine (depth + 1) ++ renderString k ++ ':' :: ' ' :: prettyAt (depth + 1) v ++
      prettyFields depth fs

end

/-- The text with a line for each item and field. -/
def pretty (v : Value) : Text := prettyAt 0 v

end Value

end SpecHarvest.Json
