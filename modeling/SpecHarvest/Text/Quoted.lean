import SpecHarvest.Text.Basic
import SpecHarvest.Text.WordChar
import SpecHarvest.Text.Quoted.Ranges

/-!
# Quoted texts in messages

A message shows a text between double quotes. A quote, a backslash, a tab, a carriage return, a
line feed and a NUL have two-character escapes; every other character without a picture of its own
is shown as its code point in hexadecimal, `\u{2028}`.
-/

namespace SpecHarvest.Text

/-- Lower-case hexadecimal digits, without leading zeros. -/
def hex (n : Nat) : Text := Nat.toDigits 16 n

/-- Characters that are shown by number. -/
def isUnshown (c : Char) : Bool :=
  if c.toNat < 0x80 then c.toNat < 0x20 || c.toNat == 0x7F else inRanges unshownRanges c.toNat

/-- A character as it stands in a quoted text. -/
def quotedChar (c : Char) : Text :=
  if c = '"' then ['\\', '"']
  else if c = '\\' then ['\\', '\\']
  else if c = '\t' then ['\\', 't']
  else if c = '\r' then ['\\', 'r']
  else if c = '\n' then ['\\', 'n']
  else if c.toNat = 0 then ['\\', '0']
  else if isUnshown c then ['\\', 'u', '{'] ++ hex c.toNat ++ ['}']
  else [c]

/-- A text between quotes. -/
def quoted (s : Text) : Text := '"' :: s.flatMap quotedChar ++ ['"']

/-- A text that may be missing: `Some("…")` or `None`. -/
def quotedOption : Option Text → Text
  | some s => "Some(".toList ++ quoted s ++ [')']
  | none => "None".toList

/-- The decimal digits of a number. -/
def ofNat (n : Nat) : Text := Nat.toDigits 10 n

end SpecHarvest.Text
