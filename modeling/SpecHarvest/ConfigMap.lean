import SpecHarvest.Assoc
import SpecHarvest.Source.Reader
import SpecHarvest.Text.Find

/-!
# Configurations of spec files

The main module of a test suite lists the specs that run under the default configuration, and runs
others behind a fixture. A `ConfigMap` gives the configuration of each spec, in the order in which
the specs are first met.

* `ConfigMap.ofMain` reads the main module.
* `ConfigMap.configFor` finds the configuration of a spec file.
-/

namespace SpecHarvest

open Text Source

/-- Names of specs with their configurations. -/
abbrev ConfigMap := List (Text × Text)

namespace ConfigMap

/-- The configuration of specs that have no other. -/
def defaultConfig : Text := "default".toList

/-- What stands between the first brackets of `specs = uncurry describe <$> […]`, read at the
front. -/
def specsListHere? (s : Text) : Option Text := do
  let s ← after? ['='] (trimStart (← after? "specs".toList s))
  let s ← blanks? (← after? "uncurry".toList (trimStart s))
  let s ← after? "<$>".toList (trimStart (← after? "describe".toList s))
  let (list, _) ← cut? [']'] (← after? ['['] (trimStart s))
  return list

/-- A text in double quotes that holds something, and no escapes, at the front. -/
def plainQuoted? (s : Text) : Option (Text × Text) := do
  let s ← after? ['"'] s
  let name := s.takeWhile (· != '"')
  let rest ← after? ['"'] (s.dropWhile (· != '"'))
  if name.isEmpty then none else some (name, rest)

/-- A listed spec at the front, `("Name", Module.spec)`: its name and the text after the last
closing parenthesis of the run of characters that holds the module. -/
def entryHere? (s : Text) : Option (Text × Text) := do
  let (name, s) ← plainQuoted? (← after? ['('] s)
  let s := trimStart (← after? [','] (trimStart s))
  let (front, back) ← cutLast? ')' (s.takeWhile (!isBlank ·))
  if front.isEmpty then none else some (name, back ++ s.dropWhile (!isBlank ·))

/-- The names of the specs in a list, which has so many characters at most. -/
def entryNames : Nat → Text → List Text
  | 0, _ => []
  | _ + 1, [] => []
  | n + 1, c :: s =>
    match entryHere? (c :: s) with
    | some (name, rest) => name :: entryNames n rest
    | none => entryNames n s

/-- The names in the list of default specs. -/
def defaultSpecs (main : Text) : List Text :=
  match firstAt specsListHere? main with
  | some list => entryNames list.length list
  | none => []

/-- Fixtures and the configurations that they set up. -/
def fixtures : List (Text × Text) := [
  ("maxRowsApp".toList, "max-rows".toList),
  ("planEnabledApp".toList, "plan-enabled".toList),
  ("aggregatesEnabled".toList, "aggregates-enabled".toList),
  ("noAnonApp".toList, "no-anon".toList),
  ("pgSafeUpdateApp".toList, "pg-safe-update".toList),
  ("serverTiming".toList, "server-timing".toList),
  ("unicodeApp".toList, "unicode".toList),
  ("multipleSchemaApp".toList, "multiple-schema".toList),
  ("obsApp".toList, "observability".toList)]

/-- The text after `before fixture` at the front. -/
def beforeHere? (fixture s : Text) : Option Text := do
  after? fixture (← blanks? (← after? "before".toList s))

/-- The name in `describe "Name"` at the front. -/
def describeHere? (s : Text) : Option Text := do
  let (name, _) ← plainQuoted? (← blanks? (← after? "describe".toList s))
  return name

/-- The first spec that is described behind a fixture. -/
def fixtureSpec? (fixture main : Text) : Option Text :=
  (firstAt (beforeHere? fixture) main).bind (firstAt describeHere?)

/-- The configurations that a main module sets up. -/
def ofMain (main : Text) : ConfigMap :=
  Assoc.ofList <|
    (defaultSpecs main).map (·, defaultConfig) ++
      fixtures.filterMap fun (fixture, config) => (fixtureSpec? fixture main).map (·, config)

/-- A text without the first occurrence of another. -/
def removeFirst (lit s : Text) : Text :=
  match cut? lit s with
  | some (front, rest) => front ++ rest
  | none => s

/-- The configuration of a spec file, given the stem of its name: that of the first spec whose name
contains the stem, or the stem without the word `Spec`. -/
def configFor (m : ConfigMap) (stem : Text) : Text :=
  let short := removeFirst "Spec".toList stem
  ((m.find? fun (key, _) => contains stem key || contains short key).map (·.2)).getD defaultConfig

end ConfigMap

end SpecHarvest
