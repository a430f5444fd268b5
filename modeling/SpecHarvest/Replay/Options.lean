import SpecHarvest.Text.Find
import SpecHarvest.Text.LetterCase

/-!
# Options of a replay

`ReplayOptions` says where requests go and which files, tests and configurations take part.
`ReplayOptions.merge` lets one set of options override another.
-/

namespace SpecHarvest

open Text

/-- The target of a replay and what takes part in it. -/
structure ReplayOptions where
  /-- The base address of the service under test. -/
  target : Option Text
  /-- Texts one of which the name of a file must contain; any name will do if there are none. -/
  only : List Text
  /-- Texts that the name of a file may not contain. -/
  skip : List Text
  /-- Texts that the description of a test may not contain. -/
  skipTests : List Text
  /-- Configurations that are left out. -/
  skipConfigs : List Text
  deriving DecidableEq, Repr

namespace ReplayOptions

/-- No target, and everything takes part. -/
def empty : ReplayOptions := ⟨none, [], [], [], []⟩

/-- Options overridden by a target and by lists that are not empty. -/
def merge (o over_ : ReplayOptions) : ReplayOptions :=
  let pick (mine theirs : List Text) := if theirs.isEmpty then mine else theirs
  { target := over_.target.or o.target
    only := pick o.only over_.only
    skip := pick o.skip over_.skip
    skipTests := pick o.skipTests over_.skipTests
    skipConfigs := pick o.skipConfigs over_.skipConfigs }

/-- Whether a name contains one of the texts, letter case aside. -/
def namesAny (texts : List Text) (name : Text) : Bool :=
  texts.any fun t => contains (lower t) (lower name)

/-- Whether a file takes part. -/
def includesFile (o : ReplayOptions) (file : Text) : Bool :=
  (o.only.isEmpty || namesAny o.only file) && !namesAny o.skip file

/-- Whether the files of a configuration are left out. -/
def skipsConfig (o : ReplayOptions) (config : Text) : Bool := o.skipConfigs.contains config

/-- Whether a test is left out, given its description as one text. -/
def skipsTest (o : ReplayOptions) (description : Text) : Bool :=
  o.skipTests.any (contains · description)

end ReplayOptions

end SpecHarvest
