import SpecHarvest.Text.Basic
import SpecHarvest.Text.Quoted

/-!
# TAP reports

A report in the Test Anything Protocol, version 14: the plan, a line for each test with its number,
the diagnostics of the tests that failed, and the counts.

* `Tap.Entry` is the result of one test, `Tap.Summary` counts the results.
* `Tap.render` writes a report.
-/

namespace SpecHarvest.Tap

open Text

/-- The result of a test. -/
inductive Entry where
  | ok (description : Text)
  | notOk (description diagnostics : Text)
  | skip (description : Text)
  deriving DecidableEq, Repr

/-- How many tests passed, failed and were left out. -/
structure Summary where
  pass : Nat
  fail : Nat
  skip : Nat
  deriving DecidableEq, Repr

namespace Entry

/-- The description of a test. -/
def description : Entry → Text
  | ok d => d
  | notOk d _ => d
  | skip d => d

/-- Whether a test passed. -/
def isPass : Entry → Bool
  | ok _ => true
  | _ => false

/-- Whether a test failed. -/
def isFail : Entry → Bool
  | notOk _ _ => true
  | _ => false

/-- Whether a test was left out. -/
def isSkip : Entry → Bool
  | skip _ => true
  | _ => false

end Entry

/-- The counts of a list of results. -/
def summary (es : List Entry) : Summary where
  pass := es.countP Entry.isPass
  fail := es.countP Entry.isFail
  skip := es.countP Entry.isSkip

/-- A line without the carriage return before its line feed. -/
def dropReturn (line : Text) : Text := (before? ['\r'] line).getD line

/-- The lines of diagnostics. A line feed at the end opens no further line, and a carriage return
before a line feed belongs to it. -/
def diagnosticLines (s : Text) : List Text :=
  let ls := lines s
  let last := (ls.getLast?).getD []
  ls.dropLast.map dropReturn ++ (if last.isEmpty then [] else [last])

/-- The lines of a result, given its number. -/
def entryLines (n : Nat) : Entry → List Text
  | .ok d => ["ok ".toList ++ ofNat n ++ " - ".toList ++ d]
  | .skip d => ["ok ".toList ++ ofNat n ++ " - ".toList ++ d ++ " # SKIP".toList]
  | .notOk d diagnostics =>
    ("not ok ".toList ++ ofNat n ++ " - ".toList ++ d) ::
      (diagnosticLines diagnostics).map ("  # ".toList ++ ·)

/-- The lines of the results, numbered from `n` on. -/
def resultLines : (n : Nat) → List Entry → List Text
  | _, [] => []
  | n, e :: es => entryLines n e ++ resultLines (n + 1) es

/-- The lines of a report. -/
def reportLines (es : List Entry) : List Text :=
  let s := summary es
  ["TAP version 14".toList, "1..".toList ++ ofNat es.length] ++ resultLines 1 es ++
    ["# tests ".toList ++ ofNat es.length, "# pass  ".toList ++ ofNat s.pass,
      "# fail  ".toList ++ ofNat s.fail, "# skip  ".toList ++ ofNat s.skip]

/-- A report. Every line ends with a line feed. -/
def render (es : List Entry) : Text := (reportLines es).flatMap (· ++ ['\n'])

end SpecHarvest.Tap
