/- module: HftGrading/Web/ReportParser
   source: web/backend/main.py, orchestrator/include/orchestrator/post_contest_validator.hpp
   digest: The system-test report as it is printed, and as it is read from the runner's stderr. -/

import HftGrading.Lib.TextScan

set_option autoImplicit false
set_option relaxedAutoImplicit false

namespace HftGrading.Web.ReportParser

open Lib.TextScan

abbrev Text := List Char

/-- `str.isspace` of one character. -/
def isSpace (c : Char) : Bool :=
  let n := c.toNat
  (9 ≤ n && n ≤ 13) || (28 ≤ n && n ≤ 32) || n == 0x85 || n == 0xa0 || n == 0x1680 ||
    (0x2000 ≤ n && n ≤ 0x200a) || n == 0x2028 || n == 0x2029 || n == 0x202f || n == 0x205f ||
    n == 0x3000

/-- The number formats of the two languages: `int` and `float` of the parser, which may raise a
`ValueError` with a message, and the texts of `%.4f` with the numbers they denote. Those texts and
what `%u` prints are read back. -/
structure Numerals (K : Type) where
  int : Text → Except Text Int
  float : Text → Except Text K
  fixed : K → Text
  shown : K → K
  int_digits : ∀ n : UInt32, int (Nat.toDigits 10 n.toNat) = .ok n.toNat
  float_fixed : ∀ x, float (fixed x) = .ok (shown x)
  fixed_ne_nil : ∀ x, fixed x ≠ []
  fixed_solid : ∀ x, ∀ c ∈ fixed x, isSpace c = false
  fixed_clear : ∀ x, ':' ∉ fixed x

section Report

/-- The fields of `ScenarioResult` that are printed; the names are those of the scenarios. -/
structure ScenarioResult (K : Type) where
  passed : Bool
  scenarioId : Nat
  name : Text
  correctness : K
  plain : ':' ∉ name

/-- The fields of `SystemTestResult`. The name of a team has letters, digits, `_` and `-` only. -/
structure SystemTestResult (K : Type) where
  contestantId : Text
  scenariosPassed : UInt32
  scenariosTotal : UInt32
  systemScore : K
  originalScore : K
  finalScore : K
  scenarios : List (ScenarioResult K)
  plain : ':' ∉ contestantId

def spaces (n : Nat) : Text := List.replicate n ' '

/-- `%-Nu`, `%-Ns` and the like. -/
def padRight (width : Nat) (text : Text) : Text := text ++ spaces (width - text.length)

/-- `%2u` and the like. -/
def padLeft (width : Nat) (text : Text) : Text := spaces (width - text.length) ++ text

def reportLine (label body : Text) : Text :=
  "--- ".toList ++ label ++ ':' :: (body ++ " ---".toList)

variable {K : Type} (numerals : Numerals K) (result : SystemTestResult K)

def scoreLine (label : Text) (blanks width : Nat) (score : K) : Text :=
  reportLine label (spaces blanks ++ padRight width (numerals.fixed score))

def headerLine : Text :=
  reportLine "SYSTEM TEST RESULTS".toList (spaces 1 ++ padRight 25 result.contestantId)

def passedLine : Text :=
  reportLine "Scenarios Passed".toList (spaces 2 ++ Nat.toDigits 10 result.scenariosPassed.toNat ++
    " / ".toList ++ padRight 37 (Nat.toDigits 10 result.scenariosTotal.toNat))

def printContestantReport : Text :=
  ['\n'] ++ headerLine result ++ ['\n'] ++ passedLine result ++ ['\n'] ++
    scoreLine numerals "System Score".toList 6 42 result.systemScore ++ ['\n'] ++
    scoreLine numerals "Final Score".toList 7 42 result.finalScore ++ ['\n']

def scenarioLine (scenario : ScenarioResult K) : Text :=
  reportLine
    ((if scenario.passed then "[✓] Scenario ".toList else "[✗] Scenario ".toList) ++
      padLeft 2 (Nat.toDigits 10 scenario.scenarioId))
    (spaces 1 ++ padRight 20 scenario.name ++ "  score=".toList ++
      numerals.fixed scenario.correctness)

/-- The lines of `print_report`, which the runner prints before. -/
def printReport : List Text :=
  [[], headerLine result,
    reportLine "Scenarios".toList (spaces 7 ++ Nat.toDigits 10 result.scenariosPassed.toNat ++
      " / ".toList ++ Nat.toDigits 10 result.scenariosTotal.toNat ++ " passed".toList),
    scoreLine numerals "System Score".toList 4 44 result.systemScore,
    scoreLine numerals "Original Score".toList 2 44 result.originalScore,
    scoreLine numerals "Final Score".toList 5 44 result.finalScore] ++
  result.scenarios.map (scenarioLine numerals)

end Report

/-- The dictionary that `_parse_system_test_result` returns. -/
structure ParsedResult (K : Type) where
  team : Text
  originalScore : K
  systemScore : K
  finalScore : K
  passed : Int
  total : Int
  error : Option Text

section Parser

variable {K : Type} (numerals : Numerals K)

/-- `line.strip().strip("║").strip()`. -/
def stripLine (line : Text) : Text := strip isSpace (strip (· == '║') (strip isSpace line))

/-- `text.split(marker)[1]`, if the marker is in the text. -/
def splitSecond (marker text : Text) : Option Text :=
  (afterFirst marker text).map (beforeFirst marker)

def indexError : Text := "list index out of range".toList

/-- `text.split()[0]`. -/
def splitFirst (text : Text) : Except Text Text :=
  match firstWord isSpace text with
  | none => .error indexError
  | some word => .ok word

def readScore (parts : Text) : Except Text K :=
  splitFirst (strip isSpace parts) >>= numerals.float

/-- The two numbers after `Scenarios Passed:`; the first is stored before the second is read. -/
def readPassed (result : ParsedResult K) (parts : Text) : ParsedResult K × Option Text :=
  match (strip isSpace parts).splitOn '/' with
  | first :: second :: _ =>
    match numerals.int (strip isSpace first) with
    | .error message => (result, some message)
    | .ok passed =>
      match splitFirst (strip isSpace second) >>= numerals.int with
      | .error message => ({ result with passed := passed }, some message)
      | .ok total => ({ result with passed := passed, total := total }, none)
  | _ => (result, none)

def scanLine (result : ParsedResult K) (line : Text) : ParsedResult K × Option Text :=
  match splitSecond "Scenarios Passed:".toList (stripLine line) with
  | some parts => readPassed numerals result parts
  | none =>
    match splitSecond "System Score:".toList (stripLine line) with
    | some parts =>
      match readScore numerals parts with
      | .error message => (result, some message)
      | .ok score => ({ result with systemScore := score }, none)
    | none =>
      match splitSecond "Final Score:".toList (stripLine line) with
      | some parts =>
        match readScore numerals parts with
        | .error message => (result, some message)
        | .ok score => ({ result with finalScore := score }, none)
      | none => (result, none)

def scan (result : ParsedResult K) : List Text → ParsedResult K
  | [] => result
  | line :: lines =>
    match scanLine numerals result line with
    | (result, none) => scan result lines
    | (result, some message) => { result with error := some ("Parse error: ".toList ++ message) }

def parseSystemTestResult [Zero K] (stderrText teamName : Text) (originalScore : K) :
    ParsedResult K :=
  scan numerals ⟨teamName, originalScore, 0, originalScore, 0, 10, none⟩
    (stderrText.splitOn '\n')

end Parser

end HftGrading.Web.ReportParser
