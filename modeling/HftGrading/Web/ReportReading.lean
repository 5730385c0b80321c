/- module: HftGrading/Web/ReportReading
   source: web/backend/main.py, orchestrator/include/orchestrator/post_contest_validator.hpp
   digest: When the parser returns the numbers of the final report. -/

import HftGrading.Web.ReportParser
import Mathlib.Algebra.Ring.Nat

set_option autoImplicit false
set_option relaxedAutoImplicit false

namespace HftGrading.Web.ReportReading

open Lib.TextScan ReportParser

theorem isSpace_of_isDigit {c : Char} (digit : c.isDigit = true) : isSpace c = false := by
  rw [Char.isDigit, Bool.and_eq_true, decide_eq_true_eq, decide_eq_true_eq] at digit
  have low : 48 ≤ c.toNat := UInt32.le_iff_toNat_le.mp digit.1
  have high : c.toNat ≤ 57 := UInt32.le_iff_toNat_le.mp digit.2
  unfold isSpace
  generalize c.toNat = n at *
  simp only [Bool.or_eq_false_iff, Bool.and_eq_false_iff, decide_eq_false_iff_not,
    beq_eq_false_iff_ne]
  omega

theorem all_digits (n : Nat) : (Nat.toDigits 10 n).all Char.isDigit = true := by
  rw [List.all_eq_true]
  exact fun c listed => Nat.isDigit_of_mem_toDigits (by decide) (by decide) listed

section Texts

variable {text : Text} (digits : text.all Char.isDigit = true)
include digits

theorem solid_of_digits : ∀ c ∈ text, isSpace c = false :=
  fun c listed => isSpace_of_isDigit (List.all_eq_true.mp digits c listed)

theorem not_mem_of_digits {c : Char} (other : c.isDigit = false) : c ∉ text := by
  intro listed
  rw [List.all_eq_true.mp digits c listed] at other
  cases other

end Texts

theorem toDigits_clear (n : Nat) {c : Char} (other : c.isDigit = false) :
    c ∉ Nat.toDigits 10 n :=
  not_mem_of_digits (all_digits n) other

theorem isSpace_spaces (n : Nat) : ∀ c ∈ spaces n, isSpace c = true := by
  intro c listed
  rw [List.eq_of_mem_replicate listed]
  decide

theorem spaces_clear {n : Nat} {c : Char} (visible : c ≠ ' ') : c ∉ spaces n :=
  fun listed => visible (List.eq_of_mem_replicate listed)

theorem padRight_clear {width : Nat} {word : Text} {c : Char} (clear : c ∉ word)
    (visible : c ≠ ' ') : c ∉ padRight width word := by
  rw [padRight, List.mem_append, not_or]
  exact ⟨clear, spaces_clear visible⟩

theorem spaces_cons (n : Nat) (text : Text) : spaces n ++ ' ' :: text = ' ' :: (spaces n ++ text) := by
  have more : spaces n ++ [' '] = ' ' :: spaces n := by
    rw [spaces, ← List.replicate_succ', List.replicate_succ]
  rw [← List.cons_append, ← more, List.append_assoc]
  rfl

section Words

variable (blanks width : Nat) {word : Text} (some : word ≠ [])
  (solid : ∀ c ∈ word, isSpace c = false)
include some solid

theorem strip_padded :
    strip isSpace (spaces blanks ++ padRight width word ++ " ---".toList) =
      word ++ ' ' :: (spaces (width - word.length) ++ "---".toList) := by
  have shape : spaces blanks ++ padRight width word ++ " ---".toList = spaces blanks ++
      (word ++ (' ' :: (spaces (width - word.length) ++ "--".toList) ++ ['-'])) := by
    have blank := spaces_cons (width - word.length) "---".toList
    rw [padRight, List.append_assoc, List.append_assoc, show " ---".toList = ' ' :: "---".toList
      from rfl, blank]
    simp
  rw [shape, strip_word (isSpace_spaces blanks) some solid (by decide)]
  simp

theorem splitFirst_padded :
    splitFirst (strip isSpace (spaces blanks ++ padRight width word ++ " ---".toList)) =
      .ok word := by
  rw [strip_padded blanks width some solid, splitFirst, firstWord_word some solid (by decide)]

end Words

section Lines

variable {label body stem : Text}

theorem dashed_ends (opening closing label body : Text) :
    '-' :: opening ++ label ++ ':' :: (body ++ (closing ++ ['-'])) =
      '-' :: (opening ++ label ++ ':' :: (body ++ closing) ++ ['-']) := by
  simp only [List.cons_append, List.append_assoc]

theorem stripLine_reportLine (label body : Text) :
    stripLine (reportLine label body) = reportLine label body := by
  have framed : reportLine label body =
      '-' :: ("-- ".toList ++ label ++ ':' :: (body ++ " --".toList) ++ ['-']) :=
    dashed_ends "-- ".toList " --".toList label body
  rw [stripLine, framed, strip_ends (by decide) (by decide), strip_ends (by decide) (by decide),
    strip_ends (by decide) (by decide)]

theorem reportLine_whole (named : '\n' ∉ label) (filled : '\n' ∉ body) :
    (reportLine label body).splitOn '\n' = [reportLine label body] := by
  refine splitOn_of_not_mem fun listed => ?_
  rcases List.mem_append.mp listed with front | back
  · exact (List.mem_append.mp front).elim (by decide) named
  · rcases List.mem_cons.mp back with colon | rest
    · exact absurd colon (by decide)
    · exact (List.mem_append.mp rest).elim filled (by decide)

variable (clear : ':' ∉ label) (plain : ':' ∉ body)
include clear plain

theorem afterFirst_reportLine (own : ':' ∉ stem) :
    afterFirst (stem ++ [':']) (reportLine label body) =
      if stem <:+ "--- ".toList ++ label then some (body ++ " ---".toList) else none := by
  have first : ':' ∉ "--- ".toList ++ label := by
    rw [List.mem_append, not_or]
    exact ⟨by decide, clear⟩
  have last : ':' ∉ body ++ " ---".toList := by
    rw [List.mem_append, not_or]
    exact ⟨plain, by decide⟩
  exact afterFirst_terminated own first last

variable (label) in
theorem splitSecond_own :
    splitSecond (label ++ [':']) (stripLine (reportLine label body)) =
      some (body ++ " ---".toList) := by
  have last : ':' ∉ body ++ " ---".toList := by
    rw [List.mem_append, not_or]
    exact ⟨plain, by decide⟩
  rw [stripLine_reportLine, splitSecond, afterFirst_reportLine clear plain clear,
    if_pos (List.suffix_append _ _), Option.map_some, beforeFirst_of_not_mem last]

variable (stem) in
theorem splitSecond_other (own : ':' ∉ stem) (differs : ¬ stem <:+ "--- ".toList ++ label) :
    splitSecond (stem ++ [':']) (stripLine (reportLine label body)) = none := by
  rw [stripLine_reportLine, splitSecond, afterFirst_reportLine clear plain own, if_neg differs,
    Option.map_none]

end Lines

section Scanning

variable {K : Type} {numerals : Numerals K} (parsed : ParsedResult K)

section Unmarked

variable {label body : Text}

structure Unmarked (label : Text) : Prop where
  passed : ¬ "Scenarios Passed".toList <:+ "--- ".toList ++ label
  system : ¬ "System Score".toList <:+ "--- ".toList ++ label
  final : ¬ "Final Score".toList <:+ "--- ".toList ++ label

theorem unmarked_of_digits (front : Text) (n : Nat) : Unmarked (front ++ Nat.toDigits 10 n) := by
  have last : ∀ init : Text, ∀ c : Char, c.isDigit = false →
      ¬ init ++ [c] <:+ "--- ".toList ++ (front ++ Nat.toDigits 10 n) := by
    intro init c other found
    obtain ⟨rest, whole⟩ := found
    have ends := congrArg List.getLast? whole
    rw [← List.append_assoc, List.getLast?_concat, ← List.append_assoc,
      List.getLast?_append_of_ne_nil _ Nat.toDigits_ne_nil] at ends
    exact toDigits_clear n other (List.mem_of_getLast? ends.symm)
  exact ⟨last "Scenarios Passe".toList 'd' (by decide), last "System Scor".toList 'e' (by decide),
    last "Final Scor".toList 'e' (by decide)⟩

theorem scanLine_unmarked (unmarked : Unmarked label) (clear : ':' ∉ label) (plain : ':' ∉ body)
    {line : Text} (listed : line ∈ (reportLine label body).splitOn '\n') :
    scanLine numerals parsed line = (parsed, none) := by
  have inside : stripLine line <:+: reportLine label body :=
    (((strip_part _).trans (strip_part _)).trans (strip_part _)).trans (infix_of_mem_splitOn listed)
  have absent : ∀ stem : Text, ':' ∉ stem → ¬ stem <:+ "--- ".toList ++ label →
      splitSecond (stem ++ [':']) (stripLine line) = none := by
    intro stem own differs
    have none := afterFirst_reportLine clear plain own
    rw [if_neg differs] at none
    rw [splitSecond, afterFirst_none_of_infix inside none, Option.map_none]
  have passed : splitSecond "Scenarios Passed:".toList (stripLine line) = none :=
    absent "Scenarios Passed".toList (by decide) unmarked.passed
  have system : splitSecond "System Score:".toList (stripLine line) = none :=
    absent "System Score".toList (by decide) unmarked.system
  have final : splitSecond "Final Score:".toList (stripLine line) = none :=
    absent "Final Score".toList (by decide) unmarked.final
  simp only [scanLine, passed, system, final]

end Unmarked

section Scores

variable (blanks width : Nat) (x : K)

variable (numerals) in
theorem score_plain : ':' ∉ spaces blanks ++ padRight width (numerals.fixed x) := by
  rw [List.mem_append, not_or]
  exact ⟨spaces_clear (by decide), padRight_clear (numerals.fixed_clear x) (by decide)⟩

theorem readScore_padded :
    readScore numerals (spaces blanks ++ padRight width (numerals.fixed x) ++ " ---".toList) =
      .ok (numerals.shown x) := by
  rw [readScore, splitFirst_padded blanks width (numerals.fixed_ne_nil x) (numerals.fixed_solid x)]
  exact numerals.float_fixed x

theorem scanLine_systemScore :
    scanLine numerals parsed (scoreLine numerals "System Score".toList blanks width x) =
      ({ parsed with systemScore := numerals.shown x }, none) := by
  have plain := score_plain numerals blanks width x
  have passed : splitSecond "Scenarios Passed:".toList
      (stripLine (scoreLine numerals "System Score".toList blanks width x)) = none :=
    splitSecond_other "Scenarios Passed".toList (by decide) plain (by decide) (by decide)
  have system : splitSecond "System Score:".toList
      (stripLine (scoreLine numerals "System Score".toList blanks width x)) = some _ :=
    splitSecond_own "System Score".toList (by decide) plain
  simp only [scanLine, passed, system, readScore_padded]

theorem scanLine_finalScore :
    scanLine numerals parsed (scoreLine numerals "Final Score".toList blanks width x) =
      ({ parsed with finalScore := numerals.shown x }, none) := by
  have plain := score_plain numerals blanks width x
  have passed : splitSecond "Scenarios Passed:".toList
      (stripLine (scoreLine numerals "Final Score".toList blanks width x)) = none :=
    splitSecond_other "Scenarios Passed".toList (by decide) plain (by decide) (by decide)
  have system : splitSecond "System Score:".toList
      (stripLine (scoreLine numerals "Final Score".toList blanks width x)) = none :=
    splitSecond_other "System Score".toList (by decide) plain (by decide) (by decide)
  have final : splitSecond "Final Score:".toList
      (stripLine (scoreLine numerals "Final Score".toList blanks width x)) = some _ :=
    splitSecond_own "Final Score".toList (by decide) plain
  simp only [scanLine, passed, system, final, readScore_padded]

theorem scoreLine_whole {label : Text} (named : '\n' ∉ label) :
    (scoreLine numerals label blanks width x).splitOn '\n' =
      [scoreLine numerals label blanks width x] := by
  have solid : '\n' ∉ numerals.fixed x := by
    intro listed
    exact absurd (numerals.fixed_solid x _ listed) (by decide)
  refine reportLine_whole named ?_
  rw [List.mem_append, not_or]
  exact ⟨spaces_clear (by decide), padRight_clear solid (by decide)⟩

end Scores

section Passed

theorem readPassed_padded (passed total : UInt32) :
    readPassed numerals parsed (spaces 2 ++ Nat.toDigits 10 passed.toNat ++ " / ".toList ++
      padRight 37 (Nat.toDigits 10 total.toNat) ++ " ---".toList) =
        ({ parsed with passed := passed.toNat, total := total.toNat }, none) := by
  have solid := solid_of_digits (all_digits passed.toNat)
  have stripped : strip isSpace (spaces 2 ++ Nat.toDigits 10 passed.toNat ++ " / ".toList ++
      padRight 37 (Nat.toDigits 10 total.toNat) ++ " ---".toList) =
        (Nat.toDigits 10 passed.toNat ++ spaces 1) ++ '/' ::
          (spaces 1 ++ padRight 37 (Nat.toDigits 10 total.toNat) ++ " ---".toList) := by
    have word := strip_word (isSpace_spaces 2) Nat.toDigits_ne_nil solid
      (show isSpace '-' = false by decide)
      (" / ".toList ++ padRight 37 (Nat.toDigits 10 total.toNat) ++ " --".toList)
    simpa [spaces] using word
  have front : '/' ∉ Nat.toDigits 10 passed.toNat ++ spaces 1 := by
    rw [List.mem_append, not_or]
    exact ⟨toDigits_clear passed.toNat (by decide), by decide⟩
  have back : '/' ∉ spaces 1 ++ padRight 37 (Nat.toDigits 10 total.toNat) ++ " ---".toList := by
    rw [List.mem_append, List.mem_append, not_or, not_or]
    exact ⟨⟨by decide, padRight_clear (toDigits_clear total.toNat (by decide)) (by decide)⟩, by decide⟩
  have first : strip isSpace (Nat.toDigits 10 passed.toNat ++ spaces 1) =
      Nat.toDigits 10 passed.toNat :=
    strip_word_pad (isSpace_spaces 1) solid
  have second : splitFirst (strip isSpace
      (spaces 1 ++ padRight 37 (Nat.toDigits 10 total.toNat) ++ " ---".toList)) >>=
        numerals.int = .ok (total.toNat : Int) := by
    rw [splitFirst_padded 1 37 Nat.toDigits_ne_nil (solid_of_digits (all_digits total.toNat))]
    exact numerals.int_digits total
  rw [readPassed, stripped, splitOn_append, splitOn_of_not_mem front, splitOn_of_not_mem back]
  simp only [List.singleton_append, first, second, numerals.int_digits]

variable (result : SystemTestResult K)

theorem passed_clear {c : Char} (digit : c.isDigit = false) (visible : c ≠ ' ') (other : c ≠ '/') :
    c ∉ spaces 2 ++ Nat.toDigits 10 result.scenariosPassed.toNat ++ " / ".toList ++
      padRight 37 (Nat.toDigits 10 result.scenariosTotal.toNat) := by
  simp only [List.mem_append, not_or]
  refine ⟨⟨⟨spaces_clear visible, toDigits_clear _ digit⟩, ?_⟩,
    padRight_clear (toDigits_clear _ digit) visible⟩
  simp [visible, other]

theorem scanLine_passedLine :
    scanLine numerals parsed (passedLine result) =
      ({ parsed with
        passed := result.scenariosPassed.toNat
        total := result.scenariosTotal.toNat }, none) := by
  have passed : splitSecond "Scenarios Passed:".toList (stripLine (passedLine result)) = some _ :=
    splitSecond_own "Scenarios Passed".toList (by decide)
      (passed_clear result (by decide) (by decide) (by decide))
  simp only [scanLine, passed]
  exact readPassed_padded parsed result.scenariosPassed result.scenariosTotal

theorem scanLine_headerLine {line : Text} (listed : line ∈ (headerLine result).splitOn '\n') :
    scanLine numerals parsed line = (parsed, none) := by
  refine scanLine_unmarked parsed ⟨by decide, by decide, by decide⟩ (by decide) ?_ listed
  rw [List.mem_append, not_or]
  exact ⟨spaces_clear (by decide), padRight_clear result.plain (by decide)⟩

theorem printContestantReport_lines :
    (printContestantReport numerals result).splitOn '\n' =
      [] :: ((headerLine result).splitOn '\n' ++
        [passedLine result, scoreLine numerals "System Score".toList 6 42 result.systemScore,
          scoreLine numerals "Final Score".toList 7 42 result.finalScore, []]) := by
  have shape : printContestantReport numerals result =
      [] ++ '\n' :: (headerLine result ++ '\n' :: (passedLine result ++ '\n' ::
        (scoreLine numerals "System Score".toList 6 42 result.systemScore ++ '\n' ::
          (scoreLine numerals "Final Score".toList 7 42 result.finalScore ++ '\n' :: [])))) := by
    simp only [printContestantReport, List.append_assoc, List.cons_append, List.nil_append]
  have passed : (passedLine result).splitOn '\n' = [passedLine result] :=
    reportLine_whole (by decide) (passed_clear result (by decide) (by decide) (by decide))
  rw [shape, splitOn_append, splitOn_append, splitOn_append, splitOn_append, splitOn_append, passed,
    scoreLine_whole _ _ _ (by decide), scoreLine_whole _ _ _ (by decide)]
  rfl

end Passed

end Scanning

section Scans

variable {K : Type} {numerals : Numerals K} (parsed : ParsedResult K)

/-- A line at which the scan does not end. -/
def Readable (numerals : Numerals K) (line : Text) : Prop :=
  ∀ parsed, (scanLine numerals parsed line).2 = none

theorem scanLine_message (parsed parsed' : ParsedResult K) (line : Text) :
    (scanLine numerals parsed line).2 = (scanLine numerals parsed' line).2 := by
  unfold scanLine readPassed
  repeat' split
  all_goals rfl

theorem readable_iff {line : Text} :
    Readable numerals line ↔ (scanLine numerals parsed line).2 = none :=
  ⟨fun readable => readable parsed,
    fun quiet parsed' => (scanLine_message parsed' parsed line).trans quiet⟩

theorem scenarioLine_readable (scenario : ScenarioResult K) {part : Text}
    (inside : part ∈ (scenarioLine numerals scenario).splitOn '\n') :
    Readable numerals part := by
  intro parsed
  have marked : ∀ front : Text, ':' ∉ front →
      ':' ∉ front ++ padLeft 2 (Nat.toDigits 10 scenario.scenarioId) := by
    intro front clear
    simp only [padLeft, List.mem_append, not_or]
    exact ⟨clear, spaces_clear (by decide), toDigits_clear _ (by decide)⟩
  have plain : ':' ∉ spaces 1 ++ padRight 20 scenario.name ++ "  score=".toList ++
      numerals.fixed scenario.correctness := by
    simp only [List.mem_append, not_or]
    exact ⟨⟨⟨spaces_clear (by decide), padRight_clear scenario.plain (by decide)⟩, by decide⟩,
      numerals.fixed_clear _⟩
  rw [scenarioLine] at inside
  rw [scanLine_unmarked parsed ?_ (marked _ (by split_ifs <;> decide)) plain inside]
  rw [padLeft, ← List.append_assoc]
  exact unmarked_of_digits _ _

theorem printReport_readable (result : SystemTestResult K) {line part : Text}
    (listed : line ∈ printReport numerals result) (inside : part ∈ line.splitOn '\n') :
    Readable numerals part := by
  intro parsed
  rcases List.mem_append.mp listed with table | scenario
  · simp only [List.mem_cons, List.not_mem_nil, or_false] at table
    rcases table with rfl | rfl | rfl | rfl | rfl | rfl
    · rw [List.mem_singleton.mp inside]
      rfl
    · rw [scanLine_headerLine parsed result inside]
    · have plain : ':' ∉ spaces 7 ++ Nat.toDigits 10 result.scenariosPassed.toNat ++ " / ".toList ++
          Nat.toDigits 10 result.scenariosTotal.toNat ++ " passed".toList := by
        simp only [List.mem_append, not_or]
        exact ⟨⟨⟨⟨by decide, toDigits_clear _ (by decide)⟩, by decide⟩,
          toDigits_clear _ (by decide)⟩, by decide⟩
      rw [scanLine_unmarked parsed ⟨by decide, by decide, by decide⟩ (by decide) plain inside]
    · rw [scoreLine_whole _ _ _ (by decide)] at inside
      rw [List.mem_singleton.mp inside, scanLine_systemScore]
    · rw [scanLine_unmarked parsed ⟨by decide, by decide, by decide⟩ (by decide)
        (score_plain numerals 2 44 result.originalScore) inside]
    · rw [scoreLine_whole _ _ _ (by decide)] at inside
      rw [List.mem_singleton.mp inside, scanLine_finalScore]
  · obtain ⟨one, _, rfl⟩ := List.mem_map.mp scenario
    exact scenarioLine_readable one inside parsed

theorem scan_readable {line : Text} (readable : Readable numerals line) (lines : List Text) :
    scan numerals parsed (line :: lines) =
      scan numerals (scanLine numerals parsed line).1 lines := by
  have quiet := readable parsed
  rw [scan]
  split
  · next here => rw [here]
  · next here =>
      rw [here] at quiet
      cases quiet

theorem scan_readable_append {front : List Text}
    (readable : ∀ line ∈ front, Readable numerals line) :
    ∃ parsed', ∀ lines, scan numerals parsed (front ++ lines) = scan numerals parsed' lines := by
  induction front generalizing parsed with
  | nil => exact ⟨parsed, fun _ => rfl⟩
  | cons line front ih =>
    rw [List.forall_mem_cons] at readable
    obtain ⟨parsed', rest⟩ := ih (scanLine numerals parsed line).1 readable.2
    exact ⟨parsed', fun lines => by
      rw [List.cons_append, scan_readable parsed readable.1, rest]⟩

theorem scan_raises_append {front : List Text} {line : Text} (listed : line ∈ front)
    (raises : ¬ Readable numerals line) (lines : List Text) :
    scan numerals parsed (front ++ lines) = scan numerals parsed front := by
  induction front generalizing parsed with
  | nil => cases listed
  | cons first front ih =>
    by_cases readable : Readable numerals first
    · rcases List.mem_cons.mp listed with rfl | later
      · exact absurd readable raises
      · rw [List.cons_append, scan_readable parsed readable, scan_readable parsed readable,
          ih _ later]
    · rw [readable_iff parsed] at readable
      cases here : scanLine numerals parsed first with
      | mk result message =>
        rw [here] at readable
        cases message with
        | none => exact absurd rfl readable
        | some message => simp only [List.cons_append, scan, here]

theorem scan_skips {front : List Text}
    (quiet : ∀ line ∈ front, ∀ parsed : ParsedResult K, scanLine numerals parsed line = (parsed, none))
    (lines : List Text) : scan numerals parsed (front ++ lines) = scan numerals parsed lines := by
  induction front with
  | nil => rfl
  | cons line front ih =>
    rw [List.forall_mem_cons] at quiet
    rw [List.cons_append, scan, quiet.1 parsed]
    exact ih quiet.2

theorem scan_report (result : SystemTestResult K) :
    scan numerals parsed ((printContestantReport numerals result).splitOn '\n') =
      { parsed with
        systemScore := numerals.shown result.systemScore
        finalScore := numerals.shown result.finalScore
        passed := result.scenariosPassed.toNat
        total := result.scenariosTotal.toNat } := by
  have blank : ∀ parsed : ParsedResult K, scanLine numerals parsed [] = (parsed, none) :=
    fun _ => rfl
  rw [printContestantReport_lines, scan, blank]
  simp only
  rw [scan_skips parsed fun line listed parsed => scanLine_headerLine parsed result listed]
  simp only [scan, scanLine_passedLine, scanLine_systemScore, scanLine_finalScore, blank]

/-- What the runner's stderr holds: complete lines, and the report. -/
def stderrText (numerals : Numerals K) (lines : List Text) (result : SystemTestResult K) : Text :=
  (lines.map (· ++ ['\n'])).flatten ++ printContestantReport numerals result

/-- The four numbers are those of the report. -/
def Agrees (numerals : Numerals K) (parsed : ParsedResult K) (result : SystemTestResult K) : Prop :=
  parsed.passed = result.scenariosPassed.toNat ∧ parsed.total = result.scenariosTotal.toNat ∧
    parsed.systemScore = numerals.shown result.systemScore ∧
    parsed.finalScore = numerals.shown result.finalScore

variable [Zero K]

theorem parse_lines {lines : List Text} (complete : ∀ line ∈ lines, '\n' ∉ line)
    (result : SystemTestResult K) (teamName : Text) (originalScore : K) :
    parseSystemTestResult numerals (stderrText numerals lines result) teamName originalScore =
      scan numerals ⟨teamName, originalScore, 0, originalScore, 0, 10, none⟩
        (lines ++ (printContestantReport numerals result).splitOn '\n') := by
  rw [parseSystemTestResult, stderrText, splitOn_lines lines complete]

end Scans

/-- The parser returns the numbers of the final report, whatever that report is, exactly when no
line before it, of the contestant or of the runner, makes the scan raise. -/
theorem report_is_read_iff {K : Type} [Zero K] (numerals : Numerals K)
    (contestant runner lines : List Text) (mixed : Interleaves contestant runner lines)
    (complete : ∀ line ∈ lines, '\n' ∉ line) (teamName : Text) (originalScore : K) :
    (∀ result, Agrees numerals
        (parseSystemTestResult numerals (stderrText numerals lines result) teamName originalScore)
        result) ↔
      ∀ line ∈ contestant ++ runner, Readable numerals line := by
  simp only [parse_lines complete]
  constructor
  · intro agrees line listed
    by_contra raises
    have inside : line ∈ lines := mixed.perm.subset listed
    have first := (agrees ⟨[], 0, 0, 0, 0, 0, [], by simp⟩).1
    have second := (agrees ⟨[], 1, 0, 0, 0, 0, [], by simp⟩).1
    rw [scan_raises_append _ inside raises] at first second
    exact absurd (first.symm.trans second) (by simp)
  · intro readable result
    obtain ⟨parsed, rest⟩ := scan_readable_append
      (⟨teamName, originalScore, 0, originalScore, 0, 10, none⟩ : ParsedResult K)
      fun line listed => readable line (mixed.perm.symm.subset listed)
    rw [rest, scan_report]
    exact ⟨rfl, rfl, rfl, rfl⟩

def decimals (n : Nat) : Text :=
  [Nat.digitChar (n / 1000 % 10), Nat.digitChar (n / 100 % 10), Nat.digitChar (n / 10 % 10),
    Nat.digitChar (n % 10)]

def readInt (text : Text) : Except Text Int :=
  if text ≠ [] ∧ text.all Char.isDigit then .ok (Nat.ofDigitChars 10 text 0 : Nat)
  else .error ("invalid literal for int() with base 10: '".toList ++ text ++ "'".toList)

def readFixed (text : Text) : Except Text Nat :=
  match text.splitOn '.' with
  | [whole, fraction] =>
    if whole ≠ [] ∧ fraction.length = 4 ∧ (whole ++ fraction).all Char.isDigit then
      .ok (Nat.ofDigitChars 10 (whole ++ fraction) 0)
    else .error ("could not convert string to float: '".toList ++ text ++ "'".toList)
  | _ => .error ("could not convert string to float: '".toList ++ text ++ "'".toList)

theorem decimals_digits (n : Nat) : (decimals n).all Char.isDigit = true := by
  simp only [decimals, List.all_cons, List.all_nil, Nat.isDigit_digitChar, Bool.and_true,
    Bool.and_eq_true, decide_eq_true_eq]
  omega

theorem toNat_digitChar {d : Nat} (digit : d < 10) : (Nat.digitChar d).toNat - '0'.toNat = d := by
  revert d
  decide

theorem ofDigitChars_decimals (n : Nat) :
    Nat.ofDigitChars 10 (Nat.toDigits 10 (n / 10000) ++ decimals n) 0 = n := by
  rw [Nat.ofDigitChars_append, Nat.ofDigitChars_toDigits (by decide) (by decide), decimals]
  simp only [Nat.ofDigitChars_cons, Nat.ofDigitChars_nil,
    toNat_digitChar (Nat.mod_lt _ (show 0 < 10 by decide))]
  omega

def tenThousandths : Numerals Nat where
  int := readInt
  float := readFixed
  fixed n := Nat.toDigits 10 (n / 10000) ++ '.' :: decimals n
  shown := id
  int_digits := by
    intro n
    rw [readInt, if_pos ⟨Nat.toDigits_ne_nil, all_digits n.toNat⟩,
      Nat.ofDigitChars_toDigits (by decide) (by decide)]
  float_fixed := by
    intro n
    have digits := all_digits (n / 10000)
    have fraction := decimals_digits n
    have front : '.' ∉ Nat.toDigits 10 (n / 10000) := not_mem_of_digits digits (by decide)
    have back : '.' ∉ decimals n := not_mem_of_digits fraction (by decide)
    have both : (Nat.toDigits 10 (n / 10000) ++ decimals n).all Char.isDigit = true := by
      rw [List.all_append, digits, fraction]
      rfl
    rw [readFixed, splitOn_append, splitOn_of_not_mem front, splitOn_of_not_mem back]
    simp only [List.singleton_append]
    rw [if_pos ⟨Nat.toDigits_ne_nil, rfl, both⟩, ofDigitChars_decimals]
    rfl
  fixed_ne_nil := by simp
  fixed_solid := by
    intro n c listed
    rcases List.mem_append.mp listed with whole | rest
    · exact solid_of_digits (all_digits _) c whole
    · rcases List.mem_cons.mp rest with point | fraction
      · rw [point]
        decide
      · exact solid_of_digits (decimals_digits n) c fraction
  fixed_clear := by
    intro n
    rw [List.mem_append, List.mem_cons, not_or, not_or]
    exact ⟨toDigits_clear _ (by decide), by decide, not_mem_of_digits (decimals_digits n) (by decide)⟩

def lowered : SystemTestResult Nat where
  contestantId := "team-7".toList
  scenariosPassed := 3
  scenariosTotal := 10
  systemScore := 3000
  originalScore := 9000
  finalScore := 7200
  scenarios := []
  plain := by decide

theorem report_is_read_iff_lowered :
    Agrees tenThousandths
      (parseSystemTestResult tenThousandths
        (stderrText tenThousandths ["Final Score: 9.0000".toList, "[systest]".toList] lowered)
        "team-7".toList 9000)
      lowered := by
  have readable : ∀ line ∈ ["Final Score: 9.0000".toList] ++ ["[systest]".toList],
      Readable tenThousandths line := by
    simp only [readable_iff (⟨[], 0, 0, 0, 0, 0, none⟩ : ParsedResult Nat)]
    decide +kernel
  exact (report_is_read_iff tenThousandths ["Final Score: 9.0000".toList] ["[systest]".toList] _
    (.left _ (.right _ .nil)) (by decide) "team-7".toList 9000).mpr readable lowered

/-- A contestant prints a score of its own and then one that cannot be converted. -/
theorem contestant_sets_score :
    ¬ Agrees tenThousandths
      (parseSystemTestResult tenThousandths
        (stderrText tenThousandths
          ["Final Score: 1.0000".toList, "Final Score: none".toList] lowered)
        "team-7".toList 9000)
      lowered ∧
    (parseSystemTestResult tenThousandths
        (stderrText tenThousandths
          ["Final Score: 1.0000".toList, "Final Score: none".toList] lowered)
        "team-7".toList 9000).finalScore = 10000 := by
  unfold Agrees
  decide +kernel

end HftGrading.Web.ReportReading
