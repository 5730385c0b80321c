/- module: HftGrading/Web/SystemTests
   source: web/backend/main.py, orchestrator/include/orchestrator/post_contest_validator.hpp
   digest: The submission worker and the system-test pass on one leaderboard. -/

import HftGrading.Lib.PartialExecution
import Mathlib.Data.List.AList
import Mathlib.Data.List.Sort
import Mathlib.Algebra.Order.Field.Rat

set_option autoImplicit false
set_option relaxedAutoImplicit false

namespace HftGrading.Web.SystemTests

open Function (update)
open Lib.PartialExecution

abbrev Leaderboard (Team : Type) := AList fun _ : Team => ℚ

section Sets

variable {Team : Type} [LinearOrder Team]

def zadd (board : Leaderboard Team) (team : Team) (score : ℚ) : Leaderboard Team :=
  board.insert team score

def zscore (board : Leaderboard Team) (team : Team) : Option ℚ := board.lookup team

def ranks (a b : Sigma fun _ : Team => ℚ) : Prop := b.2 < a.2 ∨ a.2 = b.2 ∧ b.1 ≤ a.1

instance (a b : Sigma fun _ : Team => ℚ) : Decidable (ranks a b) := by
  unfold ranks
  infer_instance

/-- `zrevrange(LEADERBOARD_KEY, 0, -1, withscores=True)`. -/
def zrevrange (board : Leaderboard Team) : List (Team × ℚ) :=
  (board.entries.insertionSort ranks).map fun entry => (entry.1, entry.2)

end Sets

def blend (originalScore systemScore : ℚ) : ℚ :=
  let blended := 3 / 5 * originalScore + 2 / 5 * systemScore
  if blended < originalScore then blended else originalScore

/-- What came of one team: no binary, or one of the returns of `_run_system_test_for_team`. -/
inductive TestOutcome
  | noBinary
  | engineMissing
  | timedOut
  | raised
  | reported (finalScore : ℚ)
  deriving DecidableEq

/-- The `final_score` of the result; a team without a binary is skipped. -/
def TestOutcome.finalScore (originalScore : ℚ) : TestOutcome → Option ℚ
  | .noBinary => none
  | .engineMissing | .raised => some originalScore
  | .timedOut => some 0
  | .reported finalScore => some finalScore

/-- Where `submission_worker` is: at `brpop`, with a job id, in the pipeline, with a score before
`zscore`, or with one that beats the current best before `zadd`. -/
inductive Worker (Team : Type)
  | idle
  | popped (job : Nat)
  | running (team : Team)
  | scored (team : Team) (score : ℚ)
  | better (team : Team) (score : ℚ)
  deriving DecidableEq

/-- Where `_run_system_tests` is: not running, testing a team, or before the `zadd` of its final
score. -/
inductive Pass (Team : Type)
  | over
  | testing (team : Team) (originalScore : ℚ) (rest : List (Team × ℚ))
  | writing (team : Team) (final : ℚ) (rest : List (Team × ℚ))
  deriving DecidableEq

def Pass.next {Team : Type} : List (Team × ℚ) → Pass Team
  | [] => .over
  | (team, originalScore) :: rest => .testing team originalScore rest

/-- The two coroutines and what they share; `jobs` is the team of each stored job. The final
scores that a pass has written so far are in `written`. -/
structure System (Team : Type) where
  leaderboard : Leaderboard Team
  queue : List Nat
  jobs : Nat → Option Team
  worker : Worker Team
  pass : Pass Team
  written : Team → Option ℚ

/-- From one `await` to the next: of the worker, with the score if the pipeline succeeds, of the
request that starts a pass, and of the pass. -/
inductive Action
  | brpop
  | hgetall
  | pipeline (result : Option ℚ)
  | zscore
  | zadd
  | workerError
  | start
  | test (outcome : TestOutcome)
  | record
  | passError
  deriving DecidableEq

variable {Team : Type} [LinearOrder Team]

def step (s : System Team) : Action → System Team
  | .brpop =>
    match s.worker, s.queue.getLast? with
    | .idle, some job => { s with queue := s.queue.dropLast, worker := .popped job }
    | _, _ => s
  | .hgetall =>
    match s.worker with
    | .popped job =>
      match s.jobs job with
      | none => { s with worker := .idle }
      | some team => { s with worker := .running team }
    | _ => s
  | .pipeline result =>
    match s.worker with
    | .running team =>
      match result with
      | none => { s with worker := .idle }
      | some score => { s with worker := .scored team score }
    | _ => s
  | .zscore =>
    match s.worker with
    | .scored team score =>
      match SystemTests.zscore s.leaderboard team with
      | none => { s with worker := .better team score }
      | some currentBest =>
        if score > currentBest then { s with worker := .better team score }
        else { s with worker := .idle }
    | _ => s
  | .zadd =>
    match s.worker with
    | .better team score =>
      { s with leaderboard := SystemTests.zadd s.leaderboard team score, worker := .idle }
    | _ => s
  | .workerError => { s with worker := .idle }
  | .start =>
    match s.pass with
    | .over => { s with pass := .next (zrevrange s.leaderboard) }
    | _ => s
  | .test outcome =>
    match s.pass with
    | .testing team originalScore rest =>
      match outcome.finalScore originalScore with
      | none => { s with pass := .next rest }
      | some final => { s with pass := .writing team final rest }
    | _ => s
  | .record =>
    match s.pass with
    | .writing team final rest =>
      { s with
        leaderboard := SystemTests.zadd s.leaderboard team final
        pass := .next rest
        written := update s.written team (some final) }
    | _ => s
  | .passError => { s with pass := .over }

def System.init (leaderboard : Leaderboard Team) (queue : List Nat) (jobs : Nat → Option Team) :
    System Team :=
  ⟨leaderboard, queue, jobs, .idle, .over, fun _ => none⟩

/-- The worker stores no score of a team whose final score has been written. -/
def NotJudged (s : System Team) (action : Action) : Prop :=
  action = .zadd → ∀ team score, s.worker = .better team score → s.written team = none

def Judged (s : System Team) : Prop :=
  ∀ team final, s.written team = some final → zscore s.leaderboard team = some final

theorem zscore_zadd (board : Leaderboard Team) (team : Team) (score : ℚ) :
    zscore (zadd board team score) team = some score :=
  AList.lookup_insert board

theorem zscore_zadd_of_ne (board : Leaderboard Team) {team other : Team} (ne : other ≠ team)
    (score : ℚ) : zscore (zadd board team score) other = zscore board other :=
  AList.lookup_insert_ne ne

theorem step_frame (s : System Team) {action : Action} (worker : action ≠ .zadd)
    (pass : action ≠ .record) :
    (step s action).leaderboard = s.leaderboard ∧ (step s action).written = s.written := by
  cases action with
  | zadd => exact absurd rfl worker
  | record => exact absurd rfl pass
  | workerError | passError => exact ⟨rfl, rfl⟩
  | brpop | hgetall | pipeline | zscore | start | test =>
    simp only [step]
    repeat' split
    all_goals exact ⟨rfl, rfl⟩

theorem step_judged {s : System Team} {action : Action} (judged : Judged s)
    (early : NotJudged s action) : Judged (step s action) := by
  by_cases worker : action = .zadd
  · subst worker
    simp only [step]
    split
    · next team score here =>
        intro other final has
        have unwritten := early rfl team score here
        have ne : other ≠ team := by
          intro same
          rw [same] at has
          exact absurd (unwritten.symm.trans has) (by simp)
        simp only [zscore_zadd_of_ne s.leaderboard ne]
        exact judged other final has
    · exact judged
  · by_cases pass : action = .record
    · subst pass
      simp only [step]
      split
      · next team final rest here =>
          intro other score has
          by_cases same : other = team
          · subst same
            simp only [Function.update_self] at has
            cases has
            exact zscore_zadd ..
          · simp only [Function.update_of_ne same] at has
            simp only [zscore_zadd_of_ne s.leaderboard same]
            exact judged other score has
      · exact judged
    · intro team final has
      obtain ⟨board, written⟩ := step_frame s worker pass
      rw [written] at has
      rw [board]
      exact judged team final has

/-- When every score the worker stores comes before its team's verdict, no team is ever above
the final score written for it. -/
theorem verdict_is_final (board : Leaderboard Team) (queue : List Nat) (jobs : Nat → Option Team)
    (schedule : List Action)
    (early : Obeys (always step) NotJudged (System.init board queue jobs) schedule) :
    ∀ first, first <+: schedule → ∀ team final score,
      (first.foldl step (System.init board queue jobs)).written team = some final →
      zscore (first.foldl step (System.init board queue jobs)).leaderboard team = some score →
      score ≤ final := by
  intro first initial team final score has now
  obtain ⟨rest, rfl⟩ := initial
  have judged : Judged (first.foldl step (System.init board queue jobs)) :=
    foldl_keeps (fun _ _ => step_judged) (fun _ _ none => by cases none) early.split.1
  have same := (judged team final has).symm.trans now
  cases same
  exact le_refl _

def notJudged (s : System Team) (action : Action) : Bool :=
  match action, s.worker with
  | .zadd, .better team _ => (s.written team).isNone
  | _, _ => true

omit [LinearOrder Team] in
theorem notJudged_sound (s : System Team) (action : Action) (passed : notJudged s action = true) :
    NotJudged s action := by
  intro worker team score here
  subst worker
  simpa only [notJudged, here, Option.isNone_iff_eq_none] using passed

def queued : System Nat := .init (zadd ∅ 7 (1 / 2)) [3] (update (fun _ => none) 3 (some 7))

def storedFirst : List Action :=
  [.start, .brpop, .hgetall, .pipeline (some (3 / 4)), .zscore, .zadd,
    .test (.reported (blend (1 / 2) 0)), .record]

theorem verdict_is_final_stored_first :
    Obeys (always step) NotJudged queued storedFirst ∧
      (storedFirst.foldl step queued).written 7 = some (3 / 10) ∧
      ∀ score, zscore (storedFirst.foldl step queued).leaderboard 7 = some score →
        score ≤ 3 / 10 := by
  have early : Obeys (always step) NotJudged queued storedFirst :=
    obeys_of_test notJudged_sound _ _ (by decide +kernel)
  have written : (storedFirst.foldl step queued).written 7 = some (3 / 10) := by decide +kernel
  exact ⟨early, written, fun score now =>
    verdict_is_final _ _ _ _ early storedFirst (List.prefix_refl _) 7 (3 / 10) score written now⟩

def storedLast : List Action :=
  [.start, .test (.reported (blend (1 / 2) 0)), .record, .brpop, .hgetall,
    .pipeline (some (2 / 5)), .zscore, .zadd]

theorem late_job_raises_verdict :
    ∃ final score, (storedLast.foldl step queued).written 7 = some final ∧
      zscore (storedLast.foldl step queued).leaderboard 7 = some score ∧ final < score :=
  ⟨3 / 10, 2 / 5, by decide +kernel, by decide +kernel, by decide +kernel⟩

end HftGrading.Web.SystemTests
