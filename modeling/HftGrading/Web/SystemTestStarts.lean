/- module: HftGrading/Web/SystemTestStarts
   source: web/backend/main.py
   digest: Requests that start system tests, the passes they create, and how many run at once. -/

import HftGrading.Lib.PartialExecution
import HftGrading.Web.AuthLimiter

set_option autoImplicit false
set_option relaxedAutoImplicit false

namespace HftGrading.Web.SystemTestStarts

open Lib.PartialExecution
open AuthLimiter (HTTPException)

/-- The teams with their scores, as `zrevrange` returns them. -/
abbrev Entries := List (String × ℚ)

/-- Where a request is, and then the `_run_system_tests` it has created: the handler before each
of its commands and before the end of its broadcast, the pass before its first turn, with teams
left to test, before the end of its bookkeeping, and in its `except` branch. -/
inductive Thread
  | readingState
  | readingBoard
  | settingState (teams : Entries)
  | settingProgress (teams : Entries)
  | broadcasting (teams : Entries)
  | created (teams : Entries)
  | testing (rest : Entries)
  | saving
  | reporting
  | finished
  | refused (e : HTTPException)
  | failed
  deriving DecidableEq, Repr

structure System where
  systestRunning : Bool
  compState : Option String
  leaderboard : Entries
  systestState : Option String
  systestProgress : Option String
  threads : List Thread

def System.init : System := ⟨false, none, [], none, none, []⟩

/-- From one `await` to the next. Other requests, the worker and the passes write the competition
state and the leaderboard. -/
inductive Step
  | request (adminKey : String)
  | resume (thread : Nat)
  | fail (thread : Nat)
  | write (compState : Option String) (leaderboard : Entries)
  deriving DecidableEq

namespace System

variable (adminPassword : String) (s : System)

def put (i : Nat) (t : Thread) : System := { s with threads := s.threads.set i t }

/-- `verify_admin` and the guard of `admin_start_system_tests`. -/
def guard (adminKey : String) : Thread :=
  if adminKey ≠ adminPassword then .refused ⟨403, "Invalid admin key"⟩
  else if s.systestRunning then .refused ⟨409, "System tests already running"⟩
  else .readingState

def resume (i : Nat) : Thread → Option System
  | .readingState =>
    if s.compState = some "running" then
      s.put i (.refused
        ⟨400, "Competition still running. Stop or finish the competition first."⟩)
    else s.put i .readingBoard
  | .readingBoard =>
    match s.leaderboard with
    | [] => s.put i (.refused ⟨400, "No scored submissions to test"⟩)
    | entry :: entries => s.put i (.settingState (entry :: entries))
  | .settingState teams =>
    some { s.put i (.settingProgress teams) with systestState := some "running" }
  | .settingProgress teams =>
    some { s.put i (.broadcasting teams) with
      systestProgress := some ("0/" ++ toString teams.length) }
  | .broadcasting teams => s.put i (.created teams)
  | .created teams => some { s.put i (.testing teams) with systestRunning := true }
  | .testing (_ :: rest) => s.put i (.testing rest)
  | .testing [] => s.put i .saving
  | .saving =>
    some { s.put i .finished with systestState := some "completed", systestRunning := false }
  | .reporting =>
    some { s.put i .finished with systestState := some "failed", systestRunning := false }
  | .finished | .refused _ | .failed => none

/-- An exception at an `await`: the handler ends with it, the pass goes to its `except` branch, and
from there to the `finally`. -/
def fail (i : Nat) : Thread → Option System
  | .readingState | .readingBoard | .settingState _ | .settingProgress _ | .broadcasting _ =>
    s.put i .failed
  | .testing _ | .saving => s.put i .reporting
  | .reporting => some { s.put i .finished with systestRunning := false }
  | .created _ | .finished | .refused _ | .failed => none

def step : Step → Option System
  | .request adminKey => some { s with threads := s.threads ++ [s.guard adminPassword adminKey] }
  | .resume i => s.threads[i]?.bind (s.resume i)
  | .fail i => s.threads[i]?.bind (s.fail i)
  | .write compState leaderboard => some { s with compState, leaderboard }

end System

namespace Thread

def starting : Thread → Bool
  | .readingState | .readingBoard | .settingState _ | .settingProgress _ | .broadcasting _
  | .created _ => true
  | _ => false

def running : Thread → Bool
  | .testing _ | .saving | .reporting => true
  | _ => false

/-- The pass has been created and is not finished. -/
def active : Thread → Bool
  | .created _ | .testing _ | .saving | .reporting => true
  | _ => false

end Thread

/-- A request gets past the guard only while no other one is between the guard and the first turn
of its pass. -/
def NoOverlap (adminPassword : String) (s : System) : Step → Prop
  | .request adminKey => adminKey = adminPassword → s.systestRunning = false →
      ∀ t ∈ s.threads, t.starting = false
  | .resume _ | .fail _ | .write .. => True

instance (adminPassword : String) (s : System) (a : Step) :
    Decidable (NoOverlap adminPassword s a) := by
  cases a <;> unfold NoOverlap <;> infer_instance

inductive Moves (s s' : System) : Prop
  | writes (threads : s'.threads = s.threads) (flag : s'.systestRunning = s.systestRunning)
  | refuses (e : HTTPException) (threads : s'.threads = s.threads ++ [.refused e])
      (flag : s'.systestRunning = s.systestRunning)
  | enters (free : s.systestRunning = false) (quiet : ∀ t ∈ s.threads, t.starting = false)
      (threads : s'.threads = s.threads ++ [.readingState])
      (flag : s'.systestRunning = s.systestRunning)
  | goesOn {i : Nat} {t t' : Thread} (found : s.threads[i]? = some t)
      (threads : s'.threads = s.threads.set i t') (flag : s'.systestRunning = s.systestRunning)
      (less : t'.starting = true → t.starting = true) (same : t'.running = t.running)
  | begins {i : Nat} {teams : Entries} (found : s.threads[i]? = some (.created teams))
      (threads : s'.threads = s.threads.set i (.testing teams)) (flag : s'.systestRunning = true)
  | ends {i : Nat} {t : Thread} (found : s.threads[i]? = some t)
      (threads : s'.threads = s.threads.set i .finished) (flag : s'.systestRunning = false)
      (was : t.running = true) (past : t.starting = false)

section Inversion

variable {adminPassword : String} {s s' : System}

theorem resume_moves {i : Nat} {t : Thread} (found : s.threads[i]? = some t)
    (move : s.resume i t = some s') : Moves s s' := by
  cases t with
  | readingState =>
    simp only [System.resume] at move
    split_ifs at move with open_
    · cases move
      exact .goesOn found rfl rfl nofun rfl
    · cases move
      exact .goesOn found rfl rfl (fun _ => rfl) rfl
  | readingBoard =>
    simp only [System.resume] at move
    split at move
    · cases move
      exact .goesOn found rfl rfl nofun rfl
    · cases move
      exact .goesOn found rfl rfl (fun _ => rfl) rfl
  | settingState teams | settingProgress teams | broadcasting teams =>
    cases move
    exact .goesOn found rfl rfl (fun _ => rfl) rfl
  | created teams =>
    cases move
    exact .begins found rfl rfl
  | testing rest =>
    cases rest <;> cases move
    all_goals exact .goesOn found rfl rfl nofun rfl
  | saving | reporting =>
    cases move
    exact .ends found rfl rfl rfl rfl
  | _ => cases move

theorem fail_moves {i : Nat} {t : Thread} (found : s.threads[i]? = some t)
    (move : s.fail i t = some s') : Moves s s' := by
  cases t with
  | reporting =>
    cases move
    exact .ends found rfl rfl rfl rfl
  | created teams | finished | refused e | failed => cases move
  | _ =>
    cases move
    exact .goesOn found rfl rfl nofun rfl

theorem request_moves {adminKey : String} (legal : NoOverlap adminPassword s (.request adminKey)) :
    Moves s { s with threads := s.threads ++ [s.guard adminPassword adminKey] } := by
  unfold System.guard
  split_ifs with wrong busy
  · exact .refuses _ rfl rfl
  · exact .refuses _ rfl rfl
  · have free : s.systestRunning = false := Bool.eq_false_iff.mpr busy
    exact .enters free (legal (not_not.mp wrong) free) rfl rfl

theorem step_moves {a : Step} (legal : NoOverlap adminPassword s a)
    (move : s.step adminPassword a = some s') : Moves s s' := by
  cases a with
  | request adminKey =>
    cases move
    exact request_moves legal
  | resume i =>
    obtain ⟨t, found, turn⟩ := Option.bind_eq_some_iff.mp move
    exact resume_moves found turn
  | fail i =>
    obtain ⟨t, found, turn⟩ := Option.bind_eq_some_iff.mp move
    exact fail_moves found turn
  | write compState leaderboard =>
    cases move
    exact .writes rfl rfl

end Inversion

structure Single (s : System) : Prop where
  one : s.threads.countP Thread.starting + s.threads.countP Thread.running ≤ 1
  flag : s.systestRunning = true ↔ s.threads.countP Thread.running = 1

section Invariant

variable {s s' : System}

/-- One thread goes on: the count changes by what it counted before and after. -/
theorem countP_put (p : Thread → Bool) {pool : List Thread} {i : Nat} {t : Thread}
    (found : pool[i]? = some t) (t' : Thread) :
    (pool.set i t').countP p + (if p t then 1 else 0) =
      pool.countP p + (if p t' then 1 else 0) := by
  obtain ⟨inside, rfl⟩ := List.getElem?_eq_some_iff.mp found
  rw [List.countP_set inside]
  split_ifs with old new new
  · have some : 0 < pool.countP p := List.countP_pos_iff.mpr ⟨pool[i], List.getElem_mem _, old⟩
    omega
  · have some : 0 < pool.countP p := List.countP_pos_iff.mpr ⟨pool[i], List.getElem_mem _, old⟩
    omega
  · rfl
  · rfl

theorem single_init : Single System.init :=
  ⟨Nat.zero_le 1, by decide⟩

theorem Single.moves (single : Single s) (move : Moves s s') : Single s' := by
  obtain ⟨one, flag⟩ := single
  cases move with
  | writes threads flag' => exact ⟨threads ▸ one, by rw [threads, flag']; exact flag⟩
  | refuses e threads flag' =>
    constructor
    · rw [threads, List.countP_append, List.countP_append]
      exact one
    · rw [threads, flag', List.countP_append]
      exact flag
  | enters free quiet threads flag' =>
    have idle : s.threads.countP Thread.starting = 0 := by
      rw [List.countP_eq_zero]
      exact fun t listed => Bool.eq_false_iff.mp (quiet t listed)
    have stopped : ¬ s.threads.countP Thread.running = 1 := by
      rw [← flag, free]
      exact Bool.false_ne_true
    constructor
    · rw [threads, List.countP_append, List.countP_append]
      show _ + 1 + (_ + 0) ≤ 1
      omega
    · rw [threads, flag', List.countP_append]
      exact flag
  | @goesOn i t t' found threads flag' less same =>
    have starting := countP_put Thread.starting found t'
    have running := countP_put Thread.running found t'
    rw [same] at running
    rw [← threads] at starting running
    constructor
    · split_ifs at starting with old new new
      · omega
      · omega
      · exact absurd (less new) old
      · omega
    · rw [flag', flag]
      omega
  | @begins i teams found threads flag' =>
    have starting : s'.threads.countP Thread.starting + 1 =
        s.threads.countP Thread.starting + 0 :=
      threads ▸ countP_put Thread.starting found (.testing teams)
    have running : s'.threads.countP Thread.running + 0 =
        s.threads.countP Thread.running + 1 :=
      threads ▸ countP_put Thread.running found (.testing teams)
    constructor
    · omega
    · rw [flag']
      exact ⟨fun _ => by omega, fun _ => rfl⟩
  | @ends i t found threads flag' was past =>
    have starting := countP_put Thread.starting found .finished
    have running := countP_put Thread.running found .finished
    rw [past] at starting
    rw [was] at running
    rw [← threads] at starting running
    change _ + 0 = _ + 0 at starting
    change _ + 1 = _ + 0 at running
    constructor
    · omega
    · rw [flag']
      exact ⟨fun runs => Bool.noConfusion runs, fun runs => by omega⟩

end Invariant

theorem active_le (threads : List Thread) : threads.countP Thread.active ≤
    threads.countP Thread.starting + threads.countP Thread.running := by
  induction threads with
  | nil => exact Nat.le_refl 0
  | cons t threads ih =>
    have here : (if t.active then 1 else 0) ≤
        (if t.starting then 1 else 0) + if t.running then 1 else 0 := by
      cases t <;> simp [Thread.active, Thread.starting, Thread.running]
    simp only [List.countP_cons]
    omega

/-- In every run without an overlap at most one `_run_system_tests` is active. -/
theorem one_system_test_pass (adminPassword : String) (steps : List Step) (s : System)
    (obeys : Obeys (System.step adminPassword) (NoOverlap adminPassword) System.init steps)
    (reached : run (System.step adminPassword) System.init steps = some s) :
    s.threads.countP Thread.active ≤ 1 := by
  have single : Single s :=
    run_keeps (fun _ _ _ single legal move => single.moves (step_moves legal move)) single_init
      obeys reached
  exact (active_le s.threads).trans single.one

def guardedStarts : List Step :=
  [.write (some "stopped") [("alpha", 1)], .request "key", .resume 0, .resume 0, .resume 0,
    .resume 0, .resume 0, .resume 0, .request "key", .resume 0]

theorem guarded_starts_one_pass :
    ∃ s, run (System.step "key") System.init guardedStarts = some s ∧
      Obeys (System.step "key") (NoOverlap "key") System.init guardedStarts ∧
      s.threads = [.testing [], .refused ⟨409, "System tests already running"⟩] ∧
      s.threads.countP Thread.active ≤ 1 := by
  have obeys : Obeys (System.step "key") (NoOverlap "key") System.init guardedStarts :=
    obeys_of_test (fun _ _ => of_decide_eq_true) _ _ (by decide +kernel)
  exact ⟨_, rfl, obeys, rfl, one_system_test_pass "key" guardedStarts _ obeys rfl⟩

def overlappingStarts : List Step :=
  [.write (some "stopped") [("alpha", 1)], .request "key", .request "key"] ++
    List.replicate 6 (.resume 0) ++ List.replicate 6 (.resume 1)

theorem overlapping_starts_two_passes :
    ∃ s, run (System.step "key") System.init overlappingStarts = some s ∧
      s.threads = [.testing [("alpha", 1)], .testing [("alpha", 1)]] ∧
      s.threads.countP Thread.active = 2 :=
  ⟨_, rfl, rfl, rfl⟩

end HftGrading.Web.SystemTestStarts
