/- module: HftGrading/Core/Spinlock
   source: core/include/core/spinlock.hpp
   digest: The ticket lock and its threads, one atomic access at a time: exclusion and order. -/

import HftGrading.Lib.PartialExecution
import Mathlib.Data.UInt

set_option autoImplicit false
set_option relaxedAutoImplicit false

namespace HftGrading.Core.Spinlock

open Function (update)
open Lib.PartialExecution

structure TicketSpinlock where
  nextTicket : UInt32
  nowServing : UInt32
  deriving DecidableEq, Repr

/-- Where a thread is: between calls, in the loop of `lock` with its ticket, or in `try_lock`
after the load of `now_serving_`. -/
inductive Stage
  | idle
  | waiting (myTicket : UInt32)
  | trying (expected : UInt32)
  deriving DecidableEq, Repr

/-- What has happened so far: the threads in the order of their tickets, drawn by `lock` or by a
`try_lock` that succeeds, and in the order in which they acquired the lock; the number of
`unlock` calls. -/
structure History where
  tickets : List Nat
  acquired : List Nat
  unlocks : Nat
  deriving DecidableEq, Repr

/-- The lock, its threads and those of them that hold it. -/
structure System where
  spinlock : TicketSpinlock
  threads : Nat → Stage
  holders : List Nat
  history : History

def System.init : System := ⟨⟨0, 0⟩, fun _ => .idle, [], ⟨[], [], 0⟩⟩

/-- The accesses: `lock` draws a ticket and spins on `now_serving_`; `try_lock` loads
`now_serving_` and exchanges `next_ticket_`; `unlock` is one increment. -/
inductive Step
  | lock (thread : Nat)
  | spin (thread : Nat)
  | tryLock (thread : Nat)
  | exchange (thread : Nat)
  | unlock (thread : Nat)
  deriving DecidableEq, Repr

namespace System

variable (s : System)

/-- `next_ticket_.fetch_add(1)`. -/
def lock (thread : Nat) : Option System :=
  match s.threads thread with
  | .idle => some { s with
      spinlock := { s.spinlock with nextTicket := s.spinlock.nextTicket + 1 }
      threads := update s.threads thread (.waiting s.spinlock.nextTicket)
      history := { s.history with tickets := s.history.tickets ++ [thread] } }
  | _ => none

/-- One round of the loop of `lock`, which is left with the lock. -/
def spin (thread : Nat) : Option System :=
  match s.threads thread with
  | .waiting myTicket =>
    if s.spinlock.nowServing = myTicket then
      some { s with
        threads := update s.threads thread .idle
        holders := thread :: s.holders
        history := { s.history with acquired := s.history.acquired ++ [thread] } }
    else some s
  | _ => none

def tryLock (thread : Nat) : Option System :=
  match s.threads thread with
  | .idle => some { s with threads := update s.threads thread (.trying s.spinlock.nowServing) }
  | _ => none

/-- `next_ticket_.compare_exchange_strong(expected, expected + 1)`, the result of `try_lock`. -/
def exchange (thread : Nat) : Option System :=
  match s.threads thread with
  | .trying expected =>
    if s.spinlock.nextTicket = expected then
      some { s with
        spinlock := { s.spinlock with nextTicket := expected + 1 }
        threads := update s.threads thread .idle
        holders := thread :: s.holders
        history := { s.history with
          tickets := s.history.tickets ++ [thread]
          acquired := s.history.acquired ++ [thread] } }
    else some { s with threads := update s.threads thread .idle }
  | _ => none

/-- `now_serving_.fetch_add(1)`, by a holder. -/
def unlock (thread : Nat) : Option System :=
  match s.threads thread with
  | .idle =>
    if thread ∈ s.holders then
      some { s with
        spinlock := { s.spinlock with nowServing := s.spinlock.nowServing + 1 }
        holders := s.holders.erase thread
        history := { s.history with unlocks := s.history.unlocks + 1 } }
    else none
  | _ => none

def step : Step → Option System
  | .lock thread => s.lock thread
  | .spin thread => s.spin thread
  | .tryLock thread => s.tryLock thread
  | .exchange thread => s.exchange thread
  | .unlock thread => s.unlock thread

def Succeeds (thread : Nat) : Prop := s.threads thread = .trying s.spinlock.nextTicket

end System

inductive Moves (s : System) : System → Prop
  | draws {thread : Nat} (idle : s.threads thread = .idle) :
      Moves s { s with
        spinlock := { s.spinlock with nextTicket := s.spinlock.nextTicket + 1 }
        threads := update s.threads thread (.waiting s.spinlock.nextTicket)
        history := { s.history with tickets := s.history.tickets ++ [thread] } }
  | enters {thread : Nat} (waiting : s.threads thread = .waiting s.spinlock.nowServing) :
      Moves s { s with
        threads := update s.threads thread .idle
        holders := thread :: s.holders
        history := { s.history with acquired := s.history.acquired ++ [thread] } }
  | waits : Moves s s
  | loads {thread : Nat} (idle : s.threads thread = .idle) :
      Moves s { s with threads := update s.threads thread (.trying s.spinlock.nowServing) }
  | succeeds {thread : Nat} (trying : s.Succeeds thread) :
      Moves s { s with
        spinlock := { s.spinlock with nextTicket := s.spinlock.nextTicket + 1 }
        threads := update s.threads thread .idle
        holders := thread :: s.holders
        history := { s.history with
          tickets := s.history.tickets ++ [thread]
          acquired := s.history.acquired ++ [thread] } }
  | fails {thread : Nat} : Moves s { s with threads := update s.threads thread .idle }
  | unlocks {thread : Nat} (holds : thread ∈ s.holders) :
      Moves s { s with
        spinlock := { s.spinlock with nowServing := s.spinlock.nowServing + 1 }
        holders := s.holders.erase thread
        history := { s.history with unlocks := s.history.unlocks + 1 } }

section Steps

variable {s s' : System} {thread : Nat}

theorem spin_moves (move : s.spin thread = some s') : Moves s s' := by
  unfold System.spin at move
  split at move
  · next myTicket waiting =>
      split_ifs at move with served
      · cases move
        subst served
        exact .enters waiting
      · cases move
        exact .waits
  · cases move

theorem exchange_moves (move : s.exchange thread = some s') : Moves s s' := by
  unfold System.exchange at move
  split at move
  · next expected trying =>
      split_ifs at move with same
      · cases move
        subst same
        exact .succeeds trying
      · cases move
        exact .fails
  · cases move

theorem unlock_moves (move : s.unlock thread = some s') : Moves s s' := by
  unfold System.unlock at move
  split at move
  · split_ifs at move with holds
    cases move
    exact .unlocks holds
  · cases move

theorem step_moves {a : Step} (move : s.step a = some s') : Moves s s' := by
  cases a with
  | lock thread =>
    change s.lock thread = some s' at move
    unfold System.lock at move
    split at move
    · next idle =>
        cases move
        exact .draws idle
    · cases move
  | spin thread => exact spin_moves move
  | tryLock thread =>
    change s.tryLock thread = some s' at move
    unfold System.tryLock at move
    split at move
    · next idle =>
        cases move
        exact .loads idle
    · cases move
  | exchange thread => exact exchange_moves move
  | unlock thread => exact unlock_moves move

end Steps

/-- What a thread knows of the tickets: the one it waits for is its own and has not been acquired;
the number it read in `try_lock` has been served. -/
def Placed (h : History) (thread : Nat) : Stage → Prop
  | .idle => True
  | .waiting myTicket => h.tickets[myTicket.toNat]? = some thread ∧
      h.acquired.length ≤ myTicket.toNat
  | .trying expected => expected.toNat ≤ h.unlocks

structure Ticketed (s : System) : Prop where
  drawn : s.spinlock.nextTicket.toNat = s.history.tickets.length
  served : s.spinlock.nowServing.toNat = s.history.unlocks
  held : s.history.acquired.length = s.history.unlocks + s.holders.length
  exclusive : s.holders.length ≤ 1
  inOrder : s.history.acquired <+: s.history.tickets
  placed : ∀ t, Placed s.history t (s.threads t)

theorem ticketed_init : Ticketed System.init :=
  ⟨rfl, rfl, rfl, Nat.zero_le 1, List.prefix_rfl, fun _ => trivial⟩

section Invariant

variable {s : System} {thread : Nat}

theorem Ticketed.placed_of_stage (ticketed : Ticketed s) {stage : Stage}
    (at' : s.threads thread = stage) : Placed s.history thread stage :=
  at' ▸ ticketed.placed thread

theorem Ticketed.next_of_served (ticketed : Ticketed s)
    (waiting : s.threads thread = .waiting s.spinlock.nowServing) :
    s.holders = [] ∧ s.history.tickets[s.history.acquired.length]? = some thread := by
  obtain ⟨own, ahead⟩ := ticketed.placed_of_stage waiting
  have served := ticketed.served
  have held := ticketed.held
  have empty : s.holders.length = 0 := by omega
  have place : s.spinlock.nowServing.toNat = s.history.acquired.length := by omega
  exact ⟨List.length_eq_zero_iff.mp empty, by rwa [place] at own⟩

theorem Ticketed.free_of_succeeds (ticketed : Ticketed s) (succeeds : s.Succeeds thread) :
    s.holders = [] ∧ s.history.acquired = s.history.tickets ∧
      ∀ t k, s.threads t ≠ .waiting k := by
  have read : s.spinlock.nextTicket.toNat ≤ s.history.unlocks := ticketed.placed_of_stage succeeds
  have drawn := ticketed.drawn
  have held := ticketed.held
  have most := ticketed.inOrder.length_le
  have empty : s.holders.length = 0 := by omega
  have all : s.history.tickets.length ≤ s.history.acquired.length := by omega
  refine ⟨List.length_eq_zero_iff.mp empty, ticketed.inOrder.eq_of_length_le all,
    fun t k waiting => ?_⟩
  obtain ⟨own, ahead⟩ := ticketed.placed_of_stage waiting
  obtain ⟨inside, -⟩ := List.getElem?_eq_some_iff.mp own
  omega

theorem Placed.grows {h : History} {stage : Stage} (placed : Placed h thread stage)
    (more : List Nat) {unlocks : Nat} (later : h.unlocks ≤ unlocks) :
    Placed { h with tickets := h.tickets ++ more, unlocks := unlocks } thread stage := by
  cases stage with
  | idle => trivial
  | waiting k =>
    obtain ⟨own, ahead⟩ := placed
    obtain ⟨inside, -⟩ := List.getElem?_eq_some_iff.mp own
    exact ⟨by rwa [List.getElem?_append_left inside], ahead⟩
  | trying e => exact Nat.le_trans placed later

theorem Placed.passed {h : History} {stage : Stage} {t : Nat} (placed : Placed h t stage)
    (next : h.tickets[h.acquired.length]? = some thread) (other : t ≠ thread) :
    Placed { h with acquired := h.acquired ++ [thread] } t stage := by
  cases stage with
  | idle => trivial
  | waiting k =>
    obtain ⟨own, ahead⟩ := placed
    have apart : h.acquired.length ≠ k.toNat := by
      intro same
      rw [same, own] at next
      exact other (Option.some.inj next)
    refine ⟨own, ?_⟩
    rw [List.length_append, List.length_singleton]
    omega
  | trying e => exact placed

theorem Ticketed.draws (ticketed : Ticketed s) (few : s.history.tickets.length + 1 < 2 ^ 32) :
    Ticketed { s with
      spinlock := { s.spinlock with nextTicket := s.spinlock.nextTicket + 1 }
      threads := update s.threads thread (.waiting s.spinlock.nextTicket)
      history := { s.history with tickets := s.history.tickets ++ [thread] } } := by
  have drawn := ticketed.drawn
  refine ⟨?_, ticketed.served, ticketed.held, ticketed.exclusive,
    ticketed.inOrder.trans (List.prefix_append _ _), ?_⟩
  · simp only [UInt32.toNat_add, UInt32.toNat_one, List.length_append, List.length_singleton]
    omega
  · rw [Function.forall_update_iff]
    refine ⟨⟨?_, ?_⟩, fun t _ => (ticketed.placed t).grows _ le_rfl⟩
    · simp [drawn]
    · exact drawn ▸ ticketed.inOrder.length_le

theorem Ticketed.enters (ticketed : Ticketed s)
    (waiting : s.threads thread = .waiting s.spinlock.nowServing) :
    Ticketed { s with
      threads := update s.threads thread .idle
      holders := thread :: s.holders
      history := { s.history with acquired := s.history.acquired ++ [thread] } } := by
  obtain ⟨free, next⟩ := ticketed.next_of_served waiting
  obtain ⟨inside, same⟩ := List.getElem?_eq_some_iff.mp next
  have held := ticketed.held
  refine ⟨ticketed.drawn, ticketed.served, ?_, ?_,
    same ▸ List.concat_get_prefix ticketed.inOrder inside, ?_⟩
  · simp only [List.length_append, List.length_cons, List.length_nil]
    omega
  · simp [free]
  · rw [Function.forall_update_iff]
    exact ⟨trivial, fun t other => (ticketed.placed t).passed next other⟩

theorem Ticketed.succeeds (ticketed : Ticketed s) (few : s.history.tickets.length + 1 < 2 ^ 32)
    (trying : s.Succeeds thread) :
    Ticketed { s with
      spinlock := { s.spinlock with nextTicket := s.spinlock.nextTicket + 1 }
      threads := update s.threads thread .idle
      holders := thread :: s.holders
      history := { s.history with
        tickets := s.history.tickets ++ [thread]
        acquired := s.history.acquired ++ [thread] } } := by
  obtain ⟨free, all, -⟩ := ticketed.free_of_succeeds trying
  have drawn := ticketed.drawn
  have held := ticketed.held
  refine ⟨?_, ticketed.served, ?_, ?_, ?_, ?_⟩
  · simp only [UInt32.toNat_add, UInt32.toNat_one, List.length_append, List.length_singleton]
    omega
  · simp only [List.length_append, List.length_cons, List.length_nil]
    omega
  · simp [free]
  · rw [all]
  · rw [Function.forall_update_iff]
    refine ⟨trivial, fun t other => ?_⟩
    have next : (s.history.tickets ++ [thread])[s.history.acquired.length]? = some thread := by
      simp [all]
    exact ((ticketed.placed t).grows [thread] le_rfl).passed next other

theorem Ticketed.unlocks (ticketed : Ticketed s) (few : s.history.tickets.length < 2 ^ 32)
    (holds : thread ∈ s.holders) :
    Ticketed { s with
      spinlock := { s.spinlock with nowServing := s.spinlock.nowServing + 1 }
      holders := s.holders.erase thread
      history := { s.history with unlocks := s.history.unlocks + 1 } } := by
  have some' := List.length_pos_of_mem holds
  have one := ticketed.exclusive
  have erased := List.length_erase_of_mem holds
  have held := ticketed.held
  have served := ticketed.served
  have most := ticketed.inOrder.length_le
  refine ⟨ticketed.drawn, ?_, ?_, ?_, ticketed.inOrder, fun t => ?_⟩
  · simp only [UInt32.toNat_add, UInt32.toNat_one]
    omega
  · simp only [erased]
    omega
  · simp only [erased]
    omega
  · simpa using (ticketed.placed t).grows [] (Nat.le_succ s.history.unlocks)

theorem Ticketed.moves {s' : System} (ticketed : Ticketed s) (move : Moves s s')
    (few : s'.history.tickets.length < 2 ^ 32) : Ticketed s' := by
  cases move with
  | draws idle => exact ticketed.draws (by simpa using few)
  | enters waiting => exact ticketed.enters waiting
  | waits => exact ticketed
  | loads idle =>
    refine { ticketed with placed := ?_ }
    rw [Function.forall_update_iff]
    exact ⟨ticketed.served.le, fun t _ => ticketed.placed t⟩
  | succeeds trying => exact ticketed.succeeds (by simpa using few) trying
  | fails =>
    refine { ticketed with placed := ?_ }
    rw [Function.forall_update_iff]
    exact ⟨trivial, fun t _ => ticketed.placed t⟩
  | unlocks holds => exact ticketed.unlocks few holds

theorem Moves.tickets_le {s' : System} (move : Moves s s') :
    s.history.tickets.length ≤ s'.history.tickets.length := by
  cases move <;> simp

end Invariant

theorem run_ticketed {steps : List Step} {s : System}
    (reached : run System.step System.init steps = some s)
    (few : s.history.tickets.length < 2 ^ 32) : Ticketed s := by
  have earlier : ∀ s a s', System.step s a = some s' → s'.history.tickets.length < 2 ^ 32 →
      s.history.tickets.length < 2 ^ 32 :=
    fun _ _ _ move few => Nat.lt_of_le_of_lt (step_moves move).tickets_le few
  exact run_keeps_within earlier (fun _ _ _ ticketed move => ticketed.moves (step_moves move))
    ticketed_init reached few

/-- At most one thread holds the lock, `try_lock` succeeds only when nobody holds the lock or
waits for it, and the lock is acquired in the order of the tickets. -/
theorem ticket_lock_exclusive_and_fair (steps : List Step) (s : System)
    (reached : run System.step System.init steps = some s)
    (few : s.history.tickets.length < 2 ^ 32) :
    s.holders.length ≤ 1 ∧
      (∀ thread, s.Succeeds thread → s.holders = [] ∧ ∀ t k, s.threads t ≠ .waiting k) ∧
      s.history.acquired <+: s.history.tickets := by
  have ticketed := run_ticketed reached few
  refine ⟨ticketed.exclusive, fun thread succeeds => ?_, ticketed.inOrder⟩
  obtain ⟨free, -, nobody⟩ := ticketed.free_of_succeeds succeeds
  exact ⟨free, nobody⟩

/-- Thread 0 takes the lock and thread 1 a ticket; `try_lock` of thread 2 fails and, after both
have unlocked, succeeds. -/
def contended : List Step :=
  [.lock 0, .spin 0, .lock 1, .tryLock 2, .exchange 2, .spin 1, .unlock 0, .spin 1, .unlock 1,
    .tryLock 2, .exchange 2]

theorem contended_exclusive_and_fair :
    ∃ s, run System.step System.init contended = some s ∧ s.history.acquired = [0, 1, 2] ∧
      s.holders.length ≤ 1 ∧
      (∀ thread, s.Succeeds thread → s.holders = [] ∧ ∀ t k, s.threads t ≠ .waiting k) ∧
      s.history.acquired <+: s.history.tickets :=
  ⟨_, rfl, rfl, ticket_lock_exclusive_and_fair contended _ rfl (by decide)⟩

end HftGrading.Core.Spinlock
