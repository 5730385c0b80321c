/- module: HftGrading/Core/MpscQueue
   source: core/include/core/spinlock.hpp
   digest: The queue of many producers and one consumer, one atomic access at a time. -/

import HftGrading.Lib.CountedRing
import HftGrading.Lib.PartialExecution
import Mathlib.Data.UInt

set_option autoImplicit false
set_option relaxedAutoImplicit false

namespace HftGrading.Core.MpscQueue

open Function (update)
open Lib.CountedRing Lib.PartialExecution

universe u

variable {α : Type u}

structure MPSCQueue (α : Type u) where
  head : UInt32
  tail : UInt32
  buffer : UInt32 → α
  filled : UInt32 → Bool

def nextIndex (capacity index : UInt32) : UInt32 := (index + 1) &&& (capacity - 1)

/-- Where a producer is in `try_push`: outside; with a value of `head_`; past the test for a full
queue; past the exchange, to write the item of the claim with this number; past that write. -/
inductive Producer (α : Type u)
  | idle
  | loaded (item : α) (curHead : UInt32)
  | checked (item : α) (curHead : UInt32)
  | claimed (item : α) (curHead : UInt32) (number : Nat)
  | written (item : α) (curHead : UInt32) (number : Nat)
  deriving DecidableEq, Repr

/-- Where the consumer is in `try_pop`: outside; with a value of `tail_`; waiting for the slot to
be filled; past that loop; with the item; past the store that frees the slot. -/
inductive Consumer (α : Type u)
  | idle
  | loaded (curTail : UInt32)
  | waiting (curTail : UInt32)
  | ready (curTail : UInt32)
  | copied (curTail : UInt32) (item : α)
  | cleared (curTail : UInt32) (item : α)
  deriving DecidableEq, Repr

/-- The queue with its threads, the items in the order in which `head_` was updated for them, and
the items popped. -/
structure System (α : Type u) where
  queue : MPSCQueue α
  producers : Nat → Producer α
  consumer : Consumer α
  claimed : List α
  popped : List α

def System.init (buffer : UInt32 → α) : System α :=
  ⟨⟨0, 0, buffer, fun _ => false⟩, fun _ => .idle, .idle, [], []⟩

/-- The accesses of a producer, in the order of `try_push`, and those of the consumer, in the
order of `try_pop`. A weak exchange may fail for no reason. -/
inductive Step (α : Type u)
  | tryPush (producer : Nat) (item : α)
  | check (producer : Nat)
  | exchange (producer : Nat) (spurious : Bool)
  | write (producer : Nat)
  | fill (producer : Nat)
  | tryPop
  | compare
  | await
  | copy
  | clear
  | advance
  deriving DecidableEq, Repr

namespace System

variable (capacity : UInt32) (s : System α)

def tryPush (producer : Nat) (item : α) : Option (System α) :=
  match s.producers producer with
  | .idle => some { s with producers := update s.producers producer (.loaded item s.queue.head) }
  | _ => none

/-- The load of `tail_`; `try_push` returns false here if the queue looks full. -/
def check (producer : Nat) : Option (System α) :=
  match s.producers producer with
  | .loaded item curHead =>
    if nextIndex capacity curHead = s.queue.tail then
      some { s with producers := update s.producers producer .idle }
    else some { s with producers := update s.producers producer (.checked item curHead) }
  | _ => none

/-- `head_.compare_exchange_weak(cur_head, next_head)`; a failure loads `head_` and goes round
the loop. -/
def exchange (producer : Nat) (spurious : Bool) : Option (System α) :=
  match s.producers producer with
  | .checked item curHead =>
    if s.queue.head = curHead ∧ spurious = false then
      some { s with
        queue := { s.queue with head := nextIndex capacity curHead }
        producers := update s.producers producer (.claimed item curHead s.claimed.length)
        claimed := s.claimed ++ [item] }
    else some { s with producers := update s.producers producer (.loaded item s.queue.head) }
  | _ => none

def write (producer : Nat) : Option (System α) :=
  match s.producers producer with
  | .claimed item curHead number => some { s with
      queue := { s.queue with buffer := update s.queue.buffer curHead item }
      producers := update s.producers producer (.written item curHead number) }
  | _ => none

/-- `filled_[cur_head].store(true)`, with which `try_push` returns true. -/
def fill (producer : Nat) : Option (System α) :=
  match s.producers producer with
  | .written _ curHead _ => some { s with
      queue := { s.queue with filled := update s.queue.filled curHead true }
      producers := update s.producers producer .idle }
  | _ => none

def tryPop : Option (System α) :=
  match s.consumer with
  | .idle => some { s with consumer := .loaded s.queue.tail }
  | _ => none

/-- The load of `head_`; `try_pop` returns false here if the queue looks empty. -/
def compare : Option (System α) :=
  match s.consumer with
  | .loaded curTail =>
    if curTail = s.queue.head then some { s with consumer := .idle }
    else some { s with consumer := .waiting curTail }
  | _ => none

def await : Option (System α) :=
  match s.consumer with
  | .waiting curTail =>
    if s.queue.filled curTail then some { s with consumer := .ready curTail } else some s
  | _ => none

def copy : Option (System α) :=
  match s.consumer with
  | .ready curTail => some { s with consumer := .copied curTail (s.queue.buffer curTail) }
  | _ => none

def clear : Option (System α) :=
  match s.consumer with
  | .copied curTail item => some { s with
      queue := { s.queue with filled := update s.queue.filled curTail false }
      consumer := .cleared curTail item }
  | _ => none

/-- The store of `tail_`, with which `try_pop` returns the item. -/
def advance : Option (System α) :=
  match s.consumer with
  | .cleared curTail item => some { s with
      queue := { s.queue with tail := nextIndex capacity curTail }
      consumer := .idle
      popped := s.popped ++ [item] }
  | _ => none

def step : Step α → Option (System α)
  | .tryPush producer item => s.tryPush producer item
  | .check producer => s.check capacity producer
  | .exchange producer spurious => s.exchange capacity producer spurious
  | .write producer => s.write producer
  | .fill producer => s.fill producer
  | .tryPop => s.tryPop
  | .compare => s.compare
  | .await => s.await
  | .copy => s.copy
  | .clear => s.clear
  | .advance => s.advance capacity

end System

def slotOf (capacity : UInt32) (number : Nat) : UInt32 := .ofNat number &&& (capacity - 1)

/-- Items are popped in the order of their claims, each once, fewer than the capacity are pending,
and the slot a producer is about to write belongs to no other pending item. -/
structure Delivers (capacity : UInt32) (s : System α) : Prop where
  inOrder : s.popped <+: s.claimed
  pending : s.claimed.length - s.popped.length ≤ capacity.toNat - 1
  untouched : ∀ p item curHead number, s.producers p = .claimed item curHead number →
    ∀ k, s.popped.length ≤ k → k < s.claimed.length → slotOf capacity k = curHead → k = number

/-- An exchange succeeds only while the queue is not full, as its producer has found before. -/
def Fresh (capacity : UInt32) (s : System α) : Step α → Prop
  | .exchange producer false => ∀ item, s.producers producer = .checked item s.queue.head →
      nextIndex capacity s.queue.head ≠ s.queue.tail
  | _ => True

def Producer.number : Producer α → Option Nat
  | .claimed _ _ number => some number
  | .written _ _ number => some number
  | _ => none

inductive Moves (capacity : UInt32) (s : System α) : Step α → System α → Prop
  | looks {a : Step α} {producer : Nat} {stage : Producer α} (unclaimed : stage.number = none) :
      Moves capacity s a { s with producers := update s.producers producer stage }
  | claims {producer : Nat} {item : α} (checked : s.producers producer = .checked item s.queue.head) :
      Moves capacity s (.exchange producer false) { s with
        queue := { s.queue with head := nextIndex capacity s.queue.head }
        producers := update s.producers producer (.claimed item s.queue.head s.claimed.length)
        claimed := s.claimed ++ [item] }
  | writes {a : Step α} {producer number : Nat} {item : α} {curHead : UInt32}
      (claimed : s.producers producer = .claimed item curHead number) :
      Moves capacity s a { s with
        queue := { s.queue with buffer := update s.queue.buffer curHead item }
        producers := update s.producers producer (.written item curHead number) }
  | fills {a : Step α} {producer number : Nat} {item : α} {curHead : UInt32}
      (written : s.producers producer = .written item curHead number) :
      Moves capacity s a { s with
        queue := { s.queue with filled := update s.queue.filled curHead true }
        producers := update s.producers producer .idle }
  | tries {a : Step α} : Moves capacity s a { s with consumer := .loaded s.queue.tail }
  | leaves {a : Step α} : Moves capacity s a { s with consumer := .idle }
  | enters {a : Step α} {curTail : UInt32} (loaded : s.consumer = .loaded curTail) :
      Moves capacity s a { s with consumer := .waiting curTail }
  | waits {a : Step α} : Moves capacity s a s
  | finds {a : Step α} {curTail : UInt32} (waiting : s.consumer = .waiting curTail)
      (filled : s.queue.filled curTail = true) :
      Moves capacity s a { s with consumer := .ready curTail }
  | copies {a : Step α} {curTail : UInt32} (ready : s.consumer = .ready curTail) :
      Moves capacity s a { s with consumer := .copied curTail (s.queue.buffer curTail) }
  | clears {a : Step α} {curTail : UInt32} {item : α} (copied : s.consumer = .copied curTail item) :
      Moves capacity s a { s with
        queue := { s.queue with filled := update s.queue.filled curTail false }
        consumer := .cleared curTail item }
  | advances {a : Step α} {curTail : UInt32} {item : α}
      (cleared : s.consumer = .cleared curTail item) :
      Moves capacity s a { s with
        queue := { s.queue with tail := nextIndex capacity curTail }
        consumer := .idle
        popped := s.popped ++ [item] }

section Steps

variable {capacity : UInt32} {s s' : System α} {producer : Nat}

theorem check_moves {a : Step α} (move : s.check capacity producer = some s') :
    Moves capacity s a s' := by
  unfold System.check at move
  split at move
  · split_ifs at move
    · cases move
      exact .looks rfl
    · cases move
      exact .looks rfl
  · cases move

theorem exchange_moves {spurious : Bool} (move : s.exchange capacity producer spurious = some s') :
    Moves capacity s (.exchange producer spurious) s' := by
  unfold System.exchange at move
  split at move
  · next item curHead checked =>
      split_ifs at move with success
      · cases move
        obtain ⟨rfl, rfl⟩ := success
        exact .claims checked
      · cases move
        exact .looks rfl
  · cases move

theorem tryPush_moves {a : Step α} {item : α} (move : s.tryPush producer item = some s') :
    Moves capacity s a s' := by
  unfold System.tryPush at move
  split at move
  · cases move
    exact .looks rfl
  · cases move

theorem store_moves {a : Step α} (move : s.write producer = some s' ∨ s.fill producer = some s') :
    Moves capacity s a s' := by
  rcases move with move | move
  · unfold System.write at move
    split at move
    · next claimed =>
        cases move
        exact .writes claimed
    · cases move
  · unfold System.fill at move
    split at move
    · next written =>
        cases move
        exact .fills written
    · cases move

theorem search_moves {a : Step α}
    (move : s.tryPop = some s' ∨ s.compare = some s' ∨ s.await = some s') :
    Moves capacity s a s' := by
  rcases move with move | move | move
  · unfold System.tryPop at move
    split at move
    · cases move
      exact .tries
    · cases move
  · unfold System.compare at move
    split at move
    · next loaded =>
        split_ifs at move
        · cases move
          exact .leaves
        · cases move
          exact .enters loaded
    · cases move
  · unfold System.await at move
    split at move
    · next waiting =>
        split_ifs at move with filled
        · cases move
          exact .finds waiting filled
        · cases move
          exact .waits
    · cases move

theorem take_moves {a : Step α}
    (move : s.copy = some s' ∨ s.clear = some s' ∨ s.advance capacity = some s') :
    Moves capacity s a s' := by
  rcases move with move | move | move
  · unfold System.copy at move
    split at move
    · next ready =>
        cases move
        exact .copies ready
    · cases move
  · unfold System.clear at move
    split at move
    · next copied =>
        cases move
        exact .clears copied
    · cases move
  · unfold System.advance at move
    split at move
    · next cleared =>
        cases move
        exact .advances cleared
    · cases move

theorem step_moves {a : Step α} (move : s.step capacity a = some s') :
    Moves capacity s a s' := by
  cases a with
  | tryPush producer item => exact tryPush_moves move
  | check producer => exact check_moves move
  | exchange producer spurious => exact exchange_moves move
  | write producer => exact store_moves (Or.inl move)
  | fill producer => exact store_moves (Or.inr move)
  | tryPop => exact search_moves (Or.inl move)
  | compare => exact search_moves (Or.inr (Or.inl move))
  | await => exact search_moves (Or.inr (Or.inr move))
  | copy => exact take_moves (Or.inl move)
  | clear => exact take_moves (Or.inr (Or.inl move))
  | advance => exact take_moves (Or.inr (Or.inr move))

end Steps

theorem slotOf_zero (capacity : UInt32) : slotOf capacity 0 = 0 := UInt32.zero_and

section Slots

variable {capacity : UInt32} (masked : capacity &&& (capacity - 1) = 0) (some : capacity ≠ 0)
include masked some

theorem toNat_slotOf (number : Nat) :
    (slotOf capacity number).toNat = number % capacity.toNat :=
  toNat_and_mask (congrArg UInt32.toBitVec masked) (mt UInt32.toBitVec_inj.mp some) number

theorem apart_slotOf : Apart (slotOf capacity) capacity.toNat := by
  intro j k less near same
  have equal := congrArg UInt32.toNat same
  simp only [toNat_slotOf masked some] at equal
  exact apart_mod capacity.toNat j k less near equal

theorem slotOf_add (number : Nat) :
    slotOf capacity (number + capacity.toNat) = slotOf capacity number := by
  apply UInt32.toNat_inj.mp
  rw [toNat_slotOf masked some, toNat_slotOf masked some, Nat.add_mod_right]

theorem nextIndex_slotOf (number : Nat) :
    nextIndex capacity (slotOf capacity number) = slotOf capacity (number + 1) := by
  have exact : slotOf capacity number + 1 = .ofNat (number % capacity.toNat + 1) := by
    rw [UInt32.ofNat_add, ← toNat_slotOf masked some, UInt32.ofNat_toNat]
    rfl
  apply UInt32.toNat_inj.mp
  rw [nextIndex, exact]
  change (slotOf capacity _).toNat = _
  rw [toNat_slotOf masked some, toNat_slotOf masked some, Nat.mod_add_mod]

theorem slotOf_inj {low j k : Nat} (hj : low ≤ j) (hj' : j < low + capacity.toNat) (hk : low ≤ k)
    (hk' : k < low + capacity.toNat) (same : slotOf capacity j = slotOf capacity k) : j = k := by
  rcases Nat.lt_trichotomy j k with less | equal | more
  · exact absurd same (apart_slotOf masked some j k less (by omega))
  · exact equal
  · exact absurd same.symm (apart_slotOf masked some k j more (by omega))

end Slots

structure Owns (capacity : UInt32) (s : System α) (item : α) (curHead : UInt32) (number : Nat) :
    Prop where
  unpopped : s.popped.length ≤ number
  item : s.claimed[number]? = some item
  slot : curHead = slotOf capacity number
  unfilled : s.queue.filled curHead = false

def Holds (capacity : UInt32) (s : System α) : Producer α → Prop
  | .claimed item curHead number => Owns capacity s item curHead number
  | .written item curHead number =>
    Owns capacity s item curHead number ∧ s.queue.buffer curHead = item
  | _ => True

/-- What the consumer knows of the slot at `tail_`. -/
def Takes (s : System α) : Consumer α → Prop
  | .idle => True
  | .loaded curTail => curTail = s.queue.tail
  | .waiting curTail => curTail = s.queue.tail
  | .ready curTail => curTail = s.queue.tail ∧ s.queue.filled curTail = true
  | .copied curTail item => curTail = s.queue.tail ∧ s.queue.filled curTail = true ∧
      s.claimed[s.popped.length]? = some item
  | .cleared curTail item => curTail = s.queue.tail ∧ s.queue.filled curTail = false ∧
      s.claimed[s.popped.length]? = some item ∧
      ∀ p k, (s.producers p).number = some k → s.popped.length < k

/-- The slots of one lap: `head_` and `tail_` count the claims and the pops, every claim has one
producer, a filled slot has the item of its claim. -/
structure Sound (capacity : UInt32) (s : System α) : Prop where
  head : s.queue.head = slotOf capacity s.claimed.length
  tail : s.queue.tail = slotOf capacity s.popped.length
  inOrder : s.popped <+: s.claimed
  room : s.claimed.length < s.popped.length + capacity.toNat
  holds : ∀ p, Holds capacity s (s.producers p)
  apart : ∀ p q k, (s.producers p).number = some k → (s.producers q).number = some k → p = q
  filled : ∀ i, s.queue.filled i = true → ∃ k, s.popped.length ≤ k ∧ i = slotOf capacity k ∧
    s.claimed[k]? = some (s.queue.buffer i)
  takes : Takes s s.consumer

theorem sound_init {capacity : UInt32} (positive : capacity ≠ 0) (buffer : UInt32 → α) :
    Sound capacity (System.init buffer) := by
  have large : 0 < capacity.toNat := UInt32.pos_iff_ne_zero.mpr positive
  refine ⟨(slotOf_zero capacity).symm, (slotOf_zero capacity).symm, List.prefix_rfl,
    by simpa [System.init] using large, fun _ => trivial, ?_, ?_, trivial⟩
  · intro p q k number
    cases number
  · intro i filled
    cases filled

section Invariant

variable {capacity : UInt32} {s s' : System α} {p : Nat} {stage : Producer α}

theorem Owns.claimed_lt {item : α} {curHead : UInt32} {number : Nat}
    (owns : Owns capacity s item curHead number) : number < s.claimed.length :=
  (List.getElem?_eq_some_iff.mp owns.item).1

theorem Holds.owns (holds : Holds capacity s stage) {k : Nat} (number : stage.number = some k) :
    ∃ item curHead, Owns capacity s item curHead k := by
  cases stage with
  | idle => cases number
  | loaded item curHead => cases number
  | checked item curHead => cases number
  | claimed item curHead k =>
    cases number
    exact ⟨item, curHead, holds⟩
  | written item curHead k =>
    cases number
    exact ⟨item, curHead, holds.1⟩

theorem holds_of_unclaimed (unclaimed : stage.number = none) : Holds capacity s stage := by
  cases stage with
  | idle => trivial
  | loaded item curHead => trivial
  | checked item curHead => trivial
  | claimed item curHead k => cases unclaimed
  | written item curHead k => cases unclaimed

theorem Holds.later (holds : Holds capacity s stage) (more : ∃ items, s'.claimed = s.claimed ++ items)
    (unpopped : ∀ k, stage.number = some k → s'.popped.length ≤ k)
    (alone : ∀ k, stage.number = some k →
      s'.queue.filled (slotOf capacity k) = s.queue.filled (slotOf capacity k) ∧
        s'.queue.buffer (slotOf capacity k) = s.queue.buffer (slotOf capacity k)) :
    Holds capacity s' stage := by
  obtain ⟨items, claimed⟩ := more
  have owned : ∀ {item curHead k}, stage.number = some k → Owns capacity s item curHead k →
      Owns capacity s' item curHead k := by
    intro item curHead k number owns
    refine ⟨unpopped k number, ?_, owns.slot, ?_⟩
    · rw [claimed, List.getElem?_append_left owns.claimed_lt]
      exact owns.item
    · rw [owns.slot, (alone k number).1, ← owns.slot]
      exact owns.unfilled
  cases stage with
  | idle => trivial
  | loaded item curHead => trivial
  | checked item curHead => trivial
  | claimed item curHead k => exact owned rfl holds
  | written item curHead k =>
    refine ⟨owned rfl holds.1, ?_⟩
    rw [holds.1.slot, (alone k rfl).2, ← holds.1.slot]
    exact holds.2

theorem Takes.later {stage : Consumer α} (takes : Takes s stage)
    (tail : s'.queue.tail = s.queue.tail) (popped : s'.popped = s.popped)
    (more : ∃ items, s'.claimed = s.claimed ++ items)
    (own : ∀ p k, (s'.producers p).number = some k →
      s.claimed.length ≤ k ∨ ∃ q, (s.producers q).number = some k)
    (stays : s.queue.filled s.queue.tail = true → s'.queue.filled s.queue.tail = true)
    (free : (∀ p k, (s.producers p).number = some k → s.popped.length < k) →
      s.queue.filled s.queue.tail = false → s'.queue.filled s.queue.tail = false) :
    Takes s' stage := by
  obtain ⟨items, claimed⟩ := more
  have known : ∀ {item}, s.claimed[s.popped.length]? = some item →
      s'.claimed[s'.popped.length]? = some item := by
    intro item found
    obtain ⟨inside, -⟩ := List.getElem?_eq_some_iff.mp found
    rwa [popped, claimed, List.getElem?_append_left inside]
  cases stage with
  | idle => trivial
  | loaded curTail => exact takes.trans tail.symm
  | waiting curTail => exact takes.trans tail.symm
  | ready curTail =>
    obtain ⟨rfl, full⟩ := takes
    exact ⟨tail.symm, stays full⟩
  | copied curTail item =>
    obtain ⟨rfl, full, found⟩ := takes
    exact ⟨tail.symm, stays full, known found⟩
  | cleared curTail item =>
    obtain ⟨rfl, empty, found, ahead⟩ := takes
    refine ⟨tail.symm, free ahead empty, known found, fun p k number => ?_⟩
    rw [popped]
    rcases own p k number with new | ⟨q, old⟩
    · exact Nat.lt_of_lt_of_le (List.getElem?_eq_some_iff.mp found).1 new
    · exact ahead q k old

theorem apart_update {producers : Nat → Producer α}
    (apart : ∀ p q k, (producers p).number = some k → (producers q).number = some k → p = q)
    (new : ∀ q k, q ≠ p → stage.number = some k → (producers q).number ≠ some k) (q r k : Nat)
    (hq : (update producers p stage q).number = some k)
    (hr : (update producers p stage r).number = some k) : q = r := by
  by_cases self : q = p
  · subst self
    rw [Function.update_self] at hq
    by_contra other
    rw [Function.update_of_ne (Ne.symm other)] at hr
    exact new r k (Ne.symm other) hq hr
  · rw [Function.update_of_ne self] at hq
    by_cases self' : r = p
    · subst self'
      rw [Function.update_self] at hr
      exact absurd hq (new q k self hr)
    · rw [Function.update_of_ne self'] at hr
      exact apart q r k hq hr

theorem number_update {producers : Nat → Producer α} {q k : Nat}
    (number : (update producers p stage q).number = some k) :
    stage.number = some k ∨ ∃ r, (producers r).number = some k := by
  by_cases self : q = p
  · subst self
    rw [Function.update_self] at number
    exact Or.inl number
  · rw [Function.update_of_ne self] at number
    exact Or.inr ⟨q, number⟩

section Steps

variable (sound : Sound capacity s)
include sound

theorem Sound.owned {k : Nat} (number : (s.producers p).number = some k) :
    s.popped.length ≤ k ∧ k < s.claimed.length := by
  obtain ⟨item, curHead, owns⟩ := (sound.holds p).owns number
  exact ⟨owns.unpopped, owns.claimed_lt⟩

theorem Sound.keeps_hold {q : Nat} (claimed : s'.claimed = s.claimed) (popped : s'.popped = s.popped)
    (alone : ∀ k, (s.producers q).number = some k →
      s'.queue.filled (slotOf capacity k) = s.queue.filled (slotOf capacity k) ∧
        s'.queue.buffer (slotOf capacity k) = s.queue.buffer (slotOf capacity k)) :
    Holds capacity s' (s.producers q) := by
  refine (sound.holds q).later ⟨[], by rw [claimed, List.append_nil]⟩ (fun k number => ?_) alone
  rw [popped]
  exact (sound.owned number).1

theorem Sound.looks (unclaimed : stage.number = none) :
    Sound capacity { s with producers := update s.producers p stage } := by
  refine ⟨sound.head, sound.tail, sound.inOrder, sound.room, ?_, ?_, sound.filled, ?_⟩
  · rw [Function.forall_update_iff]
    exact ⟨holds_of_unclaimed unclaimed,
      fun q _ => sound.keeps_hold rfl rfl fun _ _ => ⟨rfl, rfl⟩⟩
  · refine apart_update sound.apart fun q k _ number => ?_
    rw [unclaimed] at number
    cases number
  · refine sound.takes.later rfl rfl ⟨[], by simp⟩ (fun q k number => ?_) id fun _ empty => empty
    refine Or.inr ((number_update number).resolve_left ?_)
    rw [unclaimed]
    exact (Option.some_ne_none k).symm

theorem Sound.consumes {stage : Consumer α} (takes : Takes s stage) :
    Sound capacity { s with consumer := stage } := by
  refine ⟨sound.head, sound.tail, sound.inOrder, sound.room, fun p => ?_, sound.apart, sound.filled,
    takes⟩
  exact sound.keeps_hold rfl rfl fun _ _ => ⟨rfl, rfl⟩

theorem Sound.clears {curTail : UInt32} {item : α} (copied : s.consumer = .copied curTail item) :
    Sound capacity { s with
      queue := { s.queue with filled := update s.queue.filled curTail false }
      consumer := .cleared curTail item } := by
  obtain ⟨rfl, full, found⟩ : curTail = s.queue.tail ∧ s.queue.filled curTail = true ∧
      s.claimed[s.popped.length]? = some item := by
    have takes := sound.takes
    rwa [copied] at takes
  -- no producer has the claim of the filled slot
  have other : ∀ p k, (s.producers p).number = some k → slotOf capacity k ≠ s.queue.tail := by
    intro p k number same
    obtain ⟨item, curHead, owns⟩ := (sound.holds p).owns number
    have empty := owns.unfilled
    rw [owns.slot, same, full] at empty
    cases empty
  refine ⟨sound.head, sound.tail, sound.inOrder, sound.room, fun p => ?_, sound.apart, ?_, ?_⟩
  · exact sound.keeps_hold rfl rfl fun k number =>
      ⟨Function.update_of_ne (other p k number) _ _, rfl⟩
  · intro i full'
    have apart : i ≠ s.queue.tail := by
      rintro rfl
      have empty : update s.queue.filled s.queue.tail false s.queue.tail = false :=
        Function.update_self _ _ _
      cases full'.symm.trans empty
    exact sound.filled i ((Function.update_of_ne apart _ _).symm.trans full')
  · refine ⟨rfl, Function.update_self _ _ _, found, fun p k number => ?_⟩
    have unequal : s.popped.length ≠ k := by
      rintro rfl
      exact other p _ number sound.tail.symm
    exact Nat.lt_of_le_of_ne (sound.owned number).1 unequal

variable (masked : capacity &&& (capacity - 1) = 0) (positive : capacity ≠ 0)
include masked positive

theorem Sound.slot_ne {q j k : Nat} (hp : (s.producers p).number = some j)
    (hq : (s.producers q).number = some k) (other : q ≠ p) :
    slotOf capacity k ≠ slotOf capacity j := by
  intro same
  have room := sound.room
  obtain ⟨low, high⟩ := sound.owned hp
  obtain ⟨low', high'⟩ := sound.owned hq
  obtain rfl := slotOf_inj masked positive low' (by omega) low (by omega) same
  exact other (sound.apart q p k hq hp)

theorem Sound.fresh_iff : nextIndex capacity s.queue.head ≠ s.queue.tail ↔
    s.claimed.length + 1 < s.popped.length + capacity.toNat := by
  have room := sound.room
  have order := sound.inOrder.length_le
  rw [sound.head, sound.tail, nextIndex_slotOf masked positive]
  constructor
  · intro apart
    by_contra full
    have lap : s.claimed.length + 1 = s.popped.length + capacity.toNat := by omega
    exact apart (lap ▸ slotOf_add masked positive s.popped.length)
  · intro space same
    exact apart_slotOf masked positive s.popped.length (s.claimed.length + 1) (by omega) space
      same.symm

theorem Sound.claims (fresh : nextIndex capacity s.queue.head ≠ s.queue.tail) (item : α) :
    Sound capacity { s with
      queue := { s.queue with head := nextIndex capacity s.queue.head }
      producers := update s.producers p (.claimed item s.queue.head s.claimed.length)
      claimed := s.claimed ++ [item] } := by
  have space := (sound.fresh_iff masked positive).mp fresh
  have order := sound.inOrder.length_le
  refine ⟨?_, sound.tail, sound.inOrder.trans (List.prefix_append _ _), ?_, ?_, ?_, ?_, ?_⟩
  · rw [List.length_append, List.length_singleton, sound.head, nextIndex_slotOf masked positive]
  · rwa [List.length_append, List.length_singleton]
  · rw [Function.forall_update_iff]
    refine ⟨⟨order, by simp, sound.head, ?_⟩, fun q _ => (sound.holds q).later ⟨[item], rfl⟩
      (fun k number => (sound.owned number).1) fun _ _ => ⟨rfl, rfl⟩⟩
    -- a filled slot would be that of a claim a whole lap earlier
    by_contra full
    rw [Bool.not_eq_false] at full
    obtain ⟨k, low, slot, found⟩ := sound.filled _ full
    obtain ⟨high, -⟩ := List.getElem?_eq_some_iff.mp found
    rw [sound.head] at slot
    exact apart_slotOf masked positive k s.claimed.length high (by omega) slot.symm
  · refine apart_update sound.apart fun q k _ number old => ?_
    cases number
    exact absurd (sound.owned old).2 (Nat.lt_irrefl _)
  · intro i full
    obtain ⟨k, low, slot, found⟩ := sound.filled i full
    obtain ⟨high, -⟩ := List.getElem?_eq_some_iff.mp found
    exact ⟨k, low, slot, by rwa [List.getElem?_append_left high]⟩
  · refine sound.takes.later rfl rfl ⟨[item], rfl⟩ (fun q k number => ?_) id fun _ empty => empty
    exact (number_update number).imp_left fun new => (Option.some.inj new).le

theorem Sound.writes {item : α} {curHead : UInt32} {number : Nat}
    (claimed : s.producers p = .claimed item curHead number) :
    Sound capacity { s with
      queue := { s.queue with buffer := update s.queue.buffer curHead item }
      producers := update s.producers p (.written item curHead number) } := by
  have owns : Owns capacity s item curHead number := by
    have holds := sound.holds p
    rwa [claimed] at holds
  have own : (s.producers p).number = some number := by rw [claimed, Producer.number]
  refine ⟨sound.head, sound.tail, sound.inOrder, sound.room, ?_, ?_, ?_, ?_⟩
  · rw [Function.forall_update_iff]
    refine ⟨⟨⟨owns.unpopped, owns.item, owns.slot, owns.unfilled⟩, Function.update_self _ _ _⟩,
      fun q other => sound.keeps_hold rfl rfl fun k number => ⟨rfl, ?_⟩⟩
    rw [owns.slot]
    exact Function.update_of_ne (sound.slot_ne masked positive own number other) _ _
  · refine apart_update sound.apart fun q k other same old => ?_
    cases same
    exact other (sound.apart q p _ old own)
  · intro i full
    have other : i ≠ curHead := by
      rintro rfl
      rw [owns.unfilled] at full
      cases full
    obtain ⟨k, low, slot, found⟩ := sound.filled i full
    have kept := Function.update_of_ne other item s.queue.buffer
    exact ⟨k, low, slot, found.trans (congrArg some kept.symm)⟩
  · refine sound.takes.later rfl rfl ⟨[], by simp⟩ (fun q k number => ?_) id fun _ empty => empty
    exact Or.inr ((number_update number).elim (fun same => ⟨p, own.trans same⟩) id)

theorem Sound.fills {item : α} {curHead : UInt32} {number : Nat}
    (written : s.producers p = .written item curHead number) :
    Sound capacity { s with
      queue := { s.queue with filled := update s.queue.filled curHead true }
      producers := update s.producers p .idle } := by
  obtain ⟨owns, stored⟩ : Owns capacity s item curHead number ∧ s.queue.buffer curHead = item := by
    have holds := sound.holds p
    rwa [written] at holds
  have own : (s.producers p).number = some number := by rw [written, Producer.number]
  have room := sound.room
  have before := owns.claimed_lt
  refine ⟨sound.head, sound.tail, sound.inOrder, sound.room, ?_, ?_, ?_, ?_⟩
  · rw [Function.forall_update_iff]
    refine ⟨trivial, fun q other => sound.keeps_hold rfl rfl fun k number => ⟨?_, rfl⟩⟩
    rw [owns.slot]
    exact Function.update_of_ne (sound.slot_ne masked positive own number other) _ _
  · refine apart_update sound.apart fun q k _ none => ?_
    cases none
  · intro i full
    by_cases same : i = curHead
    · subst same
      exact ⟨number, owns.unpopped, owns.slot, stored ▸ owns.item⟩
    · exact sound.filled i ((Function.update_of_ne same _ _).symm.trans full)
  · refine sound.takes.later rfl rfl ⟨[], by simp⟩ (fun q k number => ?_) (fun full => ?_)
      fun ahead empty => ?_
    · exact Or.inr ((number_update number).resolve_left (Option.some_ne_none k).symm)
    · by_cases same : s.queue.tail = curHead
      · subst same
        exact Function.update_self _ _ _
      · exact (Function.update_of_ne same _ _).trans full
    · -- the consumer's slot is that of an older claim than every producer's
      have later := ahead p number own
      have other : s.queue.tail ≠ curHead := by
        rw [sound.tail, owns.slot]
        exact apart_slotOf masked positive _ _ later (by omega)
      exact (Function.update_of_ne other _ _).trans empty

theorem Sound.oldest (full : s.queue.filled s.queue.tail = true) :
    s.claimed[s.popped.length]? = some (s.queue.buffer s.queue.tail) := by
  have room := sound.room
  obtain ⟨k, low, slot, found⟩ := sound.filled _ full
  obtain ⟨high, -⟩ := List.getElem?_eq_some_iff.mp found
  rw [sound.tail] at slot
  obtain rfl := slotOf_inj masked positive le_rfl (by omega) low (by omega) slot
  exact found

theorem Sound.advances {curTail : UInt32} {item : α} (cleared : s.consumer = .cleared curTail item) :
    Sound capacity { s with
      queue := { s.queue with tail := nextIndex capacity curTail }
      consumer := .idle
      popped := s.popped ++ [item] } := by
  obtain ⟨rfl, empty, found, ahead⟩ : curTail = s.queue.tail ∧ s.queue.filled curTail = false ∧
      s.claimed[s.popped.length]? = some item ∧
      ∀ p k, (s.producers p).number = some k → s.popped.length < k := by
    have takes := sound.takes
    rwa [cleared] at takes
  obtain ⟨inside, same⟩ := List.getElem?_eq_some_iff.mp found
  have room := sound.room
  refine ⟨sound.head, ?_, ?_, ?_, fun p => ?_, sound.apart, fun i full => ?_, trivial⟩
  · rw [List.length_append, List.length_singleton, sound.tail, nextIndex_slotOf masked positive]
  · exact same ▸ List.concat_get_prefix sound.inOrder inside
  · rw [List.length_append, List.length_singleton]
    change s.claimed.length < s.popped.length + 1 + capacity.toNat
    omega
  · refine (sound.holds p).later ⟨[], by simp⟩ (fun k number => ?_) fun _ _ => ⟨rfl, rfl⟩
    rw [List.length_append, List.length_singleton]
    exact ahead p k number
  · obtain ⟨k, low, slot, found'⟩ := sound.filled i full
    have unequal : s.popped.length ≠ k := by
      rintro rfl
      rw [← sound.tail] at slot
      subst slot
      cases full.symm.trans empty
    refine ⟨k, ?_, slot, found'⟩
    rw [List.length_append, List.length_singleton]
    omega

theorem Sound.moves {a : Step α} (fresh : Fresh capacity s a) (move : Moves capacity s a s') :
    Sound capacity s' := by
  cases move with
  | looks unclaimed => exact sound.looks unclaimed
  | claims checked => exact sound.claims masked positive (fresh _ checked) _
  | writes claimed => exact sound.writes masked positive claimed
  | fills written => exact sound.fills masked positive written
  | tries => exact sound.consumes rfl
  | leaves => exact sound.consumes trivial
  | enters loaded =>
    have takes := sound.takes
    rw [loaded] at takes
    exact sound.consumes takes
  | waits => exact sound
  | finds waiting filled =>
    have takes := sound.takes
    rw [waiting] at takes
    exact sound.consumes ⟨takes, filled⟩
  | copies ready =>
    have takes := sound.takes
    rw [ready] at takes
    obtain ⟨rfl, full⟩ := takes
    exact sound.consumes ⟨rfl, full, sound.oldest masked positive full⟩
  | clears copied => exact sound.clears copied
  | advances cleared => exact sound.advances masked positive cleared

theorem Sound.delivers : Delivers capacity s := by
  have room := sound.room
  refine ⟨sound.inOrder, by omega, fun p item curHead number claimed k low high slot => ?_⟩
  have holds := sound.holds p
  rw [claimed] at holds
  have before := Owns.claimed_lt holds
  exact slotOf_inj masked positive low (by omega) (Owns.unpopped holds) (by omega)
    (slot.trans (Owns.slot holds))

theorem Sound.needs {a : Step α} (delivers : ∀ s', s.step capacity a = some s' → Delivers capacity s') :
    Fresh capacity s a := by
  have room := sound.room
  have order := sound.inOrder.length_le
  cases a with
  | exchange producer spurious =>
    cases spurious with
    | true => trivial
    | false =>
      intro item checked
      rw [sound.fresh_iff masked positive]
      have pending := (delivers _ (by simp only [System.step, System.exchange, checked]; rfl)).pending
      simp only [List.length_append, List.length_singleton] at pending
      omega
  | tryPush producer item => trivial
  | check producer => trivial
  | write producer => trivial
  | fill producer => trivial
  | tryPop => trivial
  | compare => trivial
  | await => trivial
  | copy => trivial
  | clear => trivial
  | advance => trivial

end Steps

end Invariant

/-- The queue delivers in every state of a run exactly if every exchange that succeeds does so
while the queue is not full. -/
theorem mpsc_queue_delivers_iff (capacity : UInt32) (masked : capacity &&& (capacity - 1) = 0)
    (positive : capacity ≠ 0) (buffer : UInt32 → α) (steps : List (Step α)) :
    (∀ first, first <+: steps →
      ∀ s, run (System.step capacity) (System.init buffer) first = some s → Delivers capacity s) ↔
      Obeys (System.step capacity) (Fresh capacity) (System.init buffer) steps :=
  forall_reached_iff_obeys (fun _ sound => sound.delivers masked positive)
    (fun _ _ _ sound fresh move => sound.moves masked positive fresh (step_moves move))
    (fun _ _ sound => sound.needs masked positive) steps _ (sound_init positive buffer)

def pushSteps (producer item : Nat) : List (Step Nat) :=
  [.tryPush producer item, .check producer, .exchange producer false, .write producer,
    .fill producer]

def popSteps : List (Step Nat) := [.tryPop, .compare, .await, .copy, .clear, .advance]

def freshTest (capacity : UInt32) (s : System Nat) : Step Nat → Bool
  | .exchange _ false => nextIndex capacity s.queue.head != s.queue.tail
  | _ => true

theorem fresh_of_test (capacity : UInt32) (s : System Nat) (a : Step Nat)
    (passed : freshTest capacity s a = true) : Fresh capacity s a := by
  unfold Fresh
  split
  · exact fun _ _ => bne_iff_ne.mp passed
  · trivial

def raced : List (Step Nat) :=
  [.tryPush 0 20, .check 0] ++ pushSteps 1 21 ++ [.exchange 0 false, .check 0, .exchange 0 false,
    .write 0] ++ popSteps ++ [.fill 0] ++ popSteps

theorem raced_delivers :
    (∃ s, run (System.step 4) (System.init fun _ => 0) raced = some s ∧ s.popped = [21, 20]) ∧
      ∀ first, first <+: raced → ∀ s,
        run (System.step 4) (System.init fun _ => 0) first = some s → Delivers 4 s :=
  ⟨⟨_, rfl, rfl⟩, (mpsc_queue_delivers_iff 4 (by decide) (by decide) (fun _ => 0) raced).mpr
    (obeys_of_test (fresh_of_test 4) _ _ (by decide))⟩

/-- Producer 0 finds room and is then held up until `head_` has come round to the value it
loaded. Its exchange succeeds on a full queue, which looks empty afterwards. -/
def stale : List (Step Nat) :=
  [.tryPush 0 14, .check 0] ++ pushSteps 1 10 ++ pushSteps 1 11 ++ pushSteps 1 12 ++ popSteps ++
    pushSteps 1 13 ++ [.exchange 0 false, .write 0, .fill 0] ++ pushSteps 1 15 ++ popSteps

theorem stale_exchange_loses_items :
    ∃ s, run (System.step 4) (System.init fun _ => 0) stale = some s ∧
      s.claimed = [10, 11, 12, 13, 14, 15] ∧ s.popped = [10, 15] ∧ ¬ Delivers 4 s :=
  ⟨_, rfl, rfl, rfl, fun delivers => absurd delivers.inOrder (by decide)⟩

end HftGrading.Core.MpscQueue
