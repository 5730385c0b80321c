/- module: HftGrading/Exchange/Sequencer/SequencerState
   source: exchange/include/exchange/sequencer.hpp
   digest: The order sequencer, its callers and its consumer, one atomic step at a time. -/

import HftGrading.Lib.PartialExecution
import HftGrading.Exchange.WireProtocol

set_option autoImplicit false
set_option relaxedAutoImplicit false

namespace HftGrading.Exchange.Sequencer.SequencerState

open Function (update)
open Lib.PartialExecution WireProtocol

/-- The message types that occur in the ring; `unset` is the zero byte of fresh memory. -/
inductive MsgType
  | unset | orderEntry | cancelRequest
  deriving DecidableEq, Repr

inductive Payload
  | unset
  | order (order : OrderEntry)
  | cancel (cancel : CancelRequest)
  deriving DecidableEq, Repr

structure SequencedOrder where
  sequenceNo : Nat
  recvTsc : Nat
  contestantId : Nat
  msgType : MsgType
  payload : Payload
  deriving DecidableEq, Repr

def seqRingSize : Nat := 65536

def slotOf (seq : Nat) : Nat := seq % seqRingSize

inductive Flag
  | empty | ready | writing
  deriving DecidableEq, Repr

/-- `OrderSequencer`; its 64-bit counters do not run over. -/
structure OrderSequencer where
  ring : Nat → SequencedOrder
  committed : Nat → Flag
  seqCounter : Nat
  totalStamped : Nat
  drops : Nat
  drainPos : Nat
  totalDrained : Nat

def OrderSequencer.init : OrderSequencer where
  ring := fun _ => ⟨0, 0, 0, .unset, .unset⟩
  committed := fun _ => .empty
  seqCounter := 0
  totalStamped := 0
  drops := 0
  drainPos := 0
  totalDrained := 0

/-- What a caller asks to have stamped. -/
structure Request where
  contestantId : Nat
  msgType : MsgType
  payload : Payload
  deriving DecidableEq, Repr

def stampOrder (contestantId : Nat) (order : OrderEntry) : Request :=
  ⟨contestantId, .orderEntry, .order order⟩

def stampCancel (contestantId : Nat) (cancel : CancelRequest) : Request :=
  ⟨contestantId, .cancelRequest, .cancel cancel⟩

/-- Which of its atomic steps a call of `stamp_order` or `stamp_cancel` has taken last. -/
inductive Stage
  | fetched | claimed | written | committed | dropped
  deriving DecidableEq, Repr

structure Call where
  stage : Stage
  request : Request
  seq : Nat
  deriving DecidableEq, Repr

/-- Where the consumer is in `drain`. -/
inductive Consumer
  | idle
  | loaded
  | copied (out : SequencedOrder)
  | released (out : SequencedOrder)
  deriving DecidableEq, Repr

/-- What has happened so far: commit stores with their numbers, the calls that returned
with the number they drew and the value they gave, and the records `drain` gave. -/
structure History where
  commits : List (Nat × Request)
  returns : List (Nat × Nat)
  drained : List SequencedOrder

structure System where
  sequencer : OrderSequencer
  calls : Nat → Option Call
  consumer : Consumer
  history : History

def System.init : System := ⟨OrderSequencer.init, fun _ => none, .idle, ⟨[], [], []⟩⟩

/-- The steps: a caller enters with `fetch_add` and goes on to the slot's exchange, the record,
the commit store and the count with which it returns; the consumer loads the flag, copies
the record, clears the flag and moves on. -/
inductive Step
  | stampOrder (caller contestantId : Nat) (order : OrderEntry)
  | stampCancel (caller contestantId : Nat) (cancel : CancelRequest)
  | claim (caller : Nat)
  | write (caller tsc : Nat)
  | commit (caller : Nat)
  | finish (caller : Nat)
  | load
  | copy
  | release
  | advance
  deriving DecidableEq, Repr

namespace System

variable (s : System)

/-- `seq_counter_.fetch_add(1) + 1`, the first step of a call. -/
def enter (caller : Nat) (request : Request) : Option System :=
  match s.calls caller with
  | some _ => none
  | none => some { s with
      sequencer := { s.sequencer with seqCounter := s.sequencer.seqCounter + 1 }
      calls := update s.calls caller (some ⟨.fetched, request, s.sequencer.seqCounter + 1⟩) }

/-- `committed_[slot].compare_exchange_strong(0, 2)`. -/
def claim (caller : Nat) : Option System :=
  match s.calls caller with
  | some ⟨.fetched, request, seq⟩ =>
    if s.sequencer.committed (slotOf seq) = .empty then
      some { s with
        sequencer := { s.sequencer with
          committed := update s.sequencer.committed (slotOf seq) .writing }
        calls := update s.calls caller (some ⟨.claimed, request, seq⟩) }
    else
      some { s with calls := update s.calls caller (some ⟨.dropped, request, seq⟩) }
  | _ => none

def write (caller tsc : Nat) : Option System :=
  match s.calls caller with
  | some ⟨.claimed, request, seq⟩ => some { s with
      sequencer := { s.sequencer with
        ring := update s.sequencer.ring (slotOf seq)
          ⟨seq, tsc, request.contestantId, request.msgType, request.payload⟩ }
      calls := update s.calls caller (some ⟨.written, request, seq⟩) }
  | _ => none

def commit (caller : Nat) : Option System :=
  match s.calls caller with
  | some ⟨.written, request, seq⟩ => some { s with
      sequencer := { s.sequencer with
        committed := update s.sequencer.committed (slotOf seq) .ready }
      calls := update s.calls caller (some ⟨.committed, request, seq⟩)
      history := { s.history with commits := s.history.commits ++ [(seq, request)] } }
  | _ => none

def finish (caller : Nat) : Option System :=
  match s.calls caller with
  | some ⟨.committed, _, seq⟩ => some { s with
      sequencer := { s.sequencer with totalStamped := s.sequencer.totalStamped + 1 }
      calls := update s.calls caller none
      history := { s.history with returns := s.history.returns ++ [(seq, seq)] } }
  | some ⟨.dropped, _, seq⟩ => some { s with
      sequencer := { s.sequencer with drops := s.sequencer.drops + 1 }
      calls := update s.calls caller none
      history := { s.history with returns := s.history.returns ++ [(seq, 0)] } }
  | _ => none

def drainSlot : Nat := slotOf (s.sequencer.drainPos + 1)

/-- The load of the flag; `drain` returns false here if it is not 1. -/
def load : Option System :=
  match s.consumer with
  | .idle =>
    if s.sequencer.committed s.drainSlot = .ready then some { s with consumer := .loaded }
    else some s
  | _ => none

def copy : Option System :=
  match s.consumer with
  | .loaded => some { s with consumer := .copied (s.sequencer.ring s.drainSlot) }
  | _ => none

def release : Option System :=
  match s.consumer with
  | .copied out => some { s with
      sequencer := { s.sequencer with
        committed := update s.sequencer.committed s.drainSlot .empty }
      consumer := .released out }
  | _ => none

def advance : Option System :=
  match s.consumer with
  | .released out => some { s with
      sequencer := { s.sequencer with
        drainPos := s.sequencer.drainPos + 1
        totalDrained := s.sequencer.totalDrained + 1 }
      consumer := .idle
      history := { s.history with drained := s.history.drained ++ [out] } }
  | _ => none

def step : Step → Option System
  | .stampOrder caller contestantId order =>
    s.enter caller (SequencerState.stampOrder contestantId order)
  | .stampCancel caller contestantId cancel =>
    s.enter caller (SequencerState.stampCancel contestantId cancel)
  | .claim caller => s.claim caller
  | .write caller tsc => s.write caller tsc
  | .commit caller => s.commit caller
  | .finish caller => s.finish caller
  | .load => s.load
  | .copy => s.copy
  | .release => s.release
  | .advance => s.advance

end System

structure Carries (r : SequencedOrder) (seq : Nat) (request : Request) : Prop where
  sequenceNo : r.sequenceNo = seq
  contestantId : r.contestantId = request.contestantId
  msgType : r.msgType = request.msgType
  payload : r.payload = request.payload

def Call.Writes (k : Call) : Prop := k.stage = .claimed ∨ k.stage = .written

inductive Moves (s : System) : Step → System → Prop
  | enters {a : Step} {caller : Nat} (request : Request) (free : s.calls caller = none) :
      Moves s a { s with
        sequencer := { s.sequencer with seqCounter := s.sequencer.seqCounter + 1 }
        calls := update s.calls caller (some ⟨.fetched, request, s.sequencer.seqCounter + 1⟩) }
  | claims {caller seq : Nat} {request : Request}
      (call : s.calls caller = some ⟨.fetched, request, seq⟩)
      (free : s.sequencer.committed (slotOf seq) = .empty) :
      Moves s (.claim caller) { s with
        sequencer := { s.sequencer with
          committed := update s.sequencer.committed (slotOf seq) .writing }
        calls := update s.calls caller (some ⟨.claimed, request, seq⟩) }
  | drops {caller seq : Nat} {request : Request}
      (call : s.calls caller = some ⟨.fetched, request, seq⟩)
      (taken : s.sequencer.committed (slotOf seq) ≠ .empty) :
      Moves s (.claim caller) { s with calls := update s.calls caller (some ⟨.dropped, request, seq⟩) }
  | writes {a : Step} {caller seq : Nat} {request : Request} (tsc : Nat)
      (call : s.calls caller = some ⟨.claimed, request, seq⟩) :
      Moves s a { s with
        sequencer := { s.sequencer with
          ring := update s.sequencer.ring (slotOf seq)
            ⟨seq, tsc, request.contestantId, request.msgType, request.payload⟩ }
        calls := update s.calls caller (some ⟨.written, request, seq⟩) }
  | commits {a : Step} {caller seq : Nat} {request : Request}
      (call : s.calls caller = some ⟨.written, request, seq⟩) :
      Moves s a { s with
        sequencer := { s.sequencer with
          committed := update s.sequencer.committed (slotOf seq) .ready }
        calls := update s.calls caller (some ⟨.committed, request, seq⟩)
        history := { s.history with commits := s.history.commits ++ [(seq, request)] } }
  | returns {a : Step} {caller : Nat} {k : Call} (call : s.calls caller = some k) (totalStamped drops value : Nat)
      (outcome : k.stage = .committed ∧ value = k.seq ∨ k.stage = .dropped ∧ value = 0) :
      Moves s a { s with
        sequencer := { s.sequencer with totalStamped := totalStamped, drops := drops }
        calls := update s.calls caller none
        history := { s.history with returns := s.history.returns ++ [(k.seq, value)] } }
  | waits {a : Step} : Moves s a s
  | loads {a : Step} (idle : s.consumer = .idle) (ready : s.sequencer.committed s.drainSlot = .ready) :
      Moves s a { s with consumer := .loaded }
  | copies {a : Step} (loaded : s.consumer = .loaded) :
      Moves s a { s with consumer := .copied (s.sequencer.ring s.drainSlot) }
  | releases {a : Step} {out : SequencedOrder} (copied : s.consumer = .copied out) :
      Moves s a { s with
        sequencer := { s.sequencer with
          committed := update s.sequencer.committed s.drainSlot .empty }
        consumer := .released out }
  | advances {a : Step} {out : SequencedOrder} (released : s.consumer = .released out) :
      Moves s a { s with
        sequencer := { s.sequencer with
          drainPos := s.sequencer.drainPos + 1
          totalDrained := s.sequencer.totalDrained + 1 }
        consumer := .idle
        history := { s.history with drained := s.history.drained ++ [out] } }

section Steps

variable {s s' : System}

theorem enter_moves {a : Step} {caller : Nat} {request : Request}
    (move : s.enter caller request = some s') : Moves s a s' := by
  unfold System.enter at move
  split at move
  · cases move
  · next free =>
      cases move
      exact .enters request free

theorem claim_moves {caller : Nat} (move : s.claim caller = some s') :
    Moves s (.claim caller) s' := by
  unfold System.claim at move
  split at move
  · next request seq call =>
      split_ifs at move with free
      · cases move
        exact .claims call free
      · cases move
        exact .drops call free
  · cases move

theorem finish_moves {a : Step} {caller : Nat} (move : s.finish caller = some s') :
    Moves s a s' := by
  unfold System.finish at move
  split at move
  · next call =>
      cases move
      exact .returns call _ s.sequencer.drops _ (Or.inl ⟨rfl, rfl⟩)
  · next call =>
      cases move
      exact .returns call s.sequencer.totalStamped _ _ (Or.inr ⟨rfl, rfl⟩)
  · cases move

theorem consumer_moves {a : Step} (move : s.load = some s' ∨ s.copy = some s' ∨
    s.release = some s' ∨ s.advance = some s') : Moves s a s' := by
  rcases move with move | move | move | move
  · unfold System.load at move
    split at move
    · next idle =>
        split_ifs at move with ready
        · cases move
          exact .loads idle ready
        · cases move
          exact .waits
    · cases move
  · unfold System.copy at move
    split at move
    · next loaded =>
        cases move
        exact .copies loaded
    · cases move
  · unfold System.release at move
    split at move
    · next copied =>
        cases move
        exact .releases copied
    · cases move
  · unfold System.advance at move
    split at move
    · next released =>
        cases move
        exact .advances released
    · cases move

theorem step_moves {a : Step} (move : s.step a = some s') : Moves s a s' := by
  cases a with
  | stampOrder caller contestantId order => exact enter_moves move
  | stampCancel caller contestantId cancel => exact enter_moves move
  | claim caller => exact claim_moves move
  | write caller tsc =>
    change s.write caller tsc = some s' at move
    unfold System.write at move
    split at move
    · next call =>
        cases move
        exact .writes tsc call
    · cases move
  | commit caller =>
    change s.commit caller = some s' at move
    unfold System.commit at move
    split at move
    · next call =>
        cases move
        exact .commits call
    · cases move
  | finish caller => exact finish_moves move
  | load => exact consumer_moves (Or.inl move)
  | copy => exact consumer_moves (Or.inr (Or.inl move))
  | release => exact consumer_moves (Or.inr (Or.inr (Or.inl move)))
  | advance => exact consumer_moves (Or.inr (Or.inr (Or.inr move)))

end Steps

end HftGrading.Exchange.Sequencer.SequencerState
