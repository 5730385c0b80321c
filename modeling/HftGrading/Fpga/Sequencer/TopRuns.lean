/- module: HftGrading/Fpga/Sequencer/TopRuns
   source: fpga/rtl/sequencer_top.sv
   digest: Runs of the top module with a journal of the beats, the orders and the ring entries. -/

import HftGrading.Lib.PartialExecution
import HftGrading.Fpga.Sequencer.SequencerTop

set_option autoImplicit false
set_option relaxedAutoImplicit false

namespace HftGrading.Fpga.Sequencer.TopRuns

open Lib.PartialExecution
open SequencerCore (Output granted sequences stamped)
open SequencerTop

variable {n aw : Nat}

structure Beat (n : Nat) where
  cycle : Nat
  port : Fin n
  tdata : BitVec 512
  tuserContestantId : BitVec 8
  deriving DecidableEq, Repr

/-- The top module and its past: the beats accepted, the orders that got a number, the entries
that were stored, and where the orders under way come from. -/
structure Journal (n aw : Nat) where
  regs : Regs n aw
  edges : Nat
  beats : List (Beat n)
  inParser : Fin n → Option (Beat n)
  issued : List (Output 512)
  inSequencer : Option (Beat n)
  stored : List (BitVec 1024 × Option (Beat n))

namespace Journal

variable [NeZero n] (j : Journal n aw) (i : Inputs n)

def presented (p : Fin n) : Beat n := ⟨j.edges, p, i.tdata p, i.tuserContestantId p⟩

def takes (p : Fin n) : Bool := i.tvalid p && j.regs.tready i p

def issues : Bool := sequences j.regs.sequencer (j.regs.sequencerInputs i)

def turn : Fin n := granted j.regs.sequencer (j.regs.sequencerInputs i)

def tick : Journal n aw where
  regs := j.regs.cycle i
  edges := j.edges + 1
  beats := j.beats ++ ((List.finRange n).filter (j.takes i)).map (j.presented i)
  inParser := fun p =>
    if j.takes i p then
      if OrderParser.msgValid (i.tdata p) then some (j.presented i p) else none
    else if SequencerCore.portReady j.regs.sequencer (j.regs.sequencerInputs i) p then none
    else j.inParser p
  issued :=
    if j.issues i then j.issued ++ [stamped j.regs.sequencer (j.regs.sequencerInputs i)]
    else j.issued
  inSequencer := if j.issues i then j.inParser (j.turn i) else none
  stored :=
    if j.regs.ring.stores (j.regs.ringInputs i) then
      j.stored ++ [(dmaEntry j.regs.sequencer.out, j.inSequencer)]
    else j.stored

end Journal

def Journal.start (u : Regs n aw) : Journal n aw := ⟨reset u, 0, [], fun _ => none, [], none, []⟩

def Journal.after [NeZero n] (j : Journal n aw) (is : List (Inputs n)) : Journal n aw :=
  is.foldl Journal.tick j

section Edges

variable [NeZero n] {j : Journal n aw} {i : Inputs n}

theorem issues_iff :
    j.issues i = true ↔ (∃ p, (j.regs.parser p).outValid = true) ∧ j.regs.ring.isFull = false := by
  have ready : (j.regs.sequencerInputs i).outReady = !j.regs.ring.isFull := rfl
  rw [Journal.issues, sequences, ready, Bool.and_eq_true, Bool.not_eq_true']
  refine and_congr_left fun _ => ?_
  rcases SequencerCore.arbitrate_spec j.regs.sequencer.rrPriority
    (fun p => (j.regs.parser p).outValid) with ⟨none, silent⟩ | ⟨p, valid, here⟩
  · have noGrant : (SequencerCore.grant j.regs.sequencer (j.regs.sequencerInputs i)).valid = false :=
      none
    rw [noGrant]
    refine ⟨fun impossible => Bool.noConfusion impossible, fun some => ?_⟩
    obtain ⟨p, valid⟩ := some
    exact Bool.noConfusion ((silent p).symm.trans valid)
  · have grants : SequencerCore.grant j.regs.sequencer (j.regs.sequencerInputs i) = ⟨true, _⟩ := here
    rw [grants]
    exact ⟨fun _ => ⟨p, valid⟩, fun _ => rfl⟩

theorem outValid_turn (issues : j.issues i = true) : (j.regs.parser (j.turn i)).outValid = true := by
  have accepts := (SequencerCore.accepts_iff j.regs.sequencer (j.regs.sequencerInputs i)
    (j.turn i)).mpr ⟨issues, rfl⟩
  exact (Bool.and_eq_true_iff.mp accepts).1

theorem sequencer_tick (j : Journal n aw) (i : Inputs n) :
    (j.tick i).regs.sequencer.outValid = j.issues i ∧
      (j.issues i = true → (j.tick i).regs.sequencer.out =
        stamped j.regs.sequencer (j.regs.sequencerInputs i)) :=
  ⟨rfl, fun issues => if_pos issues⟩

end Edges

def blankRegs (n aw : Nat) : Regs n aw :=
  ⟨fun _ => OrderParser.reset, SequencerCore.reset, ⟨0, 0, 0, fun _ => 0, 0, false⟩⟩

def portZero (n : Nat) [NeZero n] (valid : Bool) (id : BitVec 8) : Inputs n :=
  ⟨fun p => valid && p == 0, fun _ => 10, fun _ => id, false, 0, false, 0, 0⟩

end HftGrading.Fpga.Sequencer.TopRuns
