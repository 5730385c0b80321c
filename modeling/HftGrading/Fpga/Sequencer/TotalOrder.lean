/- module: HftGrading/Fpga/Sequencer/TotalOrder
   source: fpga/rtl/sequencer_core.sv
   digest: Beats in, stamped orders out: one at a time, numbered, in order and time-stamped. -/

import HftGrading.Lib.FlushedPipeline
import HftGrading.Fpga.Sequencer.SequencerCore

set_option autoImplicit false
set_option relaxedAutoImplicit false

namespace HftGrading.Fpga.Sequencer.TotalOrder

open Lib.FlushedPipeline SequencerCore

variable {n ow : Nat} [NeZero n]

def passing (r : Regs n ow) (i : Inputs n ow) : List (Port ow) :=
  ((List.finRange n).filter (accepts r i)).map i.port

/-- The sequencer, the beats it has accepted and what it has shown with `out_valid`, one item a
cycle. -/
structure Trace (n ow : Nat) where
  regs : Regs n ow
  beats : List (Port ow)
  outputs : List (Output ow)

def Trace.tick (t : Trace n ow) (i : Inputs n ow) : Trace n ow where
  regs := t.regs.cycle i
  beats := t.beats ++ passing t.regs i
  outputs := t.outputs ++ held (t.regs.cycle i).outValid (t.regs.cycle i).out

def trace (is : List (Inputs n ow)) : Trace n ow := is.foldl Trace.tick ⟨reset, [], []⟩

structure Carries (beat : Port ow) (out : Output ow) : Prop where
  data : out.data = beat.data
  contestantId : out.contestantId = beat.contestantId
  msgType : out.msgType = beat.msgType

theorem filter_accepts (r : Regs n ow) (i : Inputs n ow) :
    (List.finRange n).filter (accepts r i) = if sequences r i then [granted r i] else [] := by
  have only : accepts r i = fun p => sequences r i && (p == granted r i) := by
    funext p
    rw [Bool.eq_iff_iff, accepts_iff, Bool.and_eq_true, beq_iff_eq]
  rw [only]
  cases sequences r i with
  | false => simp
  | true =>
    have once : (List.finRange n).filter (fun p => p == granted r i) = [granted r i] := by
      rw [List.filter_beq, List.count_eq_one_of_mem (List.nodup_finRange n)
        (List.mem_finRange _), List.replicate_one]
    simp only [Bool.true_and, once, if_true]

theorem passing_eq (r : Regs n ow) (i : Inputs n ow) :
    passing r i = if sequences r i then [i.port (granted r i)] else [] := by
  rw [passing, filter_accepts]
  split_ifs <;> rfl

/-- After `edges` edges: the counters count, and the stamps are those of the past. -/
structure Stamped (edges : Nat) (t : Trace n ow) : Prop where
  seq : t.regs.seqCounter = BitVec.ofNat 64 t.outputs.length
  time : t.regs.timestampCounter = BitVec.ofNat 64 edges
  few : t.outputs.length ≤ edges
  carried : List.Forall₂ Carries t.beats t.outputs
  numbers : ∀ k, (shown : k < t.outputs.length) → t.outputs[k].seqNo = BitVec.ofNat 64 (k + 1)
  past : ∀ out ∈ t.outputs, out.timestamp.toNat < edges
  times : t.outputs.Pairwise fun a b => a.timestamp < b.timestamp

section Edges

variable {edges : Nat} {t : Trace n ow} {i : Inputs n ow}

theorem time_tick (stamped : Stamped edges t) :
    (t.tick i).regs.timestampCounter = BitVec.ofNat 64 (edges + 1) := by
  show t.regs.timestampCounter + 1 = _
  rw [stamped.time, BitVec.ofNat_add]
  rfl

theorem stamped_quiet (stamped : Stamped edges t) (quiet : sequences t.regs i = false) :
    Stamped (edges + 1) (t.tick i) := by
  have beats : (t.tick i).beats = t.beats := by
    simp only [Trace.tick, passing_eq, quiet, Bool.false_eq_true, if_false, List.append_nil]
  have outputs : (t.tick i).outputs = t.outputs := by
    simp only [Trace.tick, Regs.cycle, quiet, held, Bool.false_eq_true, if_false, List.append_nil]
  have seq : (t.tick i).regs.seqCounter = t.regs.seqCounter := by
    simp only [Trace.tick, Regs.cycle, quiet, Bool.false_eq_true, if_false]
  refine ⟨?_, time_tick stamped, ?_, ?_, ?_, ?_, ?_⟩
  · rw [seq, outputs, stamped.seq]
  · rw [outputs]
    exact stamped.few.trans (Nat.le_succ edges)
  · rw [beats, outputs]
    exact stamped.carried
  · simp only [outputs]
    exact stamped.numbers
  · rw [outputs]
    exact fun out listed => (stamped.past out listed).trans (Nat.lt_succ_self edges)
  · rw [outputs]
    exact stamped.times

theorem stamped_emit (stamped : Stamped edges t) (short : edges < 2 ^ 64)
    (emits : sequences t.regs i = true) : Stamped (edges + 1) (t.tick i) := by
  have beats : (t.tick i).beats = t.beats ++ [i.port (granted t.regs i)] := by
    simp only [Trace.tick, passing_eq, emits, if_true]
  have outputs : (t.tick i).outputs = t.outputs ++ [SequencerCore.stamped t.regs i] := by
    simp only [Trace.tick, Regs.cycle, emits, held, if_true]
  have seq : (t.tick i).regs.seqCounter = t.regs.seqCounter + 1 := by
    simp only [Trace.tick, Regs.cycle, emits, if_true]
  have now : (SequencerCore.stamped t.regs i).timestamp.toNat = edges := by
    show t.regs.timestampCounter.toNat = edges
    rw [stamped.time, BitVec.toNat_ofNat, Nat.mod_eq_of_lt short]
  have number : t.regs.seqCounter + 1 = BitVec.ofNat 64 (t.outputs.length + 1) := by
    rw [stamped.seq, BitVec.ofNat_add]
    rfl
  refine ⟨?_, time_tick stamped, ?_, ?_, ?_, ?_, ?_⟩
  · rw [seq, outputs, List.length_append, List.length_singleton, number]
  · rw [outputs, List.length_append, List.length_singleton]
    exact Nat.succ_le_succ stamped.few
  · rw [beats, outputs]
    exact List.rel_append stamped.carried (.cons ⟨rfl, rfl, rfl⟩ .nil)
  · simp only [outputs]
    exact numbered_concat stamped.numbers number
  · rw [outputs]
    intro out listed
    rcases List.mem_append.mp listed with old | new
    · exact (stamped.past out old).trans (Nat.lt_succ_self edges)
    · rw [List.mem_singleton.mp new, now]
      exact Nat.lt_succ_self edges
  · rw [outputs, List.pairwise_append]
    refine ⟨stamped.times, List.pairwise_singleton _ _, ?_⟩
    intro old listed new last
    rw [List.mem_singleton.mp last, BitVec.lt_def, now]
    exact stamped.past old listed

theorem stamped_tick (stamped : Stamped edges t) (short : edges < 2 ^ 64) :
    Stamped (edges + 1) (t.tick i) := by
  cases emits : sequences t.regs i with
  | false => exact stamped_quiet stamped emits
  | true => exact stamped_emit stamped short emits

end Edges

theorem stamped_trace (is : List (Inputs n ow)) (short : is.length ≤ 2 ^ 64) :
    Stamped is.length (trace is) := by
  induction is using List.reverseRecOn with
  | nil =>
    exact ⟨rfl, rfl, Nat.le_refl 0, .nil, fun _ shown => absurd shown (Nat.not_lt_zero _),
      fun _ none => absurd none List.not_mem_nil, .nil⟩
  | append_singleton is i ih =>
    rw [List.length_append, List.length_singleton] at short ⊢
    have last : trace (is ++ [i]) = (trace is).tick i := by
      simp only [trace, List.foldl_append, List.foldl_cons, List.foldl_nil]
    rw [last]
    exact stamped_tick (ih (by omega)) (by omega)

/-- For any number of ports and any inputs, in fewer than 2^64 cycles: in every state reached at
most one port is accepted, and the outputs so far are the accepted beats, in order, numbered
from 1 and with increasing time stamps. -/
theorem sequencer_stamps_total_order (is : List (Inputs n ow)) (short : is.length < 2 ^ 64) :
    let t := trace is
    (∀ i p q, accepts t.regs i p = true → accepts t.regs i q = true → p = q) ∧
      List.Forall₂ Carries t.beats t.outputs ∧
      (∀ k, (shown : k < t.outputs.length) → t.outputs[k].seqNo.toNat = k + 1) ∧
      t.outputs.Pairwise fun a b => a.timestamp < b.timestamp := by
  intro t
  have stamped := stamped_trace is short.le
  refine ⟨?_, stamped.carried, ?_, stamped.times⟩
  · intro i p q first second
    exact ((accepts_iff _ _ p).mp first).2.trans ((accepts_iff _ _ q).mp second).2.symm
  · intro k shown
    have few : t.outputs.length ≤ is.length := stamped.few
    rw [stamped.numbers k shown, BitVec.toNat_ofNat, Nat.mod_eq_of_lt (by omega)]

def crowded (outReady : Bool) : Inputs 3 8 :=
  ⟨fun p => ⟨true, BitVec.ofNat 8 (10 + p.val), BitVec.ofNat 8 (p.val + 1), 10⟩, outReady⟩

theorem sequencer_stamps_total_order_three_ports :
    let t := trace [crowded true, crowded true, crowded false, crowded true, crowded true]
    (t.outputs.map fun out => (out.seqNo, out.timestamp, out.contestantId)) =
        [(1, 0, 1), (2, 1, 2), (3, 3, 3), (4, 4, 1)] ∧
      (∀ i p q, accepts t.regs i p = true → accepts t.regs i q = true → p = q) ∧
      List.Forall₂ Carries t.beats t.outputs ∧
      (∀ k, (shown : k < t.outputs.length) → t.outputs[k].seqNo.toNat = k + 1) ∧
      t.outputs.Pairwise fun a b => a.timestamp < b.timestamp :=
  ⟨by decide +kernel, sequencer_stamps_total_order _ (by decide)⟩

end HftGrading.Fpga.Sequencer.TotalOrder
