/- module: HftGrading/Fpga/Sequencer/StoredOrders
   source: fpga/rtl/sequencer_top.sv
   digest: Orders that get a number, and the cycle between the number and the ring. -/

import HftGrading.Lib.FlushedPipeline
import HftGrading.Fpga.Sequencer.TopRuns

set_option autoImplicit false
set_option relaxedAutoImplicit false

namespace HftGrading.Fpga.Sequencer.StoredOrders

open Lib.PartialExecution Lib.FlushedPipeline
open DmaRing (depth fullAt fullAt_iff)
open SequencerCore (stamped numbered_concat)
open SequencerTop TopRuns

variable {n aw : Nat} [NeZero n]

/-- The host moves `read_ptr` over entries that lie between it and `write_ptr`. -/
def Polite (j : Journal n aw) (i : Inputs n) : Prop :=
  (j.regs.ring.nextRead (j.regs.ringInputs i) - j.regs.ring.readPtr).toNat ≤
    (j.regs.ring.writePtr - j.regs.ring.readPtr).toNat

/-- Before an edge that gives an order a number, the unread entries and the one in the output
register are fewer than `DEPTH - 1`, and `write_ptr` neither has wrapped past `read_ptr` nor does
so with the entry of the register. -/
def Room (j : Journal n aw) (i : Inputs n) : Prop :=
  j.issues i = true →
    j.regs.ring.readPtr.toNat ≤ j.regs.ring.writePtr.toNat ∧
      j.regs.ring.writePtr.toNat + j.regs.sequencer.outValid.toNat < depth aw ∧
      j.regs.ring.writePtr.toNat - j.regs.ring.readPtr.toNat + j.regs.sequencer.outValid.toNat <
        depth aw - 1

def Roomy (j : Journal n aw) (i : Inputs n) : Prop := Polite j i ∧ Room j i

instance (j : Journal n aw) (i : Inputs n) : Decidable (Roomy j i) :=
  inferInstanceAs (Decidable ((_ ≤ _) ∧ (_ → _)))

structure Conveyed (j : Journal n aw) : Prop where
  numbers : j.regs.sequencer.seqCounter = BitVec.ofNat 64 j.issued.length
  issued : ∀ k, (given : k < j.issued.length) → j.issued[k].seqNo = BitVec.ofNat 64 (k + 1)
  conveyed : j.stored.map Prod.fst ++
    held j.regs.sequencer.outValid (dmaEntry j.regs.sequencer.out) = j.issued.map dmaEntry
  cell : j.regs.sequencer.outValid = true → j.regs.ring.isFull = false
  drops : j.regs.ring.dropCount = 0

omit [NeZero n] in
theorem conveyed_start (u : Regs n aw) : Conveyed (Journal.start u) where
  numbers := rfl
  issued := fun _ given => absurd given (Nat.not_lt_zero _)
  conveyed := rfl
  cell := fun valid => Bool.noConfusion valid
  drops := rfl

section Steps

variable {j : Journal n aw} {i : Inputs n}

theorem stored_tick (conveyed : Conveyed j) :
    (j.tick i).stored.map Prod.fst = j.issued.map dmaEntry := by
  rw [← conveyed.conveyed]
  cases valid : j.regs.sequencer.outValid with
  | false =>
    have idle : j.regs.ring.stores (j.regs.ringInputs i) = false := by
      simp only [DmaRing.Regs.stores, Regs.ringInputs, valid, Bool.false_and]
    simp only [Journal.tick, idle, held, Bool.false_eq_true, if_false, List.append_nil]
  | true =>
    have stores : j.regs.ring.stores (j.regs.ringInputs i) = true := by
      simp only [DmaRing.Regs.stores, Regs.ringInputs, valid, conveyed.cell valid, Bool.not_false,
        Bool.and_self]
    simp only [Journal.tick, stores, held, if_true, List.map_append, List.map_cons, List.map_nil]

theorem drops_tick (conveyed : Conveyed j) : (j.tick i).regs.ring.dropCount = 0 := by
  refine (if_neg fun drop => ?_).trans conveyed.drops
  obtain ⟨valid, full⟩ := Bool.and_eq_true_iff.mp drop
  exact Bool.noConfusion ((conveyed.cell valid).symm.trans full)

omit [NeZero n] in
theorem nextRead_between (polite : Polite j i)
    (order : j.regs.ring.readPtr.toNat ≤ j.regs.ring.writePtr.toNat) :
    j.regs.ring.readPtr.toNat ≤ (j.regs.ring.nextRead (j.regs.ringInputs i)).toNat ∧
      (j.regs.ring.nextRead (j.regs.ringInputs i)).toNat ≤ j.regs.ring.writePtr.toNat := by
  rw [Polite, BitVec.toNat_sub_of_le order] at polite
  generalize moved : j.regs.ring.nextRead (j.regs.ringInputs i) - j.regs.ring.readPtr = step at polite
  have next : j.regs.ring.nextRead (j.regs.ringInputs i) = j.regs.ring.readPtr + step := by
    rw [← moved, BitVec.add_comm, BitVec.sub_add_cancel]
  have bound := j.regs.ring.writePtr.isLt
  rw [next, BitVec.toNat_add, Nat.mod_eq_of_lt (by omega)]
  omega

omit [NeZero n] in
theorem nextWrite_of_room (free : j.regs.ring.isFull = false)
    (below : j.regs.ring.writePtr.toNat + j.regs.sequencer.outValid.toNat < depth aw) :
    (j.regs.ring.nextWrite (j.regs.ringInputs i)).toNat =
      j.regs.ring.writePtr.toNat + j.regs.sequencer.outValid.toNat := by
  have stores : j.regs.ring.stores (j.regs.ringInputs i) = j.regs.sequencer.outValid := by
    simp only [DmaRing.Regs.stores, Regs.ringInputs, free, Bool.not_false, Bool.and_true]
  rw [DmaRing.Regs.nextWrite, stores]
  cases valid : j.regs.sequencer.outValid with
  | false => rfl
  | true =>
    rw [valid, Bool.toNat_true, depth] at below
    rw [if_pos rfl, BitVec.toNat_add]
    show (_ + 1 % 2 ^ aw) % 2 ^ aw = _ + 1
    rw [Nat.mod_eq_of_lt (by omega : 1 < 2 ^ aw), Nat.mod_eq_of_lt below]

theorem cell_tick (roomy : Roomy j i) (valid : (j.tick i).regs.sequencer.outValid = true) :
    (j.tick i).regs.ring.isFull = false := by
  have issues : j.issues i = true := (sequencer_tick j i).1.symm.trans valid
  obtain ⟨order, below, room⟩ := roomy.2 issues
  have write := nextWrite_of_room (i := i) (issues_iff.mp issues).2 below
  obtain ⟨after, before⟩ := nextRead_between roomy.1 order
  refine Bool.eq_false_iff.mpr fun full => ?_
  have cases' := fullAt_iff.mp full
  simp only [Journal.tick, Regs.cycle, DmaRing.Regs.cycle] at cases'
  omega

theorem conveyed_tick (conveyed : Conveyed j) (roomy : Roomy j i) : Conveyed (j.tick i) := by
  have stored := stored_tick (i := i) conveyed
  obtain ⟨out, value⟩ := sequencer_tick j i
  cases issues : j.issues i with
  | false =>
    have same : (j.tick i).issued = j.issued := by
      simp only [Journal.tick, issues, Bool.false_eq_true, if_false]
    have counter : (j.tick i).regs.sequencer.seqCounter = j.regs.sequencer.seqCounter :=
      if_neg (Bool.eq_false_iff.mp issues)
    refine ⟨?_, ?_, ?_, cell_tick roomy, drops_tick conveyed⟩
    · rw [counter, same, conveyed.numbers]
    · simp only [same]
      exact conveyed.issued
    · rw [stored, out, issues, same]
      exact List.append_nil _
  | true =>
    have grown : (j.tick i).issued =
        j.issued ++ [stamped j.regs.sequencer (j.regs.sequencerInputs i)] := by
      simp only [Journal.tick, issues, if_true]
    have counter : (j.tick i).regs.sequencer.seqCounter = j.regs.sequencer.seqCounter + 1 :=
      if_pos issues
    have next : j.regs.sequencer.seqCounter + 1 = BitVec.ofNat 64 (j.issued.length + 1) := by
      rw [conveyed.numbers, BitVec.ofNat_add]
      rfl
    refine ⟨?_, ?_, ?_, cell_tick roomy, drops_tick conveyed⟩
    · rw [counter, grown, List.length_append, List.length_singleton, next]
    · simp only [grown]
      exact numbered_concat conveyed.issued next
    · rw [stored, out, issues, value issues, grown, List.map_append]
      rfl

end Steps

/-- While the host only reads what was written and every order that gets a number meets a ring
with room for it and for the order before it, none is lost: what has a number is in the ring or
goes there at the next edge, the ring has dropped nothing, and the numbers in it are consecutive
from 1. -/
theorem roomy_runs_store_every_order (u : Regs n aw) (is : List (Inputs n))
    (roomy : Obeys (always Journal.tick) Roomy (Journal.start u) is) :
    let j := (Journal.start u).after is
    j.stored.map Prod.fst ++ held j.regs.sequencer.outValid (dmaEntry j.regs.sequencer.out) =
        j.issued.map dmaEntry ∧
      (j.regs.sequencer.outValid = true → j.regs.ring.wrReady = true) ∧
      j.regs.ring.dropCount = 0 ∧
      ∀ k, (given : k < j.stored.length) →
        entrySeqNo j.stored[k].1 = BitVec.ofNat 64 (k + 1) := by
  intro j
  have conveyed : Conveyed j :=
    foldl_keeps (fun _ _ conveyed roomy => conveyed_tick conveyed roomy) (conveyed_start u) roomy
  refine ⟨conveyed.conveyed, fun valid => ?_, conveyed.drops, fun k given => ?_⟩
  · rw [DmaRing.Regs.wrReady, conveyed.cell valid]
    rfl
  · have begins : j.stored.map Prod.fst <+: j.issued.map dmaEntry := ⟨_, conveyed.conveyed⟩
    have shorter := begins.length_le
    rw [List.length_map, List.length_map] at shorter
    have inside : k < (j.stored.map Prod.fst).length := by rwa [List.length_map]
    have entry := begins.getElem inside
    rw [List.getElem_map, List.getElem_map] at entry
    rw [entry, entrySeqNo_dmaEntry]
    exact conveyed.issued k (given.trans_le shorter)

/-- The host writes `read_ptr` while port 0 presents an order. -/
def readUpTo (k : BitVec 32) : Inputs 8 :=
  { portZero 8 true 1 with mmioWrEn := true, mmioWrAddr := 4, mmioWrData := k }

theorem roomy_runs_store_every_order_three :
    let j := (Journal.start (blankRegs 8 14)).after
      [portZero 8 true 1, portZero 8 true 1, portZero 8 false 1, readUpTo 1, portZero 8 false 1]
    (j.stored.map fun x => entrySeqNo x.1) = [1, 2] ∧ j.regs.ring.readPtr = 1 ∧
      j.regs.sequencer.outValid = true ∧
      j.stored.map Prod.fst ++ held j.regs.sequencer.outValid (dmaEntry j.regs.sequencer.out) =
        j.issued.map dmaEntry ∧
      (j.regs.sequencer.outValid = true → j.regs.ring.wrReady = true) ∧
      j.regs.ring.dropCount = 0 ∧
      ∀ k, (given : k < j.stored.length) → entrySeqNo j.stored[k].1 = BitVec.ofNat 64 (k + 1) :=
  ⟨by decide +kernel, by decide +kernel, by decide +kernel, roomy_runs_store_every_order _ _
    (obeys_of_test (fun _ _ => of_decide_eq_true) _ _ (by decide +kernel))⟩

section Flood

/-- An order every cycle and no host: `k` orders have a number, all but the last are stored. -/
structure Flooded (k : Nat) (j : Journal n aw) : Prop where
  parser : (j.regs.parser 0).outValid = true
  out : j.regs.sequencer.outValid = decide (0 < k)
  write : j.regs.ring.writePtr.toNat = k - 1
  read : j.regs.ring.readPtr.toNat = 0
  drops : j.regs.ring.dropCount = 0
  issued : j.issued.length = k
  stored : j.stored.length = k - 1

variable {k : Nat} {j : Journal n aw}

theorem parser_flood (j : Journal n aw) :
    ((j.tick (portZero n true 1)).regs.parser 0).outValid = true := by
  show ((j.regs.parser 0).cycle (j.regs.parserInputs (portZero n true 1) 0)).outValid = true
  have presents : (j.regs.parserInputs (portZero n true 1) 0).inValid = true := by
    simp [Regs.parserInputs, portZero]
  have known : OrderParser.msgValid (j.regs.parserInputs (portZero n true 1) 0).inData = true := by
    show OrderParser.msgValid (10 : BitVec 512) = true
    decide +kernel
  unfold OrderParser.Regs.cycle OrderParser.Regs.takes OrderParser.Regs.inReady
  rw [presents, known]
  cases (j.regs.parserInputs (portZero n true 1) 0).outReady with
  | true => rfl
  | false =>
    cases (j.regs.parser 0).outValid with
    | true => rfl
    | false => rfl

theorem flooded_tick (wide : 0 < aw) (flooded : Flooded k j) (room : k < depth aw) :
    Flooded (k + 1) (j.tick (portZero n true 1)) := by
  have two : 2 ≤ depth aw := Nat.le_self_pow (by omega) 2
  have notFull : j.regs.ring.isFull = false := by
    refine Bool.eq_false_iff.mpr fun full => ?_
    have cases' := fullAt_iff.mp full
    rw [flooded.write, flooded.read] at cases'
    omega
  have issues : j.issues (portZero n true 1) = true := issues_iff.mpr ⟨⟨0, flooded.parser⟩, notFull⟩
  have stores : j.regs.ring.stores (j.regs.ringInputs (portZero n true 1)) = decide (0 < k) := by
    simp only [DmaRing.Regs.stores, Regs.ringInputs, flooded.out, notFull, Bool.not_false,
      Bool.and_true]
  refine ⟨parser_flood j, ?_, ?_, flooded.read, ?_, ?_, ?_⟩
  · rw [(sequencer_tick j _).1, issues, decide_eq_true (Nat.succ_pos k)]
  · show (j.regs.ring.nextWrite _).toNat = k
    rw [DmaRing.Regs.nextWrite, stores]
    by_cases some : 0 < k
    · have small : k - 1 + 1 < 2 ^ aw := by
        unfold depth at room
        omega
      rw [if_pos (decide_eq_true some), BitVec.toNat_add, flooded.write]
      show (k - 1 + 1 % 2 ^ aw) % 2 ^ aw = k
      rw [Nat.mod_eq_of_lt (by omega : 1 < 2 ^ aw), Nat.mod_eq_of_lt small]
      omega
    · rw [if_neg (by simpa using some), flooded.write]
      omega
  · refine (if_neg fun drop => ?_).trans flooded.drops
    exact Bool.noConfusion (notFull.symm.trans (Bool.and_eq_true_iff.mp drop).2)
  · simp only [Journal.tick, issues, if_true, List.length_append, List.length_singleton,
      flooded.issued]
  · simp only [Journal.tick, stores]
    by_cases some : 0 < k
    · rw [if_pos (decide_eq_true some), List.length_append, flooded.stored, List.length_singleton]
      omega
    · rw [if_neg (by simpa using some), flooded.stored]
      omega

theorem after_replicate_succ (j : Journal n aw) (k : Nat) (i : Inputs n) :
    j.after (List.replicate (k + 1) i) = (j.after (List.replicate k i)).tick i := by
  rw [List.replicate_succ', Journal.after, List.foldl_append]
  rfl

theorem flooded_after (wide : 0 < aw) (u : Regs n aw) (few : k ≤ depth aw) :
    Flooded k ((Journal.start u).after (List.replicate (k + 1) (portZero n true 1))) := by
  induction k with
  | zero =>
    have silent : (Journal.start u).issues (portZero n true 1) = false := by
      refine Bool.eq_false_iff.mpr fun issues => ?_
      obtain ⟨⟨p, valid⟩, -⟩ := issues_iff.mp issues
      exact Bool.noConfusion valid
    refine ⟨parser_flood _, ?_, rfl, rfl, rfl, ?_, rfl⟩
    · exact (sequencer_tick (Journal.start u) _).1.trans silent
    · show (if (Journal.start u).issues _ then _ else _ : List _).length = 0
      rw [silent]
      rfl
  | succ k ih =>
    rw [after_replicate_succ]
    exact flooded_tick wide (ih (by omega)) (by omega)

theorem flooded_drops (wide : 0 < aw) (flooded : Flooded (depth aw) j) :
    let j' := j.tick (portZero n true 1)
    j'.regs.ring.dropCount = 1 ∧ j'.regs.sequencer.outValid = false ∧
      j'.issued.length = depth aw ∧ j'.stored.length = depth aw - 1 := by
  have two : 2 ≤ depth aw := Nat.le_self_pow (by omega) 2
  have full : j.regs.ring.isFull = true := by
    refine fullAt_iff.mpr (.inr ?_)
    rw [flooded.write, flooded.read, Nat.zero_add]
  have silent : j.issues (portZero n true 1) = false := by
    refine Bool.eq_false_iff.mpr fun issues => ?_
    exact Bool.noConfusion ((issues_iff.mp issues).2.symm.trans full)
  have valid : j.regs.sequencer.outValid = true := by
    rw [flooded.out]
    exact decide_eq_true (by omega)
  have refuses : j.regs.ring.stores (j.regs.ringInputs (portZero n true 1)) = false := by
    simp only [DmaRing.Regs.stores, full, Bool.not_true, Bool.and_false]
  refine ⟨?_, (sequencer_tick j _).1.trans silent, ?_, ?_⟩
  · have counts : ((j.regs.ringInputs (portZero n true 1)).wrValid && j.regs.ring.isFull) = true :=
      Bool.and_eq_true_iff.mpr ⟨valid, full⟩
    refine (if_pos counts).trans ?_
    rw [flooded.drops]
    rfl
  · simp only [Journal.tick, silent, Bool.false_eq_true, if_false, flooded.issued]
  · simp only [Journal.tick, refuses, Bool.false_eq_true, if_false, flooded.stored]

end Flood

/-- The module as it is, 8 ports and 16384 cells, with an order every cycle on port 0 and a host
that does nothing: the sequencer still sees room when it numbers order 16384, order 16383 then
takes the last cell, and order 16384 is dropped. -/
theorem numbered_order_is_dropped :
    let is := List.replicate 16386 (portZero 8 true 1)
    let j := (Journal.start (blankRegs 8 14)).after is
    (∀ i ∈ is, i.mmioWrEn = false) ∧ j.regs.ring.dropCount = 1 ∧
      j.regs.sequencer.outValid = false ∧ j.issued.length = 16384 ∧ j.stored.length = 16383 := by
  intro is j
  have wide : 0 < 14 := by decide
  have flooded := flooded_after wide (blankRegs 8 14) (Nat.le_refl (depth 14))
  have count : 16386 = depth 14 + 1 + 1 := by decide
  have last : j = ((Journal.start (blankRegs 8 14)).after
      (List.replicate (depth 14 + 1) (portZero 8 true 1))).tick (portZero 8 true 1) :=
    (congrArg (fun k => (Journal.start (blankRegs 8 14)).after
      (List.replicate k (portZero 8 true 1))) count).trans (after_replicate_succ _ _ _)
  refine ⟨fun i listed => ?_, ?_⟩
  · rw [List.eq_of_mem_replicate listed]
    rfl
  · rw [last]
    exact flooded_drops (by decide) flooded

end HftGrading.Fpga.Sequencer.StoredOrders
