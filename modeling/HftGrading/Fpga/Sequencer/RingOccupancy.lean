/- module: HftGrading/Fpga/Sequencer/RingOccupancy
   source: fpga/rtl/dma_ring.sv
   digest: What the ring says of itself against what has been written to it and read from it. -/

import HftGrading.Lib.CountedRing
import HftGrading.Lib.PartialExecution
import HftGrading.Fpga.Sequencer.DmaRing

set_option autoImplicit false
set_option relaxedAutoImplicit false

namespace HftGrading.Fpga.Sequencer.RingOccupancy

open Lib.PartialExecution Lib.CountedRing DmaRing

variable {aw ew : Nat}

/-- The ring, all entries ever stored in it, and how many of them the host has consumed. -/
structure Traffic (aw ew : Nat) where
  regs : Regs aw ew
  written : List (BitVec ew)
  consumed : Nat

namespace Traffic

variable (t : Traffic aw ew) (i : Inputs ew)

/-- How many entries the host's write moves `read_ptr` over, modulo `DEPTH`. -/
def advance : Nat := (t.regs.nextRead i - t.regs.readPtr).toNat

def unread : Nat := t.written.length - t.consumed

def tick : Traffic aw ew where
  regs := t.regs.cycle i
  written := if t.regs.stores i then t.written ++ [i.wrData] else t.written
  consumed := t.consumed + t.advance i

/-- The host advances over entries that were written and not yet consumed. -/
def Polite : Prop := t.advance i ≤ t.unread

instance : Decidable (t.Polite i) := inferInstanceAs (Decidable (_ ≤ _))

end Traffic

def Traffic.start (u : Regs aw ew) : Traffic aw ew := ⟨reset u, [], 0⟩

def Traffic.after (t : Traffic aw ew) (is : List (Inputs ew)) : Traffic aw ew :=
  is.foldl Traffic.tick t

/-- The pointers are the counts modulo `DEPTH`, one cell stays free, and the cells of the unread
entries hold them. -/
structure Counted (t : Traffic aw ew) : Prop where
  write : t.regs.writePtr = BitVec.ofNat aw t.written.length
  read : t.regs.readPtr = BitVec.ofNat aw t.consumed
  order : t.consumed ≤ t.written.length
  room : t.unread < depth aw
  cells : window (BitVec.ofNat aw) t.regs.ringMem t.consumed t.written.length =
    t.written.drop t.consumed

section Invariant

variable {t : Traffic aw ew} {i : Inputs ew}

theorem counted_start (u : Regs aw ew) : Counted (Traffic.start u) where
  write := rfl
  read := rfl
  order := Nat.le_refl 0
  room := Nat.two_pow_pos aw
  cells := window_self

theorem Counted.distance (counted : Counted t) :
    t.regs.writePtr.toNat + (if t.regs.readPtr.toNat ≤ t.regs.writePtr.toNat then 0 else depth aw) =
      t.regs.readPtr.toNat + t.unread := by
  have order := counted.order
  have room := counted.room
  have positive : 0 < depth aw := Nat.two_pow_pos aw
  have write : t.regs.writePtr.toNat = t.written.length % depth aw := by
    rw [counted.write, BitVec.toNat_ofNat]
    rfl
  have read : t.regs.readPtr.toNat = t.consumed % depth aw := by
    rw [counted.read, BitVec.toNat_ofNat]
    rfl
  have split : t.written.length = t.consumed + t.unread := by
    unfold Traffic.unread
    omega
  rw [write, read, split, Nat.add_mod, Nat.mod_eq_of_lt room]
  have bound := Nat.mod_lt t.consumed positive
  by_cases wraps : t.consumed % depth aw + t.unread < depth aw
  · rw [Nat.mod_eq_of_lt wraps, if_pos (by omega)]
    rfl
  · rw [Nat.mod_eq_sub_mod (by omega), Nat.mod_eq_of_lt (by omega), if_neg (by omega)]
    omega

theorem Counted.two_free (counted : Counted t) (stores : t.regs.stores i = true) :
    t.unread + 1 < depth aw := by
  have distance := counted.distance
  have room := counted.room
  have notFull : ¬ fullAt t.regs.writePtr t.regs.readPtr = true := by
    simp only [Regs.stores, Regs.isFull, Bool.and_eq_true, Bool.not_eq_true'] at stores
    rw [stores.2]
    exact Bool.false_ne_true
  rw [fullAt_iff] at notFull
  rw [if_pos (by omega)] at distance
  omega

theorem nextRead_eq (t : Traffic aw ew) (i : Inputs ew) :
    t.regs.nextRead i = t.regs.readPtr + BitVec.ofNat aw (t.advance i) := by
  rw [Traffic.advance, BitVec.ofNat_toNat, BitVec.setWidth_eq, BitVec.add_comm,
    BitVec.sub_add_cancel]

theorem counted_tick (counted : Counted t) (polite : t.Polite i) : Counted (t.tick i) := by
  have order := counted.order
  have room := counted.room
  have read : (t.tick i).regs.readPtr = BitVec.ofNat aw (t.consumed + t.advance i) := by
    show t.regs.nextRead i = _
    rw [nextRead_eq, counted.read, BitVec.ofNat_add]
  unfold Traffic.Polite Traffic.unread at polite
  cases stores : t.regs.stores i with
  | false =>
    have same : (t.tick i).written = t.written := by
      simp only [Traffic.tick, stores, Bool.false_eq_true, if_false]
    have mem : (t.tick i).regs.ringMem = t.regs.ringMem := by
      simp only [Traffic.tick, Regs.cycle, stores, Bool.false_eq_true, if_false]
    constructor
    · rw [same, ← counted.write]
      simp only [Traffic.tick, Regs.cycle, Regs.nextWrite, stores, Bool.false_eq_true, if_false]
    · exact read
    · rw [same]
      show t.consumed + t.advance i ≤ t.written.length
      omega
    · unfold Traffic.unread at room ⊢
      rw [same]
      show t.written.length - (t.consumed + t.advance i) < depth aw
      omega
    · rw [same, mem]
      show window _ _ (t.consumed + t.advance i) _ = _
      rw [window_drop, counted.cells, List.drop_drop]
      rfl
  | true =>
    have free := counted.two_free stores
    have grown : (t.tick i).written = t.written ++ [i.wrData] := by
      simp only [Traffic.tick, stores, if_true]
    have mem : (t.tick i).regs.ringMem =
        Function.update t.regs.ringMem (BitVec.ofNat aw t.written.length) i.wrData := by
      simp only [Traffic.tick, Regs.cycle, stores, if_true, counted.write]
    have len : (t.tick i).written.length = t.written.length + 1 := by
      rw [grown, List.length_append, List.length_singleton]
    constructor
    · rw [len, BitVec.ofNat_add, ← counted.write]
      simp only [Traffic.tick, Regs.cycle, Regs.nextWrite, stores, if_true]
      rfl
    · exact read
    · rw [len]
      show t.consumed + t.advance i ≤ t.written.length + 1
      omega
    · unfold Traffic.unread at free ⊢
      rw [len]
      show t.written.length + 1 - (t.consumed + t.advance i) < depth aw
      omega
    · rw [len, mem, grown]
      show window _ _ (t.consumed + t.advance i) _ = List.drop (t.consumed + t.advance i) _
      rw [window_drop, window_push (apart_ofNat aw) order room, counted.cells, ← List.drop_drop,
        List.drop_append_of_le_length order]

theorem counted_after (u : Regs aw ew) {is : List (Inputs ew)}
    (polite : Obeys (always Traffic.tick) Traffic.Polite (Traffic.start u) is) :
    Counted ((Traffic.start u).after is) :=
  foldl_keeps (fun _ _ counted polite => counted_tick counted polite) (counted_start u) polite

end Invariant

/-- What the ring's outputs should tell: its occupancy is the number of unread entries, it is
empty and full accordingly, it drops an entry only when all cells but one are unread, and the
unread entries are intact. -/
structure Detects (t : Traffic aw ew) : Prop where
  occupancy : t.regs.occupancy.toNat = t.unread
  empty : t.regs.isEmpty = true ↔ t.unread = 0
  full : t.regs.isFull = true ↔ t.unread = depth aw - 1
  drops : ∀ i, (t.tick i).regs.dropCount ≠ t.regs.dropCount → t.unread = depth aw - 1
  intact : ∀ k, (unread : k < t.written.length) → t.consumed ≤ k →
    t.regs.ringMem (BitVec.ofNat aw k) = t.written[k]

section Detection

variable {t : Traffic aw ew}

theorem Counted.isEmpty_iff (counted : Counted t) : t.regs.isEmpty = true ↔ t.unread = 0 := by
  have distance := counted.distance
  have small : t.regs.readPtr.toNat < depth aw := t.regs.readPtr.isLt
  rw [Regs.isEmpty, beq_iff_eq, ← BitVec.toNat_inj]
  split_ifs at distance with order
  · omega
  · omega

theorem Counted.intact (counted : Counted t) (k : Nat) (unread : k < t.written.length)
    (behind : t.consumed ≤ k) : t.regs.ringMem (BitVec.ofNat aw k) = t.written[k] := by
  have inside : t.consumed + (k - t.consumed) < t.written.length := by omega
  have cell : (window (BitVec.ofNat aw) t.regs.ringMem t.consumed t.written.length)[k - t.consumed]? =
      some (t.regs.ringMem (BitVec.ofNat aw (t.consumed + (k - t.consumed)))) :=
    getElem?_window (k - t.consumed) inside
  rw [counted.cells, List.getElem?_drop, Nat.add_sub_cancel' behind,
    List.getElem?_eq_getElem unread] at cell
  exact (Option.some.inj cell).symm

theorem isFull_of_drop {i : Inputs ew} (drop : (t.tick i).regs.dropCount ≠ t.regs.dropCount) :
    t.regs.isFull = true := by
  by_contra notFull
  refine drop (if_neg fun counts => notFull ?_)
  exact (Bool.and_eq_true_iff.mp counts).2

theorem Counted.detects (counted : Counted t) (order : t.regs.readPtr ≤ t.regs.writePtr) :
    Detects t := by
  rw [BitVec.le_def] at order
  have distance := counted.distance
  rw [if_pos order] at distance
  have full : t.regs.isFull = true ↔ t.unread = depth aw - 1 := by
    rw [Regs.isFull, fullAt_iff]
    omega
  refine ⟨?_, counted.isEmpty_iff, full, fun i drop => full.mp (isFull_of_drop drop),
    counted.intact⟩
  rw [Regs.occupancy, toNat_difference, if_pos order]
  omega

theorem Counted.unwrapped (counted : Counted t) (occupancy : t.regs.occupancy.toNat = t.unread) :
    t.regs.readPtr ≤ t.regs.writePtr := by
  have room := counted.room
  have small := t.regs.readPtr.isLt
  have double : 2 ^ (aw + 1) = 2 * 2 ^ aw := by rw [Nat.pow_succ, Nat.mul_comm]
  rw [BitVec.le_def]
  by_contra wrapped
  rw [Regs.occupancy, toNat_difference, if_neg wrapped] at occupancy
  unfold depth at room
  omega

end Detection

/-- Whatever the depth, in every state of every run with a polite host the ring tells its
contents right exactly while `write_ptr` has not wrapped past `read_ptr`. -/
theorem detects_iff_unwrapped (u : Regs aw ew) (is : List (Inputs ew))
    (polite : Obeys (always Traffic.tick) Traffic.Polite (Traffic.start u) is) :
    Detects ((Traffic.start u).after is) ↔
      ((Traffic.start u).after is).regs.readPtr ≤ ((Traffic.start u).after is).regs.writePtr := by
  have counted := counted_after u polite
  exact ⟨fun detects => counted.unwrapped detects.occupancy, counted.detects⟩

def blankRegs (aw ew : Nat) : Regs aw ew := ⟨0, 0, 0, fun _ => 0, 0, false⟩

def entering (data : BitVec 8) : Inputs 8 := ⟨true, data, false, 0, false, 0, 0⟩

/-- A cycle in which the host moves `read_ptr`. -/
def moving (ptr : BitVec 32) : Inputs 8 := ⟨false, 0, false, 0, true, 0x0004, ptr⟩

theorem detects_iff_unwrapped_full :
    let t := (Traffic.start (blankRegs 2 8)).after [entering 1, entering 2, entering 3]
    t.regs.isFull = true ∧ (Detects t ↔ t.regs.readPtr ≤ t.regs.writePtr) :=
  ⟨by decide +kernel, detects_iff_unwrapped _ _
    (obeys_of_test (fun _ _ => of_decide_eq_true) _ _ (by decide +kernel))⟩

/-- Four cells, three entries, all read, and one more: `write_ptr` wraps to 0 with `read_ptr` at
3, the ring takes itself for full with one unread entry, and drops the next one. -/
theorem wrapped_ring_looks_full :
    let is := [entering 1, entering 2, entering 3, moving 3, entering 4]
    let t := (Traffic.start (blankRegs 2 8)).after is
    Obeys (always Traffic.tick) Traffic.Polite (Traffic.start (blankRegs 2 8)) is ∧
      t.unread = 1 ∧ t.regs.occupancy.toNat = 5 ∧ t.regs.isFull = true ∧
      (t.tick (entering 5)).regs.dropCount = 1 ∧ ¬ Detects t := by
  refine ⟨obeys_of_test (fun _ _ => of_decide_eq_true) _ _ (by decide +kernel), by decide +kernel,
    by decide +kernel, by decide +kernel, by decide +kernel, fun detects => ?_⟩
  exact absurd detects.occupancy (by decide +kernel)

end HftGrading.Fpga.Sequencer.RingOccupancy
