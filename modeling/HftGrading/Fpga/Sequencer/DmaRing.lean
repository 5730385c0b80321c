/- module: HftGrading/Fpga/Sequencer/DmaRing
   source: fpga/rtl/dma_ring.sv
   digest: The registers, the wires and the clock edge of the ring the host reads. -/

import Mathlib.Data.BitVec

set_option autoImplicit false
set_option relaxedAutoImplicit false

namespace HftGrading.Fpga.Sequencer.DmaRing

open Function (update)

-- `ADDR_WIDTH` and `ENTRY_WIDTH`; `DEPTH` is a power of two.
variable {aw ew : Nat}

def depth (aw : Nat) : Nat := 2 ^ aw

structure Inputs (ew : Nat) where
  wrValid : Bool
  wrData : BitVec ew
  hostRdEn : Bool
  hostRdAddr : BitVec 16
  hostWrEn : Bool
  hostWrAddr : BitVec 16
  hostWrData : BitVec 32
  deriving DecidableEq, Repr

structure Regs (aw ew : Nat) where
  writePtr : BitVec aw
  readPtr : BitVec aw
  dropCount : BitVec 32
  ringMem : BitVec aw → BitVec ew
  hostRdData : BitVec 32
  hostRdValid : Bool

/-- The asynchronous reset; the ring memory keeps what it holds in `u`. -/
def reset (u : Regs aw ew) : Regs aw ew := ⟨0, 0, 0, u.ringMem, 0, false⟩

/-- `write_ptr - read_ptr` in the width of `occupancy`, one bit more than the pointers have. -/
def difference (w r : BitVec aw) : BitVec (aw + 1) := w.setWidth (aw + 1) - r.setWidth (aw + 1)

/-- `occupancy >= DEPTH - 1` for the given pointers. -/
def fullAt (w r : BitVec aw) : Bool := decide (depth aw - 1 ≤ (difference w r).toNat)

namespace Regs

variable (r : Regs aw ew) (i : Inputs ew)

def occupancy : BitVec (aw + 1) := difference r.writePtr r.readPtr

def isFull : Bool := fullAt r.writePtr r.readPtr

def isEmpty : Bool := r.writePtr == r.readPtr

def wrReady : Bool := !r.isFull

def hostMoves : Bool := i.hostWrEn && i.hostWrAddr == 0x0004

def hostView (addr : BitVec 16) : BitVec 32 :=
  if addr = 0x0000 then r.writePtr.setWidth 32
  else if addr = 0x0004 then r.readPtr.setWidth 32
  else if addr = 0x0008 then BitVec.ofNat 32 (depth aw)
  else if addr = 0x000C then r.dropCount
  else if addr = 0x0010 then 0#30 ++ BitVec.ofBool r.isFull ++ BitVec.ofBool r.isEmpty
  else 0

def stores : Bool := i.wrValid && !r.isFull

def nextWrite : BitVec aw := if r.stores i then r.writePtr + 1 else r.writePtr

def nextRead : BitVec aw := if hostMoves i then i.hostWrData.setWidth aw else r.readPtr

/-- One clock edge out of reset. Host reads select the register by `host_wr_addr`. -/
def cycle : Regs aw ew where
  writePtr := r.nextWrite i
  readPtr := r.nextRead i
  dropCount := if i.wrValid && r.isFull then r.dropCount + 1 else r.dropCount
  ringMem := if r.stores i then update r.ringMem r.writePtr i.wrData else r.ringMem
  hostRdData := if i.hostRdEn then r.hostView i.hostWrAddr else r.hostRdData
  hostRdValid := i.hostRdEn

end Regs

section Pointers

variable {w r : BitVec aw}

theorem toNat_difference :
    (difference w r).toNat =
      if r.toNat ≤ w.toNat then w.toNat - r.toNat else 2 ^ (aw + 1) + w.toNat - r.toNat := by
  have wBound := w.isLt
  have rBound := r.isLt
  have double : 2 ^ (aw + 1) = 2 * 2 ^ aw := by rw [Nat.pow_succ, Nat.mul_comm]
  simp only [difference, BitVec.toNat_sub, BitVec.toNat_setWidth]
  rw [Nat.mod_eq_of_lt (by omega : w.toNat < 2 ^ (aw + 1)),
    Nat.mod_eq_of_lt (by omega : r.toNat < 2 ^ (aw + 1))]
  split_ifs with order
  · rw [show 2 ^ (aw + 1) - r.toNat + w.toNat = w.toNat - r.toNat + 2 ^ (aw + 1) by omega,
      Nat.add_mod_right, Nat.mod_eq_of_lt (by omega)]
  · rw [Nat.mod_eq_of_lt (by omega)]
    omega

theorem fullAt_iff : fullAt w r = true ↔ w.toNat < r.toNat ∨ w.toNat = r.toNat + (depth aw - 1) := by
  have wBound := w.isLt
  have rBound := r.isLt
  have double : 2 ^ (aw + 1) = 2 * 2 ^ aw := by rw [Nat.pow_succ, Nat.mul_comm]
  simp only [fullAt, decide_eq_true_eq, toNat_difference, depth]
  split_ifs with order
  · omega
  · omega

end Pointers

end HftGrading.Fpga.Sequencer.DmaRing
