/- module: HftGrading/Fpga/Sequencer/SequencerCore
   source: fpga/rtl/sequencer_core.sv
   digest: The arbiter and the sequencing registers, and what one clock edge does to them. -/

import Mathlib.Data.BitVec
import Mathlib.Data.Nat.Log

set_option autoImplicit false
set_option relaxedAutoImplicit false

namespace HftGrading.Fpga.Sequencer.SequencerCore

-- `NUM_PORTS` and `ORDER_WIDTH`.
variable {n ow : Nat}

structure Port (ow : Nat) where
  valid : Bool
  data : BitVec ow
  contestantId : BitVec 8
  msgType : BitVec 8
  deriving DecidableEq, Repr

structure Inputs (n ow : Nat) where
  port : Fin n → Port ow
  outReady : Bool

/-- The width of a port number, `$clog2(NUM_PORTS)`. -/
abbrev portWidth (n : Nat) : Nat := Nat.clog 2 n

structure Output (ow : Nat) where
  seqNo : BitVec 64
  timestamp : BitVec 64
  contestantId : BitVec 8
  msgType : BitVec 8
  data : BitVec ow
  deriving DecidableEq, Repr

structure Regs (n ow : Nat) where
  timestampCounter : BitVec 64
  seqCounter : BitVec 64
  rrPriority : BitVec (portWidth n)
  outValid : Bool
  out : Output ow
  statTotalSequenced : BitVec 64
  statTotalDrops : BitVec 32
  statPortActive : Fin n → Bool

def reset : Regs n ow := ⟨0, 0, 0, false, ⟨0, 0, 0, 0, 0⟩, 0, 0, fun _ => false⟩

/-- `grant_valid` and `granted_port`. -/
structure Grant (n : Nat) where
  valid : Bool
  port : BitVec (portWidth n)
  deriving DecidableEq, Repr

def visits (n : Nat) [NeZero n] (priority : BitVec (portWidth n)) : List (Fin n) :=
  (List.range n).map (fun i => Fin.ofNat n (priority.toNat + i)) ++ List.finRange n

def visit (valid : Fin n → Bool) (g : Grant n) (idx : Fin n) : Grant n :=
  if !g.valid && valid idx then ⟨true, BitVec.ofNat _ idx.val⟩ else g

def arbitrate [NeZero n] (priority : BitVec (portWidth n)) (valid : Fin n → Bool) : Grant n :=
  (visits n priority).foldl (visit valid) ⟨false, 0⟩

section Wires

variable [NeZero n] (r : Regs n ow) (i : Inputs n ow)

def grant : Grant n := arbitrate r.rrPriority fun p => (i.port p).valid

def portReady (p : Fin n) : Bool :=
  (grant r i).valid && (grant r i).port == BitVec.ofNat _ p.val && i.outReady

def accepts (p : Fin n) : Bool := (i.port p).valid && portReady r i p

def sequences : Bool := (grant r i).valid && i.outReady

def granted : Fin n := Fin.ofNat n (grant r i).port.toNat

def stamped : Output ow where
  seqNo := r.seqCounter + 1
  timestamp := r.timestampCounter
  contestantId := (i.port (granted r i)).contestantId
  msgType := (i.port (granted r i)).msgType
  data := (i.port (granted r i)).data

/-- `rr_priority` after a grant. The comparison is made in 32 bits, so that with a power of two
of ports it never holds and the addition wraps instead. -/
def nextPriority : BitVec (portWidth n) :=
  if (grant r i).port.setWidth 32 = (BitVec.ofNat (portWidth n) n).setWidth 32 - 1 then 0
  else (grant r i).port + 1

def Regs.cycle : Regs n ow where
  timestampCounter := r.timestampCounter + 1
  seqCounter := if sequences r i then r.seqCounter + 1 else r.seqCounter
  rrPriority := if sequences r i then nextPriority r i else r.rrPriority
  outValid := sequences r i
  out := if sequences r i then stamped r i else r.out
  statTotalSequenced := if sequences r i then r.statTotalSequenced + 1 else r.statTotalSequenced
  statTotalDrops :=
    if (grant r i).valid && !i.outReady then r.statTotalDrops + 1 else r.statTotalDrops
  statPortActive := fun p => (i.port p).valid

end Wires

section Arbiter

theorem port_bound (p : Fin n) : p.val < 2 ^ portWidth n :=
  lt_of_lt_of_le p.isLt (Nat.le_pow_clog Nat.one_lt_two n)

theorem toNat_port (p : Fin n) : (BitVec.ofNat (portWidth n) p.val).toNat = p.val := by
  rw [BitVec.toNat_ofNat, Nat.mod_eq_of_lt (port_bound p)]

theorem port_injective {p q : Fin n}
    (same : BitVec.ofNat (portWidth n) p.val = BitVec.ofNat (portWidth n) q.val) : p = q := by
  have equal := congrArg BitVec.toNat same
  rw [toNat_port, toNat_port] at equal
  exact Fin.ext equal

theorem foldl_visit (valid : Fin n → Bool) (ps : List (Fin n)) (g : Grant n) :
    ps.foldl (visit valid) g =
      if g.valid then g
      else match ps.find? valid with
        | some p => ⟨true, BitVec.ofNat _ p.val⟩
        | none => g := by
  induction ps generalizing g with
  | nil => simp
  | cons p ps ih =>
    rw [List.foldl_cons, ih]
    cases already : g.valid with
    | true => simp [visit, already]
    | false =>
      cases here : valid p with
      | true => simp [visit, already, here, List.find?_cons_of_pos]
      | false => simp [visit, already, here, List.find?_cons_of_neg]

variable [NeZero n]

theorem arbitrate_spec (priority : BitVec (portWidth n)) (valid : Fin n → Bool) :
    ((arbitrate priority valid).valid = false ∧ ∀ p, valid p = false) ∨
      ∃ p, valid p = true ∧ arbitrate priority valid = ⟨true, BitVec.ofNat _ p.val⟩ := by
  unfold arbitrate
  rw [foldl_visit]
  simp only [Bool.false_eq_true, if_false]
  cases found : (visits n priority).find? valid with
  | none =>
    refine .inl ⟨rfl, fun p => ?_⟩
    have visited : p ∈ visits n priority :=
      List.mem_append_right _ (List.mem_finRange p)
    exact Bool.eq_false_iff.mpr (List.find?_eq_none.mp found p visited)
  | some p => exact .inr ⟨p, List.find?_some found, rfl⟩

theorem accepts_iff (r : Regs n ow) (i : Inputs n ow) (p : Fin n) :
    accepts r i p = true ↔ sequences r i = true ∧ p = granted r i := by
  rcases arbitrate_spec r.rrPriority (fun p => (i.port p).valid) with ⟨none, silent⟩ | ⟨q, valid, at'⟩
  · have noGrant : (grant r i).valid = false := none
    simp only [accepts, silent p, sequences, noGrant, Bool.false_and, Bool.false_eq_true, false_and]
  · have here : grant r i = ⟨true, BitVec.ofNat _ q.val⟩ := at'
    have number : granted r i = q := by
      rw [granted, here]
      exact Fin.ext ((congrArg (· % n) (toNat_port q)).trans (Nat.mod_eq_of_lt q.isLt))
    simp only [accepts, portReady, sequences, here, number, Bool.true_and, Bool.and_eq_true,
      beq_iff_eq]
    constructor
    · rintro ⟨-, same, ready⟩
      exact ⟨ready, (port_injective same).symm⟩
    · rintro ⟨ready, rfl⟩
      exact ⟨valid, rfl, ready⟩

end Arbiter

theorem numbered_concat {outputs : List (Output ow)} {out : Output ow}
    (numbered : ∀ k, (shown : k < outputs.length) → outputs[k].seqNo = BitVec.ofNat 64 (k + 1))
    (next : out.seqNo = BitVec.ofNat 64 (outputs.length + 1)) (k : Nat)
    (shown : k < (outputs ++ [out]).length) :
    (outputs ++ [out])[k].seqNo = BitVec.ofNat 64 (k + 1) := by
  by_cases old : k < outputs.length
  · rw [List.getElem_append_left old]
    exact numbered k old
  · rw [List.length_append, List.length_singleton] at shown
    have last : k = outputs.length := by omega
    subst last
    rw [List.getElem_concat_length rfl]
    exact next

end HftGrading.Fpga.Sequencer.SequencerCore
