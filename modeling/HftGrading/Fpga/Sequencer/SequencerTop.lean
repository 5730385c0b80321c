/- module: HftGrading/Fpga/Sequencer/SequencerTop
   source: fpga/rtl/sequencer_top.sv
   digest: Parsers, sequencer and ring wired together, and the layout of a ring entry. -/

import HftGrading.Fpga.Sequencer.DmaRing
import HftGrading.Fpga.Sequencer.OrderParser
import HftGrading.Fpga.Sequencer.SequencerCore

set_option autoImplicit false
set_option relaxedAutoImplicit false

namespace HftGrading.Fpga.Sequencer.SequencerTop

-- `NUM_PORTS`, and the address width of a ring of `RING_DEPTH` entries.
variable {n aw : Nat}

structure Inputs (n : Nat) where
  tvalid : Fin n → Bool
  tdata : Fin n → BitVec 512
  tuserContestantId : Fin n → BitVec 8
  mmioRdEn : Bool
  mmioRdAddr : BitVec 16
  mmioWrEn : Bool
  mmioWrAddr : BitVec 16
  mmioWrData : BitVec 32

structure Regs (n aw : Nat) where
  parser : Fin n → OrderParser.Regs 512
  sequencer : SequencerCore.Regs n 512
  ring : DmaRing.Regs aw 1024

def reset (u : Regs n aw) : Regs n aw :=
  ⟨fun _ => OrderParser.reset, SequencerCore.reset, DmaRing.reset u.ring⟩

section Entries

/-- `dma_entry`: from bit 0 on the number, the time stamp, the contestant and the message type,
from bit 192 on the order, and zeros between. -/
def dmaEntry (out : SequencerCore.Output 512) : BitVec 1024 :=
  0#320 ++ out.data ++ 0#48 ++ out.msgType ++ out.contestantId ++ out.timestamp ++ out.seqNo

def entrySeqNo (entry : BitVec 1024) : BitVec 64 := entry.extractLsb' 0 64
def entryContestantId (entry : BitVec 1024) : BitVec 8 := entry.extractLsb' 128 8
def entryOrder (entry : BitVec 1024) : BitVec 512 := entry.extractLsb' 192 512

variable (out : SequencerCore.Output 512)

@[simp]
theorem entrySeqNo_dmaEntry : entrySeqNo (dmaEntry out) = out.seqNo := by
  apply BitVec.eq_of_getLsbD_eq
  intro k inside
  simp only [entrySeqNo, dmaEntry, BitVec.getLsbD_extractLsb', BitVec.getLsbD_append, inside,
    decide_true, Bool.true_and, Nat.zero_add, if_true]

@[simp]
theorem entryContestantId_dmaEntry : entryContestantId (dmaEntry out) = out.contestantId := by
  apply BitVec.eq_of_getLsbD_eq
  intro k inside
  have h₁ : ¬ 128 + k < 64 := by omega
  have h₂ : ¬ 128 + k - 64 < 64 := by omega
  have h₃ : 128 + k - 64 - 64 = k := by omega
  simp only [entryContestantId, dmaEntry, BitVec.getLsbD_extractLsb', BitVec.getLsbD_append, inside,
    decide_true, Bool.true_and, h₁, h₂, h₃, if_true, if_false]

@[simp]
theorem entryOrder_dmaEntry : entryOrder (dmaEntry out) = out.data := by
  apply BitVec.eq_of_getLsbD_eq
  intro k inside
  have h₁ : ¬ 192 + k < 64 := by omega
  have h₂ : ¬ 192 + k - 64 < 64 := by omega
  have h₃ : ¬ 192 + k - 64 - 64 < 8 := by omega
  have h₄ : ¬ 192 + k - 64 - 64 - 8 < 8 := by omega
  have h₅ : ¬ 192 + k - 64 - 64 - 8 - 8 < 48 := by omega
  have h₆ : 192 + k - 64 - 64 - 8 - 8 - 48 = k := by omega
  simp only [entryOrder, dmaEntry, BitVec.getLsbD_extractLsb', BitVec.getLsbD_append, inside,
    decide_true, Bool.true_and, h₁, h₂, h₃, h₄, h₅, h₆, if_true, if_false]

end Entries

namespace Regs

variable [NeZero n] (r : Regs n aw) (i : Inputs n)

def sequencerInputs : SequencerCore.Inputs n 512 where
  port := fun p => ⟨(r.parser p).outValid, (r.parser p).outRaw, i.tuserContestantId p,
    (r.parser p).outMsgType⟩
  outReady := r.ring.wrReady

def parserInputs (p : Fin n) : OrderParser.Inputs 512 :=
  ⟨i.tvalid p, i.tdata p, SequencerCore.portReady r.sequencer (r.sequencerInputs i) p⟩

def ringInputs : DmaRing.Inputs 1024 :=
  ⟨r.sequencer.outValid, dmaEntry r.sequencer.out, i.mmioRdEn, i.mmioRdAddr, i.mmioWrEn,
    i.mmioWrAddr, i.mmioWrData⟩

def tready (p : Fin n) : Bool := (r.parser p).inReady (r.parserInputs i p)

def cycle : Regs n aw where
  parser := fun p => (r.parser p).cycle (r.parserInputs i p)
  sequencer := r.sequencer.cycle (r.sequencerInputs i)
  ring := r.ring.cycle (r.ringInputs i)

end Regs

end HftGrading.Fpga.Sequencer.SequencerTop
