/- module: HftGrading/Fpga/MatchEngine/OutputStalls
   source: fpga/rtl/match_engine_fpga.sv
   digest: Readers that stall, and the outputs they lose. -/

import HftGrading.Fpga.MatchEngine.PipelineFlush

set_option autoImplicit false
set_option relaxedAutoImplicit false

namespace HftGrading.Fpga.MatchEngine.OutputStalls

open Lib.PartialExecution Lib.FlushedPipeline IicpcPkg EngineRegisters ClockedRuns PipelineFlush

/-- All messages have been taken, stage 2 is idle and both outputs are empty. -/
structure Drained (s : System) : Prop where
  waiting : s.waiting = []
  idle : s.regs.s2State = .idle
  fills : s.regs.fillValid = false
  acks : s.regs.ackValid = false

instance (s : System) : Decidable (Drained s) :=
  decidable_of_iff (s.waiting = [] ∧ s.regs.s2State = .idle ∧ s.regs.fillValid = false ∧
      s.regs.ackValid = false)
    ⟨fun ⟨waiting, idle, fills, acks⟩ => ⟨waiting, idle, fills, acks⟩,
      fun drained => ⟨drained.waiting, drained.idle, drained.fills, drained.acks⟩⟩

theorem Drained.fillStream {s : System} (drained : Drained s) :
    PipelineFlush.fillStream s = s.fills := by
  simp [PipelineFlush.fillStream, held, drained.fills]

theorem Drained.ackStream {s : System} (drained : Drained s) :
    PipelineFlush.ackStream s = s.acks := by
  simp [PipelineFlush.ackStream, held, drained.acks]

section Comparison

variable {q : Quiet} {ms : List Message} {s t : System}

theorem streams_begin (followed : Followed q ms s) (followed' : Followed q ms t)
    (drained : Drained t) :
    fillStream s <+: fillStream t ∧ ackStream s <+: ackStream t := by
  obtain ⟨done, out, split, tracks, fills, acks⟩ := followed.tracks
  obtain ⟨done', out', split', tracks', fills', acks'⟩ := followed'.tracks
  rw [drained.waiting, List.append_nil] at split'
  have earlier : done <+: done' := ⟨s.waiting, split.symm.trans split'⟩
  have nothing : (flush t.regs).out = [] := by rw [flush_idle drained.idle]
  have begins := tracks.written_begins tracks' nothing earlier
  unfold fillStream ackStream
  rw [fills, fills', acks, acks']
  exact ⟨begins.filterMap _, begins.filterMap _⟩

theorem transfers_begin (followed : Followed q ms s) (followed' : Followed q ms t)
    (drained : Drained t) : s.fills <+: t.fills ∧ s.acks <+: t.acks := by
  obtain ⟨fills, acks⟩ := streams_begin followed followed' drained
  rw [drained.fillStream] at fills
  rw [drained.ackStream] at acks
  exact ⟨(List.prefix_append _ _).trans fills, (List.prefix_append _ _).trans acks⟩

theorem transfers_equal (followed : Followed q ms s) (followed' : Followed q ms t)
    (drained : Drained s) (drained' : Drained t) : s.fills = t.fills ∧ s.acks = t.acks := by
  obtain ⟨fills, acks⟩ := transfers_begin followed followed' drained'
  obtain ⟨fills', acks'⟩ := transfers_begin followed' followed drained
  exact ⟨fills.eq_of_length_le fills'.length_le, acks.eq_of_length_le acks'.length_le⟩

end Comparison

/-- As long as no edge writes the ack register while it is full and not being read, and every
message forwards what it does to the BBO, stalls lose and reorder nothing. -/
theorem roomy_stalls_lose_nothing (u : Regs) (ms : List Message) (forwards : ∀ m ∈ ms, Forwards m)
    (cs ds : List Cycle) (roomy : Obeys (always System.tick) Roomy (System.start u ms) cs)
    (ready : ∀ d ∈ ds, d.Ready) (drained : Drained ((System.start u ms).after ds)) :
    (((System.start u ms).after cs).fills <+: ((System.start u ms).after ds).fills ∧
      ((System.start u ms).after cs).acks <+: ((System.start u ms).after ds).acks) ∧
    (Drained ((System.start u ms).after cs) →
      ((System.start u ms).after cs).fills = ((System.start u ms).after ds).fills ∧
        ((System.start u ms).after cs).acks = ((System.start u ms).after ds).acks) := by
  have stalling := followed_after u forwards roomy
  have flowing := followed_ready u forwards ready
  exact ⟨transfers_begin stalling flowing drained,
    fun settled => transfers_equal stalling flowing settled drained⟩

def ackStalled : Cycle := ⟨true, zeroMessage, true, false⟩

theorem roomy_stalls_lose_nothing_one_ack :
    let ms := [limitOrder sideSell 1 100 5, limitOrder sideBuy 2 100 5]
    let stalled := (System.start zeroRegs ms).after
      ([offering, pausing, ackStalled, ackStalled] ++ List.replicate 7 offering)
    let flowing := (System.start zeroRegs ms).after (List.replicate 8 offering)
    Drained stalled ∧ (stalled.fills <+: flowing.fills ∧ stalled.acks <+: flowing.acks) ∧
      (Drained stalled → stalled.fills = flowing.fills ∧ stalled.acks = flowing.acks) :=
  ⟨by decide +kernel, roomy_stalls_lose_nothing zeroRegs _ (by decide +kernel) _ _
    (obeys_of_test (fun _ _ => of_decide_eq_true) _ _ (by decide +kernel))
    (by decide +kernel) (by decide +kernel)⟩

/-- Two buys back to back while no one takes acks: the second is executed although the first
ack is still waiting, and its ack takes the place of the first. -/
theorem stalled_ack_is_overwritten :
    let ms := [limitOrder sideBuy 1 100 5, limitOrder sideBuy 2 100 5]
    let stalled := (System.start zeroRegs ms).after
      ([ackStalled, ackStalled, ackStalled] ++ List.replicate 3 offering)
    let flowing := (System.start zeroRegs ms).after (List.replicate 6 offering)
    (∀ m ∈ ms, IsLegal m) ∧ Drained stalled ∧ Drained flowing ∧
      stalled.acks = [⟨2, 1, ackAccepted⟩] ∧
      flowing.acks = [⟨1, 1, ackAccepted⟩, ⟨2, 1, ackAccepted⟩] ∧
      ¬ stalled.acks <+: flowing.acks := by
  decide +kernel

end HftGrading.Fpga.MatchEngine.OutputStalls
