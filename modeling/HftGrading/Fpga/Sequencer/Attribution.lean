/- module: HftGrading/Fpga/Sequencer/Attribution
   source: fpga/rtl/sequencer_top.sv
   digest: Whose id a ring entry carries: the one on the lines when the order is numbered. -/

import HftGrading.Fpga.Sequencer.TopRuns

set_option autoImplicit false
set_option relaxedAutoImplicit false

namespace HftGrading.Fpga.Sequencer.Attribution

open Lib.PartialExecution SequencerTop TopRuns

variable {n aw : Nat} [NeZero n]

/-- The entry carries the order and the contestant id of the beat. -/
structure Attributed (entry : BitVec 1024) (b : Beat n) : Prop where
  order : entryOrder entry = b.tdata
  contestantId : entryContestantId entry = b.tuserContestantId

instance (entry : BitVec 1024) (b : Beat n) : Decidable (Attributed entry b) :=
  decidable_of_iff (entryOrder entry = b.tdata ∧ entryContestantId entry = b.tuserContestantId)
    ⟨fun ⟨order, id⟩ => ⟨order, id⟩, fun attributed => ⟨attributed.order, attributed.contestantId⟩⟩

/-- When an order gets its number, its port still presents the contestant id it presented with
the beat. -/
def Steady (j : Journal n aw) (i : Inputs n) : Prop :=
  j.issues i = true → ∀ b ∈ j.inParser (j.turn i),
    i.tuserContestantId (j.turn i) = b.tuserContestantId

instance (j : Journal n aw) (i : Inputs n) : Decidable (Steady j i) :=
  inferInstanceAs (Decidable (_ → _))

structure Traced (j : Journal n aw) : Prop where
  parsers : ∀ p, (j.regs.parser p).outValid = true → ∃ b ∈ j.beats,
    j.inParser p = some b ∧ b.port = p ∧ (j.regs.parser p).outRaw = b.tdata
  sequencer : j.regs.sequencer.outValid = true → ∃ b ∈ j.beats,
    j.inSequencer = some b ∧ Attributed (dmaEntry j.regs.sequencer.out) b
  ring : ∀ x ∈ j.stored, ∃ b ∈ j.beats, x.2 = some b ∧ Attributed x.1 b

section Steps

variable {j : Journal n aw} {i : Inputs n}

theorem beats_mono {b : Beat n} (old : b ∈ j.beats) : b ∈ (j.tick i).beats :=
  List.mem_append_left _ old

theorem parsers_tick (traced : Traced j) (p : Fin n)
    (valid : ((j.tick i).regs.parser p).outValid = true) : ∃ b ∈ (j.tick i).beats,
      (j.tick i).inParser p = some b ∧ b.port = p ∧ ((j.tick i).regs.parser p).outRaw = b.tdata := by
  have next : (j.tick i).regs.parser p = (j.regs.parser p).cycle (j.regs.parserInputs i p) := rfl
  cases takes : j.takes i p with
  | true =>
    have passes : (j.regs.parser p).takes (j.regs.parserInputs i p) = true := takes
    cases known : OrderParser.msgValid (i.tdata p) with
    | true =>
      have known' : OrderParser.msgValid (j.regs.parserInputs i p).inData = true := known
      refine ⟨j.presented i p, List.mem_append_right _ ?_, ?_, rfl, ?_⟩
      · exact List.mem_map_of_mem (List.mem_filter.mpr ⟨List.mem_finRange p, takes⟩)
      · simp only [Journal.tick, takes, known, if_true]
      · rw [next, OrderParser.Regs.cycle, if_pos passes, if_pos known']
        rfl
    | false =>
      have known' : OrderParser.msgValid (j.regs.parserInputs i p).inData = false := known
      rw [next, OrderParser.Regs.cycle, if_pos passes, known'] at valid
      exact Bool.noConfusion valid
  | false =>
    have stays : ¬ (j.regs.parser p).takes (j.regs.parserInputs i p) = true :=
      Bool.eq_false_iff.mp takes
    cases ready : SequencerCore.portReady j.regs.sequencer (j.regs.sequencerInputs i) p with
    | true =>
      have asked : (j.regs.parserInputs i p).outReady = true := ready
      rw [next, OrderParser.Regs.cycle, if_neg stays, if_pos asked] at valid
      exact Bool.noConfusion valid
    | false =>
      have asked : ¬ (j.regs.parserInputs i p).outReady = true := Bool.eq_false_iff.mp ready
      have same : (j.tick i).regs.parser p =
          { j.regs.parser p with errInvalidMsg := false } := by
        rw [next, OrderParser.Regs.cycle, if_neg stays, if_neg asked]
      rw [same] at valid ⊢
      obtain ⟨b, accepted, held, port, raw⟩ := traced.parsers p valid
      refine ⟨b, beats_mono accepted, ?_, port, raw⟩
      simp only [Journal.tick, takes, ready, Bool.false_eq_true, if_false, held]

theorem sequencer_tick' (traced : Traced j) (steady : Steady j i)
    (valid : (j.tick i).regs.sequencer.outValid = true) : ∃ b ∈ (j.tick i).beats,
      (j.tick i).inSequencer = some b ∧ Attributed (dmaEntry (j.tick i).regs.sequencer.out) b := by
  have issues : j.issues i = true := (sequencer_tick j i).1.symm.trans valid
  obtain ⟨b, accepted, held, -, raw⟩ := traced.parsers _ (outValid_turn issues)
  refine ⟨b, beats_mono accepted, ?_, ?_⟩
  · simp only [Journal.tick, issues, if_true, held]
  · rw [(sequencer_tick j i).2 issues]
    refine ⟨(entryOrder_dmaEntry _).trans raw, (entryContestantId_dmaEntry _).trans ?_⟩
    exact steady issues b held

theorem ring_tick (traced : Traced j) (x : BitVec 1024 × Option (Beat n))
    (listed : x ∈ (j.tick i).stored) :
    ∃ b ∈ (j.tick i).beats, x.2 = some b ∧ Attributed x.1 b := by
  cases stores : j.regs.ring.stores (j.regs.ringInputs i) with
  | false =>
    simp only [Journal.tick, stores, Bool.false_eq_true, if_false] at listed
    obtain ⟨b, accepted, right⟩ := traced.ring x listed
    exact ⟨b, beats_mono accepted, right⟩
  | true =>
    simp only [Journal.tick, stores, if_true] at listed
    rcases List.mem_append.mp listed with old | new
    · obtain ⟨b, accepted, right⟩ := traced.ring x old
      exact ⟨b, beats_mono accepted, right⟩
    · have valid : j.regs.sequencer.outValid = true := (Bool.and_eq_true_iff.mp stores).1
      obtain ⟨b, accepted, right⟩ := traced.sequencer valid
      rw [List.mem_singleton.mp new]
      exact ⟨b, beats_mono accepted, right⟩

theorem traced_tick (traced : Traced j) (steady : Steady j i) : Traced (j.tick i) :=
  ⟨fun p => parsers_tick traced p, sequencer_tick' traced steady, ring_tick traced⟩

omit [NeZero n] in
theorem traced_start (u : Regs n aw) : Traced (Journal.start u) where
  parsers := fun _ valid => Bool.noConfusion valid
  sequencer := fun valid => Bool.noConfusion valid
  ring := fun _ none => absurd none List.not_mem_nil

end Steps

/-- As long as every order gets its number while its port still presents the contestant id of
its beat, each ring entry carries the order of an accepted beat and the id presented with it. -/
theorem steady_ids_attribute_orders (u : Regs n aw) (is : List (Inputs n))
    (steady : Obeys (always Journal.tick) Steady (Journal.start u) is) :
    ∀ x ∈ ((Journal.start u).after is).stored,
      ∃ b ∈ ((Journal.start u).after is).beats, x.2 = some b ∧ Attributed x.1 b := by
  have traced : Traced ((Journal.start u).after is) :=
    foldl_keeps (fun _ _ traced steady => traced_tick traced steady) (traced_start u) steady
  exact traced.ring

theorem steady_ids_attribute_orders_held_id :
    let j := (Journal.start (blankRegs 8 14)).after
      [portZero 8 true 1, portZero 8 false 1, portZero 8 false 2]
    (j.stored.map fun x => (entryContestantId x.1, x.2.map Beat.tuserContestantId)) =
        [(1, some 1)] ∧
      ∀ x ∈ j.stored, ∃ b ∈ j.beats, x.2 = some b ∧ Attributed x.1 b :=
  ⟨by decide +kernel, steady_ids_attribute_orders _ _
    (obeys_of_test (fun _ _ => of_decide_eq_true) _ _ (by decide +kernel))⟩

/-- Contestant 1 sends an order, and in the next cycle the lines show contestant 2: the parser has
kept the order and not the id, and the entry says contestant 2. -/
theorem next_id_takes_the_order :
    let j := (Journal.start (blankRegs 8 14)).after
      [portZero 8 true 1, portZero 8 false 2, portZero 8 false 2]
    j.beats = [⟨0, 0, 10, 1⟩] ∧
      (j.stored.map fun x => (entryOrder x.1, entryContestantId x.1)) = [(10, 2)] ∧
      ∀ x ∈ j.stored, ∀ b ∈ j.beats, ¬ Attributed x.1 b := by
  decide +kernel

end HftGrading.Fpga.Sequencer.Attribution
