/- module: HftGrading/Fpga/MatchEngine/AckTiming
   source: fpga/rtl/match_engine_fpga.sv
   digest: When messages are taken and when their acks are registered, counted in clock edges. -/

import HftGrading.Fpga.MatchEngine.ClockedRuns

set_option autoImplicit false
set_option relaxedAutoImplicit false

namespace HftGrading.Fpga.MatchEngine.AckTiming

open Lib.PartialExecution Lib.FlushedPipeline IicpcPkg EngineRegisters ClockedRuns

/-- The system under a stopwatch: the edges so far, the messages taken and the acks registered
with the edge of each, and for how many cycles `in_ready` has now been low. -/
structure Watch where
  system : System
  edges : Nat
  intake : List (Nat × Message)
  answers : List (Nat × Ack)
  stalled : Nat

/-- With its reader always ready an ack stays for one cycle: what the register holds after an
edge has been written at that edge. -/
def Watch.tick (w : Watch) (c : Cycle) : Watch where
  system := w.system.tick c
  edges := w.edges + 1
  intake := w.intake ++ (accepted w.system.regs (w.system.inputs c)).map (w.edges, ·)
  answers := w.answers ++
    (held (w.system.tick c).regs.ackValid (w.system.tick c).regs.ack).map (w.edges, ·)
  stalled := if inReady w.system.regs (w.system.inputs c) then 0 else w.stalled + 1

def watch (u : Regs) (ms : List Message) (cs : List Cycle) : Watch :=
  cs.foldl Watch.tick ⟨System.start u ms, 0, [], [], 0⟩

theorem watch_system (u : Regs) (ms : List Message) (cs : List Cycle) :
    (watch u ms cs).system = (System.start u ms).after cs := by
  unfold watch System.after
  exact (List.foldl_hom Watch.system fun _ _ => rfl).symm

structure Answers (taken : Nat × Message) (acked : Nat × Ack) : Prop where
  clientOrderId : acked.2.clientOrderId = taken.2.clientOrderId
  contestantId : acked.2.contestantId = taken.2.contestantId
  earliest : taken.1 + 1 ≤ acked.1
  latest : acked.1 ≤ taken.1 + 4

/-- For how many edges the message in stage 2 has been there, state by state. A sweep that finds
a fill comes back to `S2_CROSSING` once. -/
def AgeIs (age : Nat) (r : Regs) : Prop :=
  match r.s2State with
  | .idle => False
  | .execute => 1 ≤ age ∧ age ≤ 4
  | .crossing => r.s2SweepDepth = 0 ∧ age = 1 ∨ r.s2SweepDepth = 1 ∧ age = 3
  | .fillOut => age = 2

theorem AgeIs.le_four {age : Nat} {r : Regs} (is : AgeIs age r) : age ≤ 4 := by
  unfold AgeIs at is
  split at is
  · exact is.elim
  · exact is.2
  · omega
  · omega

structure Pending (n : Nat) (m : Message) (edges : Nat) (r : Regs) : Prop where
  clientOrderId : r.s2.clientOrderId = m.clientOrderId
  contestantId : r.s2.contestantId = m.contestantId
  age : ∃ age, edges = n + age ∧ AgeIs age r

section Edges

variable {r r' : Regs} {i : Inputs}

theorem ackValid_deassert (ready : i.ackReady = true) : (r.deassert i).ackValid = false := by
  simp only [Regs.deassert, ready, if_true]

theorem outputStall_ready (fills : i.fillReady = true) (acks : i.ackReady = true) :
    outputStall r i = false := by
  simp only [outputStall, fills, acks, Bool.not_true, Bool.and_false, Bool.or_self]

theorem inReady_ready (fills : i.fillReady = true) (acks : i.ackReady = true) :
    inReady r i = true ↔ r.s2State = .idle ∨ r.s2State = .execute := by
  simp only [inReady, s2CompletesThisCycle, outputStall_ready fills acks, Bool.not_false,
    Bool.true_and, Bool.and_true, Bool.or_eq_true, beq_iff_eq]

inductive Waits (r : Regs) (edges stalled : Nat) : List (Nat × Message) → Prop
  | idle (state : r.s2State = .idle) (flowing : stalled = 0) : Waits r edges stalled []
  | busy (n : Nat) (m : Message) (pending : Pending n m edges r)
      (since : stalled + n + 1 = edges) : Waits r edges stalled [(n, m)]

theorem Waits.of_idle {edges stalled : Nat} {pend : List (Nat × Message)}
    (waits : Waits r edges stalled pend) (state : r.s2State = .idle) : pend = [] := by
  cases waits with
  | idle _ _ => rfl
  | busy n m pending since =>
    obtain ⟨age, -, impossible⟩ := pending.age
    simp only [AgeIs, state] at impossible

theorem Waits.of_busy {edges stalled : Nat} {pend : List (Nat × Message)}
    (waits : Waits r edges stalled pend) (state : r.s2State ≠ .idle) :
    ∃ n m, pend = [(n, m)] ∧ Pending n m edges r ∧ stalled + n + 1 = edges := by
  cases waits with
  | idle idle _ => exact absurd idle state
  | busy n m pending since => exact ⟨n, m, rfl, pending, since⟩

theorem waits_latch {q : Regs} (edges : Nat) :
    Waits (q.latch i r) (edges + 1) 0 [(edges, i.message)] := by
  refine .busy edges i.message ⟨rfl, rfl, 1, rfl, ?_⟩ (by omega)
  unfold AgeIs Regs.latch
  dsimp only
  cases s1IsCrossing r i with
  | true => exact .inl ⟨rfl, rfl⟩
  | false => exact ⟨Nat.le_refl 1, by omega⟩

def Moves (r : Regs) (i : Inputs) (r' : Regs) (edges stalled : Nat) (pend : List (Nat × Message)) :
    Prop :=
  ∃ done pend', pend ++ (accepted r i).map (edges, ·) = done ++ pend' ∧
    List.Forall₂ Answers done ((held r'.ackValid r'.ack).map (edges, ·)) ∧
    Waits r' (edges + 1) (if inReady r i then 0 else stalled + 1) pend'

variable {edges stalled : Nat} {pend : List (Nat × Message)}

theorem moves_sweep (sweeping : r.s2State = .crossing ∨ r.s2State = .fillOut)
    (fills : i.fillReady = true) (acks : i.ackReady = true) (waits : Waits r edges stalled pend)
    (quiet : r'.ackValid = false) (ids : r'.s2.clientOrderId = r.s2.clientOrderId ∧
      r'.s2.contestantId = r.s2.contestantId)
    (older : ∀ age, AgeIs age r → AgeIs (age + 1) r') : Moves r i r' edges stalled pend := by
  have busy : r.s2State ≠ .idle := by
    rcases sweeping with state | state <;> rw [state] <;> exact S2State.noConfusion
  obtain ⟨n, m, only, pending, since⟩ := waits.of_busy busy
  subst only
  have low : ¬ inReady r i = true := by
    rw [inReady_ready fills acks]
    rcases sweeping with state | state <;> simp [state]
  refine ⟨[], [(n, m)], ?_, ?_, ?_⟩
  · simp only [accepted, accept_sweeping sweeping, Bool.false_eq_true, if_false, List.map_nil,
      List.append_nil, List.nil_append]
  · simp only [held, quiet, Bool.false_eq_true, if_false, List.map_nil]
    exact .nil
  · obtain ⟨age, now, is⟩ := pending.age
    rw [if_neg low]
    exact .busy n m ⟨ids.1.trans pending.clientOrderId, ids.2.trans pending.contestantId,
      age + 1, by omega, older age is⟩ (by omega)

theorem answers_pending {n : Nat} {m : Message} (pending : Pending n m edges r)
    (state : r.s2State = .execute) : Answers (n, m) (edges, executeAck r.s2 r.book) := by
  obtain ⟨age, now, is⟩ := pending.age
  simp only [AgeIs, state] at is
  exact ⟨pending.clientOrderId, pending.contestantId, by dsimp only; omega, by dsimp only; omega⟩

theorem moves_edge (edge : Edge r i r') (fills : i.fillReady = true) (acks : i.ackReady = true)
    (waits : Waits r edges stalled pend) : Moves r i r' edges stalled pend := by
  have silent' := ackValid_deassert (r := r) acks
  have flows := inReady_ready (r := r) fills acks
  cases edge with
  | rests state silent =>
    have nothing := waits.of_idle state
    subst nothing
    refine ⟨[], [], ?_, ?_, .idle state (if_pos (flows.mpr (.inl state)))⟩
    · simp only [accepted, silent, Bool.false_eq_true, if_false, List.map_nil, List.append_nil]
    · simp only [held, silent', Bool.false_eq_true, if_false, List.map_nil]
      exact .nil
  | starts state takes =>
    have nothing := waits.of_idle state
    subst nothing
    refine ⟨[], [(edges, i.message)], ?_, ?_, ?_⟩
    · simp only [accepted, takes, if_true, List.map_cons, List.map_nil]
    · have quiet : ((r.deassert i).latch i r).ackValid = false := silent'
      simp only [held, quiet, Bool.false_eq_true, if_false, List.map_nil]
      exact .nil
    · rw [if_pos (flows.mpr (.inl state))]
      exact waits_latch edges
  | completes state valid settled silent =>
    obtain ⟨n, m, only, pending, since⟩ :=
      waits.of_busy (by rw [state]; exact S2State.noConfusion)
    subst only
    have answer : Answers (n, m) (edges, executeAck r.s2 r.book) := answers_pending pending state
    refine ⟨[(n, m)], [], ?_, .cons answer .nil, .idle rfl (if_pos (flows.mpr (.inr state)))⟩
    simp only [accepted, silent, Bool.false_eq_true, if_false, List.map_nil, List.append_nil]
  | chains state valid settled takes =>
    obtain ⟨n, m, only, pending, since⟩ :=
      waits.of_busy (by rw [state]; exact S2State.noConfusion)
    subst only
    have answer : Answers (n, m) (edges, executeAck r.s2 r.book) := answers_pending pending state
    refine ⟨[(n, m)], [(edges, i.message)], ?_, .cons answer .nil, ?_⟩
    · simp only [accepted, takes, if_true, List.map_cons, List.map_nil]
    · rw [if_pos (flows.mpr (.inr state))]
      exact waits_latch edges
  | strikes state valid entry round hit =>
    refine moves_sweep (.inl state) fills acks waits silent' ⟨rfl, rfl⟩ fun age is => ?_
    -- Only the first round strikes.
    simp only [AgeIs, state, round.1] at is
    show age + 1 = 2
    rcases is with first | second
    · omega
    · exact absurd second.1 (by decide)
  | passes state valid entry miss =>
    refine moves_sweep (.inl state) fills acks waits silent' ⟨rfl, rfl⟩ fun age is => ?_
    simp only [AgeIs, state] at is
    show 1 ≤ age + 1 ∧ age + 1 ≤ 4
    omega
  | fills state valid entry round some flag found =>
    refine moves_sweep (.inr state) fills acks waits ?_ ?_ fun age is => ?_
    · unfold Regs.fillOut
      split_ifs <;> exact silent'
    · unfold Regs.fillOut
      split_ifs <;> exact ⟨rfl, rfl⟩
    · simp only [AgeIs, state] at is
      subst is
      have second : r.s2SweepDepth + 1 = 1 := by rw [round.1]; rfl
      unfold Regs.fillOut
      split_ifs
      · exact .inr ⟨second, rfl⟩
      · exact ⟨by omega, by omega⟩

end Edges

structure Timely (w : Watch) : Prop where
  sound : Sound w.system.regs
  parts : ∃ done pend, w.intake = done ++ pend ∧ List.Forall₂ Answers done w.answers ∧
    Waits w.system.regs w.edges w.stalled pend

theorem timely_tick {w : Watch} {c : Cycle} (timely : Timely w) (ready : c.Ready) :
    Timely (w.tick c) := by
  have edge := timely.sound.edge (w.system.inputs c)
  obtain ⟨done, pend, split, answered, waits⟩ := timely.parts
  obtain ⟨more, pend', split', answered', waits'⟩ :=
    moves_edge edge ((fillReady_inputs _ c).trans ready.1) ((ackReady_inputs _ c).trans ready.2)
      waits
  refine ⟨edge.sound, done ++ more, pend', ?_, ?_, waits'⟩
  · show w.intake ++ _ = _
    rw [split, List.append_assoc, split', List.append_assoc]
  · exact List.rel_append answered answered'

theorem timely_watch (u : Regs) (ms : List Message) {cs : List Cycle} (ready : ∀ c ∈ cs, c.Ready) :
    Timely (watch u ms cs) := by
  have start : Timely ⟨System.start u ms, 0, [], [], 0⟩ :=
    ⟨.idle rfl, [], [], rfl, .nil, .idle rfl rfl⟩
  exact foldl_keeps (fun _ _ timely ready => timely_tick timely ready) start
    (obeys_of_mem (fun c listed _ => ready c listed) _)

theorem watch_counts (u : Regs) (ms : List Message) (cs : List Cycle) :
    (watch u ms cs).edges = cs.length ∧
      (watch u ms cs).intake.map Prod.snd ++ (watch u ms cs).system.waiting = ms := by
  induction cs using List.reverseRecOn with
  | nil => exact ⟨rfl, rfl⟩
  | append_singleton cs c ih =>
    have last : watch u ms (cs ++ [c]) = (watch u ms cs).tick c := by
      simp only [watch, List.foldl_append, List.foldl_cons, List.foldl_nil]
    rw [last]
    refine ⟨?_, ?_⟩
    · rw [List.length_append, List.length_singleton, ← ih.1]
      rfl
    · have next := accepted_waiting (watch u ms cs).system c
      have whole := ih.2
      rw [next, ← List.append_assoc] at whole
      simp only [Watch.tick, List.map_append, List.map_map, Function.comp_def, List.map_id']
      exact whole

/-- With readers that are always ready, the acks answer the messages in the order they were
taken, each once and one to four edges later. At most one message is unanswered, for at most
four edges after its own, and the input is held up for at most three cycles. -/
theorem acks_are_prompt (u : Regs) (ms : List Message) (cs : List Cycle)
    (ready : ∀ c ∈ cs, c.Ready) :
    let w := watch u ms cs
    (w.system = (System.start u ms).after cs ∧ w.edges = cs.length ∧
        w.intake.map Prod.snd ++ w.system.waiting = ms) ∧
      (∃ done pend, w.intake = done ++ pend ∧ List.Forall₂ Answers done w.answers ∧
        pend.length ≤ 1 ∧ ∀ taken ∈ pend, w.edges ≤ taken.1 + 4) ∧
      w.stalled ≤ 3 := by
  intro w
  obtain ⟨-, done, pend, split, answered, waits⟩ := timely_watch u ms ready
  have counts := watch_counts u ms cs
  refine ⟨⟨watch_system u ms cs, counts⟩, ?_⟩
  cases waits with
  | idle state flowing =>
    refine ⟨⟨done, [], split, answered, Nat.zero_le 1, ?_⟩, ?_⟩
    · exact fun taken none => absurd none List.not_mem_nil
    · exact flowing.le.trans (Nat.zero_le 3)
  | busy n m pending since =>
    obtain ⟨age, now, is⟩ := pending.age
    have young := is.le_four
    refine ⟨⟨done, [(n, m)], split, answered, Nat.le_refl 1, ?_⟩, ?_⟩
    · intro taken listed
      rw [List.mem_singleton.mp listed]
      exact now.le.trans (Nat.add_le_add_left young n)
    · show (watch u ms cs).stalled ≤ 3
      omega

theorem acks_are_prompt_full_sweep :
    let ms := [limitOrder sideSell 1 100 5, limitOrder sideBuy 2 100 8, limitOrder sideSell 3 200 1]
    let w := watch zeroRegs ms (List.replicate 8 offering)
    (w.answers.map fun acked => (acked.1, acked.2.clientOrderId)) = [(1, 1), (5, 2), (6, 3)] ∧
      (w.system = (System.start zeroRegs ms).after (List.replicate 8 offering) ∧
        w.edges = (List.replicate 8 offering).length ∧
        w.intake.map Prod.snd ++ w.system.waiting = ms) ∧
      (∃ done pend, w.intake = done ++ pend ∧ List.Forall₂ Answers done w.answers ∧
        pend.length ≤ 1 ∧ ∀ taken ∈ pend, w.edges ≤ taken.1 + 4) ∧
      w.stalled ≤ 3 :=
  ⟨by decide +kernel, acks_are_prompt zeroRegs _ _ (by decide +kernel)⟩

end HftGrading.Fpga.MatchEngine.AckTiming
