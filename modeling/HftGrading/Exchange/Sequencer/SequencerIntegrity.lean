/- module: HftGrading/Exchange/Sequencer/SequencerIntegrity
   source: exchange/include/exchange/sequencer.hpp
   digest: Slots belong to one writer or to the consumer, and every drained record is a committed one. -/

import HftGrading.Exchange.Sequencer.SequencerState
import Mathlib.Data.List.Nodup

set_option autoImplicit false
set_option relaxedAutoImplicit false

namespace HftGrading.Exchange.Sequencer.SequencerIntegrity

open Function (update)
open Lib.PartialExecution WireProtocol SequencerState

variable {s s' : System} {calls : Nat → Option Call} {caller : Nat}

section Calls

theorem call_of_update {c : Nat} {k k' : Call} (call : update calls caller (some k') c = some k) :
    c = caller ∧ k = k' ∨ c ≠ caller ∧ calls c = some k := by
  by_cases self : c = caller
  · subst self
    rw [Function.update_self] at call
    exact Or.inl ⟨rfl, (Option.some.inj call).symm⟩
  · rw [Function.update_of_ne self] at call
    exact Or.inr ⟨self, call⟩

theorem call_of_remove {c : Nat} {k : Call} (call : update calls caller none c = some k) :
    c ≠ caller ∧ calls c = some k := by
  by_cases self : c = caller
  · subst self
    rw [Function.update_self] at call
    cases call
  · rw [Function.update_of_ne self] at call
    exact ⟨self, call⟩

structure Numbered (calls : Nat → Option Call) (counter : Nat) : Prop where
  drawn : ∀ c k, calls c = some k → 0 < k.seq ∧ k.seq ≤ counter
  distinct : ∀ c c' k k', calls c = some k → calls c' = some k' → k.seq = k'.seq → c = c'

variable {counter : Nat}

theorem Numbered.enters (numbered : Numbered calls counter) (request : Request) :
    Numbered (update calls caller (some ⟨.fetched, request, counter + 1⟩)) (counter + 1) := by
  constructor
  · intro c k call
    rcases call_of_update call with ⟨-, rfl⟩ | ⟨-, old⟩
    · exact ⟨Nat.succ_pos counter, Nat.le_refl _⟩
    · obtain ⟨pos, le⟩ := numbered.drawn c k old
      exact ⟨pos, Nat.le_succ_of_le le⟩
  · intro c c' k k' call call' same
    rcases call_of_update call with ⟨rfl, rfl⟩ | ⟨-, old⟩
    · rcases call_of_update call' with ⟨rfl, -⟩ | ⟨-, old'⟩
      · rfl
      · have le := (numbered.drawn c' k' old').2
        have drawn : counter + 1 = k'.seq := same
        omega
    · rcases call_of_update call' with ⟨rfl, rfl⟩ | ⟨-, old'⟩
      · have le := (numbered.drawn c k old).2
        have drawn : k.seq = counter + 1 := same
        omega
      · exact numbered.distinct c c' k k' old old' same

theorem Numbered.goes (numbered : Numbered calls counter) {k k' : Call}
    (call : calls caller = some k) (same : k'.seq = k.seq) :
    Numbered (update calls caller (some k')) counter := by
  have old : ∀ c j, update calls caller (some k') c = some j → ∃ j', calls c = some j' ∧
      j'.seq = j.seq := by
    intro c j now
    rcases call_of_update now with ⟨rfl, rfl⟩ | ⟨-, before⟩
    · exact ⟨k, call, same.symm⟩
    · exact ⟨j, before, rfl⟩
  constructor
  · intro c j now
    obtain ⟨j', before, seq⟩ := old c j now
    rw [← seq]
    exact numbered.drawn c j' before
  · intro c c' j j' now now' equal
    obtain ⟨i, before, seq⟩ := old c j now
    obtain ⟨i', before', seq'⟩ := old c' j' now'
    exact numbered.distinct c c' i i' before before' (by rw [seq, seq', equal])

theorem Numbered.returns (numbered : Numbered calls counter) :
    Numbered (update calls caller none) counter := by
  constructor
  · intro c k call
    exact numbered.drawn c k (call_of_remove call).2
  · intro c c' k k' call call'
    exact numbered.distinct c c' k k' (call_of_remove call).2 (call_of_remove call').2

end Calls

section Slots

variable {ring : Nat → SequencedOrder} {committed : Nat → Flag}

structure Guarded (calls : Nat → Option Call) (ring : Nat → SequencedOrder)
    (committed : Nat → Flag) : Prop where
  writing : ∀ c k, calls c = some k → k.Writes → committed (slotOf k.seq) = .writing
  sole : ∀ c c' k k', calls c = some k → calls c' = some k' → k.Writes → k'.Writes →
    slotOf k.seq = slotOf k'.seq → c = c'
  written : ∀ c k, calls c = some k → k.stage = .written →
    Carries (ring (slotOf k.seq)) k.seq k.request

theorem Guarded.aside (guarded : Guarded calls ring committed) {k' : Call} (idle : ¬ k'.Writes) :
    Guarded (update calls caller (some k')) ring committed := by
  have old : ∀ c k, update calls caller (some k') c = some k → k.Writes → calls c = some k := by
    intro c k call writes
    rcases call_of_update call with ⟨-, rfl⟩ | ⟨-, before⟩
    · exact absurd writes idle
    · exact before
  refine ⟨fun c k call writes => ?_, fun c c' k k' call call' writes writes' => ?_,
    fun c k call stage => ?_⟩
  · exact guarded.writing c k (old c k call writes) writes
  · exact guarded.sole c c' k k' (old c k call writes) (old c' k' call' writes') writes writes'
  · exact guarded.written c k (old c k call (Or.inr stage)) stage

theorem Guarded.returns (guarded : Guarded calls ring committed) :
    Guarded (update calls caller none) ring committed := by
  refine ⟨fun c k call => ?_, fun c c' k k' call call' => ?_, fun c k call => ?_⟩
  · exact guarded.writing c k (call_of_remove call).2
  · exact guarded.sole c c' k k' (call_of_remove call).2 (call_of_remove call').2
  · exact guarded.written c k (call_of_remove call).2

theorem Guarded.flag (guarded : Guarded calls ring committed) {slot : Nat} (flag : Flag)
    (away : ∀ c k, calls c = some k → k.Writes → slotOf k.seq ≠ slot) :
    Guarded calls ring (update committed slot flag) := by
  refine ⟨fun c k call writes => ?_, guarded.sole, guarded.written⟩
  rw [Function.update_of_ne (away c k call writes)]
  exact guarded.writing c k call writes

theorem Guarded.claims (guarded : Guarded calls ring committed) {request : Request} {seq : Nat}
    (free : committed (slotOf seq) = .empty) :
    Guarded (update calls caller (some ⟨.claimed, request, seq⟩)) ring
      (update committed (slotOf seq) .writing) := by
  -- Nobody else writes a slot whose flag is empty.
  have away : ∀ c k, calls c = some k → k.Writes → slotOf k.seq ≠ slotOf seq := by
    intro c k call writes same
    have flag := guarded.writing c k call writes
    rw [same, free] at flag
    cases flag
  refine ⟨fun c k call writes => ?_, fun c c' k k' call call' writes writes' same => ?_,
    fun c k call stage => ?_⟩
  · rcases call_of_update call with ⟨-, rfl⟩ | ⟨-, old⟩
    · exact Function.update_self _ _ _
    · rw [Function.update_of_ne (away c k old writes)]
      exact guarded.writing c k old writes
  · rcases call_of_update call with ⟨rfl, rfl⟩ | ⟨-, old⟩
    · rcases call_of_update call' with ⟨rfl, -⟩ | ⟨-, old'⟩
      · rfl
      · exact absurd same.symm (away c' k' old' writes')
    · rcases call_of_update call' with ⟨rfl, rfl⟩ | ⟨-, old'⟩
      · exact absurd same (away c k old writes)
      · exact guarded.sole c c' k k' old old' writes writes' same
  · rcases call_of_update call with ⟨-, rfl⟩ | ⟨-, old⟩
    · cases stage
    · exact guarded.written c k old stage

theorem Guarded.writes (guarded : Guarded calls ring committed) {request : Request} {seq : Nat}
    (call : calls caller = some ⟨.claimed, request, seq⟩) (tsc : Nat) :
    Guarded (update calls caller (some ⟨.written, request, seq⟩))
      (update ring (slotOf seq) ⟨seq, tsc, request.contestantId, request.msgType, request.payload⟩)
      committed := by
  have old : ∀ c k, update calls caller (some ⟨.written, request, seq⟩) c = some k → k.Writes →
      ∃ k', calls c = some k' ∧ k'.Writes ∧ k'.seq = k.seq := by
    intro c k now writes
    rcases call_of_update now with ⟨rfl, rfl⟩ | ⟨-, before⟩
    · exact ⟨_, call, Or.inl rfl, rfl⟩
    · exact ⟨k, before, writes, rfl⟩
  refine ⟨fun c k now writes => ?_, fun c c' k k' now now' writes writes' same => ?_,
    fun c k now stage => ?_⟩
  · obtain ⟨k', before, writes', seq'⟩ := old c k now writes
    rw [← seq']
    exact guarded.writing c k' before writes'
  · obtain ⟨j, before, held, seq₁⟩ := old c k now writes
    obtain ⟨j', before', held', seq₂⟩ := old c' k' now' writes'
    exact guarded.sole c c' j j' before before' held held' (by rw [seq₁, seq₂, same])
  · rcases call_of_update now with ⟨rfl, rfl⟩ | ⟨other, before⟩
    · rw [Function.update_self]
      exact ⟨rfl, rfl, rfl, rfl⟩
    · have apart : slotOf k.seq ≠ slotOf seq := fun same =>
        other (guarded.sole c caller k _ before call (Or.inr stage) (Or.inl rfl) same)
      rw [Function.update_of_ne apart]
      exact guarded.written c k before stage

theorem Guarded.commits (guarded : Guarded calls ring committed) {request : Request} {seq : Nat}
    (call : calls caller = some ⟨.written, request, seq⟩) (flag : Flag) :
    Guarded (update calls caller (some ⟨.committed, request, seq⟩)) ring
      (update committed (slotOf seq) flag) := by
  have idle : ¬ (⟨.committed, request, seq⟩ : Call).Writes := by
    rintro (stage | stage) <;> cases stage
  refine (guarded.aside idle).flag flag (fun c k now writes same => ?_)
  rcases call_of_update now with ⟨-, rfl⟩ | ⟨other, before⟩
  · exact idle writes
  · exact other (guarded.sole c caller k _ before call writes (Or.inr rfl) same)

end Slots

section Fates

variable {stamps : List (Nat × Request)} {answers : List (Nat × Nat)} {counter : Nat}

structure Decided (calls : Nat → Option Call) (counter : Nat) (stamps : List (Nat × Request))
    (answers : List (Nat × Nat)) : Prop where
  pending : ∀ c k, calls c = some k →
    (k.seq ∈ stamps.map Prod.fst ↔ k.stage = .committed)
  known : ∀ p ∈ stamps, 0 < p.1 ∧ p.1 ≤ counter
  once : (stamps.map Prod.fst).Nodup
  answered : ∀ p ∈ answers, p.1 ≤ counter ∧ ∀ c k, calls c = some k → k.seq ≠ p.1
  value : ∀ p ∈ answers, p.2 = p.1 ∧ p.1 ∈ stamps.map Prod.fst ∨
    p.2 = 0 ∧ p.1 ∉ stamps.map Prod.fst

theorem Decided.enters (decided : Decided calls counter stamps answers) (request : Request) :
    Decided (update calls caller (some ⟨.fetched, request, counter + 1⟩)) (counter + 1) stamps
      answers := by
  refine ⟨fun c k call => ?_, fun p hp => ?_, decided.once, fun p hp => ?_, decided.value⟩
  · rcases call_of_update call with ⟨-, rfl⟩ | ⟨-, old⟩
    · refine iff_of_false (fun member => ?_) nofun
      obtain ⟨p, hp, same⟩ := List.mem_map.mp member
      have le := (decided.known p hp).2
      have drawn : p.1 = counter + 1 := same
      omega
    · exact decided.pending c k old
  · obtain ⟨pos, le⟩ := decided.known p hp
    exact ⟨pos, Nat.le_succ_of_le le⟩
  · obtain ⟨le, gone⟩ := decided.answered p hp
    refine ⟨Nat.le_succ_of_le le, fun c k call => ?_⟩
    rcases call_of_update call with ⟨-, rfl⟩ | ⟨-, old⟩
    · show counter + 1 ≠ p.1
      omega
    · exact gone c k old

theorem Decided.goes (decided : Decided calls counter stamps answers) {k k' : Call}
    (call : calls caller = some k) (same : k'.seq = k.seq) (open_ : k.stage ≠ .committed)
    (open' : k'.stage ≠ .committed) :
    Decided (update calls caller (some k')) counter stamps answers := by
  refine ⟨fun c j now => ?_, decided.known, decided.once, fun p hp => ?_, decided.value⟩
  · rcases call_of_update now with ⟨-, rfl⟩ | ⟨-, old⟩
    · rw [same]
      exact iff_of_false (fun member => open_ ((decided.pending caller k call).mp member)) open'
    · exact decided.pending c j old
  · obtain ⟨le, gone⟩ := decided.answered p hp
    refine ⟨le, fun c j now => ?_⟩
    rcases call_of_update now with ⟨-, rfl⟩ | ⟨-, old⟩
    · rw [same]
      exact gone caller k call
    · exact gone c j old

theorem Decided.commits (decided : Decided calls counter stamps answers)
    (numbered : Numbered calls counter) {request : Request} {seq : Nat}
    (call : calls caller = some ⟨.written, request, seq⟩) :
    Decided (update calls caller (some ⟨.committed, request, seq⟩)) counter
      (stamps ++ [(seq, request)]) answers := by
  have fresh : seq ∉ stamps.map Prod.fst := fun member => by
    cases (decided.pending caller _ call).mp member
  have grown : ∀ n, n ∈ (stamps ++ [(seq, request)]).map Prod.fst ↔
      n ∈ stamps.map Prod.fst ∨ n = seq := by
    intro n
    simp [or_comm]
  refine ⟨fun c k now => ?_, fun p hp => ?_, ?_, fun p hp => ?_, fun p hp => ?_⟩
  · rw [grown]
    rcases call_of_update now with ⟨-, rfl⟩ | ⟨other, old⟩
    · exact iff_of_true (Or.inr rfl) rfl
    · have apart : k.seq ≠ seq := fun same => other (numbered.distinct c caller k _ old call same)
      rw [or_iff_left apart]
      exact decided.pending c k old
  · rcases List.mem_append.mp hp with old | new
    · exact decided.known p old
    · rw [List.mem_singleton.mp new]
      exact numbered.drawn caller _ call
  · rw [List.map_append]
    exact List.Nodup.append decided.once (List.nodup_singleton seq) (by simpa using fresh)
  · obtain ⟨le, gone⟩ := decided.answered p hp
    refine ⟨le, fun c k now => ?_⟩
    rcases call_of_update now with ⟨-, rfl⟩ | ⟨-, old⟩
    · show seq ≠ p.1
      exact gone caller _ call
    · exact gone c k old
  · have apart : p.1 ≠ seq := fun same => (decided.answered p hp).2 caller _ call same.symm
    rw [grown, or_iff_left apart]
    exact decided.value p hp

theorem Decided.returns (decided : Decided calls counter stamps answers)
    (numbered : Numbered calls counter) {k : Call} {value : Nat} (call : calls caller = some k)
    (outcome : k.stage = .committed ∧ value = k.seq ∨ k.stage = .dropped ∧ value = 0) :
    Decided (update calls caller none) counter stamps (answers ++ [(k.seq, value)]) := by
  refine ⟨fun c j now => decided.pending c j (call_of_remove now).2, decided.known, decided.once,
    fun p hp => ?_, fun p hp => ?_⟩
  · rcases List.mem_append.mp hp with old | new
    · obtain ⟨le, gone⟩ := decided.answered p old
      exact ⟨le, fun c j now => gone c j (call_of_remove now).2⟩
    · rw [List.mem_singleton.mp new]
      refine ⟨(numbered.drawn caller k call).2, fun c j now same => ?_⟩
      obtain ⟨other, before⟩ := call_of_remove now
      exact other (numbered.distinct c caller j k before call same)
  · rcases List.mem_append.mp hp with old | new
    · exact decided.value p old
    · rw [List.mem_singleton.mp new]
      rcases outcome with ⟨stage, rfl⟩ | ⟨stage, rfl⟩
      · exact Or.inl ⟨rfl, (decided.pending caller k call).mpr stage⟩
      · refine Or.inr ⟨rfl, fun member => ?_⟩
        rw [(decided.pending caller k call).mp member] at stage
        cases stage

end Fates

def inHand : Consumer → List SequencedOrder
  | .released out => [out]
  | _ => []

def taken (s : System) : List SequencedOrder := s.history.drained ++ inHand s.consumer

structure Offered (s : System) : Prop where
  ready : ∀ i, s.sequencer.committed i = .ready → ∃ p ∈ s.history.commits,
    slotOf p.1 = i ∧ Carries (s.sequencer.ring i) p.1 p.2 ∧
      p.1 ∉ (taken s).map SequencedOrder.sequenceNo
  loaded : s.consumer = .loaded → s.sequencer.committed s.drainSlot = .ready
  copied : ∀ out, s.consumer = .copied out → s.sequencer.committed s.drainSlot = .ready ∧
    out = s.sequencer.ring s.drainSlot
  once : ((taken s).map SequencedOrder.sequenceNo).Nodup
  genuine : ∀ r ∈ taken s, ∃ p ∈ s.history.commits, Carries r p.1 p.2

theorem Offered.aside (offered : Offered s) (consumer : s'.consumer = s.consumer)
    (drainPos : s'.sequencer.drainPos = s.sequencer.drainPos)
    (drained : s'.history.drained = s.history.drained)
    (commits : ∀ p ∈ s.history.commits, p ∈ s'.history.commits)
    (old : ∀ i, s.sequencer.committed i = .ready →
      s'.sequencer.committed i = .ready ∧ s'.sequencer.ring i = s.sequencer.ring i)
    (new : ∀ i, s'.sequencer.committed i = .ready → s.sequencer.committed i = .ready ∨
      ∃ p ∈ s'.history.commits, slotOf p.1 = i ∧ Carries (s'.sequencer.ring i) p.1 p.2 ∧
        p.1 ∉ (taken s).map SequencedOrder.sequenceNo) :
    Offered s' := by
  have same : taken s' = taken s := by rw [taken, taken, consumer, drained]
  have slot : s'.drainSlot = s.drainSlot := by rw [System.drainSlot, System.drainSlot, drainPos]
  refine ⟨fun i flag => ?_, fun held => ?_, fun out held => ?_, ?_, fun r hr => ?_⟩
  · rw [same]
    rcases new i flag with before | fresh
    · obtain ⟨p, hp, at_slot, carries, untaken⟩ := offered.ready i before
      refine ⟨p, commits p hp, at_slot, ?_, untaken⟩
      rwa [(old i before).2]
    · exact fresh
  · rw [consumer] at held
    rw [slot]
    exact (old _ (offered.loaded held)).1
  · rw [consumer] at held
    obtain ⟨flag, copy⟩ := offered.copied out held
    rw [slot, (old _ flag).2]
    exact ⟨(old _ flag).1, copy⟩
  · rw [same]
    exact offered.once
  · rw [same] at hr
    obtain ⟨p, hp, carries⟩ := offered.genuine r hr
    exact ⟨p, commits p hp, carries⟩

theorem Offered.untouched (offered : Offered s) (consumer : s'.consumer = s.consumer)
    (drainPos : s'.sequencer.drainPos = s.sequencer.drainPos)
    (drained : s'.history.drained = s.history.drained)
    (commits : s'.history.commits = s.history.commits)
    (committed : s'.sequencer.committed = s.sequencer.committed)
    (ring : s'.sequencer.ring = s.sequencer.ring) : Offered s' := by
  refine offered.aside consumer drainPos drained (fun p hp => commits ▸ hp) (fun i flag => ?_)
    (fun i flag => ?_)
  · rw [committed, ring]
    exact ⟨flag, rfl⟩
  · rw [committed] at flag
    exact Or.inl flag

private theorem ready_elsewhere {flags : Nat → Flag} {i j : Nat} {flag : Flag}
    (unready : flags j ≠ .ready) (ready : flags i = .ready) : update flags j flag i = .ready := by
  have other : i ≠ j := by
    rintro rfl
    exact unready ready
  rwa [Function.update_of_ne other]

structure Coherent (s : System) : Prop where
  numbered : Numbered s.calls s.sequencer.seqCounter
  guarded : Guarded s.calls s.sequencer.ring s.sequencer.committed
  decided : Decided s.calls s.sequencer.seqCounter s.history.commits s.history.returns
  offered : Offered s

theorem coherent_init : Coherent System.init := by
  have none : ∀ c k, System.init.calls c ≠ some k := fun _ _ => nofun
  have unready : ∀ i, System.init.sequencer.committed i ≠ .ready := fun _ => nofun
  refine ⟨⟨fun c k call => ?_, fun c _ k _ call => ?_⟩, ⟨fun c k call => ?_, fun c _ k _ call => ?_,
    fun c k call => ?_⟩, ⟨fun c k call => ?_, nofun, List.nodup_nil, nofun, nofun⟩,
    ⟨fun i flag => ?_, nofun, nofun, List.nodup_nil, nofun⟩⟩
  all_goals first | exact absurd call (none c k) | exact absurd flag (unready i)

theorem Offered.taken_committed (offered : Offered s) {n : Nat}
    (member : n ∈ (taken s).map SequencedOrder.sequenceNo) :
    n ∈ s.history.commits.map Prod.fst := by
  obtain ⟨r, hr, rfl⟩ := List.mem_map.mp member
  obtain ⟨p, hp, carries⟩ := offered.genuine r hr
  exact List.mem_map.mpr ⟨p, hp, carries.sequenceNo.symm⟩

theorem Offered.releases (offered : Offered s) {out : SequencedOrder}
    (copied : s.consumer = .copied out) :
    Offered { s with
      sequencer := { s.sequencer with
        committed := update s.sequencer.committed s.drainSlot .empty }
      consumer := .released out } := by
  obtain ⟨flag, copy⟩ := offered.copied out copied
  obtain ⟨p, hp, at_slot, carries, untaken⟩ := offered.ready s.drainSlot flag
  have before : taken s = s.history.drained := by rw [taken, copied]; exact List.append_nil _
  have number : out.sequenceNo = p.1 := by rw [copy]; exact carries.sequenceNo
  rw [before] at untaken
  refine ⟨fun i now => ?_, nofun, nofun, ?_, fun r hr => ?_⟩
  · have other : i ≠ s.drainSlot := by
      rintro rfl
      simp at now
    simp only [Function.update_of_ne other] at now
    obtain ⟨q, hq, at_slot', carries', untaken'⟩ := offered.ready i now
    refine ⟨q, hq, at_slot', carries', ?_⟩
    rw [before] at untaken'
    rw [taken, List.map_append, List.mem_append, not_or]
    refine ⟨untaken', fun new => ?_⟩
    -- Two slots hold two numbers.
    have same : q.1 = out.sequenceNo := List.mem_singleton.mp new
    exact other (by rw [← at_slot', same, number, at_slot])
  · show ((s.history.drained ++ [out]).map SequencedOrder.sequenceNo).Nodup
    have once := offered.once
    rw [before] at once
    rw [List.map_append]
    refine List.Nodup.append once (List.nodup_singleton _) ?_
    rw [List.map_singleton, number]
    simpa using untaken
  · rcases List.mem_append.mp hr with old | new
    · exact offered.genuine r (by rw [before]; exact old)
    · rw [List.mem_singleton.mp new, copy]
      exact ⟨p, hp, carries⟩

theorem Offered.advances (offered : Offered s) {out : SequencedOrder}
    (released : s.consumer = .released out) :
    Offered { s with
      sequencer := { s.sequencer with
        drainPos := s.sequencer.drainPos + 1
        totalDrained := s.sequencer.totalDrained + 1 }
      consumer := .idle
      history := { s.history with drained := s.history.drained ++ [out] } } := by
  have same : taken s = s.history.drained ++ [out] ++ [] := by
    rw [taken, released, List.append_nil]
    rfl
  refine ⟨?_, nofun, nofun, ?_, ?_⟩
  · have ready := offered.ready
    rw [same] at ready
    exact ready
  · have once := offered.once
    rw [same] at once
    exact once
  · have genuine := offered.genuine
    rw [same] at genuine
    exact genuine

theorem Offered.reads (offered : Offered s) {consumer : Consumer}
    (empty : inHand s.consumer = []) (empty' : inHand consumer = [])
    (ready : s.sequencer.committed s.drainSlot = .ready)
    (copy : ∀ out, consumer = .copied out → out = s.sequencer.ring s.drainSlot) :
    Offered { s with consumer := consumer } := by
  have same : taken { s with consumer := consumer } = taken s := by
    rw [taken, taken, empty, empty']
  refine ⟨fun i flag => ?_, fun _ => ready, fun out held => ⟨ready, copy out held⟩, ?_, ?_⟩
  · rw [same]
    exact offered.ready i flag
  · rw [same]
    exact offered.once
  · rw [same]
    exact offered.genuine

theorem Offered.claims (offered : Offered s) {caller seq : Nat} {call : Call}
    (free : s.sequencer.committed (slotOf seq) = .empty) :
    Offered { s with
      sequencer := { s.sequencer with
        committed := update s.sequencer.committed (slotOf seq) .writing }
      calls := update s.calls caller (some call) } := by
  have unready : s.sequencer.committed (slotOf seq) ≠ .ready := by
    rw [free]
    nofun
  refine offered.aside rfl rfl rfl (fun _ hp => hp)
    (fun i flag => ⟨ready_elsewhere unready flag, rfl⟩) (fun i flag => Or.inl ?_)
  by_cases here : i = slotOf seq
  · subst here
    simp at flag
  · simp only [Function.update_of_ne here] at flag
    exact flag

theorem Coherent.offers (coherent : Coherent s) {caller seq : Nat} {request : Request}
    (call : s.calls caller = some ⟨.written, request, seq⟩) :
    Offered { s with
      sequencer := { s.sequencer with
        committed := update s.sequencer.committed (slotOf seq) .ready }
      calls := update s.calls caller (some ⟨.committed, request, seq⟩)
      history := { s.history with commits := s.history.commits ++ [(seq, request)] } } := by
  obtain ⟨-, guarded, decided, offered⟩ := coherent
  have unready : s.sequencer.committed (slotOf seq) ≠ .ready := by
    rw [guarded.writing _ _ call (Or.inr rfl)]
    nofun
  refine offered.aside rfl rfl rfl (fun p hp => List.mem_append_left _ hp)
    (fun i flag => ⟨ready_elsewhere unready flag, rfl⟩) (fun i flag => ?_)
  by_cases here : i = slotOf seq
  · subst here
    refine Or.inr ⟨(seq, request), by simp, rfl, guarded.written _ _ call rfl, ?_⟩
    intro gone
    cases (decided.pending _ _ call).mp (offered.taken_committed gone)
  · left
    simp only [Function.update_of_ne here] at flag
    exact flag

theorem Coherent.moves {a : Step} (coherent : Coherent s) (moves : Moves s a s') : Coherent s' := by
  have offers := @coherent.offers
  obtain ⟨numbered, guarded, decided, offered⟩ := coherent
  cases moves with
  | enters request free =>
    refine ⟨numbered.enters request, guarded.aside ?_, decided.enters request,
      offered.untouched rfl rfl rfl rfl rfl rfl⟩
    rintro (stage | stage) <;> cases stage
  | claims call free =>
    exact ⟨numbered.goes call rfl, guarded.claims free, decided.goes call rfl nofun nofun,
      offered.claims free⟩
  | drops call taken =>
    refine ⟨numbered.goes call rfl, guarded.aside ?_, decided.goes call rfl nofun nofun,
      offered.untouched rfl rfl rfl rfl rfl rfl⟩
    rintro (stage | stage) <;> cases stage
  | writes tsc call =>
    refine ⟨numbered.goes call rfl, guarded.writes call tsc, decided.goes call rfl nofun nofun,
      offered.aside rfl rfl rfl (fun _ hp => hp) (fun i flag => ⟨flag, ?_⟩)
        (fun _ flag => Or.inl flag)⟩
    apply Function.update_of_ne
    rintro rfl
    rw [guarded.writing _ _ call (Or.inl rfl)] at flag
    cases flag
  | commits call =>
    exact ⟨numbered.goes call rfl, guarded.commits call .ready, decided.commits numbered call,
      offers call⟩
  | returns call totalStamped drops value outcome =>
    exact ⟨numbered.returns, guarded.returns, decided.returns numbered call outcome,
      offered.untouched rfl rfl rfl rfl rfl rfl⟩
  | waits => exact ⟨numbered, guarded, decided, offered⟩
  | loads idle ready =>
    exact ⟨numbered, guarded, decided, offered.reads (by rw [idle]; rfl) rfl ready nofun⟩
  | copies loaded =>
    refine ⟨numbered, guarded, decided, offered.reads (by rw [loaded]; rfl) rfl
      (offered.loaded loaded) (fun out held => ?_)⟩
    cases held
    rfl
  | releases copied =>
    refine ⟨numbered, guarded.flag .empty (fun c k call writes same => ?_), decided,
      offered.releases copied⟩
    have busy := guarded.writing c k call writes
    rw [same, (offered.copied _ copied).1] at busy
    cases busy
  | advances released => exact ⟨numbered, guarded, decided, offered.advances released⟩

theorem coherent_run {schedule : List Step} (reached : run System.step System.init schedule = some s) :
    Coherent s :=
  run_keeps (fun _ _ _ coherent _ move => coherent.moves (step_moves move)) coherent_init
    (obeys_of_forall (fun _ _ => trivial) _ _) reached

/-- What the drained records and the calls of a system show. -/
structure Intact (s : System) : Prop where
  /-- A drained record is that of one committed call, which returns its number. -/
  genuine : ∀ r ∈ s.history.drained, ∃ p ∈ s.history.commits, Carries r p.1 p.2 ∧
    ∀ q ∈ s.history.returns, q.1 = p.1 → q.2 = p.1
  one : (s.history.commits.map Prod.fst).Nodup
  once : (s.history.drained.map SequencedOrder.sequenceNo).Nodup
  dropped : ∀ q ∈ s.history.returns, q.2 = 0 →
    q.1 ∉ s.history.drained.map SequencedOrder.sequenceNo
  /-- The slot a call writes is not committed, and nobody else writes it. -/
  exclusive : ∀ c k, s.calls c = some k → k.Writes →
    s.sequencer.committed (slotOf k.seq) = .writing ∧
      ∀ c' k', s.calls c' = some k' → k'.Writes → slotOf k'.seq = slotOf k.seq → c' = c

theorem Coherent.intact (coherent : Coherent s) : Intact s := by
  obtain ⟨-, guarded, decided, offered⟩ := coherent
  have positive : ∀ n ∈ s.history.commits.map Prod.fst, 0 < n := by
    intro n member
    obtain ⟨p, hp, rfl⟩ := List.mem_map.mp member
    exact (decided.known p hp).1
  refine ⟨fun r hr => ?_, decided.once, ?_, fun q hq zero gone => ?_, fun c k call writes => ?_⟩
  · obtain ⟨p, hp, carries⟩ := offered.genuine r (List.mem_append_left _ hr)
    refine ⟨p, hp, carries, fun q hq same => ?_⟩
    rcases decided.value q hq with ⟨value, -⟩ | ⟨-, absent⟩
    · rw [value, same]
    · rw [same] at absent
      exact absurd (List.mem_map_of_mem hp) absent
  · have once := offered.once
    rw [taken, List.map_append] at once
    exact once.of_append_left
  · have member : q.1 ∈ (taken s).map SequencedOrder.sequenceNo := by
      rw [taken, List.map_append]
      exact List.mem_append_left _ gone
    have committed := offered.taken_committed member
    rcases decided.value q hq with ⟨value, -⟩ | ⟨-, absent⟩
    · have pos := positive q.1 committed
      omega
    · exact absent committed
  · refine ⟨guarded.writing c k call writes, fun c' k' call' writes' same => ?_⟩
    exact guarded.sole c' c k' k call' call writes' writes same

/-- Whatever the interleaving, the sequencer loses no integrity. -/
theorem every_interleaving_intact (schedule : List Step) (s : System)
    (reached : run System.step System.init schedule = some s) : Intact s :=
  (coherent_run reached).intact

theorem every_interleaving_intact_two_callers :
    ∃ s, run System.step System.init
        [.stampOrder 0 7 ⟨.buy, .limit, 1, 100, 5⟩, .stampCancel 1 8 ⟨3, 0⟩, .claim 1, .claim 0,
          .write 1 20, .commit 1, .load, .write 0 21, .commit 0, .load, .copy, .finish 1, .release,
          .finish 0, .advance, .load, .copy, .release, .advance] = some s ∧
      s.history.drained = [⟨1, 21, 7, .orderEntry, .order ⟨.buy, .limit, 1, 100, 5⟩⟩,
        ⟨2, 20, 8, .cancelRequest, .cancel ⟨3, 0⟩⟩] ∧ Intact s := by
  have drained : (run System.step System.init
      [.stampOrder 0 7 ⟨.buy, .limit, 1, 100, 5⟩, .stampCancel 1 8 ⟨3, 0⟩, .claim 1, .claim 0,
        .write 1 20, .commit 1, .load, .write 0 21, .commit 0, .load, .copy, .finish 1, .release,
        .finish 0, .advance, .load, .copy, .release, .advance]).map (fun s => s.history.drained) =
      some [⟨1, 21, 7, .orderEntry, .order ⟨.buy, .limit, 1, 100, 5⟩⟩,
        ⟨2, 20, 8, .cancelRequest, .cancel ⟨3, 0⟩⟩] := by
    decide +kernel
  obtain ⟨s, reached, records⟩ := Option.map_eq_some_iff.mp drained
  exact ⟨s, reached, records, every_interleaving_intact _ s reached⟩

end HftGrading.Exchange.Sequencer.SequencerIntegrity
