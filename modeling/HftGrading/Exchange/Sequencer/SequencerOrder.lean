/- module: HftGrading/Exchange/Sequencer/SequencerOrder
   source: exchange/include/exchange/sequencer.hpp
   digest: Order and progress of drain while no number runs a lap ahead of it. -/

import HftGrading.Exchange.Sequencer.SequencerIntegrity

set_option autoImplicit false
set_option relaxedAutoImplicit false

namespace HftGrading.Exchange.Sequencer.SequencerOrder

open Function (update)
open Lib.PartialExecution WireProtocol SequencerState SequencerIntegrity

variable {s s' : System}

def cleared (s : System) : Nat := s.sequencer.drainPos + (inHand s.consumer).length

theorem slotOf_inj {d m n : Nat} (low : d < m) (high : m ≤ d + seqRingSize) (low' : d < n)
    (high' : n ≤ d + seqRingSize) (same : slotOf m = slotOf n) : m = n := by
  unfold slotOf at same
  unfold seqRingSize at *
  omega

/-- A call tries for its slot only while its number is within a lap of the consumer. -/
def Paced (s : System) : Step → Prop
  | .claim caller => ∀ k, s.calls caller = some k →
      k.seq ≤ s.sequencer.drainPos + seqRingSize
  | _ => True

def Held (calls : Nat → Option Call) (n : Nat) : Prop :=
  ∃ c k, calls c = some k ∧ k.seq = n ∧ k.stage ≠ .committed

section Holding

variable {calls : Nat → Option Call} {caller n : Nat} {k k' : Call}

theorem Held.goes (held : Held calls n) (call : calls caller = some k) (same : k'.seq = k.seq)
    (stage' : k'.stage ≠ .committed) : Held (update calls caller (some k')) n := by
  obtain ⟨c, j, holds, seq, stage⟩ := held
  by_cases self : c = caller
  · subst self
    rw [call] at holds
    cases holds
    exact ⟨c, k', Function.update_self _ _ _, same.trans seq, stage'⟩
  · exact ⟨c, j, by rwa [Function.update_of_ne self], seq, stage⟩

theorem Held.other (held : Held calls n) (next : Option Call)
    (other : ∀ k, calls caller = some k → k.seq ≠ n ∨ k.stage = .committed) :
    Held (update calls caller next) n := by
  obtain ⟨c, j, holds, seq, stage⟩ := held
  have self : c ≠ caller := by
    rintro rfl
    rcases other j holds with apart | done
    · exact apart seq
    · exact stage done
  exact ⟨c, j, by rwa [Function.update_of_ne self], seq, stage⟩

end Holding

def Shown (s : System) (n : Nat) : Prop :=
  s.sequencer.committed (slotOf n) = .ready ∧ (s.sequencer.ring (slotOf n)).sequenceNo = n

structure Sequenced (s : System) : Prop where
  coherent : Coherent s
  busy : ∀ i, s.sequencer.committed i = .writing → ∃ c k, s.calls c = some k ∧ k.Writes ∧
    slotOf k.seq = i
  undropped : ∀ c k, s.calls c = some k → k.stage ≠ .dropped
  window : ∀ c k, s.calls c = some k → k.Writes → k.seq ≤ cleared s + seqRingSize
  shown : ∀ i, s.sequencer.committed i = .ready → slotOf (s.sequencer.ring i).sequenceNo = i ∧
    cleared s < (s.sequencer.ring i).sequenceNo ∧
    (s.sequencer.ring i).sequenceNo ≤ cleared s + seqRingSize
  pending : ∀ n, cleared s < n → n ≤ s.sequencer.seqCounter → Held s.calls n ∨ Shown s n
  inOrder : (taken s).map SequencedOrder.sequenceNo = List.range' 1 (cleared s)

theorem sequenced_init : Sequenced System.init := by
  refine ⟨coherent_init, fun i flag => ?_, fun c k call => ?_, fun c k call => ?_,
    fun i flag => ?_, fun n low high => ?_, rfl⟩
  · exact absurd flag nofun
  · exact absurd call nofun
  · exact absurd call nofun
  · exact absurd flag nofun
  · exact absurd (Nat.lt_of_lt_of_le low high) (Nat.not_lt_zero 0)

theorem Sequenced.ahead (sequenced : Sequenced s) {c : Nat} {k : Call} (call : s.calls c = some k)
    (stage : k.stage ≠ .committed) : cleared s < k.seq := by
  by_contra behind
  have positive := (sequenced.coherent.numbered.drawn c k call).1
  have member : k.seq ∈ (taken s).map SequencedOrder.sequenceNo := by
    rw [sequenced.inOrder, List.mem_range'_1]
    omega
  exact stage ((sequenced.coherent.decided.pending c k call).mp
    (sequenced.coherent.offered.taken_committed member))

theorem Sequenced.slot_free (sequenced : Sequenced s) {c : Nat} {request : Request} {seq : Nat}
    (call : s.calls c = some ⟨.fetched, request, seq⟩)
    (paced : seq ≤ s.sequencer.drainPos + seqRingSize) :
    s.sequencer.committed (slotOf seq) = .empty := by
  have low : cleared s < seq := sequenced.ahead call nofun
  have high : seq ≤ cleared s + seqRingSize := by
    unfold cleared
    omega
  cases flag : s.sequencer.committed (slotOf seq) with
  | empty => rfl
  | writing =>
    obtain ⟨c', k, call', writes, same⟩ := sequenced.busy _ flag
    have stage : k.stage ≠ .committed := by
      rcases writes with stage | stage <;> rw [stage] <;> nofun
    have equal : k.seq = seq := slotOf_inj (sequenced.ahead call' stage)
      (sequenced.window c' k call' writes) low high same
    obtain rfl := sequenced.coherent.numbered.distinct c' c k _ call' call equal
    rw [call] at call'
    cases call'
    rcases writes with stage | stage <;> cases stage
  | ready =>
    obtain ⟨slot, low', high'⟩ := sequenced.shown _ flag
    have equal := slotOf_inj low' high' low high slot
    obtain ⟨p, hp, -, carries, -⟩ := sequenced.coherent.offered.ready _ flag
    have member : seq ∈ s.history.commits.map Prod.fst :=
      List.mem_map.mpr ⟨p, hp, by rw [← carries.sequenceNo, equal]⟩
    cases (sequenced.coherent.decided.pending c _ call).mp member

section Steps

variable {caller seq : Nat} {request : Request}

theorem Sequenced.aside (sequenced : Sequenced s) (coherent : Coherent s')
    (ring : s'.sequencer.ring = s.sequencer.ring)
    (committed : s'.sequencer.committed = s.sequencer.committed) (same : cleared s' = cleared s)
    (taken' : taken s' = taken s)
    (writers : ∀ c k, k.Writes → (s'.calls c = some k ↔ s.calls c = some k))
    (undropped : ∀ c k, s'.calls c = some k → k.stage ≠ .dropped)
    (pending : ∀ n, cleared s < n → n ≤ s'.sequencer.seqCounter →
      Held s'.calls n ∨ Shown s n) : Sequenced s' := by
  refine ⟨coherent, fun i flag => ?_, undropped, fun c k call writes => ?_, fun i flag => ?_, ?_, ?_⟩
  · rw [committed] at flag
    obtain ⟨c, k, call, writes, slot⟩ := sequenced.busy i flag
    exact ⟨c, k, (writers c k writes).mpr call, writes, slot⟩
  · rw [same]
    exact sequenced.window c k ((writers c k writes).mp call) writes
  · rw [committed] at flag
    rw [ring, same]
    exact sequenced.shown i flag
  · intro n low high
    rw [same] at low
    rw [Shown, ring, committed]
    exact pending n low high
  · rw [taken', same]
    exact sequenced.inOrder

theorem writers_update {calls : Nat → Option Call} {next : Option Call}
    (before : ∀ k, calls caller = some k → ¬ k.Writes) (after : ∀ k, next = some k → ¬ k.Writes)
    (c : Nat) (k : Call) (writes : k.Writes) :
    update calls caller next c = some k ↔ calls c = some k := by
  by_cases self : c = caller
  · subst self
    rw [Function.update_self]
    exact iff_of_false (fun h => after k h writes) (fun h => before k h writes)
  · rw [Function.update_of_ne self]

theorem not_writes {stage : Stage} (claimed : stage ≠ .claimed) (written : stage ≠ .written) :
    ¬ (⟨stage, request, seq⟩ : Call).Writes := by
  rintro (here | here)
  · exact claimed here
  · exact written here

theorem flag_of_update {flags : Nat → Flag} {slot i : Nat} {set flag : Flag}
    (now : update flags slot set i = flag) (other : flag ≠ set) : i ≠ slot ∧ flags i = flag := by
  by_cases here : i = slot
  · subst here
    rw [Function.update_self] at now
    exact absurd now.symm other
  · rw [Function.update_of_ne here] at now
    exact ⟨here, now⟩

theorem Sequenced.undropped_update (sequenced : Sequenced s) {next : Call}
    (stage : next.stage ≠ .dropped) (c : Nat) (k : Call)
    (now : update s.calls caller (some next) c = some k) : k.stage ≠ .dropped := by
  rcases call_of_update now with ⟨-, rfl⟩ | ⟨-, old⟩
  · exact stage
  · exact sequenced.undropped c k old

theorem Sequenced.window_update (sequenced : Sequenced s) {next : Call}
    (within : next.Writes → next.seq ≤ cleared s + seqRingSize) (c : Nat) (k : Call)
    (now : update s.calls caller (some next) c = some k) (writes : k.Writes) :
    k.seq ≤ cleared s + seqRingSize := by
  rcases call_of_update now with ⟨-, rfl⟩ | ⟨-, old⟩
  · exact within writes
  · exact sequenced.window c k old writes

theorem Sequenced.claims (sequenced : Sequenced s)
    (call : s.calls caller = some ⟨.fetched, request, seq⟩)
    (free : s.sequencer.committed (slotOf seq) = .empty)
    (paced : seq ≤ s.sequencer.drainPos + seqRingSize)
    (coherent : Coherent { s with
      sequencer := { s.sequencer with
        committed := update s.sequencer.committed (slotOf seq) .writing }
      calls := update s.calls caller (some ⟨.claimed, request, seq⟩) }) :
    Sequenced { s with
      sequencer := { s.sequencer with
        committed := update s.sequencer.committed (slotOf seq) .writing }
      calls := update s.calls caller (some ⟨.claimed, request, seq⟩) } := by
  have window : seq ≤ cleared s + seqRingSize := by
    unfold cleared
    omega
  refine ⟨coherent, fun i flag => ?_, sequenced.undropped_update nofun,
    sequenced.window_update fun _ => window, fun i flag => ?_, fun n low high => ?_,
    sequenced.inOrder⟩
  · by_cases here : i = slotOf seq
    · exact ⟨caller, _, Function.update_self _ _ _, Or.inl rfl, here.symm⟩
    · simp only [Function.update_of_ne here] at flag
      obtain ⟨c, k, old, writes, slot⟩ := sequenced.busy i flag
      have other : c ≠ caller := by
        rintro rfl
        rw [call] at old
        cases old
        exact absurd writes (not_writes nofun nofun)
      exact ⟨c, k, by simp only [Function.update_of_ne other]; exact old, writes, slot⟩
  · exact sequenced.shown i (flag_of_update flag nofun).2
  · rcases sequenced.pending n low high with held | ⟨flag, number⟩
    · exact Or.inl (held.goes call rfl nofun)
    · have other : slotOf n ≠ slotOf seq := by
        intro same
        rw [same, free] at flag
        cases flag
      exact Or.inr ⟨by simp only [Function.update_of_ne other]; exact flag, number⟩

theorem Sequenced.writes (sequenced : Sequenced s)
    (call : s.calls caller = some ⟨.claimed, request, seq⟩) (record : SequencedOrder)
    (coherent : Coherent { s with
      sequencer := { s.sequencer with ring := update s.sequencer.ring (slotOf seq) record }
      calls := update s.calls caller (some ⟨.written, request, seq⟩) }) :
    Sequenced { s with
      sequencer := { s.sequencer with ring := update s.sequencer.ring (slotOf seq) record }
      calls := update s.calls caller (some ⟨.written, request, seq⟩) } := by
  have claimed := sequenced.coherent.guarded.writing caller _ call (Or.inl rfl)
  -- Ready slots are not the one that is written.
  have other : ∀ i, s.sequencer.committed i = .ready → i ≠ slotOf seq := by
    rintro i flag rfl
    rw [claimed] at flag
    cases flag
  have window : seq ≤ cleared s + seqRingSize := sequenced.window caller _ call (Or.inl rfl)
  refine ⟨coherent, fun i flag => ?_, sequenced.undropped_update nofun,
    sequenced.window_update fun _ => window, fun i flag => ?_, fun n low high => ?_,
    sequenced.inOrder⟩
  · obtain ⟨c, k, old, writes, slot⟩ := sequenced.busy i flag
    by_cases self : c = caller
    · subst self
      rw [call] at old
      cases old
      exact ⟨c, _, Function.update_self _ _ _, Or.inr rfl, slot⟩
    · exact ⟨c, k, by simp only [Function.update_of_ne self]; exact old, writes, slot⟩
  · simp only [Function.update_of_ne (other i flag)]
    exact sequenced.shown i flag
  · rcases sequenced.pending n low high with held | ⟨flag, number⟩
    · exact Or.inl (held.goes call rfl nofun)
    · exact Or.inr ⟨flag, by simp only [Function.update_of_ne (other _ flag)]; exact number⟩

theorem Sequenced.commits (sequenced : Sequenced s)
    (call : s.calls caller = some ⟨.written, request, seq⟩)
    (coherent : Coherent { s with
      sequencer := { s.sequencer with
        committed := update s.sequencer.committed (slotOf seq) .ready }
      calls := update s.calls caller (some ⟨.committed, request, seq⟩)
      history := { s.history with commits := s.history.commits ++ [(seq, request)] } }) :
    Sequenced { s with
      sequencer := { s.sequencer with
        committed := update s.sequencer.committed (slotOf seq) .ready }
      calls := update s.calls caller (some ⟨.committed, request, seq⟩)
      history := { s.history with commits := s.history.commits ++ [(seq, request)] } } := by
  have number : (s.sequencer.ring (slotOf seq)).sequenceNo = seq :=
    (sequenced.coherent.guarded.written caller _ call rfl).sequenceNo
  have low : cleared s < seq := sequenced.ahead call nofun
  have high : seq ≤ cleared s + seqRingSize := sequenced.window caller _ call (Or.inr rfl)
  refine ⟨coherent, fun i flag => ?_, sequenced.undropped_update nofun,
    sequenced.window_update fun writes => absurd writes (not_writes nofun nofun), fun i flag => ?_,
    fun n below above => ?_, sequenced.inOrder⟩
  · obtain ⟨other, before⟩ := flag_of_update flag nofun
    obtain ⟨c, k, old, writes, slot⟩ := sequenced.busy i before
    have self : c ≠ caller := by
      rintro rfl
      rw [call] at old
      cases old
      exact other slot.symm
    exact ⟨c, k, by simp only [Function.update_of_ne self]; exact old, writes, slot⟩
  · by_cases here : i = slotOf seq
    · subst here
      show slotOf (s.sequencer.ring (slotOf seq)).sequenceNo = slotOf seq ∧
        cleared s < (s.sequencer.ring (slotOf seq)).sequenceNo ∧
        (s.sequencer.ring (slotOf seq)).sequenceNo ≤ cleared s + seqRingSize
      rw [number]
      exact ⟨rfl, low, high⟩
    · simp only [Function.update_of_ne here] at flag
      exact sequenced.shown i flag
  · by_cases own : n = seq
    · subst own
      exact Or.inr ⟨Function.update_self _ _ _, number⟩
    · rcases sequenced.pending n below above with held | ⟨flag, number'⟩
      · refine Or.inl (held.other _ (fun k now => Or.inl ?_))
        rw [call] at now
        cases now
        exact fun same => own same.symm
      · refine Or.inr ⟨?_, number'⟩
        by_cases here : slotOf n = slotOf seq
        · simp [here]
        · simp only [Function.update_of_ne here]
          exact flag

theorem Sequenced.releases (sequenced : Sequenced s) {out : SequencedOrder}
    (copied : s.consumer = .copied out)
    (coherent : Coherent { s with
      sequencer := { s.sequencer with
        committed := update s.sequencer.committed s.drainSlot .empty }
      consumer := .released out }) :
    Sequenced { s with
      sequencer := { s.sequencer with
        committed := update s.sequencer.committed s.drainSlot .empty }
      consumer := .released out } := by
  obtain ⟨ready, copy⟩ := sequenced.coherent.offered.copied out copied
  have before : cleared s = s.sequencer.drainPos := by rw [cleared, copied]; rfl
  obtain ⟨slot, low, high⟩ := sequenced.shown _ ready
  have next : out.sequenceNo = s.sequencer.drainPos + 1 := by
    rw [copy]
    rw [before] at low high
    refine slotOf_inj low high (Nat.lt_succ_self _) ?_ slot
    unfold seqRingSize
    omega
  refine ⟨coherent, fun i flag => ?_, sequenced.undropped, fun c k call writes => ?_,
    fun i flag => ?_, fun n below above => ?_, ?_⟩
  · exact sequenced.busy i (flag_of_update flag nofun).2
  · have window := sequenced.window c k call writes
    rw [before] at window
    show k.seq ≤ s.sequencer.drainPos + 1 + seqRingSize
    omega
  · obtain ⟨other, old⟩ := flag_of_update flag nofun
    obtain ⟨slot', low', high'⟩ := sequenced.shown i old
    rw [before] at low' high'
    have apart : (s.sequencer.ring i).sequenceNo ≠ s.sequencer.drainPos + 1 := by
      intro same
      rw [same] at slot'
      exact other slot'.symm
    show slotOf (s.sequencer.ring i).sequenceNo = i ∧
      s.sequencer.drainPos + 1 < (s.sequencer.ring i).sequenceNo ∧
      (s.sequencer.ring i).sequenceNo ≤ s.sequencer.drainPos + 1 + seqRingSize
    exact ⟨slot', by omega, by omega⟩
  · have beyond : s.sequencer.drainPos + 1 < n := below
    rcases sequenced.pending n (by rw [before]; omega) above with held | ⟨flag, number⟩
    · exact Or.inl held
    · have other : slotOf n ≠ s.drainSlot := by
        intro same
        rw [same, ← copy] at number
        omega
      exact Or.inr ⟨by simp only [Function.update_of_ne other]; exact flag, number⟩
  · have old := sequenced.inOrder
    rw [taken, copied, before] at old
    show ((s.history.drained ++ [out]).map SequencedOrder.sequenceNo) =
      List.range' 1 (s.sequencer.drainPos + 1)
    have drained : s.history.drained ++ inHand (.copied out) = s.history.drained :=
      List.append_nil _
    rw [drained] at old
    rw [List.map_append, old, List.map_singleton, next, List.range'_1_concat, Nat.add_comm 1]

theorem Sequenced.moves {a : Step} (sequenced : Sequenced s) (paced : Paced s a)
    (moves : Moves s a s') : Sequenced s' := by
  have coherent := sequenced.coherent.moves moves
  cases moves with
  | enters request free =>
    refine sequenced.aside coherent rfl rfl rfl rfl ?_ (sequenced.undropped_update nofun)
      (fun n low high => ?_)
    · refine writers_update (fun k now => ?_) (fun k now => ?_)
      · rw [free] at now
        cases now
      · cases now
        exact not_writes nofun nofun
    · by_cases new : n = s.sequencer.seqCounter + 1
      · exact Or.inl ⟨_, _, Function.update_self _ _ _, new.symm, nofun⟩
      · have old : n ≤ s.sequencer.seqCounter := by
          have drawn : n ≤ s.sequencer.seqCounter + 1 := high
          omega
        refine (sequenced.pending n low old).imp_left (fun held => held.other _ (fun k now => ?_))
        rw [free] at now
        cases now
  | claims call free => exact sequenced.claims call free (paced _ call) coherent
  | drops call taken => exact absurd (sequenced.slot_free call (paced _ call)) taken
  | writes tsc call => exact sequenced.writes call _ coherent
  | commits call => exact sequenced.commits call coherent
  | @returns _ caller k call totalStamped drops value outcome =>
    have stage : k.stage = .committed := by
      rcases outcome with ⟨stage, -⟩ | ⟨stage, -⟩
      · exact stage
      · exact absurd stage (sequenced.undropped caller k call)
    refine sequenced.aside coherent rfl rfl rfl rfl ?_ (fun c j now => ?_) (fun n low high => ?_)
    · refine writers_update (fun j now => ?_) nofun
      rw [call] at now
      cases now
      rintro (here | here) <;> rw [stage] at here <;> cases here
    · exact sequenced.undropped c j (call_of_remove now).2
    · refine (sequenced.pending n low high).imp_left (fun held => held.other _ (fun j now => ?_))
      rw [call] at now
      cases now
      exact Or.inr stage
  | waits => exact sequenced
  | loads idle ready =>
    have same : inHand .loaded = inHand s.consumer := by rw [idle]; rfl
    exact sequenced.aside coherent rfl rfl (by rw [cleared, cleared, same])
      (by rw [taken, taken, same]) (fun _ _ _ => Iff.rfl) sequenced.undropped sequenced.pending
  | copies loaded =>
    have same : inHand (.copied (s.sequencer.ring s.drainSlot)) = inHand s.consumer := by
      rw [loaded]
      rfl
    exact sequenced.aside coherent rfl rfl (by rw [cleared, cleared, same])
      (by rw [taken, taken, same]) (fun _ _ _ => Iff.rfl) sequenced.undropped sequenced.pending
  | releases copied => exact sequenced.releases copied coherent
  | @advances _ out released =>
    have hand : inHand s.consumer = [out] := by rw [released]; rfl
    refine sequenced.aside coherent rfl rfl ?_ ?_ (fun _ _ _ => Iff.rfl) sequenced.undropped
      sequenced.pending
    · rw [cleared, cleared, hand]
      rfl
    · rw [taken, taken, hand]
      exact List.append_nil _

end Steps

/-- Order and progress: numbers leave in increasing order, and with no call in progress a
drain that returns false leaves nothing behind that was returned. -/
structure Orderly (s : System) : Prop where
  increasing : (s.history.drained.map SequencedOrder.sequenceNo).Pairwise (· < ·)
  progress : (∀ c, s.calls c = none) → s.consumer = .idle →
    s.sequencer.committed s.drainSlot ≠ .ready →
    ∀ q ∈ s.history.returns, q.2 ≠ 0 → q.2 ∈ s.history.drained.map SequencedOrder.sequenceNo

theorem Sequenced.orderly (sequenced : Sequenced s) : Orderly s := by
  constructor
  · have increasing : ((taken s).map SequencedOrder.sequenceNo).Pairwise (· < ·) := by
      rw [sequenced.inOrder]
      exact List.pairwise_lt_range'
    rw [taken, List.map_append] at increasing
    exact (List.pairwise_append.mp increasing).1
  · intro quiet idle unready q hq given
    have hand : inHand s.consumer = [] := by rw [idle]; rfl
    have position : cleared s = s.sequencer.drainPos := by rw [cleared, hand]; rfl
    have drained : s.history.drained.map SequencedOrder.sequenceNo =
        List.range' 1 s.sequencer.drainPos := by
      rw [← position, ← sequenced.inOrder, taken, hand, List.append_nil]
    -- The next number is neither held nor ready, so it has not been drawn.
    have last : s.sequencer.seqCounter ≤ s.sequencer.drainPos := by
      by_contra drawn
      rcases sequenced.pending (s.sequencer.drainPos + 1) (by rw [position]; exact Nat.lt_succ_self _)
        (by omega) with ⟨c, k, call, -⟩ | ⟨ready, -⟩
      · rw [quiet c] at call
        cases call
      · exact unready ready
    rcases sequenced.coherent.decided.value q hq with ⟨value, member⟩ | ⟨zero, -⟩
    · obtain ⟨p, hp, same⟩ := List.mem_map.mp member
      obtain ⟨positive, bound⟩ := sequenced.coherent.decided.known p hp
      rw [value, drained, List.mem_range'_1, ← same]
      omega
    · exact absurd zero given

/-- While no call tries for a slot a lap ahead of the consumer, drain is in order and progresses. -/
theorem paced_runs_orderly (schedule : List Step) (s : System)
    (paced : Obeys System.step Paced System.init schedule)
    (reached : run System.step System.init schedule = some s) : Orderly s :=
  (run_keeps (fun _ _ _ sequenced paced move => sequenced.moves paced (step_moves move))
    sequenced_init paced reached : Sequenced s).orderly

def pacedTest (s : System) : Step → Bool
  | .claim caller => (s.calls caller).all
      (fun k => decide (k.seq ≤ s.sequencer.drainPos + seqRingSize))
  | _ => true

theorem paced_of_test (s : System) (a : Step) (passed : pacedTest s a = true) : Paced s a := by
  cases a with
  | claim caller =>
    intro k call
    rw [pacedTest, call] at passed
    exact of_decide_eq_true passed
  | _ => trivial

theorem paced_runs_orderly_overtaken :
    ∃ s, run System.step System.init
        [.stampOrder 0 7 ⟨.buy, .limit, 1, 100, 5⟩, .stampCancel 1 8 ⟨3, 0⟩, .claim 1, .write 1 20,
          .commit 1, .finish 1, .load, .claim 0, .write 0 21, .commit 0, .finish 0, .load, .copy,
          .release, .advance, .load, .copy, .release, .advance] = some s ∧
      s.history.drained.map SequencedOrder.sequenceNo = [1, 2] ∧ Orderly s := by
  have drained : (run System.step System.init
      [.stampOrder 0 7 ⟨.buy, .limit, 1, 100, 5⟩, .stampCancel 1 8 ⟨3, 0⟩, .claim 1, .write 1 20,
        .commit 1, .finish 1, .load, .claim 0, .write 0 21, .commit 0, .finish 0, .load, .copy,
        .release, .advance, .load, .copy, .release, .advance]).map
      (fun s => s.history.drained.map SequencedOrder.sequenceNo) = some [1, 2] := by
    decide +kernel
  obtain ⟨s, reached, numbers⟩ := Option.map_eq_some_iff.mp drained
  exact ⟨s, reached, numbers, paced_runs_orderly _ s
    (obeys_of_test paced_of_test _ _ (by decide +kernel)) reached⟩

section Undisturbed

variable {caller contestantId : Nat} {order : OrderEntry} {tsc : Nat}

/-- The steps of a call of `stamp_order` that finds its slot free. -/
def stampSteps (caller contestantId : Nat) (order : OrderEntry) (tsc : Nat) : List Step :=
  [.stampOrder caller contestantId order, .claim caller, .write caller tsc, .commit caller,
    .finish caller]

def dropSteps (caller contestantId : Nat) (order : OrderEntry) : List Step :=
  [.stampOrder caller contestantId order, .claim caller, .finish caller]

def drainSteps : List Step := [.load, .copy, .release, .advance]

variable (contestantId order tsc) in
theorem run_stampSteps (quiet : s.calls caller = none)
    (free : s.sequencer.committed (slotOf (s.sequencer.seqCounter + 1)) = .empty) :
    ∃ s', run System.step s (stampSteps caller contestantId order tsc) = some s' ∧
      s'.calls = s.calls ∧ s'.consumer = s.consumer ∧
      s'.sequencer.seqCounter = s.sequencer.seqCounter + 1 ∧
      s'.sequencer.drainPos = s.sequencer.drainPos ∧
      s'.sequencer.committed =
        update s.sequencer.committed (slotOf (s.sequencer.seqCounter + 1)) .ready ∧
      s'.history.drained = s.history.drained ∧
      s'.history.returns = s.history.returns ++
        [(s.sequencer.seqCounter + 1, s.sequencer.seqCounter + 1)] := by
  have back : update s.calls caller none = s.calls := Function.update_eq_self_iff.mpr quiet.symm
  simp [stampSteps, run, System.step, System.enter, System.claim, System.write, System.commit,
    System.finish, quiet, free, back]

variable (contestantId order) in
theorem run_dropSteps (quiet : s.calls caller = none)
    (taken : s.sequencer.committed (slotOf (s.sequencer.seqCounter + 1)) ≠ .empty) :
    ∃ s', run System.step s (dropSteps caller contestantId order) = some s' ∧
      s'.calls = s.calls ∧ s'.consumer = s.consumer ∧
      s'.sequencer.seqCounter = s.sequencer.seqCounter + 1 ∧
      s'.sequencer.drainPos = s.sequencer.drainPos ∧
      s'.sequencer.committed = s.sequencer.committed := by
  have back : update s.calls caller none = s.calls := Function.update_eq_self_iff.mpr quiet.symm
  simp [dropSteps, run, System.step, System.enter, System.claim, System.finish, quiet, taken, back]

theorem run_drainSteps (idle : s.consumer = .idle)
    (ready : s.sequencer.committed s.drainSlot = .ready) :
    ∃ s', run System.step s drainSteps = some s' ∧
      s'.calls = s.calls ∧ s'.consumer = .idle ∧
      s'.sequencer.seqCounter = s.sequencer.seqCounter ∧
      s'.sequencer.drainPos = s.sequencer.drainPos + 1 ∧
      s'.sequencer.committed = update s.sequencer.committed s.drainSlot .empty := by
  rw [System.drainSlot] at ready
  simp [drainSteps, run, System.step, System.load, System.copy, System.release, System.advance,
    idle, ready, System.drainSlot]

/-- Nothing is under way, and the numbers in `(d, h]` lie ready. -/
structure Calm (s : System) (counter d h : Nat) : Prop where
  calls : ∀ c, s.calls c = none
  idle : s.consumer = .idle
  counter : s.sequencer.seqCounter = counter
  position : s.sequencer.drainPos = d
  ready : ∀ m, d < m → m ≤ h → s.sequencer.committed (slotOf m) = .ready
  empty : ∀ i, (∀ m, d < m → m ≤ h → slotOf m ≠ i) → s.sequencer.committed i = .empty

theorem calm_init : Calm System.init 0 0 0 :=
  ⟨fun _ => rfl, rfl, rfl, rfl, fun _ _ _ => by omega, fun _ _ => rfl⟩

variable (caller contestantId order tsc) in
theorem run_fill (n : Nat) (few : n ≤ seqRingSize) :
    ∃ s, run System.step System.init
        (List.replicate n (stampSteps caller contestantId order tsc)).flatten = some s ∧
      Calm s n 0 n := by
  induction n with
  | zero => exact ⟨System.init, rfl, calm_init⟩
  | succ n ih =>
    obtain ⟨s, returns, calm⟩ := ih (Nat.le_of_succ_le few)
    have apart : ∀ m, 0 < m → m ≤ n → slotOf m ≠ slotOf (n + 1) := by
      intro m low high same
      have equal := slotOf_inj (d := 0) low (by omega) (Nat.succ_pos n) (by omega) same
      omega
    obtain ⟨s', more, calls, consumer, counter, position, committed, -, -⟩ :=
      run_stampSteps contestantId order tsc (calm.calls caller) (by rw [calm.counter]; exact calm.empty _ apart)
    rw [calm.counter] at counter committed
    refine ⟨s', ?_, fun c => by rw [calls]; exact calm.calls c, consumer.trans calm.idle, counter,
      position.trans calm.position, fun m low high => ?_, fun i away => ?_⟩
    · rw [List.replicate_succ', List.flatten_append, run_append, returns, Option.bind_some,
        List.flatten_singleton, more]
    · rw [committed]
      by_cases last : m = n + 1
      · rw [last, Function.update_self]
      · rw [Function.update_of_ne (apart m low (by omega))]
        exact calm.ready m low (by omega)
    · rw [committed, Function.update_of_ne (away (n + 1) (Nat.succ_pos n) (Nat.le_refl _)).symm]
      exact calm.empty i (fun m low high => away m low (by omega))

theorem run_empty {counter h : Nat} (calm : Calm s counter 0 h) (lap : h ≤ seqRingSize) (n : Nat)
    (few : n ≤ h) :
    ∃ s', run System.step s (List.replicate n drainSteps).flatten = some s' ∧
      Calm s' counter n h := by
  induction n with
  | zero => exact ⟨s, rfl, calm⟩
  | succ n ih =>
    obtain ⟨s₁, returns, calm₁⟩ := ih (Nat.le_of_succ_le few)
    have slot : s₁.drainSlot = slotOf (n + 1) := by rw [System.drainSlot, calm₁.position]
    obtain ⟨s', more, calls, idle, counter', position, committed⟩ := run_drainSteps calm₁.idle
      (by rw [slot]; exact calm₁.ready (n + 1) (Nat.lt_succ_self n) few)
    rw [slot] at committed
    rw [calm₁.position] at position
    refine ⟨s', ?_, fun c => by rw [calls]; exact calm₁.calls c, idle,
      counter'.trans calm₁.counter, position, fun m low high => ?_, fun i away => ?_⟩
    · rw [List.replicate_succ', List.flatten_append, run_append, returns, Option.bind_some,
        List.flatten_singleton, more]
    · have apart : slotOf m ≠ slotOf (n + 1) := by
        intro same
        have equal := slotOf_inj (d := n) (by omega) (by omega) (Nat.lt_succ_self n)
          (by unfold seqRingSize; omega) same
        omega
      rw [committed, Function.update_of_ne apart]
      exact calm₁.ready m (by omega) high
    · rw [committed]
      by_cases here : i = slotOf (n + 1)
      · rw [here, Function.update_self]
      · rw [Function.update_of_ne here]
        refine calm₁.empty i (fun m low high => ?_)
        by_cases first : m = n + 1
        · rw [first]
          exact fun same => here same.symm
        · exact away m (by omega) high

def anOrder : OrderEntry := ⟨.buy, .limit, 1, 100, 5⟩

def stallingSteps : List Step :=
  (List.replicate seqRingSize (stampSteps 0 0 anOrder 0)).flatten ++ (dropSteps 0 0 anOrder ++
    ((List.replicate seqRingSize drainSteps).flatten ++ stampSteps 0 0 anOrder 0))

/-- Number 65537 was dropped; drain waits at its slot, and 65538 stays behind. -/
theorem dropped_number_stalls_drain :
    ∃ s, run System.step System.init stallingSteps = some s ∧ (∀ c, s.calls c = none) ∧
      s.consumer = .idle ∧ s.sequencer.committed s.drainSlot ≠ .ready ∧
      (65538, 65538) ∈ s.history.returns ∧
      65538 ∉ s.history.drained.map SequencedOrder.sequenceNo := by
  obtain ⟨s₁, fill, calm₁⟩ := run_fill 0 0 anOrder 0 seqRingSize (Nat.le_refl _)
  have full : s₁.sequencer.committed (slotOf (s₁.sequencer.seqCounter + 1)) ≠ .empty := by
    have first : s₁.sequencer.committed (slotOf 1) = .ready :=
      calm₁.ready 1 Nat.one_pos (by decide)
    have same : slotOf (seqRingSize + 1) = slotOf 1 := by decide
    rw [calm₁.counter, same, first]
    decide
  obtain ⟨s₂, drop, calls, consumer, counter, position, committed⟩ :=
    run_dropSteps 0 anOrder (calm₁.calls 0) full
  have calm₂ : Calm s₂ (seqRingSize + 1) 0 seqRingSize :=
    ⟨fun c => by rw [calls]; exact calm₁.calls c, consumer.trans calm₁.idle,
      by rw [counter, calm₁.counter], position.trans calm₁.position,
      by rw [committed]; exact calm₁.ready, by rw [committed]; exact calm₁.empty⟩
  obtain ⟨s₃, drained, calm₃⟩ := run_empty calm₂ (Nat.le_refl _) seqRingSize (Nat.le_refl _)
  have clear : ∀ i, s₃.sequencer.committed i = .empty :=
    fun i => calm₃.empty i (fun m low high => absurd (Nat.lt_of_lt_of_le low high) (Nat.lt_irrefl _))
  obtain ⟨s, last, calls', consumer', counter', position', committed', taken', returned⟩ :=
    run_stampSteps 0 anOrder 0 (calm₃.calls 0) (clear _)
  have until₃ : run System.step System.init
      ((List.replicate seqRingSize (stampSteps 0 0 anOrder 0)).flatten ++ (dropSteps 0 0 anOrder ++
        (List.replicate seqRingSize drainSteps).flatten)) = some s₃ := by
    rw [run_append, fill, Option.bind_some, run_append, drop, Option.bind_some, drained]
  have coherent := coherent_run until₃
  refine ⟨s, ?_, fun c => by rw [calls']; exact calm₃.calls c, consumer'.trans calm₃.idle, ?_, ?_, ?_⟩
  · rw [stallingSteps, ← List.append_assoc (dropSteps 0 0 anOrder), ← List.append_assoc, run_append,
      until₃, Option.bind_some, last]
  · have apart : slotOf (seqRingSize + 1) ≠ slotOf (seqRingSize + 1 + 1) := by decide
    rw [System.drainSlot, position', calm₃.position, committed', calm₃.counter,
      Function.update_of_ne apart, clear]
    decide
  · rw [returned, calm₃.counter]
    exact List.mem_append_right _ (List.mem_singleton.mpr rfl)
  · -- All that had been drained was drawn before.
    rw [taken']
    intro member
    have number : 65538 ∈ (taken s₃).map SequencedOrder.sequenceNo := by
      rw [taken, List.map_append]
      exact List.mem_append_left _ member
    obtain ⟨p, hp, same⟩ := List.mem_map.mp (coherent.offered.taken_committed number)
    have bound := (coherent.decided.known p hp).2
    rw [calm₃.counter, same] at bound
    exact absurd bound (by decide)

end Undisturbed

end HftGrading.Exchange.Sequencer.SequencerOrder
