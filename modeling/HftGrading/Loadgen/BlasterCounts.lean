/- module: HftGrading/Loadgen/BlasterCounts
   source: loadgen/include/loadgen/order_blaster.hpp
   digest: The counters of the blaster against the messages it pushed: they agree until a roll finds no slot or no order. -/

import HftGrading.Loadgen.BlasterBookkeeping

set_option autoImplicit false
set_option relaxedAutoImplicit false

namespace HftGrading.Loadgen.BlasterCounts

open Lib.PartialExecution
open HftGrading.Loadgen.BlastGenerator HftGrading.Loadgen.BlasterBookkeeping

section Search

variable {s : BlasterState}

theorem mem_walk (start : Nat) {i : Nat} (below : i < capacity) :
    i ∈ (List.range capacity).map fun k => (start % capacity + k) % capacity := by
  unfold capacity at below ⊢
  refine List.mem_map.mpr ⟨(i + 4096 - start % 4096) % 4096, List.mem_range.mpr (by omega), by omega⟩

theorem findActiveSlot_ne_none (counted : s.activeCount = activeSlots s) (some : 0 < s.activeCount)
    (raw : UInt64) : s.findActiveSlot raw ≠ none := by
  intro unseen
  rw [counted] at some
  obtain ⟨i, listed, active⟩ := List.countP_pos_iff.mp some
  unfold BlasterState.findActiveSlot at unseen
  rw [if_neg (by omega), List.find?_eq_none] at unseen
  exact unseen i (mem_walk raw.toNat (List.mem_range.mp listed)) active

end Search

section Rounds

variable {R D : Type} {next : R → UInt64 × R} {dbl : DoubleOps D} {cfg : OrderBlasterConfig D}
  {b b' : OrderBlaster R D}

def tally (test : OrderBlaster R D → Bool) (b : OrderBlaster R D) : Nat := if test b then 1 else 0

theorem round_accounts {x : Option BlastOrder} (counted : b.state.activeCount = activeSlots b.state)
    (rounded : Rounded b (b.rolled next dbl cfg) x b') :
    x.toList.length + tally (OrderBlaster.rollsFull next dbl cfg) b +
      tally (OrderBlaster.rollsIdle next dbl cfg) b = 1 := by
  have table := rounded.table
  unfold tally OrderBlaster.rollsFull OrderBlaster.rollsIdle
  generalize b.rolled next dbl cfg = kind at table ⊢
  generalize b'.state = s' at table
  cases table with
  | limit free => simp [free]
  | full taken => simp [taken]
  | market => simp
  | cancel active =>
    have busy : b.state.activeCount ≠ 0 := by
      intro idle
      unfold BlasterState.findActiveSlot at active
      rw [if_pos idle] at active
      cases active
    simp [busy]
  | @lost raw some unseen => exact absurd unseen (findActiveSlot_ne_none counted some raw)
  | empty idle => simp [idle]

theorem generated_accounts {g : Nat} (returned : g =
      if b.rolled next dbl cfg = .cancel ∧ b.state.activeCount = 0 then 0 else 1) :
    g + tally (OrderBlaster.rollsIdle next dbl cfg) b = 1 := by
  rw [returned, tally, OrderBlaster.rollsIdle]
  by_cases idle : b.rolled next dbl cfg = .cancel ∧ b.state.activeCount = 0
  · simp [idle]
  · rw [if_neg idle, if_neg (by simpa using idle)]

def kindTotal (b : OrderBlaster R D) : Nat := b.totalLimits + b.totalMarkets + b.totalCancels

theorem kindTotal_rounded {kind : Kind} {x : Option BlastOrder} (rounded : Rounded b kind x b') :
    kindTotal b' = kindTotal b + x.toList.length := by
  rw [kindTotal, rounded.limits, rounded.markets, rounded.cancels, kindTotal]
  cases kind <;> simp <;> omega

structure Accounts (full idle returned : Nat) (b b' : OrderBlaster R D) : Prop where
  pushed : b.pushed.length ≤ b'.pushed.length
  returned : returned + b.pushed.length = b'.pushed.length + full
  generated : b'.totalGenerated + b.pushed.length =
    b.totalGenerated + b'.pushed.length + full + idle
  counted : kindTotal b' + b.pushed.length = kindTotal b + b'.pushed.length

theorem countRounds_succ {n g : Nat} {test : OrderBlaster R D → Bool} (room : b.available ≠ 0)
    (one : b.generateOne next dbl cfg = some (b', g)) :
    b.countRounds next dbl cfg test (n + 1) = tally test b + b'.countRounds next dbl cfg test n := by
  rw [OrderBlaster.countRounds, if_neg room, one]
  rfl

theorem rounds_account {n g : Nat} {r : OrderBlaster R D × Nat}
    (tracked : Tracked b.state b.pushed)
    (made : OrderBlaster.generateRounds next dbl cfg n b g = some r) :
    ∃ returned, r.2 = g + returned ∧
      Accounts (b.countRounds next dbl cfg (OrderBlaster.rollsFull next dbl cfg) n)
        (b.countRounds next dbl cfg (OrderBlaster.rollsIdle next dbl cfg) n) returned b r.1 := by
  induction n generalizing b g with
  | zero =>
    cases made
    exact ⟨0, rfl, le_rfl, Nat.zero_add _, rfl, rfl⟩
  | succ n ih =>
    rw [OrderBlaster.generateRounds] at made
    by_cases room : b.available = 0
    · rw [if_pos room] at made
      cases made
      rw [OrderBlaster.countRounds, OrderBlaster.countRounds, if_pos room, if_pos room]
      exact ⟨0, rfl, le_rfl, Nat.zero_add _, rfl, rfl⟩
    · rw [if_neg room] at made
      obtain ⟨⟨b', g'⟩, one, rest⟩ := Option.bind_eq_some_iff.mp made
      obtain ⟨x, rounded, returned⟩ := generateOne_rounded next dbl cfg one
      have still : Tracked b'.state b'.pushed := by
        rw [rounded.pushed]
        exact tracked.move rounded.table
      obtain ⟨returned', same, later⟩ := ih still rest
      have pushes := round_accounts tracked.count rounded
      have returns := generated_accounts returned
      have kinds := kindTotal_rounded rounded
      have generated := rounded.generated
      have longer := congrArg List.length rounded.pushed
      rw [List.length_append] at longer
      rw [countRounds_succ room one, countRounds_succ room one]
      refine ⟨g' + returned', by rw [same, Nat.add_assoc], ?_, ?_, ?_, ?_⟩
      · have := later.pushed
        omega
      · have := later.returned
        omega
      · have := later.generated
        omega
      · have := later.counted
        omega

end Rounds

section Runs

variable {R D : Type} {next : R → UInt64 × R} {dbl : DoubleOps D} {cfg : OrderBlasterConfig D}
  {s s' : Session R D}

def silentRounds (s : Session R D) : Nat :=
  (s.batches.map fun batch => batch.fullRounds + batch.idleRounds).sum

structure Balanced (s : Session R D) : Prop where
  counted : kindTotal s.blaster = s.blaster.pushed.length
  generated : s.blaster.totalGenerated = s.blaster.pushed.length + silentRounds s
  returned : ∀ batch ∈ s.batches, batch.returned = batch.pushed + batch.fullRounds

theorem Balanced.step {op : BlasterOp} (sound : Sound s) (balanced : Balanced s)
    (move : s.step next dbl cfg op = some s') : Balanced s' := by
  cases op with
  | generateBatch =>
    obtain ⟨r, made, rfl⟩ := Option.map_eq_some_iff.mp move
    obtain ⟨returned, same, accounts⟩ := rounds_account sound.tracked made
    have before := balanced.generated
    have kinds := balanced.counted
    have pushed := accounts.pushed
    have generated := accounts.generated
    have counted' := accounts.counted
    have returned' := accounts.returned
    refine ⟨?_, ?_, ?_⟩
    · show kindTotal r.1 = r.1.pushed.length
      omega
    · show r.1.totalGenerated = r.1.pushed.length + _
      simp only [silentRounds, List.map_append, List.sum_append, List.map_singleton,
        List.sum_singleton]
      unfold silentRounds at before
      omega
    · intro batch listed
      rcases List.mem_append.mp listed with earlier | last
      · exact balanced.returned batch earlier
      · rw [List.mem_singleton.mp last]
        show r.2 = r.1.pushed.length - s.blaster.pushed.length +
          s.blaster.countRounds next dbl cfg (OrderBlaster.rollsFull next dbl cfg)
            cfg.ordersPerBatch.toNat
        omega
  | pop =>
    cases move
    have same : s.blaster.pop.2 = { s.blaster with readPos := s.blaster.pop.2.readPos } := by
      unfold OrderBlaster.pop
      split_ifs <;> rfl
    refine ⟨?_, ?_, balanced.returned⟩
    · show kindTotal s.blaster.pop.2 = s.blaster.pop.2.pushed.length
      rw [same]
      exact balanced.counted
    · show s.blaster.pop.2.totalGenerated = s.blaster.pop.2.pushed.length + silentRounds s
      rw [same]
      exact balanced.generated

theorem balanced_run {ops : List BlasterOp} (sound : Sound s) (balanced : Balanced s)
    (returns : run (Session.step next dbl cfg) s ops = some s') : Balanced s' := by
  have keep : ∀ s op s', Sound s ∧ Balanced s → True → Session.step next dbl cfg s op = some s' →
      Sound s' ∧ Balanced s' :=
    fun _ _ _ both _ move => ⟨both.1.step move, both.2.step both.1 move⟩
  exact (run_keeps keep ⟨sound, balanced⟩ (obeys_of_forall (fun _ _ => trivial) s ops) returns).2

end Runs

/-- The three counters of kinds always add up to the messages pushed. What batches return and what
`total_generated` says agrees with them exactly as long as no roll finds a full table or, for a
cancel, an empty one. -/
theorem counts_agree_iff_no_silent_round {R D : Type} (next : R → UInt64 × R) (dbl : DoubleOps D)
    (cfg : OrderBlasterConfig D) (ring : Nat → BlastOrder) (ids : Nat → UInt32)
    (prices : Nat → Int) (sides : Nat → Exchange.WireProtocol.Side) (qtys : Nat → Int) (seed : R)
    (ops : List BlasterOp) (s : Session R D)
    (returns : run (Session.step next dbl cfg)
      (Session.start dbl cfg ring ids prices sides qtys seed) ops = some s) :
    ((∀ batch ∈ s.batches, batch.returned = batch.pushed) ∧
        s.blaster.totalGenerated =
          s.blaster.totalLimits + s.blaster.totalMarkets + s.blaster.totalCancels ∧
        s.blaster.totalLimits + s.blaster.totalMarkets + s.blaster.totalCancels =
          s.blaster.pushed.length) ↔
      ∀ batch ∈ s.batches, batch.fullRounds = 0 ∧ batch.idleRounds = 0 := by
  have balanced : Balanced s := balanced_run
    (sound_start dbl cfg ring ids prices sides qtys seed)
    ⟨rfl, rfl, fun _ none => absurd none List.not_mem_nil⟩ returns
  have kinds : s.blaster.totalLimits + s.blaster.totalMarkets + s.blaster.totalCancels =
      s.blaster.pushed.length := balanced.counted
  have silent : silentRounds s = 0 ↔
      ∀ batch ∈ s.batches, batch.fullRounds = 0 ∧ batch.idleRounds = 0 := by
    rw [silentRounds, List.sum_eq_zero_iff_forall_eq_nat, List.forall_mem_map]
    exact forall₂_congr fun batch _ => Nat.add_eq_zero_iff
  rw [← silent, kinds, balanced.generated]
  constructor
  · rintro ⟨-, generated, -⟩
    omega
  · intro none
    refine ⟨fun batch listed => ?_, by omega, rfl⟩
    rw [balanced.returned batch listed, (silent.mp none batch listed).1, Nat.add_zero]

def sampleStart (cfg : OrderBlasterConfig Int) : Session UInt64 Int :=
  Session.start stillPrices cfg (fun _ => .cancel ⟨0, 0⟩) (fun _ => 0) (fun _ => 0) (fun _ => .buy)
    (fun _ => 0) 12345

def sampleRun (cfg : OrderBlasterConfig Int) : Option (Session UInt64 Int) :=
  run (Session.step xorshift64 stillPrices cfg) (sampleStart cfg) [.generateBatch, .pop]

theorem sampleRun_counts_agree :
    ∃ s, sampleRun sampleConfig = some s ∧
      (∀ batch ∈ s.batches, batch.returned = batch.pushed) ∧
      s.blaster.totalGenerated =
        s.blaster.totalLimits + s.blaster.totalMarkets + s.blaster.totalCancels ∧
      s.blaster.totalLimits + s.blaster.totalMarkets + s.blaster.totalCancels =
        s.blaster.pushed.length := by
  have batches : (sampleRun sampleConfig).map Session.batches = some [⟨5, 5, 0, 0⟩] := by
    decide +kernel
  obtain ⟨s, ran, same⟩ := Option.map_eq_some_iff.mp batches
  refine ⟨s, ran, (counts_agree_iff_no_silent_round xorshift64 stillPrices sampleConfig _ _ _ _ _ _
    [.generateBatch, .pop] s ran).mpr ?_⟩
  rw [same]
  decide

def cancelsOnly : OrderBlasterConfig Int := { sampleConfig with limitPct := 0, marketPct := 0 }

/-- With nothing to cancel, five rounds count as generated and push nothing. -/
theorem cancelsOnly_counts_differ :
    (sampleRun cancelsOnly).map (fun s => (s.blaster.totalGenerated,
        s.blaster.totalLimits + s.blaster.totalMarkets + s.blaster.totalCancels,
        s.blaster.pushed.length)) = some (5, 0, 0) := by
  decide +kernel

end HftGrading.Loadgen.BlasterCounts
