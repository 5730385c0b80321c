/- module: HftGrading/Loadgen/BlasterBookkeeping
   source: loadgen/include/loadgen/order_blaster.hpp
   digest: Ids, cancels, the table of active orders and the ring stay consistent over every run of the blaster. -/

import HftGrading.Lib.CountedRing
import HftGrading.Lib.OutstandingTickets
import HftGrading.Loadgen.BlastGenerator

set_option autoImplicit false
set_option relaxedAutoImplicit false

namespace HftGrading.Loadgen.BlasterBookkeeping

open Function (update)
open HftGrading.Lib.CountedRing HftGrading.Lib.OutstandingTickets HftGrading.Lib.PartialExecution
open Exchange.WireProtocol BlastGenerator

/-- The id an order brings into the session. -/
def orderId : BlastOrder → Option UInt32
  | .order o => some o.clientOrderId
  | .cancel _ => none

def limitId : BlastOrder → Option UInt32
  | .order o => if o.orderType = .limit then some o.clientOrderId else none
  | .cancel _ => none

def cancelId : BlastOrder → Option UInt32
  | .order _ => none
  | .cancel c => some c.clientOrderId

def Numbered (ids : List UInt32) : Prop :=
  ids = (List.range ids.length).map fun k => UInt32.ofNat (k + 1)

theorem Numbered.snoc {ids : List UInt32} (numbered : Numbered ids) :
    Numbered (ids ++ [UInt32.ofNat (ids.length + 1)]) := by
  rw [Numbered, List.length_append, List.length_singleton, List.range_succ, List.map_append,
    ← numbered, List.map_singleton]

theorem Numbered.nodup {ids : List UInt32} (numbered : Numbered ids)
    (few : ids.length < 4294967296) : ids.Nodup := by
  rw [numbered]
  refine List.Nodup.map_on ?_ List.nodup_range
  intro j first k second same
  rw [List.mem_range] at first second
  have equal := congrArg UInt32.toNat same
  rw [UInt32.toNat_ofNat', UInt32.toNat_ofNat'] at equal
  omega

theorem limitId_sublist (pushed : List BlastOrder) :
    (pushed.filterMap limitId).Sublist (pushed.filterMap orderId) := by
  induction pushed with
  | nil => exact List.Sublist.slnil
  | cons x pushed ih =>
    rw [List.filterMap_cons, List.filterMap_cons]
    cases x with
    | order o =>
      by_cases limit : o.orderType = .limit
      · simp only [limitId, orderId, if_pos limit]
        exact ih.cons_cons _
      · simp only [limitId, orderId, if_neg limit]
        exact ih.cons _
    | cancel c => exact ih

section Table

variable {s s' : BlasterState}

def held (s : BlasterState) (i : Nat) : Option UInt32 :=
  if s.orderActive i then some (s.orderIds i) else none

theorem held_track (slot : Nat) (o : OrderEntry) :
    held (s.bump.track slot o) = update (held s) slot (some o.clientOrderId) := by
  funext i
  by_cases same : i = slot
  · subst same
    simp [held, BlasterState.track]
  · simp [held, BlasterState.track, BlasterState.bump, Function.update_of_ne same]

theorem held_untrack (slot : Nat) : held (s.untrack slot) = update (held s) slot none := by
  funext i
  by_cases same : i = slot
  · subst same
    simp [held, BlasterState.untrack]
  · simp [held, BlasterState.untrack, Function.update_of_ne same]

theorem free_of_findFreeSlot {slot : Nat} (found : s.findFreeSlot = some slot) :
    slot < capacity ∧ held s slot = none := by
  unfold BlasterState.findFreeSlot at found
  refine ⟨List.mem_range.mp (List.mem_of_find?_eq_some found), ?_⟩
  have free := List.find?_some found
  rw [Bool.not_eq_true'] at free
  rw [held, free]
  rfl

theorem active_of_findActiveSlot {raw : UInt64} {slot : Nat}
    (found : s.findActiveSlot raw = some slot) :
    slot < capacity ∧ held s slot = some (s.orderIds slot) := by
  unfold BlasterState.findActiveSlot at found
  split_ifs at found
  have active := List.find?_some found
  obtain ⟨i, -, rfl⟩ := List.mem_map.mp (List.mem_of_find?_eq_some found)
  exact ⟨Nat.mod_lt _ (by decide), by rw [held, active]; rfl⟩

def activeSlots (s : BlasterState) : Nat := (List.range capacity).countP s.orderActive

theorem activeSlots_eq (s : BlasterState) :
    activeSlots s = ((List.range capacity).filterMap (held s)).length := by
  rw [List.length_filterMap_eq_countP, activeSlots]
  refine List.countP_congr fun i _ => ?_
  rw [held]
  cases s.orderActive i <;> simp

end Table

section Tracking

structure Tracked (s : BlasterState) (pushed : List BlastOrder) : Prop where
  ids : Numbered (pushed.filterMap orderId)
  nextId : s.nextOrderId = UInt32.ofNat ((pushed.filterMap orderId).length + 1)
  custody : Custody capacity (held s) (pushed.filterMap limitId) (pushed.filterMap cancelId)
  count : s.activeCount = activeSlots s
  cancels : ∀ before c after, pushed = before ++ .cancel c :: after →
    (before.filterMap orderId).Nodup →
      c.clientOrderId ∈ before.filterMap limitId ∧ c.clientOrderId ∉ before.filterMap cancelId

theorem snoc_split {α : Type} {l before after : List α} {x y : α}
    (same : l ++ [x] = before ++ y :: after) :
    (l = before ∧ x = y) ∨ ∃ after', l = before ++ y :: after' := by
  induction after using List.reverseRecOn with
  | nil =>
    obtain ⟨front, last⟩ := List.append_inj' same rfl
    exact Or.inl ⟨front, (List.cons.inj last).1⟩
  | append_singleton after z _ =>
    rw [← List.cons_append, ← List.append_assoc] at same
    exact Or.inr ⟨after, (List.append_inj' same rfl).1⟩

variable {s s' : BlasterState} {pushed : List BlastOrder}

theorem Tracked.snoc_order (tracked : Tracked s pushed) {o : OrderEntry}
    (id : o.clientOrderId = s.nextOrderId) (bumped : s'.nextOrderId = s.nextOrderId + 1)
    (custody : Custody capacity (held s') ((pushed ++ [BlastOrder.order o]).filterMap limitId)
      (pushed.filterMap cancelId))
    (count : s'.activeCount = activeSlots s') : Tracked s' (pushed ++ [.order o]) := by
  have more : (pushed ++ [BlastOrder.order o]).filterMap orderId =
      pushed.filterMap orderId ++ [UInt32.ofNat ((pushed.filterMap orderId).length + 1)] := by
    rw [List.filterMap_append, ← tracked.nextId, ← id]
    rfl
  refine ⟨?_, ?_, ?_, count, ?_⟩
  · rw [more]
    exact tracked.ids.snoc
  · rw [more, bumped, tracked.nextId, List.length_append, List.length_singleton,
      UInt32.ofNat_add (_ + 1) 1]
    rfl
  · have same : (pushed ++ [BlastOrder.order o]).filterMap cancelId = pushed.filterMap cancelId := by
      rw [List.filterMap_append]
      exact List.append_nil _
    rw [same]
    exact custody
  · -- An order names nothing: every cancel is one of before.
    intro before c after same distinct
    rcases snoc_split same with ⟨-, other⟩ | ⟨after', earlier⟩
    · cases other
    · exact tracked.cancels before c after' earlier distinct

theorem Tracked.limit {slot : Nat} {o : OrderEntry} (tracked : Tracked s pushed)
    (free : s.findFreeSlot = some slot) (type : o.orderType = .limit)
    (id : o.clientOrderId = s.nextOrderId) :
    Tracked (s.bump.track slot o) (pushed ++ [.order o]) := by
  obtain ⟨below, empty⟩ := free_of_findFreeSlot free
  refine tracked.snoc_order id rfl ?_ ?_
  · have named : (pushed ++ [BlastOrder.order o]).filterMap limitId =
        pushed.filterMap limitId ++ [o.clientOrderId] := by
      rw [List.filterMap_append]
      simp [limitId, type]
    rw [named, held_track]
    exact tracked.custody.issue below empty o.clientOrderId
  · have counted := (filterMap_update_some List.nodup_range (List.mem_range.mpr below) empty
      o.clientOrderId).length_eq
    rw [activeSlots_eq, held_track, counted, List.length_cons, ← activeSlots_eq, ← tracked.count]
    rfl

theorem Tracked.market {o : OrderEntry} (tracked : Tracked s pushed)
    (type : o.orderType = .market) (id : o.clientOrderId = s.nextOrderId) :
    Tracked s.bump (pushed ++ [.order o]) := by
  refine tracked.snoc_order id rfl ?_ tracked.count
  have same : (pushed ++ [BlastOrder.order o]).filterMap limitId = pushed.filterMap limitId := by
    rw [List.filterMap_append]
    simp [limitId, type]
  rw [same]
  exact tracked.custody

theorem Tracked.cancel {raw : UInt64} {slot : Nat} (tracked : Tracked s pushed)
    (active : s.findActiveSlot raw = some slot) :
    Tracked (s.untrack slot) (pushed ++ [.cancel ⟨s.orderIds slot, 0⟩]) := by
  obtain ⟨below, has⟩ := active_of_findActiveSlot active
  have same : ∀ f : BlastOrder → Option UInt32, f (.cancel ⟨s.orderIds slot, 0⟩) = none →
      (pushed ++ [BlastOrder.cancel ⟨s.orderIds slot, 0⟩]).filterMap f = pushed.filterMap f := by
    intro f none
    rw [List.filterMap_append, List.filterMap_cons, none]
    exact List.append_nil _
  refine ⟨?_, ?_, ?_, ?_, ?_⟩
  · rw [same orderId rfl]
    exact tracked.ids
  · rw [same orderId rfl]
    exact tracked.nextId
  · rw [same limitId rfl, List.filterMap_append, held_untrack]
    exact tracked.custody.giveBack below has
  · have counted := (filterMap_update_none List.nodup_range (List.mem_range.mpr below) has).length_eq
    rw [List.length_cons, ← activeSlots_eq, ← tracked.count] at counted
    rw [activeSlots_eq, held_untrack]
    show s.activeCount - 1 = _
    omega
  · intro before c after split distinct
    rcases snoc_split split with ⟨rfl, named⟩ | ⟨after', earlier⟩
    · cases named
      exact tracked.custody.out (distinct.sublist (limitId_sublist pushed)) below has
    · exact tracked.cancels before c after' earlier distinct

theorem Tracked.move {kind : Kind} {x : Option BlastOrder} (tracked : Tracked s pushed)
    (move : Move s kind x s') : Tracked s' (pushed ++ x.toList) := by
  cases move with
  | limit free type id => exact tracked.limit free type id
  | market type id => exact tracked.market type id
  | cancel active => exact tracked.cancel active
  | full | lost | empty =>
    rw [Option.toList_none, List.append_nil]
    exact tracked

end Tracking

section Ring

variable {R D : Type} {b b' : OrderBlaster R D}

structure Queued (b : OrderBlaster R D) : Prop where
  written : b.writePos = b.pushed.length
  order : b.readPos ≤ b.writePos
  room : b.writePos ≤ b.readPos + blastRingSize
  waiting : window (· % blastRingSize) b.ring b.readPos b.writePos = b.pushed.drop b.readPos

theorem Queued.rounded {kind : Kind} {x : Option BlastOrder} (queued : Queued b)
    (open' : b.available ≠ 0) (rounded : Rounded b kind x b') : Queued b' := by
  have order := queued.order
  have room := queued.room
  cases x with
  | none =>
    refine ⟨?_, ?_, ?_, ?_⟩
    · rw [rounded.writePos, rounded.pushed, Option.toList_none, List.append_nil]
      exact queued.written
    · rw [rounded.readPos, rounded.writePos]
      exact order
    · rw [rounded.readPos, rounded.writePos]
      exact room
    · rw [rounded.ring, rounded.readPos, rounded.writePos, rounded.pushed, Option.toList_none,
        List.append_nil]
      exact queued.waiting
  | some x =>
    have free : b.writePos - b.readPos < blastRingSize := by
      unfold OrderBlaster.available blastRingSize at open'
      unfold blastRingSize at room ⊢
      omega
    have wrote : b'.writePos = b.writePos + 1 := rounded.writePos
    refine ⟨?_, ?_, ?_, ?_⟩
    · rw [wrote, rounded.pushed, List.length_append, queued.written]
      rfl
    · rw [rounded.readPos, wrote]
      omega
    · rw [rounded.readPos, wrote]
      omega
    · have kept : b.readPos ≤ b.pushed.length := queued.written ▸ order
      rw [rounded.ring, rounded.readPos, wrote, rounded.pushed, Option.toList_some,
        List.drop_append_of_le_length kept, ← queued.waiting]
      exact window_push (apart_mod blastRingSize) order free x

theorem Queued.pop_fst (queued : Queued b) : b.pop.1 = b.pushed[b.readPos]? := by
  unfold OrderBlaster.pop
  split_ifs with done
  · exact (List.getElem?_eq_none (queued.written ▸ done)).symm
  · have more : b.readPos < b.writePos := Nat.lt_of_not_le done
    have less : b.readPos < b.pushed.length := queued.written ▸ more
    have split := queued.waiting
    rw [window_pop more, List.drop_eq_getElem_cons less] at split
    rw [List.getElem?_eq_getElem less, ← (List.cons.inj split).1]

theorem Queued.pop (queued : Queued b) :
    Queued b.pop.2 ∧ b.pop.2.state = b.state ∧ b.pop.2.pushed = b.pushed ∧
      b.pushed.take b.readPos ++ b.pop.1.toList = b.pushed.take b.pop.2.readPos := by
  have oldest := queued.pop_fst
  unfold OrderBlaster.pop at oldest ⊢
  split_ifs at oldest ⊢ with done
  · exact ⟨queued, rfl, rfl, List.append_nil _⟩
  · have more : b.readPos < b.writePos := Nat.lt_of_not_le done
    have split := queued.waiting
    rw [window_pop more] at split
    have room := queued.room
    have front : b.pushed.drop (b.readPos + 1) =
        window (· % blastRingSize) b.ring (b.readPos + 1) b.writePos := by
      rw [← List.drop_drop, ← split, List.drop_one, List.tail_cons]
    refine ⟨⟨queued.written, more, by show b.writePos ≤ b.readPos + 1 + blastRingSize; omega,
      front.symm⟩, rfl, rfl, ?_⟩
    rw [oldest, ← List.take_add_one]

end Ring

section Runs

variable {R D : Type} (next : R → UInt64 × R) (dbl : DoubleOps D) (cfg : OrderBlasterConfig D)

structure Sound (s : Session R D) : Prop where
  tracked : Tracked s.blaster.state s.blaster.pushed
  queued : Queued s.blaster
  popped : s.popped = s.blaster.pushed.take s.blaster.readPos

theorem sound_start (ring : Nat → BlastOrder) (ids : Nat → UInt32) (prices : Nat → Int)
    (sides : Nat → Side) (qtys : Nat → Int) (seed : R) :
    Sound (Session.start dbl cfg ring ids prices sides qtys seed) where
  tracked :=
    { ids := rfl
      nextId := rfl
      custody := custody_nothing fun _ _ => rfl
      count := (List.countP_eq_zero.mpr fun _ _ => Bool.false_ne_true).symm
      cancels := by
        intro before c after none
        cases before <;> cases none }
  queued := ⟨rfl, Nat.le_refl 0, Nat.zero_le _, rfl⟩
  popped := rfl

variable {next dbl cfg} {s s' : Session R D}

theorem generateBatch_keeps {b : OrderBlaster R D} {r : OrderBlaster R D × Nat}
    (tracked : Tracked b.state b.pushed) (queued : Queued b)
    (made : b.generateBatch next dbl cfg = some r) :
    Tracked r.1.state r.1.pushed ∧ Queued r.1 ∧ r.1.readPos = b.readPos ∧ b.pushed <+: r.1.pushed := by
  let Inv (b' : OrderBlaster R D) : Prop := Tracked b'.state b'.pushed ∧ Queued b' ∧
    b'.readPos = b.readPos ∧ b.pushed <+: b'.pushed
  have round : ∀ b₁ kind x b₂, Inv b₁ → b₁.available ≠ 0 → Rounded b₁ kind x b₂ → Inv b₂ := by
    rintro b₁ kind x b₂ ⟨tracked, queued, still, longer⟩ room rounded
    refine ⟨?_, queued.rounded room rounded, rounded.readPos.trans still, ?_⟩
    · rw [rounded.pushed]
      exact tracked.move rounded.table
    · rw [rounded.pushed]
      exact longer.trans (List.prefix_append _ _)
  exact generateRounds_keeps round ⟨tracked, queued, rfl, List.prefix_rfl⟩ made

theorem Sound.step {op : BlasterOp} (sound : Sound s)
    (move : s.step next dbl cfg op = some s') : Sound s' := by
  cases op with
  | generateBatch =>
    obtain ⟨r, made, rfl⟩ := Option.map_eq_some_iff.mp move
    obtain ⟨tracked, queued, still, more, longer⟩ :=
      generateBatch_keeps sound.tracked sound.queued made
    refine ⟨tracked, queued, ?_⟩
    have within : s.blaster.readPos ≤ s.blaster.pushed.length :=
      sound.queued.written ▸ sound.queued.order
    show s.popped = r.1.pushed.take r.1.readPos
    rw [still, ← longer, List.take_append_of_le_length within, sound.popped]
  | pop =>
    cases move
    obtain ⟨queued, table, pushed, popped⟩ := sound.queued.pop
    refine ⟨?_, queued, ?_⟩
    · show Tracked s.blaster.pop.2.state s.blaster.pop.2.pushed
      rw [table, pushed]
      exact sound.tracked
    · show s.popped ++ s.blaster.pop.1.toList = s.blaster.pop.2.pushed.take s.blaster.pop.2.readPos
      rw [sound.popped, pushed, popped]

theorem sound_run {ops : List BlasterOp} (start : Sound s)
    (returns : run (Session.step next dbl cfg) s ops = some s') : Sound s' := by
  have keep : ∀ s op s', Sound s → True → Session.step next dbl cfg s op = some s' → Sound s' :=
    fun _ _ _ sound _ move => sound.step move
  exact run_keeps keep start (obeys_of_forall (fun _ _ => trivial) s ops) returns

/-- The bookkeeping of a session, as its user sees it. What `pop` returns is the oldest message
that has not been popped, and nothing only when there is none. -/
structure Bookkept (s : Session R D) : Prop where
  distinct : (s.blaster.pushed.filterMap orderId).Nodup
  cancels : ∀ before c after, s.blaster.pushed = before ++ .cancel c :: after →
    (∃ o, .order o ∈ before ∧ o.orderType = .limit ∧ o.clientOrderId = c.clientOrderId) ∧
      ∀ c', .cancel c' ∈ before → c'.clientOrderId ≠ c.clientOrderId
  active : s.blaster.state.activeCount = activeSlots s.blaster.state
  bounded : s.blaster.state.activeCount ≤ 4096
  room : s.blaster.writePos - s.blaster.readPos ≤ 65536
  delivered : s.popped ++ window (· % blastRingSize) s.blaster.ring s.blaster.readPos
    s.blaster.writePos = s.blaster.pushed
  oldest : s.blaster.pop.1 = s.blaster.pushed[s.popped.length]?

theorem Sound.bookkept (sound : Sound s)
    (few : (s.blaster.pushed.filterMap orderId).length < 4294967296) : Bookkept s := by
  have distinct := sound.tracked.ids.nodup few
  refine ⟨distinct, ?_, sound.tracked.count, ?_, ?_, ?_, ?_⟩
  · intro before c after split
    have shorter : (before.filterMap orderId).Nodup := by
      rw [split, List.filterMap_append] at distinct
      exact (List.nodup_append.mp distinct).1
    obtain ⟨named, unnamed⟩ := sound.tracked.cancels before c after split shorter
    constructor
    · obtain ⟨x, member, limit⟩ := List.mem_filterMap.mp named
      cases x with
      | order o =>
        simp only [limitId] at limit
        split_ifs at limit with type
        exact ⟨o, member, type, Option.some.inj limit⟩
      | cancel c' => cases limit
    · intro c' member same
      exact unnamed (List.mem_filterMap.mpr ⟨.cancel c', member, congrArg some same⟩)
  · rw [sound.tracked.count]
    exact List.countP_le_length.trans (List.length_range.le)
  · have room := sound.queued.room
    unfold blastRingSize at room
    omega
  · rw [sound.popped, sound.queued.waiting, List.take_append_drop]
  · have within : s.blaster.readPos ≤ s.blaster.pushed.length :=
      sound.queued.written ▸ sound.queued.order
    rw [sound.queued.pop_fst, sound.popped, List.length_take_of_le within]

theorem step_returns (quantified : cfg.Quantified) (ticks : cfg.tickSize ≠ 0) (s : Session R D)
    (op : BlasterOp) : ∃ s', s.step next dbl cfg op = some s' := by
  cases op with
  | generateBatch =>
    obtain ⟨r, made⟩ := generateRounds_returns next dbl quantified ticks
      cfg.ordersPerBatch.toNat s.blaster 0
    exact ⟨_, congrArg (Option.map _) made⟩
  | pop => exact ⟨_, rfl⟩

end Runs

/-- Whatever is drawn, batches and pops in any order keep the books as long as the ids last; a
tick size of 0, which the generator divides by, is the one thing that may stop it. -/
theorem blaster_keeps_books {R D : Type} (next : R → UInt64 × R) (dbl : DoubleOps D)
    (cfg : OrderBlasterConfig D) (quantified : cfg.Quantified) (ring : Nat → BlastOrder)
    (ids : Nat → UInt32) (prices : Nat → Int) (sides : Nat → Side) (qtys : Nat → Int) (seed : R)
    (ops : List BlasterOp) :
    (cfg.tickSize ≠ 0 → ∃ s, run (Session.step next dbl cfg)
        (Session.start dbl cfg ring ids prices sides qtys seed) ops = some s) ∧
      ∀ s, run (Session.step next dbl cfg)
          (Session.start dbl cfg ring ids prices sides qtys seed) ops = some s →
        (s.blaster.pushed.filterMap orderId).length < 4294967296 → Bookkept s := by
  constructor
  · intro ticks
    obtain ⟨s, returns, -⟩ := run_returns (Session.step next dbl cfg) (fun _ _ => True)
      (fun _ => True) (fun s op _ _ => (step_returns quantified ticks s op).imp fun _ move =>
        ⟨move, trivial⟩) ops _ trivial (obeys_of_forall (fun _ _ => trivial) _ ops)
    exact ⟨s, returns⟩
  · intro s returns few
    exact (sound_run (sound_start dbl cfg ring ids prices sides qtys seed) returns).bookkept few

def stillPrices : DoubleOps Int where
  add := (· + ·)
  mul := (· * ·)
  less p q := p < q
  ofInt64 := id
  toInt64 := id
  gaussian _ _ := 0

def sampleConfig : OrderBlasterConfig Int where
  initialMid := 1000000
  tickSize := 100
  volatility := 0
  limitPct := 60
  marketPct := 20
  minQty := 1
  maxQty := 100
  ordersPerBatch := 5

theorem sampleRun_keeps_books :
    ∃ s, run (Session.step xorshift64 stillPrices sampleConfig)
        (Session.start stillPrices sampleConfig (fun _ => .cancel ⟨0, 0⟩) (fun _ => 0) (fun _ => 0)
          (fun _ => .buy) (fun _ => 0) 12345) [.generateBatch, .pop, .pop] = some s ∧
      s.blaster.pushed.length = 5 ∧ (s.blaster.pushed.filterMap cancelId).length = 1 ∧
      s.popped = s.blaster.pushed.take 2 ∧ s.blaster.pop.1 = s.blaster.pushed[2]? ∧
      s.blaster.pop.1.isSome ∧ Bookkept s := by
  obtain ⟨returns, books⟩ := blaster_keeps_books xorshift64 stillPrices sampleConfig
    ⟨by decide, by decide, by decide⟩ (fun _ => .cancel ⟨0, 0⟩) (fun _ => 0) (fun _ => 0)
    (fun _ => .buy) (fun _ => 0) 12345 [.generateBatch, .pop, .pop]
  obtain ⟨s, ran⟩ := returns (by decide)
  have counts : (run (Session.step xorshift64 stillPrices sampleConfig)
      (Session.start stillPrices sampleConfig (fun _ => .cancel ⟨0, 0⟩) (fun _ => 0) (fun _ => 0)
        (fun _ => .buy) (fun _ => 0) 12345) [.generateBatch, .pop, .pop]).map (fun s =>
          (s.blaster.pushed.length, (s.blaster.pushed.filterMap cancelId).length,
            decide (s.popped = s.blaster.pushed.take 2), s.popped.length,
            s.blaster.pop.1.isSome)) = some (5, 1, true, 2, true) := by
    decide +kernel
  rw [ran, Option.map_some, Option.some.injEq] at counts
  simp only [Prod.mk.injEq, decide_eq_true_eq] at counts
  obtain ⟨length, cancels, popped, two, more⟩ := counts
  have kept : Bookkept s := by
    refine books s ran ?_
    have fewer := List.length_filterMap_le orderId s.blaster.pushed
    omega
  exact ⟨s, ran, length, cancels, popped, two ▸ kept.oldest, more, kept⟩

end HftGrading.Loadgen.BlasterBookkeeping
