/- module: HftGrading/Exchange/Engine/CancelRouting
   source: exchange/include/exchange/match_engine.hpp
   digest: Which order a cancel reaches through the cancel map, over whole runs of the engine. -/

import HftGrading.Exchange.Engine.EngineSteps
import Mathlib.Data.Nat.Bitwise

set_option autoImplicit false
set_option relaxedAutoImplicit false

namespace HftGrading.Exchange.Engine.CancelRouting

open Lib Lib.PartialExecution WireProtocol Book.PriceMap Book.LimitBook
open Book.LimitBook.OrderBook (MatchResult)
open Book.LevelSearch Book.LevelQueue Book.LevelFilling Book.MatchRounds Book.BookRep Book.BookRuns
open EngineState EngineSteps

variable {G : Type} {e e' : MatchEngine G} {Q Q' : Queues}

/-- The message the step from `e` to `e'` has put where the tail of the queue was. -/
def answer (e e' : MatchEngine G) : OutboundMsg := e'.outbound (e.outboundTail % outboundQueueSize)

/-- Order `x` leaves level `i` of side `s`, and nothing else changes for any other order. -/
structure Withdrawn (s : Side) (i x : Nat) (b b' : OrderBook) : Prop where
  queues : b'.queue = place b.queue s i ((b.queue s i).erase x)
  gone : ∀ t, ¬ Resting b' t x
  cells : ∀ y, static (b'.pool.orders y) = static (b.pool.orders y)
  quantities : ∀ y, y ≠ x → restingQty b' y = restingQty b y

theorem processCancel_withdraws {cid : Nat} {cancel : CancelRequest} (ts : Nat)
    (rep : Rep e.book Q) (owned : e.cancellable cid (cancelTarget e cid cancel)) {s : Side} {i : Nat}
    (listed : cancelTarget e cid cancel ∈ e.book.queue s i) :
    ∃ e', e.processCancel cid cancel ts = some e' ∧
      answer e e' = ⟨.cancelAck ⟨.cancelled, cancel.clientOrderId, ts⟩, cid⟩ ∧
      Withdrawn s i (cancelTarget e cid cancel) e.book e'.book := by
  have queue := rep.queue_eq
  rw [queue] at listed
  obtain ⟨b₁, b', run, shed, settled, others, rep'⟩ := rep.cancelOrder listed
  refine ⟨_, processCancel_cancels ts owned run, Function.update_self _ _ _, ?_, ?_, ?_, others⟩
  · change b'.queue = _
    rw [rep'.queue_eq, queue]
  · rintro t ⟨j, hj⟩
    change cancelTarget e cid cancel ∈ b'.queue t j at hj
    rw [rep'.queue_eq] at hj
    revert hj
    refine place_forall (C := fun t j l => cancelTarget e cid cancel ∉ l) ?_ ?_ t j
    · exact (rep.level s i).nodup.not_mem_erase
    · exact fun t j other hx => rep.not_mem other hx listed
  · intro y
    change static (b'.pool.orders y) = _
    rw [settled.pool, shed.frame.static]

/-- The contestant's order of that id rests in slot `x`. -/
def OwnOrder (b : OrderBook) (cid : Nat) (clientOrderId : UInt32) (x : Nat) : Prop :=
  (∃ s, Resting b s x) ∧ (b.pool.orders x).contestantId = cid ∧
    (b.pool.orders x).clientOrderId = clientOrderId

/-- A cancel is answered; if it says so, the order it names has left the book, alone;
without such an order it is rejected and the book stays as it is. -/
def CancelsExactly (e : MatchEngine G) (cid : Nat) (cancel : CancelRequest) (ts : Nat) : Prop :=
  ∃ e' status, e.processCancel cid cancel ts = some e' ∧
    answer e e' = ⟨.cancelAck ⟨status, cancel.clientOrderId, ts⟩, cid⟩ ∧
    (status = .cancelled → ∃ s i x, x ∈ e.book.queue s i ∧
      OwnOrder e.book cid cancel.clientOrderId x ∧ Withdrawn s i x e.book e'.book) ∧
    ((∀ x, ¬ OwnOrder e.book cid cancel.clientOrderId x) →
      status = .rejectedUnknown ∧ e'.book = e.book)

/-- A cancel that passes the ownership check has found the order it names, and that order rests. -/
def FindsNamed (e : MatchEngine G) : EngineOp → Prop
  | .processCancel cid cancel _ =>
    e.cancellable cid (cancelTarget e cid cancel) →
      OwnOrder e.book cid cancel.clientOrderId (cancelTarget e cid cancel)
  | _ => True

theorem findsResting_of_findsNamed (op : EngineOp) (finds : FindsNamed e op) : FindsResting e op := by
  cases op with
  | processCancel => exact fun owned => (finds owned).1
  | _ => trivial

theorem cancelsExactly_of_findsNamed (rep : Rep e.book Q) (cid : Nat) (cancel : CancelRequest)
    (ts : Nat) (finds : FindsNamed e (.processCancel cid cancel ts)) :
    CancelsExactly e cid cancel ts := by
  by_cases owned : e.cancellable cid (cancelTarget e cid cancel)
  · have named := finds owned
    obtain ⟨s, i, listed⟩ := named.1
    obtain ⟨e', cancels, acked, withdrawn⟩ := processCancel_withdraws ts rep owned listed
    refine ⟨e', .cancelled, cancels, acked, fun _ => ⟨s, i, _, listed, named, withdrawn⟩, ?_⟩
    exact fun none => absurd named (none _)
  · refine ⟨_, .rejectedUnknown, processCancel_rejects ts owned, Function.update_self _ _ _, ?_, ?_⟩
    · exact fun wrong => by cases wrong
    · exact fun _ => ⟨rfl, rfl⟩

theorem resting_runs_rep (nextTick : G → Nat → MarketUpdate × G) (cfg : MatchEngineConfig)
    (marketGen : G) (ops : List EngineOp)
    (finds : Obeys (EngineOp.apply nextTick) FindsResting (MatchEngine.init cfg marketGen) ops) :
    ∃ e, run (EngineOp.apply nextTick) (MatchEngine.init cfg marketGen) ops = some e ∧
      ∃ Q, Rep e.book Q := by
  have keep : ∀ (e : MatchEngine G) op, (∃ Q, Rep e.book Q) → FindsResting e op →
      ∃ e', op.apply nextTick e = some e' ∧ ∃ Q, Rep e'.book Q := by
    rintro e op ⟨Q, rep⟩ legal
    obtain ⟨Q', e', apply, step, -⟩ := apply_step nextTick rep op legal
    exact ⟨e', apply, Q', step.rep rep⟩
  exact run_returns (EngineOp.apply nextTick) FindsResting (fun e => ∃ Q, Rep e.book Q) keep ops _
    ⟨_, rep_init⟩ finds

section Slots

theorem makeCancelKey_eq (cid : Nat) (client : UInt32) :
    makeCancelKey cid client = cid * 4294967296 + client.toNat := by
  have small : client.toNat < 2 ^ 32 := client.toNat_lt
  rw [makeCancelKey, ← Nat.shiftLeft_add_eq_or_of_lt small, Nat.shiftLeft_eq]

theorem makeCancelKey_inj {cid cid' : Nat} {client client' : UInt32}
    (same : makeCancelKey cid client = makeCancelKey cid' client') :
    cid = cid' ∧ client = client' := by
  rw [makeCancelKey_eq, makeCancelKey_eq] at same
  have small := client.toNat_lt
  have small' := client'.toNat_lt
  have owner : cid = cid' := by omega
  subst owner
  exact ⟨rfl, UInt32.toNat_inj.mp (by omega)⟩

theorem cancelMapInsert_cell (m : CancelMap) (key x slot : Nat) :
    ((cancelMapInsert m key x).keys slot = m.keys slot ∧
        (cancelMapInsert m key x).vals slot = m.vals slot) ∨
      ((cancelMapInsert m key x).keys slot = key ∧ (cancelMapInsert m key x).vals slot = x) :=
  ProbeWindow.insert_cell (cancelWindow key) slot

/-- The slot `alloc` gives to what is left of an order once it has been matched. -/
def allocated (e : MatchEngine G) (cid : Nat) (order : OrderEntry) : Option Nat :=
  if cid < e.contestants.count ∧ e.orderRejection cid order = none then
    (e.book.matchOrder order.side order.price order.quantity cid 64).bind fun (fills, b) =>
      if order.quantity - filledQty fills > 0 ∧ order.orderType = .limit then some b.pool.alloc.1
      else none
  else none

/-- No live entry of the contestant in the cancel map names slot `x`. -/
def Unnamed (m : CancelMap) (cid x : Nat) : Prop :=
  ∀ slot client, m.keys slot = makeCancelKey cid client → m.vals slot ≠ nullIndex → m.vals slot ≠ x

/-- The slot an order is given is named by no live entry of its contestant. -/
def FreshSlot (e : MatchEngine G) : EngineOp → Prop
  | .processOrder cid order _ => ∀ x, allocated e cid order = some x → Unnamed e.cancelMap cid x
  | _ => True

/-- An entry that names an order of its contestant with something left names the one of its own
client id, and that order rests. -/
def Routed (m : CancelMap) (b : OrderBook) (Q : Queues) : Prop :=
  ∀ slot cid client, m.keys slot = makeCancelKey cid client → m.vals slot ≠ nullIndex →
    (b.pool.orders (m.vals slot)).contestantId = cid → 0 < restingQty b (m.vals slot) →
    (b.pool.orders (m.vals slot)).clientOrderId = client ∧ ∃ s i, m.vals slot ∈ Q s i

variable {m : CancelMap} {b b' : OrderBook}

theorem Routed.drains (routed : Routed m b Q) (drains : Drains Q b Q' b') : Routed m b' Q' := by
  intro slot cid client key live owner left
  have static := drains.static (m.vals slot)
  rw [contestantId_of_static static] at owner
  obtain ⟨named, s, i, listed⟩ := routed slot cid client key live owner
    (left.trans_le (drains.lower (m.vals slot)))
  refine ⟨(clientOrderId_of_static static).trans named, ?_⟩
  -- An order that left the lists on the way has nothing left.
  by_contra off
  rcases drains.unlisted (m.vals slot) (fun s i hx => off ⟨s, i, hx⟩) with spent | ⟨never, -⟩
  · exact left.ne' spent
  · exact never s i listed

theorem Routed.remove (routed : Routed m b Q) (key : Nat) : Routed (cancelMapRemove m key) b Q := by
  intro slot cid client named live
  rw [cancelMapRemove, ProbeWindow.remove_keys] at named
  have vals : (cancelMapRemove m key).vals slot = m.vals slot :=
    (ProbeWindow.remove_vals_or (cancelWindow key) slot).resolve_right live
  rw [vals] at live ⊢
  exact routed slot cid client named live

theorem Routed.write {cid x : Nat} (routed : Routed m b Q) (fresh : Unnamed m cid x)
    (others : ∀ y ≠ x, body (b'.pool.orders y) = body (b.pool.orders y))
    (owner : (b'.pool.orders x).contestantId = cid) (kept : ∀ s i, ∀ y ∈ Q s i, y ∈ Q' s i) :
    Routed m b' Q' := by
  intro slot cid' client key live owner' left
  by_cases here : m.vals slot = x
  · rw [here, owner] at owner'
    subst owner'
    exact absurd here (fresh slot client key live)
  · have cell := others (m.vals slot) here
    have same : (b'.pool.orders (m.vals slot)).contestantId =
        (b.pool.orders (m.vals slot)).contestantId := (congrArg Order.contestantId cell :)
    have named : (b'.pool.orders (m.vals slot)).clientOrderId =
        (b.pool.orders (m.vals slot)).clientOrderId := (congrArg Order.clientOrderId cell :)
    have qty : restingQty b' (m.vals slot) = restingQty b (m.vals slot) :=
      (congrArg Order.remainingQty cell :)
    rw [same] at owner'
    rw [qty] at left
    obtain ⟨own, s, i, listed⟩ := routed slot cid' client key live owner' left
    exact ⟨named.trans own, s, i, kept s i _ listed⟩

theorem Routed.insert {cid x : Nat} {client : UInt32} (routed : Routed m b Q)
    (named : (b.pool.orders x).clientOrderId = client) (listed : ∃ s i, x ∈ Q s i) :
    Routed (cancelMapInsert m (makeCancelKey cid client) x) b Q := by
  intro slot cid' client' key live owner left
  rcases cancelMapInsert_cell m (makeCancelKey cid client) x slot with ⟨keys, vals⟩ | ⟨keys, vals⟩
  · rw [keys] at key
    rw [vals] at live owner left ⊢
    exact routed slot cid' client' key live owner left
  · rw [keys] at key
    rw [vals, named, (makeCancelKey_inj key).2]
    exact ⟨rfl, listed⟩

theorem alloc_of_top {x : Nat} (top : ∃ rest, freeSlots b = rest ++ [x]) : b.pool.alloc.1 = x := by
  obtain ⟨rest, split⟩ := top
  have length : b.pool.freeTop = rest.length + 1 := by
    have both := congrArg List.length split
    simpa [freeSlots] using both
  rw [freeSlots, length, List.range_succ, List.map_append] at split
  have last := (List.append_inj' split rfl).2
  rw [OrderPool.alloc, if_neg (by omega), length]
  simpa using last

end Slots

section Steps

theorem Routed.placed {m m' : CancelMap} {b b' : OrderBook} {cid ts : Nat} {order : OrderEntry}
    {remaining : Int} (routed : Routed m b Q)
    (fresh : remaining > 0 ∧ order.orderType = .limit → Unnamed m cid b.pool.alloc.1)
    (placed : Placed Q b m cid order remaining ts Q' b' m') : Routed m' b' Q' := by
  cases placed with
  | ended => exact routed
  | exhausted => exact routed
  | @refused x wanted top =>
    have unnamed := fresh wanted
    rw [alloc_of_top top] at unnamed
    refine routed.write unnamed (fun y other => ?_) ?_ (fun _ _ _ hy => hy)
    · simp [stamped, other]
    · simp [stamped, OrderBook.fillCell]
  | @rests x i L wanted top located real =>
    have unnamed := fresh wanted
    rw [alloc_of_top top] at unnamed
    have cell : body ((rested b cid order.clientOrderId order.side order.price remaining ts x i
        L).pool.orders x) = body { OrderBook.fillCell b.nextExchangeId cid order.clientOrderId
          order.side order.price remaining ts (b.pool.orders x) with levelIdx := i } := rested_self i L
    refine (routed.write unnamed (fun y other => rested_other i L other) ?_ ?_).insert ?_ ?_
    · exact (congrArg Order.contestantId cell :)
    · exact fun s j y hy => mem_place_append.mpr (Or.inl hy)
    · exact (congrArg Order.clientOrderId cell :)
    · exact ⟨order.side, i, mem_place_append.mpr (Or.inr ⟨rfl, rfl, rfl⟩)⟩

theorem Routed.step {op : EngineOp} (routed : Routed e.cancelMap e.book Q) (fresh : FreshSlot e op)
    (step : EngineStep Q e op Q' e') : Routed e'.cancelMap e'.book Q' := by
  cases step with
  | quiet book map =>
    rw [map]
    exact routed.drains book
  | cancelled owned listed shed settled map =>
    rw [map]
    exact (routed.drains (.shed .refl (List.ne_nil_of_mem listed) shed settled)).remove _
  | @executed cid ts order fills Q₁ _ before b₁ _ registered accepted executed =>
    have matched := (routed.drains executed.matched.drained).drains (settledBook_drains fills b₁)
    refine matched.placed (fun wanted => ?_) executed.placed
    refine fresh _ ?_
    rw [settledBook_pool, allocated, if_pos ⟨registered, accepted⟩, executed.returns,
      Option.bind_some]
    exact if_pos wanted

theorem Routed.findsNamed (rep : Rep e.book Q) (routed : Routed e.cancelMap e.book Q)
    (op : EngineOp) : FindsNamed e op := by
  cases op with
  | processCancel cid cancel ts =>
    rintro ⟨live, owner, left⟩
    obtain ⟨slot, -, key, target⟩ := ProbeWindow.lookup_found live
    change e.cancelMap.vals slot = cancelTarget e cid cancel at target
    have found := routed slot cid cancel.clientOrderId key
    rw [target] at found
    obtain ⟨named, s, i, listed⟩ := found live owner left
    refine ⟨⟨s, i, ?_⟩, owner, named⟩
    rwa [rep.queue_eq]
  | _ => trivial

/-- While no order is given a slot that a live entry of its contestant names, every cancel is
exact. -/
theorem fresh_runs_cancel_exactly (nextTick : G → Nat → MarketUpdate × G) (cfg : MatchEngineConfig)
    (marketGen : G) (ops : List EngineOp)
    (fresh : Obeys (EngineOp.apply nextTick) FreshSlot (MatchEngine.init cfg marketGen) ops) :
    ∃ e, run (EngineOp.apply nextTick) (MatchEngine.init cfg marketGen) ops = some e ∧
      ∀ cid cancel ts, CancelsExactly e cid cancel ts := by
  have keep : ∀ (e : MatchEngine G) op, (∃ Q, Rep e.book Q ∧ Routed e.cancelMap e.book Q) →
      FreshSlot e op →
      ∃ e', op.apply nextTick e = some e' ∧ ∃ Q, Rep e'.book Q ∧ Routed e'.cancelMap e'.book Q := by
    rintro e op ⟨Q, rep, routed⟩ legal
    obtain ⟨Q', e', apply, step, -⟩ := apply_step nextTick rep op
      (findsResting_of_findsNamed op (routed.findsNamed rep op))
    exact ⟨e', apply, Q', step.rep rep, routed.step legal step⟩
  have start : Routed cancelMapInit OrderBook.init (fun _ _ => []) :=
    fun _ _ _ _ live => absurd rfl live
  obtain ⟨e, returns, Q, rep, routed⟩ := run_returns (EngineOp.apply nextTick) FreshSlot _ keep ops
    _ ⟨_, rep_init, start⟩ fresh
  exact ⟨e, returns, fun cid cancel ts => cancelsExactly_of_findsNamed rep cid cancel ts
    (routed.findsNamed rep _)⟩

end Steps

theorem unnamed_init (cid x : Nat) : Unnamed cancelMapInit cid x :=
  fun _ _ _ live => absurd rfl live

theorem Unnamed.insert {m : CancelMap} {cid cid' x : Nat} (unnamed : Unnamed m cid x)
    (other : cid' ≠ cid) (client : UInt32) (y : Nat) :
    Unnamed (cancelMapInsert m (makeCancelKey cid' client) y) cid x := by
  intro slot client' key live
  rcases cancelMapInsert_cell m (makeCancelKey cid' client) y slot with ⟨keys, vals⟩ | ⟨keys, -⟩
  · rw [keys] at key
    rw [vals] at live ⊢
    exact unnamed slot client' key live
  · rw [keys] at key
    exact absurd (makeCancelKey_inj key).1 other

/-- An ask is filled, and its slot goes to an ask of the other contestant. -/
def reusedSlot : List EngineOp :=
  [.registerContestant 10000000, .registerContestant 10000000,
    .processOrder 0 ⟨.sell, .limit, 1, 100, 1⟩ 0, .processOrder 1 ⟨.buy, .limit, 1, 100, 1⟩ 0,
    .processOrder 1 ⟨.sell, .limit, 2, 100, 1⟩ 0, .processCancel 0 ⟨1, 0⟩ 0]

theorem reusedSlot_cancels_exactly :
    ∃ e, run (EngineOp.apply silentTick) (MatchEngine.init .default ()) reusedSlot = some e ∧
      e.book.queue .sell 1 = [0] ∧ cancelTarget e 0 ⟨1, 0⟩ = 0 ∧ cancelTarget e 1 ⟨2, 0⟩ = 0 ∧
      CancelsExactly e 0 ⟨1, 0⟩ 0 ∧ CancelsExactly e 1 ⟨2, 0⟩ 0 := by
  have fresh : Obeys (EngineOp.apply silentTick) FreshSlot (MatchEngine.init .default ())
      reusedSlot := by
    refine ⟨trivial, ?_⟩
    rintro _ ⟨⟩
    refine ⟨trivial, ?_⟩
    rintro _ ⟨⟩
    refine ⟨fun x _ => unnamed_init 0 x, fun e₁ first => ?_⟩
    have entered : some (cancelMapInsert cancelMapInit (makeCancelKey 0 1) 0) =
        some e₁.cancelMap := congrArg (Option.map MatchEngine.cancelMap) first
    have filled : some (cancelMapInsert cancelMapInit (makeCancelKey 0 1) 0) =
        (EngineOp.apply silentTick e₁ (.processOrder 1 ⟨.buy, .limit, 1, 100, 1⟩ 0)).map
          MatchEngine.cancelMap :=
      congrArg (fun after => (after.bind fun e => EngineOp.apply silentTick e
        (.processOrder 1 ⟨.buy, .limit, 1, 100, 1⟩ 0)).map MatchEngine.cancelMap) first
    -- All the map holds is the entry of contestant 0.
    have other : ∀ x, Unnamed (cancelMapInsert cancelMapInit (makeCancelKey 0 1) 0) 1 x :=
      fun x => (unnamed_init 1 x).insert (by decide) 1 0
    rw [Option.some.inj entered] at other
    refine ⟨fun x _ => other x, fun e₂ second => ?_⟩
    rw [second] at filled
    rw [← Option.some.inj entered, Option.some.inj filled] at other
    exact ⟨fun x _ => other x, fun _ _ => ⟨trivial, fun _ _ => trivial⟩⟩
  obtain ⟨e, returns, exactly⟩ := fresh_runs_cancel_exactly silentTick .default () reusedSlot fresh
  have shown : (run (EngineOp.apply silentTick) (MatchEngine.init .default ()) reusedSlot).map
      (fun e => (e.book.queue .sell 1, cancelTarget e 0 ⟨1, 0⟩, cancelTarget e 1 ⟨2, 0⟩)) =
      some ([0], 0, 0) := by decide +kernel
  rw [returns] at shown
  simp only [Option.map_some, Option.some.injEq, Prod.mk.injEq] at shown
  obtain ⟨queue, stale, live⟩ := shown
  exact ⟨e, returns, queue, stale, live, exactly 0 ⟨1, 0⟩ 0, exactly 1 ⟨2, 0⟩ 0⟩

/-- The client order ids used in a run, with their owners. -/
def usedIds (ops : List EngineOp) : List (Nat × UInt32) :=
  ops.filterMap (fun op => match op with
    | .processOrder cid order _ => some (cid, order.clientOrderId)
    | _ => none)

def refilledSlot : List EngineOp :=
  [.registerContestant 10000000, .registerContestant 10000000,
    .processOrder 0 ⟨.sell, .limit, 1, 100, 1⟩ 0, .processOrder 1 ⟨.buy, .limit, 1, 100, 1⟩ 0,
    .processOrder 0 ⟨.sell, .limit, 2, 100, 1⟩ 0]

/-- The cancel of the first ask is acknowledged and takes the second. -/
theorem stale_entry_cancels_other_order :
    (usedIds refilledSlot).Nodup ∧
      ∃ e, run (EngineOp.apply silentTick) (MatchEngine.init .default ()) refilledSlot = some e ∧
        ¬ CancelsExactly e 0 ⟨1, 0⟩ 0 := by
  refine ⟨by decide, ?_⟩
  obtain ⟨e, returns, Q, rep⟩ := resting_runs_rep silentTick .default () refilledSlot
    (obeys_of_test findsResting_of_test _ _ (by decide +kernel))
  have acked : (run (EngineOp.apply silentTick) (MatchEngine.init .default ()) refilledSlot).map
      (fun e => (e.processCancel 0 ⟨1, 0⟩ 0).map (answer e)) =
      some (some ⟨.cancelAck ⟨.cancelled, 1, 0⟩, 0⟩) := by decide +kernel
  have shown : (run (EngineOp.apply silentTick) (MatchEngine.init .default ()) refilledSlot).map
      (fun e => (((e.book.levels .buy).count, (e.book.levels .sell).count),
        (e.book.queue .sell 0, e.book.queue .sell 1), (e.book.pool.orders 0).clientOrderId)) =
      some ((0, 2), ([], [0]), 2) := by decide +kernel
  rw [returns] at acked shown
  simp only [Option.map_some, Option.some.injEq, Prod.mk.injEq] at acked shown
  obtain ⟨⟨bids, asks⟩, ⟨first, second⟩, id⟩ := shown
  refine ⟨e, returns, ?_⟩
  rintro ⟨e', status, cancels, acked', found, -⟩
  rw [cancels, Option.map_some, Option.some.injEq, acked'] at acked
  have said : status = .cancelled := by simpa using acked
  obtain ⟨s, i, x, listed, ⟨-, -, named⟩, -⟩ := found said
  have below := rep.bound s i (by rw [← rep.queue_eq]; exact List.ne_nil_of_mem listed)
  -- The only order left is the second ask.
  cases s with
  | buy => omega
  | sell =>
    obtain rfl | rfl : i = 0 ∨ i = 1 := by omega
    · rw [first] at listed
      cases listed
    · rw [second, List.mem_singleton] at listed
      rw [listed, id] at named
      exact absurd named (by decide)

end HftGrading.Exchange.Engine.CancelRouting
