/- module: HftGrading/Exchange/Engine/CancelRecords
   source: exchange/include/exchange/match_engine.hpp
   digest: While every resting order finds room in the cancel map, every resting order can be cancelled. -/

import HftGrading.Exchange.Engine.CancelRouting

set_option autoImplicit false
set_option relaxedAutoImplicit false

namespace HftGrading.Exchange.Engine.CancelRecords

open Lib Lib.PartialExecution
open Lib.ProbeWindow (Reaches)
open WireProtocol Book.PriceMap Book.LimitBook
open Book.LimitBook.OrderBook (MatchResult)
open Book.LevelSearch Book.LevelQueue Book.LevelFilling Book.MatchRounds Book.BookRep Book.BookRuns
open EngineState EngineSteps CancelRouting

variable {G : Type} {e e' : MatchEngine G} {b b' : OrderBook} {Q Q' : Queues}
  {used : List (Nat × UInt32)}

def orderKey (b : OrderBook) (x : Nat) : Nat :=
  makeCancelKey (b.pool.orders x).contestantId (b.pool.orders x).clientOrderId

theorem orderKey_of_static {x : Nat}
    (same : static (b'.pool.orders x) = static (b.pool.orders x)) : orderKey b' x = orderKey b x := by
  rw [orderKey, contestantId_of_static same, clientOrderId_of_static same, orderKey]

/-- The order in slot `x` is reached under its key, which is not the empty one. -/
def Entry (m : CancelMap) (b : OrderBook) (x : Nat) : Prop :=
  orderKey b x ≠ 0 ∧ Reaches 0 m (orderKey b x) x (cancelWindow (orderKey b x))

def Entered (m : CancelMap) (b : OrderBook) (Q : Queues) : Prop :=
  ∀ s i, ∀ x ∈ Q s i, Entry m b x

def Known (used : List (Nat × UInt32)) (m : CancelMap) : Prop :=
  ∀ slot, m.keys slot ≠ 0 → ∃ id ∈ used, m.keys slot = makeCancelKey id.1 id.2

structure Recorded (used : List (Nat × UInt32)) (e : MatchEngine G) (Q : Queues) : Prop where
  rep : Rep e.book Q
  known : Known used e.cancelMap
  entered : Entered e.cancelMap e.book Q

section Preservation

theorem Entered.drains {m : CancelMap} (entered : Entered m b Q) (drains : Drains Q b Q' b') :
    Entered m b' Q' := by
  intro s i x hx
  rw [Entry, orderKey_of_static (drains.static x)]
  exact entered s i x ((drains.sublist s i).subset hx)

theorem Known.mono {used' : List (Nat × UInt32)} {m : CancelMap} (known : Known used m)
    (sub : ∀ id ∈ used, id ∈ used') : Known used' m := by
  intro slot filled
  obtain ⟨id, member, key⟩ := known slot filled
  exact ⟨id, sub id member, key⟩

theorem Known.fresh {m : CancelMap} (known : Known used m) {cid : Nat} {client : UInt32}
    (unused : (cid, client) ∉ used) (filled : makeCancelKey cid client ≠ 0) (slot : Nat) :
    m.keys slot ≠ makeCancelKey cid client := by
  intro same
  obtain ⟨id, member, key⟩ := known slot (same ▸ filled)
  obtain ⟨owner, client'⟩ := makeCancelKey_inj (same.symm.trans key)
  exact unused (by rwa [owner, client'])

theorem Known.insert {m : CancelMap} (known : Known used m) {cid : Nat} {client : UInt32}
    (member : (cid, client) ∈ used) (x : Nat) :
    Known used (cancelMapInsert m (makeCancelKey cid client) x) := by
  intro slot filled
  rcases cancelMapInsert_cell m (makeCancelKey cid client) x slot with ⟨same, -⟩ | ⟨new, -⟩
  · rw [same] at filled ⊢
    exact known slot filled
  · exact ⟨(cid, client), member, new⟩

theorem Entered.remove {m : CancelMap} {key x : Nat} (entered : Entered m b Q) (rep : Rep b Q)
    (found : cancelMapLookup m key = x) (static : ∀ y, static (b'.pool.orders y) =
      static (b.pool.orders y)) (fewer : ∀ s i, ∀ y ∈ Q' s i, y ∈ Q s i ∧ y ≠ x) :
    Entered (cancelMapRemove m key) b' Q' := by
  intro s i y hy
  obtain ⟨listed, other⟩ := fewer s i y hy
  obtain ⟨filled, reaches⟩ := entered s i y listed
  rw [Entry, orderKey_of_static (static y)]
  refine ⟨filled, ProbeWindow.remove_keeps _ ?_ reaches⟩
  rintro rfl
  apply other
  rw [← found, cancelMapLookup,
    ProbeWindow.lookup_of_reaches ((rep.level s i).ne_null listed) reaches]

variable {cid ts x i : Nat} {order : OrderEntry} {remaining : Int} {L : PriceLevelPool}

theorem Entered.rests {m : CancelMap} {s : Side} {client : UInt32} {price quantity : Int}
    (entered : Entered m b Q) (rep : Rep b Q)
    (top : ∃ rest, freeSlots b = rest ++ [x]) (filled : makeCancelKey cid client ≠ 0)
    (fresh : ∀ slot, m.keys slot ≠ makeCancelKey cid client)
    (room : ∃ slot ∈ cancelWindow (makeCancelKey cid client),
      m.keys slot = 0 ∨ m.vals slot = nullIndex) :
    Entered (cancelMapInsert m (makeCancelKey cid client) x)
      (rested b cid client s price quantity ts x i L) (place Q s i (Q s i ++ [x])) := by
  have unlisted := (rep.top_free top).2
  have new : orderKey (rested b cid client s price quantity ts x i L) x =
      makeCancelKey cid client := by
    have cell : body ((rested b cid client s price quantity ts x i L).pool.orders x) =
        body { OrderBook.fillCell b.nextExchangeId cid client s price quantity ts
          (b.pool.orders x) with levelIdx := i } := rested_self i L
    have owner : ((rested b cid client s price quantity ts x i L).pool.orders x).contestantId = cid :=
      (congrArg Order.contestantId cell :)
    have named : ((rested b cid client s price quantity ts x i L).pool.orders x).clientOrderId =
        client := (congrArg Order.clientOrderId cell :)
    rw [orderKey, owner, named]
  have old : ∀ t j, ∀ y ∈ Q t j, Entry (cancelMapInsert m (makeCancelKey cid client) x)
      (rested b cid client s price quantity ts x i L) y := by
    intro t j y hy
    have other : y ≠ x := fun e => unlisted t j (e ▸ hy)
    have cell : body ((rested b cid client s price quantity ts x i L).pool.orders y) =
        body (b.pool.orders y) := rested_other i L other
    have same : orderKey (rested b cid client s price quantity ts x i L) y = orderKey b y := by
      have owner := (congrArg Order.contestantId cell :)
      have named := (congrArg Order.clientOrderId cell :)
      change makeCancelKey _ _ = makeCancelKey _ _
      exact congrArg₂ makeCancelKey owner named
    obtain ⟨filled', reaches⟩ := entered t j y hy
    rw [Entry, same]
    refine ⟨filled', ProbeWindow.insert_keeps _ filled filled' ((rep.level t j).ne_null hy) ?_
      reaches⟩
    obtain ⟨slot, -, key⟩ := reaches.key_mem
    exact fun clash => fresh slot (key.trans clash)
  refine place_forall (C := fun _ _ l => ∀ y ∈ l, Entry _ _ y) ?_ (fun t j _ => old t j)
  intro y hy
  rcases List.mem_append.mp hy with hy | hy
  · exact old s i y hy
  · rw [List.mem_singleton.mp hy, Entry, new]
    exact ⟨filled, ProbeWindow.insert_reaches fresh room⟩

end Preservation

/-- A limit order has a key other than the empty one and room in its window of
the cancel map; cancels find orders that rest. -/
def Recordable (e : MatchEngine G) : EngineOp → Prop
  | .processOrder cid order _ => order.orderType = .limit →
      makeCancelKey cid order.clientOrderId ≠ 0 ∧
        ∃ slot ∈ cancelWindow (makeCancelKey cid order.clientOrderId),
          e.cancelMap.keys slot = 0 ∨ e.cancelMap.vals slot = nullIndex
  | .processCancel cid cancel ts => FindsResting e (.processCancel cid cancel ts)
  | _ => True

theorem Recorded.step {op : EngineOp} (recorded : Recorded used e Q) (recordable : Recordable e op)
    (unique : (used ++ usedIds [op]).Nodup) (step : EngineStep Q e op Q' e') :
    Recorded (used ++ usedIds [op]) e' Q' := by
  have rep := recorded.rep
  have known : Known (used ++ usedIds [op]) e.cancelMap :=
    recorded.known.mono (fun id member => List.mem_append_left _ member)
  refine ⟨step.rep rep, ?_, ?_⟩
  · cases step with
    | quiet book map => rwa [map]
    | cancelled owned listed shed settled map =>
      rw [map, Known, cancelMapRemove, ProbeWindow.remove_keys]
      exact known
    | executed registered accepted executed =>
      have placed := executed.placed
      generalize e'.book = b' at placed
      generalize e'.cancelMap = m' at placed ⊢
      cases placed with
      | ended => exact known
      | exhausted => exact known
      | refused => exact known
      | rests => exact known.insert (by simp [usedIds]) _
  · cases step with
    | quiet book map =>
      rw [map]
      exact recorded.entered.drains book
    | @cancelled cid ts i cancel s b₁ _ owned listed shed settled map =>
      rw [map]
      refine recorded.entered.remove rep rfl (fun y => ?_) ?_
      · rw [settled.pool, shed.frame.static]
      · refine place_forall (C := fun t j l => ∀ y ∈ l, y ∈ Q t j ∧ y ≠ _) ?_ ?_
        · intro y hy
          refine ⟨List.mem_of_mem_erase hy, ?_⟩
          rintro rfl
          exact (rep.level s i).nodup.not_mem_erase hy
        · intro t j other y hy
          refine ⟨hy, ?_⟩
          rintro rfl
          exact rep.not_mem other hy listed
    | @executed cid ts order fills Q₁ _ before b₁ _ registered accepted executed =>
      have drains : Drains Q e.book Q₁ b₁ := executed.matched.drained
      have rep₁ := (settledBook_drains fills b₁).rep (drains.rep rep)
      have entered : Entered e.cancelMap (settledBook fills b₁) Q₁ :=
        (recorded.entered.drains drains).drains (settledBook_drains fills b₁)
      have placed := executed.placed
      generalize e'.book = b' at placed ⊢
      generalize e'.cancelMap = m' at placed ⊢
      cases placed with
      | ended => exact entered
      | exhausted => exact entered
      | @refused x wanted top =>
        intro s i y hy
        have other : y ≠ x := fun e => (rep₁.top_free top).2 s i (e ▸ hy)
        have same : orderKey ((stamped (settledBook fills b₁) cid order.clientOrderId order.side
            order.price (order.quantity - filledQty fills) ts x).onPool (fun P => P.free x)) y =
            orderKey (settledBook fills b₁) y := by
          simp [orderKey, stamped, other]
        rw [Entry, same]
        exact entered s i y hy
      | rests wanted top located real =>
        obtain ⟨filled, room⟩ := recordable wanted.2
        have unused : (cid, order.clientOrderId) ∉ used := by
          intro member
          exact (List.nodup_append.mp unique).2.2 _ member _ (by simp [usedIds]) rfl
        exact entered.rests rep₁ top filled (recorded.known.fresh unused filled) room

/-- Every resting order can be cancelled by its owner under its own id. -/
def AllCancellable (e : MatchEngine G) : Prop :=
  ∀ s x, Resting e.book s x → ∀ exchangeOrderId ts,
    ∃ e', e.processCancel (e.book.pool.orders x).contestantId
        ⟨(e.book.pool.orders x).clientOrderId, exchangeOrderId⟩ ts = some e' ∧
      answer e e' = ⟨.cancelAck ⟨.cancelled, (e.book.pool.orders x).clientOrderId, ts⟩,
        (e.book.pool.orders x).contestantId⟩ ∧
      ∀ t, ¬ Resting e'.book t x

theorem Recorded.allCancellable (recorded : Recorded used e Q) : AllCancellable e := by
  rintro s x ⟨i, hx⟩ exchangeOrderId ts
  have rep := recorded.rep
  have listed : x ∈ Q s i := by rwa [rep.queue_eq] at hx
  have real := (rep.level s i).ne_null listed
  have target : cancelTarget e (e.book.pool.orders x).contestantId
      ⟨(e.book.pool.orders x).clientOrderId, exchangeOrderId⟩ = x :=
    ProbeWindow.lookup_of_reaches real (recorded.entered s i x listed).2
  have owned : e.cancellable (e.book.pool.orders x).contestantId
      (cancelTarget e (e.book.pool.orders x).contestantId
        ⟨(e.book.pool.orders x).clientOrderId, exchangeOrderId⟩) := by
    rw [target]
    exact ⟨real, rfl, (rep.level s i).resting x listed⟩
  obtain ⟨e', cancels, acked, withdrawn⟩ :=
    processCancel_withdraws ts rep owned (s := s) (i := i) (by rwa [target])
  rw [target] at withdrawn
  exact ⟨e', cancels, acked, withdrawn.gone⟩

theorem usedIds_append (ops ops' : List EngineOp) :
    usedIds (ops ++ ops') = usedIds ops ++ usedIds ops' := List.filterMap_append

/-- With ids used once and every limit order recordable, every resting order can be cancelled. -/
theorem recordable_runs_cancel_resting (nextTick : G → Nat → MarketUpdate × G)
    (cfg : MatchEngineConfig) (marketGen : G) (ops : List EngineOp) (unique : (usedIds ops).Nodup)
    (recordable :
      Obeys (EngineOp.apply nextTick) Recordable (MatchEngine.init cfg marketGen) ops) :
    ∃ e, run (EngineOp.apply nextTick) (MatchEngine.init cfg marketGen) ops = some e ∧
      AllCancellable e := by
  have initial : ∀ h as, (usedIds (h ++ as)).Nodup → (usedIds h).Nodup := by
    intro h as nodup
    rw [usedIds_append] at nodup
    exact (List.nodup_append.mp nodup).1
  have keep : ∀ h (e : MatchEngine G) op, (∃ Q, Recorded (usedIds h) e Q) → Recordable e op →
      (usedIds (h ++ [op])).Nodup →
      ∃ e', op.apply nextTick e = some e' ∧ ∃ Q, Recorded (usedIds (h ++ [op])) e' Q := by
    rintro h e op ⟨Q, recorded⟩ legal nodup
    have finds : FindsResting e op := by
      cases op with
      | processCancel => exact legal
      | _ => trivial
    obtain ⟨Q', e', apply, step, -⟩ := apply_step nextTick recorded.rep op finds
    rw [usedIds_append] at nodup ⊢
    exact ⟨e', apply, Q', recorded.step legal nodup step⟩
  have start : Recorded (usedIds []) (MatchEngine.init cfg marketGen) (fun _ _ => []) :=
    ⟨rep_init, fun slot filled => absurd rfl filled, fun _ _ x hx => by cases hx⟩
  obtain ⟨e, returns, Q, recorded⟩ := run_returns_history (EngineOp.apply nextTick) Recordable
    (fun ops => (usedIds ops).Nodup) (fun h e => ∃ Q, Recorded (usedIds h) e Q) initial keep
    [] ops _ ⟨_, start⟩ unique recordable
  exact ⟨e, returns, recorded.allCancellable⟩

def recordableTest (e : MatchEngine G) : EngineOp → Bool
  | .processOrder cid order _ => decide (order.orderType ≠ .limit) ||
      decide (makeCancelKey cid order.clientOrderId ≠ 0) &&
        (cancelWindow (makeCancelKey cid order.clientOrderId)).any
          (fun slot => decide (e.cancelMap.keys slot = 0 ∨ e.cancelMap.vals slot = nullIndex))
  | .processCancel cid cancel ts => findsRestingTest e (.processCancel cid cancel ts)
  | _ => true

theorem recordable_of_test (e : MatchEngine G) (op : EngineOp) (passed : recordableTest e op = true) :
    Recordable e op := by
  cases op with
  | processOrder cid order ts =>
    intro limit
    simpa [recordableTest, limit] using passed
  | processCancel cid cancel ts => exact findsResting_of_test e (.processCancel cid cancel ts) passed
  | _ => trivial

theorem recordable_runs_cancel_resting_bid :
    ∃ e, run (EngineOp.apply silentTick) (MatchEngine.init .default ())
        [.registerContestant 10000000, .processOrder 0 ⟨.buy, .limit, 1, 100, 2⟩ 0,
          .processOrder 0 ⟨.sell, .limit, 2, 100, 1⟩ 0, .processCancel 0 ⟨1, 0⟩ 0,
          .processOrder 0 ⟨.buy, .limit, 3, 100, 2⟩ 0] = some e ∧
      AllCancellable e :=
  recordable_runs_cancel_resting silentTick .default () _ (by decide)
    (obeys_of_test recordable_of_test _ _ (by decide +kernel))

/-- The order `(0, 0)` is entered under the empty key and another one over it: both keys
hash to slot 0. -/
theorem overwritten_entry_not_cancelled :
    let ops : List EngineOp := [.registerContestant 10000000,
      .processOrder 0 ⟨.buy, .limit, 0, 100, 1⟩ 0, .processOrder 0 ⟨.buy, .limit, 75025, 100, 1⟩ 0]
    (usedIds ops).Nodup ∧
      ∃ e, run (EngineOp.apply silentTick) (MatchEngine.init .default ()) ops = some e ∧
        ¬ AllCancellable e := by
  intro ops
  refine ⟨by decide, ?_⟩
  obtain ⟨e, returns, -⟩ := resting_runs_rep silentTick .default () ops
    (obeys_of_test findsResting_of_test _ _ (by decide +kernel))
  have shown : (run (EngineOp.apply silentTick) (MatchEngine.init .default ()) ops).map
      (fun e => (e.book.queue .buy 0, (e.book.pool.orders 0).contestantId,
        (e.book.pool.orders 0).clientOrderId)) = some ([0, 1], 0, 0) := by decide +kernel
  have refused : (run (EngineOp.apply silentTick) (MatchEngine.init .default ()) ops).map
      (fun e => (e.processCancel 0 ⟨0, 0⟩ 0).map (answer e)) =
      some (some ⟨.cancelAck ⟨.rejectedUnknown, 0, 0⟩, 0⟩) := by decide +kernel
  rw [returns] at shown refused
  simp only [Option.map_some, Option.some.injEq, Prod.mk.injEq] at shown refused
  obtain ⟨queue, owner, id⟩ := shown
  refine ⟨e, returns, fun all => ?_⟩
  obtain ⟨e', cancels, acked, -⟩ := all .buy 0 ⟨0, by simp [queue]⟩ 0 0
  rw [owner, id] at cancels acked
  rw [cancels, Option.map_some, Option.some.injEq, acked] at refused
  cases refused

end HftGrading.Exchange.Engine.CancelRecords
