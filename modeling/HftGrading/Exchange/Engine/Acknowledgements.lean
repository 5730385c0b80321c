/- module: HftGrading/Exchange/Engine/Acknowledgements
   source: exchange/include/exchange/match_engine.hpp
   digest: Which orders are acknowledged exactly once, and with which status. -/

import HftGrading.Exchange.Book.LevelExhaustion
import HftGrading.Exchange.Book.OfferedQuantity
import HftGrading.Exchange.Engine.CancelRouting
import HftGrading.Exchange.Engine.OutboundDelivery

set_option autoImplicit false
set_option relaxedAutoImplicit false

namespace HftGrading.Exchange.Engine.Acknowledgements

open Lib.PartialExecution WireProtocol Book.PriceMap Book.LimitBook
open Book.LimitBook.OrderBook (MatchResult)
open Book.LevelSearch Book.BookRep Book.BookRuns Book.OfferedQuantity
open EngineState EngineSteps Settlement
open CancelRouting (resting_runs_rep)
open OutboundDelivery

variable {G : Type}

def executedQty (e : MatchEngine G) (cid : Nat) (order : OrderEntry) : Int :=
  filledQty (fillsOf e cid order)

def ToRest (e : MatchEngine G) (cid : Nat) (order : OrderEntry) : Prop :=
  order.quantity - executedQty e cid order > 0 ∧ order.orderType = .limit

instance (e : MatchEngine G) (cid : Nat) (order : OrderEntry) : Decidable (ToRest e cid order) :=
  inferInstanceAs (Decidable (_ ∧ _))

/-- The pool index at which the order comes to rest, `nullIndex` when it does not. -/
def restingIndex (e : MatchEngine G) (cid : Nat) (order : OrderEntry) (ts : Nat) : Nat :=
  if cid < e.contestants.count ∧ e.orderRejection cid order = none ∧ ToRest e cid order then
    (((e.book.matchOrder order.side order.price order.quantity cid 64).bind fun (fills, b) =>
      (settledBook fills b).addOrder cid order.clientOrderId order.side order.price
        (order.quantity - filledQty fills) ts).map Prod.fst).getD nullIndex
  else nullIndex

def Lives (e : MatchEngine G) (cid : Nat) (order : OrderEntry) (ts : Nat) : Prop :=
  0 < executedQty e cid order ∨ restingIndex e cid order ts ≠ nullIndex

def acksFor (clientOrderId : UInt32) (msgs : List OutboundMsg) : List OutboundMsg :=
  msgs.filter fun msg => match msg.message with
    | .orderAck ack => ack.clientOrderId = clientOrderId
    | _ => false

/-- Exactly one acknowledgement was sent for the order: ACCEPTED when something of it was
executed or rests, and a rejection otherwise. -/
def AckedOnce (e e' : MatchEngine G) (cid : Nat) (order : OrderEntry) (ts : Nat) : Prop :=
  ∃ ack, acksFor order.clientOrderId (emitted e e') = [⟨.orderAck ack, cid⟩] ∧
    (ack.status = .accepted ↔ Lives e cid order ts)

/-- A level of the side is in use for the price, or the side may open another one. -/
def Leveled (b : OrderBook) (side : Side) (price : Int) : Prop :=
  (b.levels side).count < maxPriceLevelsOb ∨ ¬ Missed (b.levels side) price

/-- What it takes, before the order is processed, for it to be answered. A rejected order is. A
market or IOC order is if it meets a level within its limit. A limit order needs a slot, or an
order to trade with that gives up its own, and it needs a level for its price, unless the 64
orders it meets first offer all it wants. -/
def Answered (e : MatchEngine G) (cid : Nat) (order : OrderEntry) : Prop :=
  e.orderRejection cid order ≠ none ∨
    (order.orderType ≠ .limit ∧ Meets e.book order.side order.price) ∨
    (order.orderType = .limit ∧
      (0 < e.book.pool.freeTop ∨ Meets e.book order.side order.price) ∧
      (Leveled e.book order.side order.price ∨
        order.quantity ≤ offered e.book order.side order.price 64))

theorem acksFor_append (oid : UInt32) (first second : List OutboundMsg) :
    acksFor oid (first ++ second) = acksFor oid first ++ acksFor oid second :=
  List.filter_append ..

theorem acksFor_reports {oid : UInt32} {msgs : List OutboundMsg} (reports : Reports msgs) :
    acksFor oid msgs = [] := by
  rw [acksFor, List.filter_eq_nil_iff]
  intro msg listed
  obtain ⟨fill, same⟩ := reports msg listed
  rw [same]
  exact Bool.false_ne_true

theorem acksFor_ack (ack : OrderAck) (cid : Nat) :
    acksFor ack.clientOrderId [⟨.orderAck ack, cid⟩] = [⟨.orderAck ack, cid⟩] := by
  rw [acksFor, List.filter_singleton]
  simp

section Orders

variable {e e' : MatchEngine G} {cid ts : Nat} {order : OrderEntry}

theorem status_of_rejection {status : AckStatus}
    (rejected : e.orderRejection cid order = some status) : status ≠ .accepted := by
  rw [MatchEngine.orderRejection] at rejected
  split_ifs at rejected <;> cases rejected <;> decide

theorem executedQty_of_rejection (rejected : e.orderRejection cid order ≠ none) :
    executedQty e cid order = 0 := by
  rw [executedQty, fillsOf, if_neg (fun legal => rejected legal.2)]
  rfl

theorem rejected_ackedOnce {status : AckStatus} (bounded : e.outboundTail < 4294967296)
    (rejected : e.orderRejection cid order = some status) :
    AckedOnce e (e.sendAck cid order.clientOrderId status 0 order.price order.quantity) cid order
      ts := by
  have sends : Sends e (e.sendAck cid order.clientOrderId status 0 order.price order.quantity)
      ([] ++ [⟨.orderAck ⟨status, order.clientOrderId, 0, order.price, order.quantity⟩, cid⟩]) :=
    (sends_nil bounded).enqueue cid _
  have turned : e.orderRejection cid order ≠ none := by
    rw [rejected]
    exact Option.some_ne_none status
  refine ⟨⟨status, order.clientOrderId, 0, order.price, order.quantity⟩, ?_,
    fun accepted => absurd accepted (status_of_rejection rejected), ?_⟩
  · rw [sends.emitted_eq bounded (show 1 ≤ outboundQueueSize by decide), List.nil_append]
    exact acksFor_ack _ cid
  · rintro (some_fill | rests)
    · rw [executedQty_of_rejection turned] at some_fill
      exact absurd some_fill (lt_irrefl 0)
    · rw [restingIndex, if_neg (fun legal => turned legal.2.1)] at rests
      exact absurd rfl rests

variable (ts) in
theorem outcome_of_match (registered : cid < e.contestants.count)
    (accepted : e.orderRejection cid order = none) {fills : List MatchResult} {b₁ : OrderBook}
    (matches_ : e.book.matchOrder order.side order.price order.quantity cid 64 = some (fills, b₁)) :
    executedQty e cid order = filledQty fills ∧
      restingIndex e cid order ts =
        if order.quantity - filledQty fills > 0 ∧ order.orderType = .limit then
          (((settledBook fills b₁).addOrder cid order.clientOrderId order.side order.price
            (order.quantity - filledQty fills) ts).map Prod.fst).getD nullIndex
        else nullIndex := by
  have executed : executedQty e cid order = filledQty fills := by
    rw [executedQty, fillsOf, if_pos ⟨registered, accepted⟩, matches_]
    rfl
  refine ⟨executed, ?_⟩
  simp only [restingIndex, ToRest, executed, registered, accepted, matches_, true_and,
    Option.bind_some]

theorem acksFor_executed {told ends : List OutboundMsg} (bounded : e.outboundTail < 4294967296)
    (sends : Sends e e' (told ++ ends)) (reports : Reports told)
    (short : (told ++ ends).length ≤ outboundQueueSize) (oid : UInt32) :
    acksFor oid (emitted e e') = acksFor oid ends := by
  rw [sends.emitted_eq bounded short, acksFor_append, acksFor_reports reports, List.nil_append]

theorem executed_ackedOnce (bounded : e.outboundTail < 4294967296)
    (registered : cid < e.contestants.count) (accepted : e.orderRejection cid order = none)
    (returns : e.executeOrder cid order ts = some e') :
    AckedOnce e e' cid order ts ↔ restingIndex e cid order ts ≠ nullIndex ∨
      (0 < executedQty e cid order ∧ ¬ ToRest e cid order) := by
  obtain ⟨fills, b₁, told, ends, matches_, sends, count, reports, closes⟩ :=
    executeOrder_sends bounded returns
  obtain ⟨executed, index⟩ := outcome_of_match ts registered accepted matches_
  have short : (told ++ ends).length ≤ outboundQueueSize := by
    have few : fills.length ≤ 64 := Book.CellBounds.matchOrder_few matches_
    have one := closes.few
    rw [List.length_append, count]
    unfold outboundQueueSize
    omega
  rw [AckedOnce, acksFor_executed bounded sends reports short, Lives, index, ToRest, executed]
  cases closes with
  | rests wanted adds real =>
    rw [if_pos wanted, adds]
    exact ⟨fun _ => .inl real, fun _ => ⟨_, acksFor_ack _ cid, fun _ => .inr real, fun _ => rfl⟩⟩
  | refused wanted adds =>
    rw [if_pos wanted, adds]
    constructor
    · rintro ⟨ack, ⟨⟩, -⟩
    · rintro (rests | ⟨-, ended⟩)
      · exact absurd rfl rests
      · exact absurd wanted ended
  | done ended some_fill =>
    exact ⟨fun _ => .inr ⟨some_fill, ended⟩, fun _ => ⟨_, acksFor_ack _ cid,
      fun _ => .inl some_fill, fun _ => rfl⟩⟩
  | unfilled ended no_fill =>
    rw [if_neg ended]
    constructor
    · rintro ⟨ack, ⟨⟩, -⟩
    · rintro (rests | ⟨some_fill, -⟩)
      · exact absurd rfl rests
      · exact absurd some_fill no_fill

variable (ts) in
/-- The remainder of a matched order finds a place exactly when a slot is free and its own side,
which the match has not touched, has a level for it. -/
theorem rests_iff {Q Q₁ : Queues} {fills : List MatchResult} {before b₁ : OrderBook}
    (rep : Rep e.book Q)
    (matched : Matched Q e.book order.side order.price order.quantity cid 64 Q₁ fills before b₁) :
    (((settledBook fills b₁).addOrder cid order.clientOrderId order.side order.price
        (order.quantity - filledQty fills) ts).map Prod.fst).getD nullIndex ≠ nullIndex ↔
      b₁.pool.freeTop ≠ 0 ∧ Leveled e.book order.side order.price := by
  have rep₁ := (settledBook_drains fills b₁).rep (matched.drained.rep rep)
  obtain ⟨r, levels⟩ := settledBook_levels fills b₁ order.side
  rw [matched.own_levels] at levels
  have capacity := (rep.mapped order.side).capacity
  have refused := Book.LevelExhaustion.refused_iff order.side cid ts order.clientOrderId
    order.price (order.quantity - filledQty fills) rep₁
  rw [levels, settledBook_pool] at refused
  have level : ¬ ((e.book.levels order.side).capacity ≤ (e.book.levels order.side).count ∧
      Missed (e.book.levels order.side) order.price) ↔ Leveled e.book order.side order.price := by
    rw [Leveled, capacity, not_and_or, not_le]
  obtain ⟨x, b', adds, -⟩ := addOrder_added cid order.clientOrderId order.side order.price
    (order.quantity - filledQty fills) ts rep₁
  rw [adds] at refused ⊢
  rw [← level, ← not_or]
  refine not_congr (Iff.trans ?_ refused)
  constructor
  · intro null
    exact ⟨b', congrArg (fun x => some (x, b')) null⟩
  · rintro ⟨b'', same⟩
    exact (Prod.mk.inj (Option.some.inj same)).1

theorem answered_iff {Q : Queues} (rep : Rep e.book Q) (registered : cid < e.contestants.count)
    (accepted : e.orderRejection cid order = none) :
    (restingIndex e cid order ts ≠ nullIndex ∨
        (0 < executedQty e cid order ∧ ¬ ToRest e cid order)) ↔ Answered e cid order := by
  obtain ⟨wanted, -⟩ := size_of_accepted accepted
  obtain ⟨Q₁, fills, before, b₁, matches_, matched⟩ := matchOrder_matched rep order.side order.price
    order.quantity cid 64
  obtain ⟨executed, index⟩ := outcome_of_match ts registered accepted matches_
  obtain ⟨meets, whole, freed, idle⟩ := matchOrder_offered rep wanted (by decide) matches_
  have place := rests_iff ts rep matched
  change order.quantity ≤ filledQty fills ↔ _ at whole
  change fills ≠ [] → filledQty fills < order.quantity → _ at freed
  have filled : filledQty fills ≤ max order.quantity 0 := matched.filled
  have traded : 0 < filledQty fills ↔ Meets e.book order.side order.price := by
    rw [← meets]
    constructor
    · rintro some_fill rfl
      exact absurd some_fill (lt_irrefl 0)
    · intro some_fill
      have long := length_le_filledQty matched.positive
      have first := List.length_pos_iff.mpr some_fill
      omega
  rw [Answered, or_iff_right (not_not.mpr accepted), index, ToRest, executed, ← traded, ← whole]
  by_cases limit : order.orderType = .limit
  swap
  · rw [if_neg (fun both => limit both.2)]
    simp [limit]
  simp only [limit, ne_eq, not_true_eq_false, false_and, true_and, false_or, and_true]
  by_cases rest : order.quantity - filledQty fills > 0
  · -- Something is left: it rests, or nothing tells of the order.
    have short : ¬ order.quantity ≤ filledQty fills := by omega
    rw [if_pos rest, ← ne_eq, place, or_iff_left (fun ended => ended.2 rest), or_iff_left short]
    refine and_congr_left fun _ => ?_
    by_cases none : fills = []
    · have nothing : filledQty fills = 0 := by rw [none]; rfl
      rw [idle none, nothing, or_iff_left (lt_irrefl 0), Nat.pos_iff_ne_zero]
    · have some_fill := traded.mpr (meets.mp none)
      exact iff_of_true (freed none (by omega)) (.inr some_fill)
  · have full : order.quantity ≤ filledQty fills := by omega
    rw [if_neg rest]
    exact iff_of_true (.inr ⟨by omega, rest⟩) ⟨.inr (by omega), .inr full⟩

theorem processOrder_ackedOnce {Q : Queues} (rep : Rep e.book Q)
    (bounded : e.outboundTail < 4294967296) (registered : cid < e.contestants.count)
    (returns : e.processOrder cid order ts = some e') :
    AckedOnce e e' cid order ts ↔ Answered e cid order := by
  rw [MatchEngine.processOrder, if_neg (Nat.not_le.mpr registered)] at returns
  cases rejection : e.orderRejection cid order with
  | none =>
    rw [rejection] at returns
    exact (executed_ackedOnce bounded registered rejection returns).trans
      (answered_iff rep registered rejection)
  | some status =>
    rw [rejection] at returns
    cases returns
    refine ⟨fun _ => .inl ?_, fun _ => rejected_ackedOnce bounded rejection⟩
    rw [rejection]
    exact Option.some_ne_none status

end Orders

section Runs

variable (cfg : MatchEngineConfig) (nextTick : G → Nat → MarketUpdate × G) (gen : G)

theorem run_tail_bounded {ops : List EngineOp} {e : MatchEngine G}
    (returns : run (EngineOp.apply nextTick) (MatchEngine.init cfg gen) ops = some e) :
    e.outboundTail < 4294967296 := by
  let Bounded (e : MatchEngine G) : Prop := e.outboundTail < 4294967296
  suffices keep : ∀ e op e', Bounded e → True → EngineOp.apply nextTick e op = some e' → Bounded e' from
    run_keeps keep (show 0 < 4294967296 by decide) (obeys_of_forall (fun _ _ => trivial) _ ops) returns
  intro e op e' bounded _ move
  by_cases pop : op = .popOutbound
  · subst pop
    cases move
    show e.popOutbound.2.outboundTail < 4294967296
    rw [MatchEngine.popOutbound]
    split_ifs
    · exact bounded
    · exact bounded
  · obtain ⟨msgs, sends, -⟩ := apply_sends nextTick bounded pop move
    exact sends.bounded

end Runs

def openingRun : List EngineOp :=
  [.registerContestant 0, .registerContestant 0, .processOrder 0 ⟨.buy, .limit, 7, 100, 5⟩ 0,
    .processOrder 0 ⟨.buy, .limit, 8, 90, 5⟩ 0]

end HftGrading.Exchange.Engine.Acknowledgements
