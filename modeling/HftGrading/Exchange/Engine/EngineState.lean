/- module: HftGrading/Exchange/Engine/EngineState
   source: exchange/include/exchange/match_engine.hpp
   digest: The exchange engine: orders, cancels and ticks over one book, with positions and outbound messages. -/

import HftGrading.Exchange.Book.LimitBook
import HftGrading.Lib.ProbeWindow

set_option autoImplicit false
set_option relaxedAutoImplicit false

namespace HftGrading.Exchange.Engine.EngineState

open Function (update)
open Lib WireProtocol Book.PriceMap Book.LimitBook
open Book.LimitBook.OrderBook (MatchResult)

/-- Per-contestant arrays; the heartbeat times, which nothing reads, are left out. -/
structure ContestantState where
  position : Nat → Int
  realizedPnl : Nat → Int
  avgEntry : Nat → Int
  cash : Nat → Int
  orderCount : Nat → Nat
  totalFills : Nat → Nat
  totalOrders : Nat → Nat
  connected : Nat → Bool
  count : Nat

namespace ContestantState

def init : ContestantState where
  position := fun _ => 0
  realizedPnl := fun _ => 0
  avgEntry := fun _ => 0
  cash := fun _ => 0
  orderCount := fun _ => 0
  totalFills := fun _ => 0
  totalOrders := fun _ => 0
  connected := fun _ => false
  count := 0

def closingPnl (oldPos signedQty avgEntry price : Int) : Int :=
  if (oldPos > 0 ∧ signedQty < 0) ∨ (oldPos < 0 ∧ signedQty > 0) then
    let closeQty := if signedQty > 0 then min signedQty (wrap32 (-oldPos))
      else max signedQty (wrap32 (-oldPos))
    let absClose := if closeQty ≥ 0 then closeQty else wrap32 (-closeQty)
    if oldPos > 0 then absClose * (price - avgEntry) else absClose * (avgEntry - price)
  else 0

def nextEntry (oldPos signedQty avgEntry price : Int) : Int :=
  if (oldPos ≥ 0 ∧ signedQty > 0) ∨ (oldPos ≤ 0 ∧ signedQty < 0) then
    let absOld := if oldPos ≥ 0 then oldPos else wrap32 (-oldPos)
    let absNew := if signedQty ≥ 0 then signedQty else wrap32 (-signedQty)
    let total := wrap32 (absOld + absNew)
    if total > 0 then (wrap64 (wrap64 (avgEntry * absOld) + wrap64 (price * absNew))).tdiv total
    else avgEntry
  else avgEntry

def applyFill (c : ContestantState) (cid : Nat) (side : Side) (price qty : Int) : ContestantState :=
  let signedQty := match side with
    | .buy => qty
    | .sell => -qty
  let oldPos := c.position cid
  { c with
    realizedPnl := update c.realizedPnl cid
      (wrap64 (c.realizedPnl cid + closingPnl oldPos signedQty (c.avgEntry cid) price))
    avgEntry := update c.avgEntry cid (nextEntry oldPos signedQty (c.avgEntry cid) price)
    position := update c.position cid (wrap32 (oldPos + signedQty))
    totalFills := update c.totalFills cid (succ32 (c.totalFills cid)) }

def signedQty : Side → Int → Int
  | .buy, qty => qty
  | .sell, qty => -qty

theorem signedQty_zero (s : Side) : signedQty s 0 = 0 := by cases s <;> rfl

theorem signedQty_add (s : Side) (p q : Int) :
    signedQty s (p + q) = signedQty s p + signedQty s q := by
  cases s
  · rfl
  · exact Int.neg_add

theorem signedQty_contra (s : Side) (q : Int) : signedQty s.contra q = -signedQty s q := by
  cases s
  · rfl
  · exact (Int.neg_neg q).symm

theorem applyFill_eq (c : ContestantState) (cid : Nat) (side : Side) (price qty : Int) :
    c.applyFill cid side price qty = { c with
      realizedPnl := update c.realizedPnl cid (wrap64 (c.realizedPnl cid +
        closingPnl (c.position cid) (signedQty side qty) (c.avgEntry cid) price))
      avgEntry := update c.avgEntry cid
        (nextEntry (c.position cid) (signedQty side qty) (c.avgEntry cid) price)
      position := update c.position cid (wrap32 (c.position cid + signedQty side qty))
      totalFills := update c.totalFills cid (succ32 (c.totalFills cid)) } := by
  cases side <;> rfl

def unrealizedPnl (c : ContestantState) (cid : Nat) (midPrice : Int) : Int :=
  if c.position cid = 0 then 0
  else if c.position cid > 0 then wrap64 (c.position cid * (midPrice - c.avgEntry cid))
  else wrap64 (wrap32 (-c.position cid) * (c.avgEntry cid - midPrice))

def totalPnl (c : ContestantState) (cid : Nat) (midPrice : Int) : Int :=
  wrap64 (c.realizedPnl cid + c.unrealizedPnl cid midPrice)

end ContestantState

/-- The limits `process_order` checks, and what `register_contestant` is given;
the timing fields, which the engine does not read, are left out. -/
structure MatchEngineConfig where
  maxPosition : Int
  maxOrderSize : Int
  initialCash : Int
  deriving DecidableEq, Repr

def MatchEngineConfig.default : MatchEngineConfig where
  maxPosition := 100
  maxOrderSize := 50
  initialCash := 10000000

def outboundQueueSize : Nat := 4096

structure OutboundMsg where
  message : Message
  contestantId : Nat
  deriving DecidableEq, Repr

abbrev CancelMap := ProbeWindow.Cells Nat Nat

def cancelMapSize : Nat := 65536

def makeCancelKey (cid : Nat) (clientOid : UInt32) : Nat := (cid <<< 32) ||| clientOid.toNat

def cancelSlot (key : Nat) : Nat := ((key * 0x9E3779B97F4A7C15 % 2 ^ 64) >>> 48) &&& (cancelMapSize - 1)

def cancelWindow (key : Nat) : List Nat :=
  (List.range 64).map (fun i => (cancelSlot key + i) &&& (cancelMapSize - 1))

def cancelMapInit : CancelMap := ⟨fun _ => 0, fun _ => nullIndex⟩

def cancelMapInsert (m : CancelMap) (key poolIdx : Nat) : CancelMap :=
  ProbeWindow.insert 0 nullIndex m key poolIdx (cancelWindow key)

def cancelMapLookup (m : CancelMap) (key : Nat) : Nat :=
  ProbeWindow.lookup 0 nullIndex m key (cancelWindow key)

def cancelMapRemove (m : CancelMap) (key : Nat) : CancelMap :=
  ProbeWindow.remove 0 nullIndex m key (cancelWindow key)

/-- The engine over a market data generator of type `G`. -/
structure MatchEngine (G : Type) where
  cfg : MatchEngineConfig
  book : OrderBook
  contestants : ContestantState
  marketGen : G
  outbound : Nat → OutboundMsg
  outboundHead : Nat
  outboundTail : Nat
  lastTradePrice : Int
  lastTradeQty : Int
  tickCount : Nat
  cancelMap : CancelMap

namespace MatchEngine

variable {G : Type}

def blankMsg : OutboundMsg := ⟨.orderAck ⟨.accepted, 0, 0, 0, 0⟩, 0⟩

def init (cfg : MatchEngineConfig) (marketGen : G) : MatchEngine G where
  cfg := cfg
  book := OrderBook.init
  contestants := ContestantState.init
  marketGen := marketGen
  outbound := fun _ => blankMsg
  outboundHead := 0
  outboundTail := 0
  lastTradePrice := 0
  lastTradeQty := 0
  tickCount := 0
  cancelMap := cancelMapInit

def registerContestant (e : MatchEngine G) (initialCash : Int) : Nat × MatchEngine G :=
  let cid := e.contestants.count
  (cid, { e with
    contestants := { e.contestants with
      count := succ32 cid
      cash := update e.contestants.cash cid initialCash
      connected := update e.contestants.connected cid true } })

def enqueueOutbound (e : MatchEngine G) (cid : Nat) (message : Message) : MatchEngine G :=
  { e with
    outbound := update e.outbound (e.outboundTail % outboundQueueSize) ⟨message, cid⟩
    outboundTail := succ32 e.outboundTail }

def popOutbound (e : MatchEngine G) : Option OutboundMsg × MatchEngine G :=
  if e.outboundHead = e.outboundTail then (none, e)
  else (some (e.outbound (e.outboundHead % outboundQueueSize)),
    { e with outboundHead := succ32 e.outboundHead })

def sendAck (e : MatchEngine G) (cid : Nat) (clientOid : UInt32) (status : AckStatus)
    (exchangeOid : Nat) (price qty : Int) : MatchEngine G :=
  e.enqueueOutbound cid (.orderAck ⟨status, clientOid, exchangeOid, price, qty⟩)

/-- `send_fill` asks for both best prices first; the mid price it forms of them
goes nowhere, but the searches refresh the caches of the book. -/
def sendFill (e : MatchEngine G) (cid : Nat) (clientOid : UInt32) (exchangeOid : Nat) (side : Side)
    (price qty remaining : Int) (ts : Nat) : MatchEngine G :=
  let e := { e with book := e.book.bestBidPrice.2.bestAskPrice.2 }
  e.enqueueOutbound cid (.fill ⟨side, clientOid, exchangeOid, price, qty, remaining,
    e.contestants.realizedPnl cid, ts⟩)

/-- The rejections of `process_order`, in the order of its checks. -/
def orderRejection (e : MatchEngine G) (contestantId : Nat) (order : OrderEntry) :
    Option AckStatus :=
  if order.quantity ≤ 0 ∨ order.quantity > e.cfg.maxOrderSize then some .rejectedSize
  else if order.side = .buy ∧
      wrap32 (e.contestants.position contestantId + order.quantity) > e.cfg.maxPosition then
    some .rejectedRisk
  else if order.side = .sell ∧
      wrap32 (e.contestants.position contestantId - order.quantity) < -e.cfg.maxPosition then
    some .rejectedRisk
  else none

/-- One round of the fill loop; the second component is `filled_qty`. -/
def settleFill (contestantId : Nat) (order : OrderEntry) (timestampNs : Nat)
    (acc : MatchEngine G × Int) (f : MatchResult) : MatchEngine G × Int :=
  let (e, filledQty) := acc
  let maker := e.book.pool.orders f.makerIdx
  let contestants := e.contestants.applyFill maker.contestantId maker.side f.fillPrice f.fillQty
  let contestants := contestants.applyFill contestantId order.side f.fillPrice f.fillQty
  let e := { e with contestants := contestants }
  let e := e.sendFill maker.contestantId maker.clientOrderId maker.exchangeId maker.side
    f.fillPrice f.fillQty maker.remainingQty timestampNs
  let e := e.sendFill contestantId order.clientOrderId 0 order.side f.fillPrice f.fillQty
    (order.quantity - filledQty - f.fillQty) timestampNs
  ({ e with lastTradePrice := f.fillPrice, lastTradeQty := f.fillQty }, filledQty + f.fillQty)

/-- The registration of an order that has come to rest at `oidx`. -/
def acceptResting (e : MatchEngine G) (contestantId : Nat) (order : OrderEntry) (remaining : Int)
    (oidx : Nat) : MatchEngine G :=
  let e := e.sendAck contestantId order.clientOrderId .accepted
    (e.book.pool.orders oidx).exchangeId order.price remaining
  { e with
    contestants := { e.contestants with
      orderCount := update e.contestants.orderCount contestantId
        (succ32 (e.contestants.orderCount contestantId)) }
    cancelMap := cancelMapInsert e.cancelMap (makeCancelKey contestantId order.clientOrderId) oidx }

/-- The end of `process_order`: a remainder of a limit order rests. -/
def restRemainder (e : MatchEngine G) (contestantId : Nat) (order : OrderEntry) (filledQty : Int)
    (timestampNs : Nat) : Option (MatchEngine G) :=
  let remaining := order.quantity - filledQty
  if remaining > 0 ∧ order.orderType = .limit then
    (e.book.addOrder contestantId order.clientOrderId order.side order.price remaining
      timestampNs).map (fun (oidx, book) =>
        if oidx ≠ nullIndex then
          acceptResting { e with book := book } contestantId order remaining oidx
        else { e with book := book })
  else if filledQty > 0 then
    some (e.sendAck contestantId order.clientOrderId .accepted 0 order.price filledQty)
  else some e

def executeOrder (e : MatchEngine G) (contestantId : Nat) (order : OrderEntry) (timestampNs : Nat) :
    Option (MatchEngine G) := do
  let (fills, book) ← e.book.matchOrder order.side order.price order.quantity contestantId 64
  let counted := { e with
    book := book
    contestants := { e.contestants with
      totalOrders := update e.contestants.totalOrders contestantId
        (succ32 (e.contestants.totalOrders contestantId)) } }
  let settled := fills.foldl (settleFill contestantId order timestampNs) (counted, 0)
  settled.1.restRemainder contestantId order settled.2 timestampNs

def processOrder (e : MatchEngine G) (contestantId : Nat) (order : OrderEntry) (timestampNs : Nat) :
    Option (MatchEngine G) :=
  if contestantId ≥ e.contestants.count then some e
  else match e.orderRejection contestantId order with
    | some status =>
      some (e.sendAck contestantId order.clientOrderId status 0 order.price order.quantity)
    | none => e.executeOrder contestantId order timestampNs

/-- The ownership check of `process_cancel`. -/
def cancellable (e : MatchEngine G) (contestantId orderIdx : Nat) : Prop :=
  orderIdx ≠ nullIndex ∧ (e.book.pool.orders orderIdx).contestantId = contestantId ∧
    (e.book.pool.orders orderIdx).remainingQty > 0

instance (e : MatchEngine G) (contestantId orderIdx : Nat) :
    Decidable (e.cancellable contestantId orderIdx) := by
  unfold cancellable
  infer_instance

def processCancel (e : MatchEngine G) (contestantId : Nat) (cancel : CancelRequest)
    (timestampNs : Nat) : Option (MatchEngine G) :=
  let lookupKey := makeCancelKey contestantId cancel.clientOrderId
  let orderIdx := cancelMapLookup e.cancelMap lookupKey
  if e.cancellable contestantId orderIdx then
    (e.book.cancelOrder orderIdx).map (fun (_, book) =>
      { e with
        book := book
        cancelMap := cancelMapRemove e.cancelMap lookupKey
        contestants := { e.contestants with
          orderCount := update e.contestants.orderCount contestantId
            (pred32 (e.contestants.orderCount contestantId)) } }.enqueueOutbound contestantId
        (.cancelAck ⟨.cancelled, cancel.clientOrderId, timestampNs⟩))
  else
    some (e.enqueueOutbound contestantId
      (.cancelAck ⟨.rejectedUnknown, cancel.clientOrderId, timestampNs⟩))

/-- `generate_tick`, over the generator's own step. -/
def generateTick (nextTick : G → Nat → MarketUpdate × G) (e : MatchEngine G) (timestampNs : Nat) :
    MarketUpdate × MatchEngine G :=
  let (tick, gen) := nextTick e.marketGen timestampNs
  let (bb, book) := e.book.bestBidPrice
  let (ba, book) := book.bestAskPrice
  let (bidQty, book) := if bb > 0 then book.bestBidQty else (tick.bestBidQty, book)
  let (askQty, book) := if ba > 0 then book.bestAskQty else (tick.bestAskQty, book)
  ({ tick with
      bestBidPrice := if bb > 0 then bb else tick.bestBidPrice
      bestAskPrice := if ba > 0 then ba else tick.bestAskPrice
      bestBidQty := bidQty
      bestAskQty := askQty
      lastTradePrice := if e.lastTradePrice > 0 then e.lastTradePrice else tick.lastTradePrice
      lastTradeQty := if e.lastTradePrice > 0 then e.lastTradeQty else tick.lastTradeQty },
    { e with book := book, marketGen := gen, tickCount := e.tickCount + 1 })

/-- `make_session_end`, over the generator's last update; it marks to the middle
of the book where that is positive. -/
def makeSessionEnd (lastUpdate : G → MarketUpdate) (e : MatchEngine G) (cid ts : Nat) :
    SessionEnd × MatchEngine G :=
  let (bb, book) := e.book.bestBidPrice
  let (ba, book) := book.bestAskPrice
  let middle := (wrap64 (bb + ba)).tdiv 2
  let mid := if middle ≤ 0 then (lastUpdate e.marketGen).lastTradePrice else middle
  (⟨e.contestants.totalFills cid, e.contestants.totalPnl cid mid, e.contestants.position cid,
      e.contestants.totalOrders cid, ts⟩, { e with book := book })

end MatchEngine

end HftGrading.Exchange.Engine.EngineState
