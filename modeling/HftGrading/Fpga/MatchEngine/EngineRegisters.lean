/- module: HftGrading/Fpga/MatchEngine/EngineRegisters
   source: fpga/rtl/match_engine_fpga.sv
   digest: The registers, the wires and the clock edge of the hardware matching engine. -/

import HftGrading.Fpga.IicpcPkg

set_option autoImplicit false
set_option relaxedAutoImplicit false

namespace HftGrading.Fpga.MatchEngine.EngineRegisters

open Function (update)
open IicpcPkg

abbrev Price := BitVec 64
abbrev Quantity := BitVec 32
abbrev OrderId := BitVec 32
abbrev ContestantId := BitVec 8

def maxOrders : Nat := 16384

abbrev Slot := BitVec 14

abbrev MapSet := BitVec 12

/-- The `in_*` fields of a message. The `s2_*` registers hold one too; there `quantity` is
`s2_remaining_qty`. -/
structure Message where
  msgType : BitVec 8
  contestantId : ContestantId
  side : BitVec 8
  orderType : BitVec 8
  clientOrderId : OrderId
  price : Price
  quantity : Quantity
  sequenceNo : BitVec 64
  deriving DecidableEq, Repr

structure Inputs where
  inValid : Bool
  message : Message
  fillReady : Bool
  ackReady : Bool
  deriving DecidableEq, Repr

structure Fill where
  aggressorOid : OrderId
  passiveOid : OrderId
  aggressorCid : ContestantId
  passiveCid : ContestantId
  price : Price
  qty : Quantity
  aggressorSide : BitVec 8
  deriving DecidableEq, Repr

structure Ack where
  clientOrderId : OrderId
  contestantId : ContestantId
  status : BitVec 8
  deriving DecidableEq, Repr

/-- A word of `order_pool`; its low 96 bits are zero. -/
structure PoolEntry where
  price : Price
  qty : Quantity
  deriving DecidableEq, Repr

structure Bbo where
  price : Price
  qty : Quantity
  head : Slot
  valid : Bool
  deriving DecidableEq, Repr

structure CancelWay where
  val : MapSet → Slot
  tag : MapSet → OrderId
  v : MapSet → Bool

structure Book where
  orderPool : Slot → PoolEntry
  freeStack : Slot → Slot
  freeTop : Slot
  bid : Bbo
  ask : Bbo
  way0 : CancelWay
  way1 : CancelWay

/-- `s2_match_price`, `s2_match_qty` and `s2_match_cursor`. -/
structure SweepMatch where
  price : Price
  qty : Quantity
  cursor : Slot
  deriving DecidableEq, Repr

structure Stats where
  totalOrders : BitVec 32
  totalFills : BitVec 32
  totalCancels : BitVec 32
  restingOrders : BitVec 32
  bidLevels : BitVec 32
  askLevels : BitVec 32
  deriving DecidableEq, Repr

inductive S2State
  | idle | execute | crossing | fillOut
  deriving DecidableEq, Repr

structure Regs where
  book : Book
  sweep : SweepMatch
  s2State : S2State
  s2Valid : Bool
  s2 : Message
  s2IsCrossing : Bool
  s2SweepDepth : BitVec 5
  fillValid : Bool
  fill : Fill
  ackValid : Bool
  ack : Ack
  stats : Stats

def cancelHash (oid : OrderId) : MapSet := ((oid * 0x9E3779B9#32) >>> 20).setWidth 12

/-- The asynchronous reset. What it does not write keeps the contents of `u`. -/
def reset (u : Regs) : Regs :=
  { u with
    book := { u.book with
      freeStack := fun slot => slot
      freeTop := 0
      bid := { u.book.bid with price := 0, qty := 0, valid := false }
      ask := { u.book.ask with price := BitVec.allOnes 64, qty := 0, valid := false }
      way0 := { u.book.way0 with v := fun _ => false }
      way1 := { u.book.way1 with v := fun _ => false } }
    s2State := .idle
    s2Valid := false
    s2IsCrossing := false
    s2SweepDepth := 0
    fillValid := false
    ackValid := false
    stats := ⟨0, 0, 0, 0, 0, 0⟩ }

section Wires

variable (r : Regs)

def s2DoingInsert : Bool :=
  r.s2Valid && r.s2State == .execute && r.s2.msgType == msgOrderEntry && !r.s2IsCrossing &&
    r.s2.orderType == orderLimit && decide (0 < r.s2.quantity)

def s2InsertImprovesBid : Bool :=
  s2DoingInsert r && r.s2.side == sideBuy &&
    (!r.book.bid.valid || decide (r.s2.price > r.book.bid.price))

def s2InsertAtBid : Bool :=
  s2DoingInsert r && r.s2.side == sideBuy && r.book.bid.valid && r.s2.price == r.book.bid.price

def s2InsertImprovesAsk : Bool :=
  s2DoingInsert r && r.s2.side == sideSell &&
    (!r.book.ask.valid || decide (r.s2.price < r.book.ask.price))

def s2InsertAtAsk : Bool :=
  s2DoingInsert r && r.s2.side == sideSell && r.book.ask.valid && r.s2.price == r.book.ask.price

def s2DoingFill : Bool := r.s2Valid && r.s2State == .crossing

def s2FillExhaustsAsk : Bool :=
  s2DoingFill r && r.s2.side == sideBuy && decide (r.book.ask.qty ≤ r.sweep.qty)

def s2FillExhaustsBid : Bool :=
  s2DoingFill r && r.s2.side == sideSell && decide (r.book.bid.qty ≤ r.sweep.qty)

def fwdBestBidPrice : Price :=
  if s2InsertImprovesBid r then r.s2.price else r.book.bid.price

def fwdBestBidQty : Quantity :=
  if s2InsertImprovesBid r then r.s2.quantity
  else if s2InsertAtBid r then r.book.bid.qty + r.s2.quantity
  else if s2FillExhaustsBid r then 0
  else if s2DoingFill r && r.s2.side == sideSell then r.book.bid.qty - r.sweep.qty
  else r.book.bid.qty

def fwdBidValid : Bool :=
  if s2InsertImprovesBid r then true
  else if s2FillExhaustsBid r then false
  else r.book.bid.valid

def fwdBestAskPrice : Price :=
  if s2InsertImprovesAsk r then r.s2.price else r.book.ask.price

def fwdBestAskQty : Quantity :=
  if s2InsertImprovesAsk r then r.s2.quantity
  else if s2InsertAtAsk r then r.book.ask.qty + r.s2.quantity
  else if s2FillExhaustsAsk r then 0
  else if s2DoingFill r && r.s2.side == sideBuy then r.book.ask.qty - r.sweep.qty
  else r.book.ask.qty

def fwdAskValid : Bool :=
  if s2InsertImprovesAsk r then true
  else if s2FillExhaustsAsk r then false
  else r.book.ask.valid

variable (i : Inputs)

def s1CanMatchBid : Bool :=
  i.message.side == sideBuy && fwdAskValid r && decide (i.message.price ≥ fwdBestAskPrice r)

def s1CanMatchAsk : Bool :=
  i.message.side == sideSell && fwdBidValid r &&
    (decide (i.message.price ≤ fwdBestBidPrice r) || i.message.orderType == orderMarket)

def s1IsCrossing : Bool :=
  i.inValid && i.message.msgType == msgOrderEntry && (s1CanMatchBid r i || s1CanMatchAsk r i)

def outputStall : Bool := r.fillValid && !i.fillReady || r.ackValid && !i.ackReady

def s2CompletesThisCycle : Bool := r.s2State == .execute && !outputStall r i

def inReady : Bool := !outputStall r i && (r.s2State == .idle || s2CompletesThisCycle r i)

def accept : Bool := i.inValid && inReady r i

end Wires

namespace CancelWay

variable (w : CancelWay) (oid : OrderId)

def holds : Bool := w.v (cancelHash oid) && w.tag (cancelHash oid) == oid

def clear : CancelWay := { w with v := update w.v (cancelHash oid) false }

def rename (slot : Slot) : CancelWay :=
  { w with val := update w.val (cancelHash oid) slot, tag := update w.tag (cancelHash oid) oid }

def register (slot : Slot) : CancelWay :=
  { w.rename oid slot with v := update w.v (cancelHash oid) true }

end CancelWay

/-- The BBO registers of a side once an order rests there; `better` compares its price with
the best one. -/
def Bbo.join (better : Price → Price → Bool) (best : Bbo) (price : Price) (qty : Quantity)
    (slot : Slot) : Bbo :=
  if !best.valid || better price best.price then ⟨price, qty, slot, true⟩
  else if price = best.price then { best with qty := best.qty + qty }
  else best

def Bbo.joinBid (best : Bbo) : Price → Quantity → Slot → Bbo :=
  best.join (fun price bestPrice => decide (price > bestPrice))

def Bbo.joinAsk (best : Bbo) : Price → Quantity → Slot → Bbo :=
  best.join (fun price bestPrice => decide (price < bestPrice))

def Bbo.spend (best : Bbo) (qty : Quantity) : Bbo :=
  { best with qty := best.qty - qty, valid := if best.qty ≤ qty then false else best.valid }

namespace Book

variable (b : Book) (m : Message)

def holdsId (oid : OrderId) : Bool := b.way0.holds oid || b.way1.holds oid

def cancelOrder (oid : OrderId) : Book :=
  if b.way0.holds oid then { b with way0 := b.way0.clear oid }
  else if b.way1.holds oid then { b with way1 := b.way1.clear oid }
  else b

def nextSlot : Slot := b.freeStack b.freeTop

def hasSlot : Bool := decide ((b.freeTop.setWidth 15).toNat < maxOrders)

def registerId (oid : OrderId) : Book :=
  if !b.way0.v (cancelHash oid) then { b with way0 := b.way0.register oid b.nextSlot }
  else if !b.way1.v (cancelHash oid) then { b with way1 := b.way1.register oid b.nextSlot }
  else { b with way0 := b.way0.rename oid b.nextSlot }

/-- The BBO update of the insert path; a side that is not `SIDE_BUY` is a sell. -/
def joinBest : Book :=
  if m.side = sideBuy then { b with bid := b.bid.joinBid m.price m.quantity b.nextSlot }
  else { b with ask := b.ask.joinAsk m.price m.quantity b.nextSlot }

def insertOrder : Book :=
  if b.hasSlot then
    { (b.registerId m.clientOrderId).joinBest m with
      orderPool := update b.orderPool b.nextSlot ⟨m.price, m.quantity⟩
      freeTop := b.freeTop + 1 }
  else b

def spendBest (side : BitVec 8) (qty : Quantity) : Book :=
  if side = sideBuy then { b with ask := b.ask.spend qty }
  else { b with bid := b.bid.spend qty }

end Book

def Message.rests (m : Message) : Bool := m.orderType == orderLimit && decide (0 < m.quantity)

def executeBook (m : Message) (b : Book) : Book :=
  if m.msgType = msgCancelReq then b.cancelOrder m.clientOrderId
  else if m.rests then b.insertOrder m
  else b

def executeAck (m : Message) (b : Book) : Ack :=
  ⟨m.clientOrderId, m.contestantId,
    if m.msgType = msgCancelReq then
      if b.holdsId m.clientOrderId then ackCancelled else ackRejectedUnknown
    else ackAccepted⟩

def executeStats (m : Message) (b : Book) (s : Stats) : Stats :=
  if m.msgType = msgCancelReq then
    if b.holdsId m.clientOrderId then { s with restingOrders := s.restingOrders - 1 } else s
  else if m.rests && b.hasSlot then { s with restingOrders := s.restingOrders + 1 }
  else s

def fillOf (m : Message) (sweep : SweepMatch) : Fill where
  aggressorOid := m.clientOrderId
  passiveOid := sweep.cursor.setWidth 32
  aggressorCid := m.contestantId
  passiveCid := 0
  price := sweep.price
  qty := sweep.qty
  aggressorSide := m.side

def matchOf (m : Message) (best : Bbo) : SweepMatch :=
  ⟨best.price, if m.quantity < best.qty then m.quantity else best.qty, best.head⟩

namespace Regs

variable (r : Regs) (i : Inputs)

def deassert : Regs :=
  { r with
    fillValid := if i.fillReady then false else r.fillValid
    ackValid := if i.ackReady then false else r.ackValid }

/-- Latch the input; `before` has the wires of this cycle. -/
def latch (before : Regs) : Regs :=
  { r with
    s2Valid := true
    s2 := i.message
    s2IsCrossing := s1IsCrossing before i
    s2SweepDepth := 0
    stats :=
      if i.message.msgType = msgOrderEntry then
        { r.stats with totalOrders := r.stats.totalOrders + 1 }
      else if i.message.msgType = msgCancelReq then
        { r.stats with totalCancels := r.stats.totalCancels + 1 }
      else r.stats
    s2State := if s1IsCrossing before i then .crossing else .execute }

/-- `S2_EXECUTE` up to the acceptance of the next message. -/
def execute : Regs :=
  { r with
    book := executeBook r.s2 r.book
    stats := executeStats r.s2 r.book r.stats
    ackValid := true
    ack := executeAck r.s2 r.book }

def empty : Regs := { r with s2Valid := false, s2State := .idle }

def endSweep : Regs := { r with s2IsCrossing := false, s2State := .execute }

def beginFill (best : Bbo) : Regs :=
  { r with sweep := matchOf r.s2 best, s2State := .fillOut }

def crossing : Regs :=
  if 0 < r.s2.quantity ∧ r.s2SweepDepth.toNat < maxSweepDepth then
    if r.s2.side = sideBuy then
      if fwdAskValid r && decide (r.s2.price ≥ fwdBestAskPrice r) then r.beginFill r.book.ask
      else r.endSweep
    else
      if fwdBidValid r &&
          (decide (r.s2.price ≤ fwdBestBidPrice r) || r.s2.orderType == orderMarket) then
        r.beginFill r.book.bid
      else r.endSweep
  else r.endSweep

def fillOut : Regs :=
  let filled := { r with
    fillValid := true
    fill := fillOf r.s2 r.sweep
    s2 := { r.s2 with quantity := r.s2.quantity - r.sweep.qty }
    book := r.book.spendBest r.s2.side r.sweep.qty
    stats := { r.stats with
      totalFills := r.stats.totalFills + 1
      restingOrders := r.stats.restingOrders - 1 }
    s2SweepDepth := r.s2SweepDepth + 1 }
  if 0 < r.s2.quantity - r.sweep.qty then { filled with s2State := .crossing }
  else { filled with s2IsCrossing := false, s2State := .execute }

def cycle : Regs :=
  match r.s2State with
  | .idle => if accept r i then (r.deassert i).latch i r else r.deassert i
  | .execute =>
    if accept r i then (r.deassert i).execute.latch i r else (r.deassert i).execute.empty
  | .crossing => (r.deassert i).crossing
  | .fillOut => (r.deassert i).fillOut

end Regs

end HftGrading.Fpga.MatchEngine.EngineRegisters
