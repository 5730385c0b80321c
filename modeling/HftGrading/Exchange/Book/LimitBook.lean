/- module: HftGrading/Exchange/Book/LimitBook
   source: exchange/include/exchange/orderbook.hpp
   digest: Price levels, order pool and the price-time limit order book, operation by operation. -/

import HftGrading.Exchange.WireProtocol
import HftGrading.Exchange.Book.PriceMap
import HftGrading.Lib.IntrusiveList

set_option autoImplicit false
set_option relaxedAutoImplicit false

namespace HftGrading.Exchange.Book.LimitBook

open Function (update)
open Lib.PartialExecution (loop)
open Lib.IntrusiveList (walk)
open WireProtocol PriceMap

def better : Side → Int → Int → Prop
  | .buy, p, q => q < p
  | .sell, p, q => p < q

instance (side : Side) (p q : Int) : Decidable (better side p q) :=
  match side with
  | .buy => inferInstanceAs (Decidable (q < p))
  | .sell => inferInstanceAs (Decidable (p < q))

/-- The price a scan for the best level starts from: `INT64_MIN` for bids,
`INT64_MAX` for asks. -/
def scanStart : Side → Int
  | .buy => int64Min
  | .sell => int64Max

structure PriceLevelPool where
  prices : Nat → Int
  totalQty : Nat → Int
  orderCount : Nat → Nat
  head : Nat → Nat
  tail : Nat → Nat
  active : Nat → Bool
  count : Nat
  capacity : Nat
  priceMap : PriceHashMap
  bestIdx : Nat

namespace PriceLevelPool

def init (cap : Nat) : PriceLevelPool where
  prices _ := 0
  totalQty _ := 0
  orderCount _ := 0
  head _ := nullIndex
  tail _ := nullIndex
  active _ := false
  count := 0
  capacity := cap
  priceMap := PriceHashMap.clear
  bestIdx := nullIndex

/-- The block of `find_or_create` that opens level `count`, before its map entry. -/
def openLevel (L : PriceLevelPool) (price : Int) : PriceLevelPool :=
  { L with
    prices := update L.prices L.count price
    totalQty := update L.totalQty L.count 0
    orderCount := update L.orderCount L.count 0
    head := update L.head L.count nullIndex
    tail := update L.tail L.count nullIndex
    active := update L.active L.count true
    count := L.count + 1 }

def findOrCreate (L : PriceLevelPool) (price : Int) : Option (Nat × PriceLevelPool) := do
  let existing ← L.priceMap.find price
  if existing ≠ nullIndex ∧ L.active existing = true then return (existing, L)
  if L.capacity ≤ L.count then return (nullIndex, L)
  let map ← L.priceMap.insert price L.count
  return (L.count, { L.openLevel price with priceMap := map })

def scanRound (side : Side) (L : PriceLevelPool) (best : Nat × Int) (i : Nat) : Nat × Int :=
  if L.active i = true ∧ 0 < L.totalQty i ∧ better side (L.prices i) best.2 then (i, L.prices i)
  else best

def rebuildBest (side : Side) (L : PriceLevelPool) : Nat × PriceLevelPool :=
  let best := ((List.range L.count).foldl (scanRound side L) (nullIndex, scanStart side)).1
  (best, { L with bestIdx := best })

def rebuildBestBid : PriceLevelPool → Nat × PriceLevelPool := rebuildBest .buy

def rebuildBestAsk : PriceLevelPool → Nat × PriceLevelPool := rebuildBest .sell

def findBest (side : Side) (L : PriceLevelPool) : Nat × PriceLevelPool :=
  if L.bestIdx ≠ nullIndex ∧ L.active L.bestIdx = true ∧ 0 < L.totalQty L.bestIdx then
    (L.bestIdx, L)
  else rebuildBest side L

def findBestBid : PriceLevelPool → Nat × PriceLevelPool := findBest .buy

def findBestAsk : PriceLevelPool → Nat × PriceLevelPool := findBest .sell

def updateBest (side : Side) (L : PriceLevelPool) (newIdx : Nat) : PriceLevelPool :=
  if L.bestIdx = nullIndex ∨ better side (L.prices newIdx) (L.prices L.bestIdx) then
    { L with bestIdx := newIdx }
  else L

def updateBestBid : PriceLevelPool → Nat → PriceLevelPool := updateBest .buy

def updateBestAsk : PriceLevelPool → Nat → PriceLevelPool := updateBest .sell

def deactivate (L : PriceLevelPool) (idx : Nat) : Option PriceLevelPool := do
  let map ← L.priceMap.remove (L.prices idx)
  return { L with
    active := update L.active idx false
    priceMap := map
    bestIdx := if L.bestIdx = idx then nullIndex else L.bestIdx }

end PriceLevelPool

/-- `Order`, less its padding. -/
structure Order where
  exchangeId : Nat
  clientOrderId : UInt32
  contestantId : Nat
  price : Int
  remainingQty : Int
  originalQty : Int
  side : Side
  next : Nat
  prev : Nat
  levelIdx : Nat
  timestampNs : Nat
  deriving DecidableEq, Repr

def Order.zero : Order := ⟨0, 0, 0, 0, 0, 0, .buy, 0, 0, 0, 0⟩

structure OrderPool where
  orders : Nat → Order
  freeList : Nat → Nat
  freeTop : Nat
  capacity : Nat

namespace OrderPool

def init (cap : Nat) : OrderPool where
  orders _ := Order.zero
  freeList i := cap - 1 - i
  freeTop := cap
  capacity := cap

def alloc (P : OrderPool) : Nat × OrderPool :=
  if P.freeTop = 0 then (nullIndex, P)
  else (P.freeList (P.freeTop - 1), { P with freeTop := P.freeTop - 1 })

def free (P : OrderPool) (idx : Nat) : OrderPool :=
  { P with freeList := update P.freeList P.freeTop idx, freeTop := P.freeTop + 1 }

def modify (P : OrderPool) (idx : Nat) (f : Order → Order) : OrderPool :=
  { P with orders := update P.orders idx (f (P.orders idx)) }

end OrderPool

structure OrderBook where
  bids : PriceLevelPool
  asks : PriceLevelPool
  pool : OrderPool
  nextExchangeId : Nat
  totalOrders : Nat
  totalFills : Nat

def maxOrders : Nat := 65536

namespace OrderBook

def init : OrderBook where
  bids := PriceLevelPool.init maxPriceLevelsOb
  asks := PriceLevelPool.init maxPriceLevelsOb
  pool := OrderPool.init (maxOrders * 2)
  nextExchangeId := 1
  totalOrders := 0
  totalFills := 0

def levels (b : OrderBook) : Side → PriceLevelPool
  | .buy => b.bids
  | .sell => b.asks

def withLevels (b : OrderBook) : Side → PriceLevelPool → OrderBook
  | .buy, L => { b with bids := L }
  | .sell, L => { b with asks := L }

def onLevels (b : OrderBook) (side : Side) (f : PriceLevelPool → PriceLevelPool) : OrderBook :=
  b.withLevels side (f (b.levels side))

def onPool (b : OrderBook) (f : OrderPool → OrderPool) : OrderBook := { b with pool := f b.pool }

section Fields

variable (b : OrderBook) (s : Side) (L : PriceLevelPool) (f : OrderPool → OrderPool)

@[simp] theorem levels_withLevels : (b.withLevels s L).levels s = L := by cases s <;> rfl

@[simp] theorem levels_contra_withLevels :
    (b.withLevels s L).levels s.contra = b.levels s.contra := by cases s <;> rfl

@[simp] theorem levels_withLevels_contra :
    (b.withLevels s.contra L).levels s = b.levels s := by cases s <;> rfl

@[simp] theorem withLevels_levels : b.withLevels s (b.levels s) = b := by cases s <;> rfl

@[simp] theorem pool_withLevels : (b.withLevels s L).pool = b.pool := by cases s <;> rfl

@[simp] theorem nextExchangeId_withLevels :
    (b.withLevels s L).nextExchangeId = b.nextExchangeId := by cases s <;> rfl

@[simp] theorem totalOrders_withLevels :
    (b.withLevels s L).totalOrders = b.totalOrders := by cases s <;> rfl

@[simp] theorem totalFills_withLevels :
    (b.withLevels s L).totalFills = b.totalFills := by cases s <;> rfl

@[simp] theorem levels_onPool : (b.onPool f).levels s = b.levels s := by cases s <;> rfl

@[simp] theorem pool_onPool : (b.onPool f).pool = f b.pool := rfl

@[simp] theorem nextExchangeId_onPool : (b.onPool f).nextExchangeId = b.nextExchangeId := rfl

@[simp] theorem totalOrders_onPool : (b.onPool f).totalOrders = b.totalOrders := rfl

@[simp] theorem totalFills_onPool : (b.onPool f).totalFills = b.totalFills := rfl

@[simp] theorem onLevels_eq (g : PriceLevelPool → PriceLevelPool) :
    b.onLevels s g = b.withLevels s (g (b.levels s)) := rfl

end Fields

def hookLast (b : OrderBook) (side : Side) (lidx oidx : Nat) : OrderBook :=
  if (b.levels side).tail lidx ≠ nullIndex then
    b.onPool (fun P =>
      (P.modify ((b.levels side).tail lidx) (fun o => { o with next := oidx })).modify oidx
        (fun o => { o with prev := (b.levels side).tail lidx }))
  else b.onLevels side (fun L => { L with head := update L.head lidx oidx })

def append (b : OrderBook) (side : Side) (lidx oidx : Nat) (quantity : Int) : OrderBook :=
  (b.hookLast side lidx oidx).onLevels side (fun L =>
    { L with
      tail := update L.tail lidx oidx
      totalQty := update L.totalQty lidx (wrap32 (L.totalQty lidx + quantity))
      orderCount := update L.orderCount lidx (succ32 (L.orderCount lidx)) })

/-- The fields written to a cell before a level is looked for; `level_idx`
keeps what the slot held. -/
def fillCell (exchangeId contestantId : Nat) (clientOrderId : UInt32) (side : Side)
    (price quantity : Int) (timestampNs : Nat) (o : Order) : Order :=
  { o with
    exchangeId := exchangeId
    clientOrderId := clientOrderId
    contestantId := contestantId
    price := price
    remainingQty := quantity
    originalQty := quantity
    side := side
    timestampNs := timestampNs
    next := nullIndex
    prev := nullIndex }

/-- Returns the pool index, `nullIndex` on failure. A failure for want of a
level has already used an exchange id and leaves the freed cell filled in. -/
def addOrder (b : OrderBook) (contestantId : Nat) (clientOrderId : UInt32) (side : Side)
    (price quantity : Int) (timestampNs : Nat) : Option (Nat × OrderBook) := do
  let (oidx, pool) := b.pool.alloc
  if oidx = nullIndex then return (nullIndex, b)
  let pool := pool.modify oidx
    (fillCell b.nextExchangeId contestantId clientOrderId side price quantity timestampNs)
  let b := { b with pool := pool, nextExchangeId := b.nextExchangeId + 1 }
  let (lidx, L) ← (b.levels side).findOrCreate price
  if lidx = nullIndex then return (nullIndex, b.onPool (fun P => P.free oidx))
  let b := (b.withLevels side L).onPool (fun P => P.modify oidx (fun o => { o with levelIdx := lidx }))
  let b := (b.append side lidx oidx quantity).onLevels side (fun L => L.updateBest side lidx)
  return (oidx, { b with totalOrders := b.totalOrders + 1 })

def skipNext (b : OrderBook) (side : Side) (lidx oidx : Nat) : OrderBook :=
  if (b.pool.orders oidx).prev ≠ nullIndex then
    b.onPool (fun P => P.modify (P.orders oidx).prev
      (fun p => { p with next := (P.orders oidx).next }))
  else b.onLevels side (fun L => { L with head := update L.head lidx (b.pool.orders oidx).next })

def skipPrev (b : OrderBook) (side : Side) (lidx oidx : Nat) : OrderBook :=
  if (b.pool.orders oidx).next ≠ nullIndex then
    b.onPool (fun P => P.modify (P.orders oidx).next
      (fun p => { p with prev := (P.orders oidx).prev }))
  else b.onLevels side (fun L => { L with tail := update L.tail lidx (b.pool.orders oidx).prev })

def unlink (b : OrderBook) (side : Side) (lidx oidx : Nat) : OrderBook :=
  (b.skipNext side lidx oidx).skipPrev side lidx oidx

def takeQty (b : OrderBook) (side : Side) (lidx : Nat) (qty : Int) : OrderBook :=
  b.onLevels side (fun L =>
    { L with totalQty := update L.totalQty lidx (wrap32 (L.totalQty lidx - qty)) })

def dropCount (b : OrderBook) (side : Side) (lidx : Nat) : OrderBook :=
  b.onLevels side (fun L =>
    { L with orderCount := update L.orderCount lidx (pred32 (L.orderCount lidx)) })

def closeIfEmpty (b : OrderBook) (side : Side) (lidx : Nat) : Option OrderBook :=
  if (b.levels side).orderCount lidx = 0 then do
    let L ← (b.levels side).deactivate lidx
    return b.withLevels side L
  else some b

def cancelOrder (b : OrderBook) (orderIdx : Nat) : Option (Bool × OrderBook) := do
  if b.pool.capacity ≤ orderIdx then return (false, b)
  let o := b.pool.orders orderIdx
  if o.remainingQty ≤ 0 then return (false, b)
  let b := b.unlink o.side o.levelIdx orderIdx
  let b := (b.takeQty o.side o.levelIdx o.remainingQty).dropCount o.side o.levelIdx
  let b ← b.closeIfEmpty o.side o.levelIdx
  let b := b.onPool (fun P => P.modify orderIdx (fun o => { o with remainingQty := 0 }))
  return (true, b.onPool (fun P => P.free orderIdx))

structure MatchResult where
  makerIdx : Nat
  takerContestantId : Nat
  fillPrice : Int
  fillQty : Int
  deriving DecidableEq, Repr

/-- The locals of `match`: the book, the fills written so far and the quantity
still wanted. -/
structure Matching where
  book : OrderBook
  fills : List MatchResult
  remaining : Int

/-- One fill against the order at `oidx`. -/
def fillStep (side : Side) (best contestantId oidx : Nat) (m : Matching) : Matching :=
  let resting := m.book.pool.orders oidx
  let fillQty := if m.remaining < resting.remainingQty then m.remaining else resting.remainingQty
  let book := (m.book.onPool (fun P =>
    P.modify oidx (fun o => { o with remainingQty := o.remainingQty - fillQty }))).takeQty
      side best fillQty
  let book :=
    if (book.pool.orders oidx).remainingQty = 0 then
      ((book.unlink side best oidx).dropCount side best).onPool (fun P => P.free oidx)
    else book
  { book := book
    fills := m.fills ++ [⟨oidx, contestantId, resting.price, fillQty⟩]
    remaining := m.remaining - fillQty }

/-- The walk along one level, for at most `room` more fills. -/
def matchLevel (side : Side) (best contestantId : Nat) : Nat → Nat → Matching → Matching
  | 0, _, m => m
  | room + 1, oidx, m =>
    if oidx ≠ nullIndex ∧ 0 < m.remaining then
      matchLevel side best contestantId room (m.book.pool.orders oidx).next
        (fillStep side best contestantId oidx m)
    else m

def beyondLimit : Side → Int → Int → Prop
  | .buy, price, p => price < p
  | .sell, price, p => p < price

instance (aggressor : Side) (price p : Int) : Decidable (beyondLimit aggressor price p) :=
  match aggressor with
  | .buy => inferInstanceAs (Decidable (price < p))
  | .sell => inferInstanceAs (Decidable (p < price))

def matchRound (aggressor : Side) (price : Int) (contestantId maxFills : Nat) (m : Matching) :
    Option (Matching ⊕ Matching) :=
  if 0 < m.remaining ∧ m.fills.length < maxFills then
    let (best, contra) := (m.book.levels aggressor.contra).findBest aggressor.contra
    let m := { m with book := m.book.withLevels aggressor.contra contra }
    if best = nullIndex ∨ beyondLimit aggressor price (contra.prices best) then some (.inr m)
    else do
      let m := matchLevel aggressor.contra best contestantId (maxFills - m.fills.length)
        (contra.head best) m
      let book ← m.book.closeIfEmpty aggressor.contra best
      some (.inl { m with book := book })
  else some (.inr m)

def matchFuel (b : OrderBook) (aggressor : Side) (maxFills : Nat) : Nat :=
  maxFills + (b.levels aggressor.contra).count + 1

def matchOrder (b : OrderBook) (aggressor : Side) (price quantity : Int)
    (contestantId maxFills : Nat) : Option (List MatchResult × OrderBook) := do
  let m ← loop (matchRound aggressor price contestantId maxFills) (b.matchFuel aggressor maxFills)
    ⟨b, [], quantity⟩
  return (m.fills, { m.book with totalFills := m.book.totalFills + m.fills.length })

def bestField (field : PriceLevelPool → Nat → Int) (side : Side) (b : OrderBook) :
    Int × OrderBook :=
  let (best, L) := (b.levels side).findBest side
  (if best ≠ nullIndex then field L best else 0, b.withLevels side L)

def bestBidPrice : OrderBook → Int × OrderBook := bestField PriceLevelPool.prices .buy

def bestAskPrice : OrderBook → Int × OrderBook := bestField PriceLevelPool.prices .sell

def bestBidQty : OrderBook → Int × OrderBook := bestField PriceLevelPool.totalQty .buy

def bestAskQty : OrderBook → Int × OrderBook := bestField PriceLevelPool.totalQty .sell

/-- The cells met by following `next` from the head, `order_count` of them. -/
def queue (b : OrderBook) (side : Side) (lidx : Nat) : List Nat :=
  walk (fun i => (b.pool.orders i).next) nullIndex ((b.levels side).orderCount lidx)
    ((b.levels side).head lidx)

end OrderBook

end HftGrading.Exchange.Book.LimitBook
