/- module: HftGrading/Loadgen/BlastGenerator
   source: loadgen/include/loadgen/order_blaster.hpp
   digest: The order generator: its draws, its table of active orders and its ring, and what one round can do. -/

import HftGrading.Exchange.WireProtocol
import HftGrading.Lib.PartialExecution

set_option autoImplicit false
set_option relaxedAutoImplicit false

namespace HftGrading.Loadgen.BlastGenerator

open Function (update)
open Exchange.WireProtocol

/-- The operations on `double` that the price walk uses. `gaussian` is the value of
`next_gaussian` for two raw draws. -/
structure DoubleOps (D : Type) where
  add : D → D → D
  mul : D → D → D
  less : D → D → Bool
  ofInt64 : Int → D
  toInt64 : D → Int
  gaussian : UInt64 → UInt64 → D

/-- The fields of `OrderBlasterConfig` that the generator reads. -/
structure OrderBlasterConfig (D : Type) where
  initialMid : Int
  tickSize : Int
  volatility : D
  limitPct : UInt32
  marketPct : UInt32
  minQty : Int
  maxQty : Int
  ordersPerBatch : UInt32

/-- An entry of the ring, by the message in its bytes. -/
inductive BlastOrder
  | order (order : OrderEntry)
  | cancel (cancel : CancelRequest)
  deriving DecidableEq, Repr

inductive Kind
  | limit | market | cancel
  deriving DecidableEq, Repr

def OrderBlasterConfig.kind {D : Type} (cfg : OrderBlasterConfig D) (roll : UInt32) : Kind :=
  if roll < cfg.limitPct then .limit
  else if roll < cfg.limitPct + cfg.marketPct then .market
  else .cancel

def xorshift64 (rng : UInt64) : UInt64 × UInt64 :=
  let rng := rng ^^^ rng <<< 13
  let rng := rng ^^^ rng >>> 7
  let rng := rng ^^^ rng <<< 17
  (rng, rng)

def capacity : Nat := 4096

structure BlasterState where
  orderIds : Nat → UInt32
  orderPrices : Nat → Int
  orderSides : Nat → Side
  orderQtys : Nat → Int
  orderActive : Nat → Bool
  activeCount : Nat
  nextOrderId : UInt32

namespace BlasterState

def findFreeSlot (s : BlasterState) : Option Nat :=
  (List.range capacity).find? fun i => !s.orderActive i

def findActiveSlot (s : BlasterState) (rng : UInt64) : Option Nat :=
  if s.activeCount = 0 then none
  else ((List.range capacity).map fun i => (rng.toNat % capacity + i) % capacity).find? s.orderActive

def bump (s : BlasterState) : BlasterState := { s with nextOrderId := s.nextOrderId + 1 }

def track (s : BlasterState) (slot : Nat) (o : OrderEntry) : BlasterState where
  orderIds := update s.orderIds slot o.clientOrderId
  orderPrices := update s.orderPrices slot o.price
  orderSides := update s.orderSides slot o.side
  orderQtys := update s.orderQtys slot o.quantity
  orderActive := update s.orderActive slot true
  activeCount := s.activeCount + 1
  nextOrderId := s.nextOrderId

def untrack (s : BlasterState) (slot : Nat) : BlasterState :=
  { s with orderActive := update s.orderActive slot false, activeCount := s.activeCount - 1 }

end BlasterState

section Blaster

def blastRingSize : Nat := 65536

variable {R : Type} {D : Type}

/-- The blaster with the state `R` of its generator. `pushed` is no field of the class: it lists
what was ever written to the ring, and nothing reads it. -/
structure OrderBlaster (R : Type) (D : Type) where
  state : BlasterState
  ring : Nat → BlastOrder
  writePos : Nat
  readPos : Nat
  midPrice : D
  rng : R
  totalGenerated : Nat
  totalLimits : Nat
  totalMarkets : Nat
  totalCancels : Nat
  pushed : List BlastOrder

variable (next : R → UInt64 × R) (dbl : DoubleOps D) (cfg : OrderBlasterConfig D)

def drawSide (raw : UInt64) : Side := if raw &&& 1 = 0 then .sell else .buy

def drawQty (raw : UInt64) : Option Int :=
  let span := (wrap32 (wrap32 (cfg.maxQty - cfg.minQty) + 1) % 18446744073709551616).toNat
  if span = 0 then none
  else some (wrap32 (cfg.minQty + wrap32 (raw.toNat % span : Nat)))

def limitPrice (side : Side) (raw : UInt64) (midPrice : D) : Option Int :=
  if cfg.tickSize = 0 then none
  else
    let mid := wrap64 (wrap64 ((dbl.toInt64 midPrice).tdiv cfg.tickSize) * cfg.tickSize)
    let offset := wrap64 (((raw.toNat % 20 : Nat) - 10 : Int) * cfg.tickSize)
    let price := wrap64 (mid + offset)
    let price := match side with
      | .buy => wrap64 (price - cfg.tickSize)
      | .sell => wrap64 (price + cfg.tickSize)
    some (if price ≤ 0 then cfg.tickSize else price)

namespace OrderBlaster

def init (ring : Nat → BlastOrder) (ids : Nat → UInt32) (prices : Nat → Int) (sides : Nat → Side)
    (qtys : Nat → Int) (seed : R) : OrderBlaster R D where
  -- Only the flags of the table are cleared.
  state := ⟨ids, prices, sides, qtys, fun _ => false, 0, 1⟩
  ring := ring
  writePos := 0
  readPos := 0
  midPrice := dbl.ofInt64 cfg.initialMid
  rng := seed
  totalGenerated := 0
  totalLimits := 0
  totalMarkets := 0
  totalCancels := 0
  pushed := []

def push (b : OrderBlaster R D) (x : BlastOrder) : OrderBlaster R D :=
  { b with
    ring := update b.ring (b.writePos % blastRingSize) x
    writePos := b.writePos + 1
    pushed := b.pushed ++ [x] }

def generateLimitOrder (b : OrderBlaster R D) : Option (OrderBlaster R D) :=
  match b.state.findFreeSlot with
  | none => some b
  | some slot => do
    let draw₁ := next b.rng
    let side := drawSide draw₁.1
    let draw₂ := next draw₁.2
    let price ← limitPrice dbl cfg side draw₂.1 b.midPrice
    let draw₃ := next draw₂.2
    let qty ← drawQty cfg draw₃.1
    let order : OrderEntry := ⟨side, .limit, b.state.nextOrderId, price, qty⟩
    some ({ b with
      rng := draw₃.2
      state := b.state.bump.track slot order
      totalLimits := b.totalLimits + 1 }.push (.order order))

def generateMarketOrder (b : OrderBlaster R D) : Option (OrderBlaster R D) := do
  let draw₁ := next b.rng
  let side := drawSide draw₁.1
  let draw₂ := next draw₁.2
  let qty ← drawQty cfg draw₂.1
  let order : OrderEntry := ⟨side, .market, b.state.nextOrderId, 0, qty⟩
  some ({ b with
    rng := draw₂.2
    state := b.state.bump
    totalMarkets := b.totalMarkets + 1 }.push (.order order))

def generateCancel (b : OrderBlaster R D) : OrderBlaster R D :=
  let draw := next b.rng
  match b.state.findActiveSlot draw.1 with
  | none => { b with rng := draw.2 }
  | some slot =>
    { b with
      rng := draw.2
      state := b.state.untrack slot
      totalCancels := b.totalCancels + 1 }.push (.cancel ⟨b.state.orderIds slot, 0⟩)

def available (b : OrderBlaster R D) : Nat :=
  (blastRingSize + 4294967296 - (b.writePos - b.readPos) % 4294967296) % 4294967296

def walk (b : OrderBlaster R D) : OrderBlaster R D :=
  let draw₁ := next b.rng
  let draw₂ := next draw₁.2
  let noise := dbl.mul (dbl.mul (dbl.gaussian draw₁.1 draw₂.1) cfg.volatility)
    (dbl.ofInt64 cfg.initialMid)
  let midPrice := dbl.add b.midPrice noise
  let floor := dbl.ofInt64 (wrap64 (cfg.tickSize * 10))
  { b with
    rng := draw₂.2
    midPrice := if dbl.less midPrice floor then floor else midPrice }

def rolled (b : OrderBlaster R D) : Kind :=
  cfg.kind ((next (b.walk next dbl cfg).rng).1 % 100).toUInt32

def drawn (b : OrderBlaster R D) : OrderBlaster R D :=
  { b.walk next dbl cfg with rng := (next (b.walk next dbl cfg).rng).2 }

/-- The choice of the generator, with what it adds to `generated`. -/
def generateKind (b : OrderBlaster R D) : Kind → Option (OrderBlaster R D × Nat)
  | .limit => (b.generateLimitOrder next dbl cfg).map fun b' => (b', 1)
  | .market => (b.generateMarketOrder next cfg).map fun b' => (b', 1)
  | .cancel => some (if b.state.activeCount > 0 then (b.generateCancel next, 1) else (b, 0))

/-- The body of the loop of `generate_batch` behind its first check. -/
def generateOne (b : OrderBlaster R D) : Option (OrderBlaster R D × Nat) :=
  ((b.drawn next dbl cfg).generateKind next dbl cfg (b.rolled next dbl cfg)).map fun r =>
    ({ r.1 with totalGenerated := r.1.totalGenerated + 1 }, r.2)

def generateRounds : Nat → OrderBlaster R D → Nat → Option (OrderBlaster R D × Nat)
  | 0, b, generated => some (b, generated)
  | n + 1, b, generated =>
    if b.available = 0 then some (b, generated)
    else (b.generateOne next dbl cfg).bind fun r => generateRounds n r.1 (generated + r.2)

def generateBatch (b : OrderBlaster R D) : Option (OrderBlaster R D × Nat) :=
  generateRounds next dbl cfg cfg.ordersPerBatch.toNat b 0

def pop (b : OrderBlaster R D) : Option BlastOrder × OrderBlaster R D :=
  if b.readPos ≥ b.writePos then (none, b)
  else (some (b.ring (b.readPos % blastRingSize)), { b with readPos := b.readPos + 1 })

end OrderBlaster

end Blaster

section Rounds

inductive Move (s : BlasterState) : Kind → Option BlastOrder → BlasterState → Prop
  | limit {slot : Nat} {o : OrderEntry} (free : s.findFreeSlot = some slot)
      (type : o.orderType = .limit) (id : o.clientOrderId = s.nextOrderId) :
      Move s .limit (some (.order o)) (s.bump.track slot o)
  | full (taken : s.findFreeSlot = none) : Move s .limit none s
  | market {o : OrderEntry} (type : o.orderType = .market) (id : o.clientOrderId = s.nextOrderId) :
      Move s .market (some (.order o)) s.bump
  | cancel {raw : UInt64} {slot : Nat} (active : s.findActiveSlot raw = some slot) :
      Move s .cancel (some (.cancel ⟨s.orderIds slot, 0⟩)) (s.untrack slot)
  | lost {raw : UInt64} (counted : 0 < s.activeCount) (unseen : s.findActiveSlot raw = none) :
      Move s .cancel none s
  | empty (idle : s.activeCount = 0) : Move s .cancel none s

variable {R : Type} {D : Type}

structure Rounded (b : OrderBlaster R D) (kind : Kind) (x : Option BlastOrder)
    (b' : OrderBlaster R D) : Prop where
  table : Move b.state kind x b'.state
  ring : b'.ring = x.elim b.ring (update b.ring (b.writePos % blastRingSize))
  writePos : b'.writePos = b.writePos + x.toList.length
  readPos : b'.readPos = b.readPos
  pushed : b'.pushed = b.pushed ++ x.toList
  generated : b'.totalGenerated = b.totalGenerated + 1
  limits : b'.totalLimits = b.totalLimits + if kind = .limit then x.toList.length else 0
  markets : b'.totalMarkets = b.totalMarkets + if kind = .market then x.toList.length else 0
  cancels : b'.totalCancels = b.totalCancels + if kind = .cancel then x.toList.length else 0

variable (next : R → UInt64 × R) (dbl : DoubleOps D) (cfg : OrderBlasterConfig D)

theorem generateLimitOrder_cases {b b' : OrderBlaster R D}
    (made : b.generateLimitOrder next dbl cfg = some b') :
    (b.state.findFreeSlot = none ∧ b' = b) ∨
      ∃ slot o rng, b.state.findFreeSlot = some slot ∧ o.orderType = .limit ∧
        o.clientOrderId = b.state.nextOrderId ∧
        b' = { b with
          rng := rng
          state := b.state.bump.track slot o
          totalLimits := b.totalLimits + 1 }.push (.order o) := by
  unfold OrderBlaster.generateLimitOrder at made
  cases free : b.state.findFreeSlot with
  | none =>
    rw [free] at made
    cases made
    exact Or.inl ⟨rfl, rfl⟩
  | some slot =>
    rw [free] at made
    obtain ⟨price, -, made⟩ := Option.bind_eq_some_iff.mp made
    obtain ⟨qty, -, made⟩ := Option.bind_eq_some_iff.mp made
    cases made
    refine Or.inr ⟨slot, _, _, rfl, ?_, ?_, rfl⟩
    · rfl
    · rfl

theorem generateMarketOrder_cases {b b' : OrderBlaster R D}
    (made : b.generateMarketOrder next cfg = some b') :
    ∃ o rng, o.orderType = .market ∧ o.clientOrderId = b.state.nextOrderId ∧
      b' = { b with
        rng := rng
        state := b.state.bump
        totalMarkets := b.totalMarkets + 1 }.push (.order o) := by
  obtain ⟨qty, -, made⟩ := Option.bind_eq_some_iff.mp made
  cases made
  refine ⟨_, _, ?_, ?_, rfl⟩
  · rfl
  · rfl

theorem generateCancel_cases (b : OrderBlaster R D) :
    (∃ rng raw, b.state.findActiveSlot raw = none ∧
        b.generateCancel next = { b with rng := rng }) ∨
      ∃ rng raw slot, b.state.findActiveSlot raw = some slot ∧
        b.generateCancel next = { b with
          rng := rng
          state := b.state.untrack slot
          totalCancels := b.totalCancels + 1 }.push (.cancel ⟨b.state.orderIds slot, 0⟩) := by
  rw [OrderBlaster.generateCancel]
  cases active : b.state.findActiveSlot (next b.rng).1 with
  | none => exact Or.inl ⟨_, _, active, rfl⟩
  | some slot => exact Or.inr ⟨_, _, slot, active, rfl⟩

theorem generateOne_rounded {b b' : OrderBlaster R D} {g : Nat}
    (round : b.generateOne next dbl cfg = some (b', g)) :
    ∃ x, Rounded b (b.rolled next dbl cfg) x b' ∧
      g = if b.rolled next dbl cfg = .cancel ∧ b.state.activeCount = 0 then 0 else 1 := by
  obtain ⟨⟨b₂, g'⟩, made, last⟩ := Option.map_eq_some_iff.mp round
  cases last
  cases kind : b.rolled next dbl cfg with
  | limit =>
    rw [kind, OrderBlaster.generateKind] at made
    obtain ⟨b₃, placed, same⟩ := Option.map_eq_some_iff.mp made
    cases same
    rcases generateLimitOrder_cases next dbl cfg placed with
      ⟨full, rfl⟩ | ⟨slot, o, rng, free, type, id, rfl⟩
    · exact ⟨none, ⟨.full full, rfl, rfl, rfl, (List.append_nil _).symm, rfl, rfl, rfl, rfl⟩, rfl⟩
    · exact ⟨some (.order o), ⟨.limit free type id, rfl, rfl, rfl, rfl, rfl, rfl, rfl, rfl⟩, rfl⟩
  | market =>
    rw [kind, OrderBlaster.generateKind] at made
    obtain ⟨b₃, placed, same⟩ := Option.map_eq_some_iff.mp made
    cases same
    obtain ⟨o, rng, type, id, rfl⟩ := generateMarketOrder_cases next cfg placed
    exact ⟨some (.order o), ⟨.market type id, rfl, rfl, rfl, rfl, rfl, rfl, rfl, rfl⟩, rfl⟩
  | cancel =>
    rw [kind] at made
    have same := Option.some.inj made
    rw [show (b.drawn next dbl cfg).state = b.state from rfl] at same
    split_ifs at same with counted
    · cases same
      rw [if_neg (fun idle => Nat.ne_of_gt counted idle.2)]
      rcases generateCancel_cases next (b.drawn next dbl cfg) with
        ⟨rng, raw, unseen, made⟩ | ⟨rng, raw, slot, active, made⟩
      · rw [made]
        exact ⟨none, ⟨.lost counted unseen, rfl, rfl, rfl, (List.append_nil _).symm, rfl, rfl, rfl,
          rfl⟩, rfl⟩
      · rw [made]
        exact ⟨_, ⟨.cancel active, rfl, rfl, rfl, rfl, rfl, rfl, rfl, rfl⟩, rfl⟩
    · cases same
      have idle := Nat.eq_zero_of_not_pos counted
      rw [if_pos ⟨rfl, idle⟩]
      exact ⟨none, ⟨.empty idle, rfl, rfl, rfl, (List.append_nil _).symm, rfl, rfl, rfl, rfl⟩, rfl⟩

end Rounds

section Returns

variable {R D : Type} (next : R → UInt64 × R) (dbl : DoubleOps D) (cfg : OrderBlasterConfig D)

/-- Quantities within the words of the configuration. -/
structure OrderBlasterConfig.Quantified (cfg : OrderBlasterConfig D) : Prop where
  positive : 1 ≤ cfg.minQty
  order : cfg.minQty ≤ cfg.maxQty
  word : cfg.maxQty ≤ 2147483647

variable {cfg}

theorem drawQty_returns (quantified : cfg.Quantified) (raw : UInt64) :
    ∃ qty, drawQty cfg raw = some qty := by
  obtain ⟨positive, order, word⟩ := quantified
  have span : (wrap32 (wrap32 (cfg.maxQty - cfg.minQty) + 1) % 18446744073709551616).toNat ≠ 0 := by
    unfold wrap32
    omega
  exact ⟨_, if_neg span⟩

theorem limitPrice_returns (ticks : cfg.tickSize ≠ 0) (side : Side) (raw : UInt64) (mid : D) :
    ∃ price, limitPrice dbl cfg side raw mid = some price :=
  ⟨_, if_neg ticks⟩

theorem generateKind_returns (quantified : cfg.Quantified) (ticks : cfg.tickSize ≠ 0)
    (b : OrderBlaster R D) (kind : Kind) : ∃ r, b.generateKind next dbl cfg kind = some r := by
  cases kind with
  | limit =>
    rw [OrderBlaster.generateKind]
    unfold OrderBlaster.generateLimitOrder
    cases b.state.findFreeSlot with
    | none => exact ⟨_, rfl⟩
    | some slot =>
      obtain ⟨price, priced⟩ := limitPrice_returns dbl ticks (drawSide (next b.rng).1)
        (next (next b.rng).2).1 b.midPrice
      obtain ⟨qty, sized⟩ := drawQty_returns quantified (next (next (next b.rng).2).2).1
      simp only [priced, sized, Option.bind_eq_bind, Option.bind_some, Option.map_some]
      exact ⟨_, rfl⟩
  | market =>
    rw [OrderBlaster.generateKind]
    unfold OrderBlaster.generateMarketOrder
    obtain ⟨qty, sized⟩ := drawQty_returns quantified (next (next b.rng).2).1
    simp only [sized, Option.bind_eq_bind, Option.bind_some, Option.map_some]
    exact ⟨_, rfl⟩
  | cancel => exact ⟨_, rfl⟩

theorem generateOne_returns (quantified : cfg.Quantified) (ticks : cfg.tickSize ≠ 0)
    (b : OrderBlaster R D) : ∃ r, b.generateOne next dbl cfg = some r := by
  obtain ⟨r, made⟩ := generateKind_returns next dbl quantified ticks (b.drawn next dbl cfg)
    (b.rolled next dbl cfg)
  rw [OrderBlaster.generateOne, made]
  exact ⟨_, rfl⟩

theorem generateRounds_returns (quantified : cfg.Quantified) (ticks : cfg.tickSize ≠ 0) (n : Nat)
    (b : OrderBlaster R D) (g : Nat) :
    ∃ r, OrderBlaster.generateRounds next dbl cfg n b g = some r := by
  induction n generalizing b g with
  | zero => exact ⟨_, rfl⟩
  | succ n ih =>
    rw [OrderBlaster.generateRounds]
    split_ifs
    · exact ⟨_, rfl⟩
    · obtain ⟨r, made⟩ := generateOne_returns next dbl quantified ticks b
      rw [made]
      exact ih r.1 _

end Returns

section Sessions

variable {R D : Type}

inductive BlasterOp
  | generateBatch
  | pop
  deriving DecidableEq, Repr

/-- One call of `generate_batch`: what it returned, how many messages it pushed, and how many of
its rounds rolled a limit order with no free slot, or a cancel with no active order. -/
structure Batch where
  returned : Nat
  pushed : Nat
  fullRounds : Nat
  idleRounds : Nat
  deriving DecidableEq, Repr

/-- The blaster with what was popped from it and the calls of `generate_batch` so far. -/
structure Session (R D : Type) where
  blaster : OrderBlaster R D
  popped : List BlastOrder
  batches : List Batch

variable (next : R → UInt64 × R) (dbl : DoubleOps D) (cfg : OrderBlasterConfig D)

namespace OrderBlaster

def rollsFull (b : OrderBlaster R D) : Bool :=
  b.rolled next dbl cfg = .limit && b.state.findFreeSlot.isNone

def rollsIdle (b : OrderBlaster R D) : Bool :=
  b.rolled next dbl cfg = .cancel && b.state.activeCount = 0

/-- How many of the next `n` rounds begin in a state that passes a test. -/
def countRounds (test : OrderBlaster R D → Bool) : Nat → OrderBlaster R D → Nat
  | 0, _ => 0
  | n + 1, b =>
    if b.available = 0 then 0
    else (if test b then 1 else 0) +
      (b.generateOne next dbl cfg).elim 0 fun r => countRounds test n r.1

end OrderBlaster

namespace Session

def step (s : Session R D) : BlasterOp → Option (Session R D)
  | .generateBatch => (s.blaster.generateBatch next dbl cfg).map fun r =>
    { s with
      blaster := r.1
      batches := s.batches ++
        [{ returned := r.2
           pushed := r.1.pushed.length - s.blaster.pushed.length
           fullRounds := s.blaster.countRounds next dbl cfg
             (OrderBlaster.rollsFull next dbl cfg) cfg.ordersPerBatch.toNat
           idleRounds := s.blaster.countRounds next dbl cfg
             (OrderBlaster.rollsIdle next dbl cfg) cfg.ordersPerBatch.toNat }] }
  | .pop => some
      { s with
        blaster := s.blaster.pop.2
        popped := s.popped ++ s.blaster.pop.1.toList }

def start (ring : Nat → BlastOrder) (ids : Nat → UInt32) (prices : Nat → Int) (sides : Nat → Side)
    (qtys : Nat → Int) (seed : R) : Session R D :=
  ⟨OrderBlaster.init dbl cfg ring ids prices sides qtys seed, [], []⟩

end Session

variable {next dbl cfg}

theorem generateRounds_keeps {Inv : OrderBlaster R D → Prop}
    (round : ∀ b kind x b', Inv b → b.available ≠ 0 → Rounded b kind x b' → Inv b')
    {n : Nat} {b : OrderBlaster R D} {g : Nat} {r : OrderBlaster R D × Nat} (start : Inv b)
    (made : OrderBlaster.generateRounds next dbl cfg n b g = some r) : Inv r.1 := by
  induction n generalizing b g with
  | zero =>
    cases made
    exact start
  | succ n ih =>
    rw [OrderBlaster.generateRounds] at made
    split_ifs at made with full
    · cases made
      exact start
    · obtain ⟨⟨b', g'⟩, one, rest⟩ := Option.bind_eq_some_iff.mp made
      obtain ⟨x, rounded, -⟩ := generateOne_rounded next dbl cfg one
      exact ih (round b _ x b' start full rounded) rest

end Sessions

end HftGrading.Loadgen.BlastGenerator
