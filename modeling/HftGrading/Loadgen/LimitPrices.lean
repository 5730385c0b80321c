/- module: HftGrading/Loadgen/LimitPrices
   source: loadgen/include/loadgen/order_blaster.hpp, exchange/include/exchange/stress_scenarios.hpp
   digest: The price of a generated limit order: positive and in ticks, and when it keeps to the configured range. -/

import HftGrading.Loadgen.BlasterBookkeeping
import Mathlib.Algebra.Order.Ring.Abs

set_option autoImplicit false
set_option relaxedAutoImplicit false

namespace HftGrading.Loadgen.LimitPrices

open Exchange.WireProtocol
open HftGrading.Loadgen.BlastGenerator HftGrading.Loadgen.BlasterBookkeeping

/-- The configuration with `price_range`, which nothing in the generator reads. -/
structure RangedConfig (D : Type) extends OrderBlasterConfig D where
  priceRange : Int

def snappedMid (tick mid : Int) : Int := mid.tdiv tick * tick

def drawnTicks (side : Side) (raw : UInt64) : Int :=
  (raw.toNat % 20 : Nat) - 10 + match side with
    | .buy => -1
    | .sell => 1

/-- What the configuration asks of a limit price. -/
structure Respects {D : Type} (cfg : RangedConfig D) (mid price : Int) : Prop where
  positive : 0 < price
  ticks : cfg.tickSize ∣ price
  near : |price - snappedMid cfg.tickSize mid| ≤ cfg.priceRange

/-- The drawn ticks keep to the range; where they lead out of the positive 64-bit words the price
becomes one tick, and that has to be in the range. -/
def DrawnInRange {D : Type} (cfg : RangedConfig D) (mid : Int) (side : Side) (raw : UInt64) : Prop :=
  if 0 < snappedMid cfg.tickSize mid + drawnTicks side raw * cfg.tickSize ∧
      snappedMid cfg.tickSize mid + drawnTicks side raw * cfg.tickSize ≤ int64Max then
    |drawnTicks side raw| * cfg.tickSize ≤ cfg.priceRange
  else snappedMid cfg.tickSize mid - cfg.tickSize ≤ cfg.priceRange

section Prices

variable {D : Type} {dbl : DoubleOps D} {cfg : OrderBlasterConfig D} {midPrice : D}

theorem drawnTicks_bounds (side : Side) (raw : UInt64) :
    -11 ≤ drawnTicks side raw ∧ drawnTicks side raw ≤ 10 := by
  unfold drawnTicks
  cases side <;> constructor <;> simp only <;> omega

theorem snappedMid_bounds {tick mid : Int} (ticks : 0 < tick) (floor : 10 * tick ≤ mid) :
    10 * tick ≤ snappedMid tick mid ∧ snappedMid tick mid ≤ mid := by
  have nonneg : 0 ≤ mid := by omega
  rw [snappedMid, Int.tdiv_eq_ediv_of_nonneg nonneg]
  constructor
  · exact mul_le_mul_of_nonneg_right (Int.le_ediv_of_mul_le ticks floor) ticks.le
  · exact Int.ediv_mul_le mid ticks.ne'

theorem wrap64_snappedMid {tick mid : Int} (ticks : 0 < tick) (floor : 10 * tick ≤ mid)
    (word : IsInt64 mid) : wrap64 (wrap64 (mid.tdiv tick) * tick) = snappedMid tick mid := by
  have nonneg : 0 ≤ mid := by omega
  have quotient : 0 ≤ mid.tdiv tick ∧ mid.tdiv tick ≤ mid := by
    rw [Int.tdiv_eq_ediv_of_nonneg nonneg]
    exact ⟨Int.ediv_nonneg nonneg ticks.le, Int.ediv_le_self tick nonneg⟩
  obtain ⟨low, high⟩ := snappedMid_bounds ticks floor
  unfold IsInt64 int64Min int64Max at word
  have exactly : wrap64 (mid.tdiv tick) = mid.tdiv tick := by
    unfold wrap64
    omega
  rw [exactly, ← snappedMid]
  unfold wrap64
  omega

private theorem clamp_wrap64 {mid move tick : Int} (word : IsInt64 mid) (ticks : 0 < tick)
    (small : tick ≤ mid) (least : -mid - tick ≤ move) (most : move ≤ mid) :
    (if wrap64 (mid + move) ≤ 0 then tick else wrap64 (mid + move)) =
      if 0 < mid + move ∧ mid + move ≤ int64Max then mid + move else tick := by
  unfold IsInt64 int64Min int64Max at *
  unfold wrap64
  split_ifs <;> omega

theorem limitPrice_eq (ticks : 0 < cfg.tickSize) (word : IsInt64 (dbl.toInt64 midPrice))
    (floor : 10 * cfg.tickSize ≤ dbl.toInt64 midPrice) (side : Side) (raw : UInt64) :
    limitPrice dbl cfg side raw midPrice =
      some (if 0 < snappedMid cfg.tickSize (dbl.toInt64 midPrice) +
            drawnTicks side raw * cfg.tickSize ∧
          snappedMid cfg.tickSize (dbl.toInt64 midPrice) +
            drawnTicks side raw * cfg.tickSize ≤ int64Max then
          snappedMid cfg.tickSize (dbl.toInt64 midPrice) + drawnTicks side raw * cfg.tickSize
        else cfg.tickSize) := by
  obtain ⟨low, high⟩ := snappedMid_bounds ticks floor
  obtain ⟨least, most⟩ := drawnTicks_bounds side raw
  have left : -11 * cfg.tickSize ≤ drawnTicks side raw * cfg.tickSize :=
    mul_le_mul_of_nonneg_right least ticks.le
  have right : drawnTicks side raw * cfg.tickSize ≤ 10 * cfg.tickSize :=
    mul_le_mul_of_nonneg_right most ticks.le
  have whole : IsInt64 (snappedMid cfg.tickSize (dbl.toInt64 midPrice)) := by
    unfold IsInt64 int64Min int64Max at *
    omega
  rw [limitPrice, if_neg ticks.ne', ← clamp_wrap64 whole ticks (by omega) (by omega) (by omega)]
  simp only [wrap64_snappedMid ticks floor word]
  generalize snappedMid cfg.tickSize (dbl.toInt64 midPrice) = snapped
  -- The two additions of the source are one, modulo 2^64.
  cases side with
  | buy =>
    have once : wrap64 (wrap64 (snapped + wrap64 (((raw.toNat % 20 : Nat) - 10 : Int) *
        cfg.tickSize)) - cfg.tickSize) = wrap64 (snapped + drawnTicks .buy raw * cfg.tickSize) := by
      rw [drawnTicks, add_mul]
      unfold wrap64
      omega
    simp only [once]
  | sell =>
    have once : wrap64 (wrap64 (snapped + wrap64 (((raw.toNat % 20 : Nat) - 10 : Int) *
        cfg.tickSize)) + cfg.tickSize) = wrap64 (snapped + drawnTicks .sell raw * cfg.tickSize) := by
      rw [drawnTicks, add_mul]
      unfold wrap64
      omega
    simp only [once]

theorem respects_iff {cfg : RangedConfig D} (ticks : 0 < cfg.tickSize)
    (word : IsInt64 (dbl.toInt64 midPrice)) (floor : 10 * cfg.tickSize ≤ dbl.toInt64 midPrice)
    {side : Side} {raw : UInt64} {price : Int}
    (priced : limitPrice dbl cfg.toOrderBlasterConfig side raw midPrice = some price) :
    Respects cfg (dbl.toInt64 midPrice) price ↔
      DrawnInRange cfg (dbl.toInt64 midPrice) side raw := by
  obtain ⟨low, -⟩ := snappedMid_bounds ticks floor
  have inTicks : cfg.tickSize ∣ snappedMid cfg.tickSize (dbl.toInt64 midPrice) := Dvd.intro_left _ rfl
  rw [limitPrice_eq ticks word floor, Option.some.injEq] at priced
  rw [DrawnInRange, ← priced]
  split_ifs with inside
  · have near : |snappedMid cfg.tickSize (dbl.toInt64 midPrice) + drawnTicks side raw * cfg.tickSize -
        snappedMid cfg.tickSize (dbl.toInt64 midPrice)| = |drawnTicks side raw| * cfg.tickSize := by
      rw [add_sub_cancel_left, abs_mul, abs_of_pos ticks]
    constructor
    · rintro ⟨-, -, within⟩
      rwa [near] at within
    · intro within
      exact ⟨inside.1, dvd_add inTicks (Dvd.intro_left _ rfl), near.trans_le within⟩
  · have near : |cfg.tickSize - snappedMid cfg.tickSize (dbl.toInt64 midPrice)| =
        snappedMid cfg.tickSize (dbl.toInt64 midPrice) - cfg.tickSize := by
      rw [abs_sub_comm, abs_of_nonneg (by omega)]
    constructor
    · rintro ⟨-, -, within⟩
      rwa [near] at within
    · intro within
      exact ⟨ticks, dvd_rfl, near.trans_le within⟩

end Prices

section Orders

variable {R D : Type} {next : R → UInt64 × R} {dbl : DoubleOps D} {cfg : OrderBlasterConfig D}
  {b b' : OrderBlaster R D} {o : OrderEntry}

theorem generateLimitOrder_price (made : b.generateLimitOrder next dbl cfg = some b')
    (placed : b'.pushed = b.pushed ++ [.order o]) :
    limitPrice dbl cfg (drawSide (next b.rng).1) (next (next b.rng).2).1 b.midPrice =
      some o.price := by
  unfold OrderBlaster.generateLimitOrder at made
  cases free : b.state.findFreeSlot with
  | none =>
    rw [free] at made
    cases made
    simp at placed
  | some slot =>
    rw [free] at made
    obtain ⟨price, priced, made⟩ := Option.bind_eq_some_iff.mp made
    obtain ⟨qty, -, made⟩ := Option.bind_eq_some_iff.mp made
    cases made
    have same := List.append_cancel_left placed
    rw [List.cons.injEq, BlastOrder.order.injEq] at same
    rw [priced, ← same.1]

end Orders

/-- The price of a generated limit order is positive, in ticks and within the range of the mid
exactly if the drawn number of ticks is within it. -/
theorem limit_price_respects_iff {R D : Type} (next : R → UInt64 × R) (dbl : DoubleOps D)
    (cfg : RangedConfig D) (b b' : OrderBlaster R D) (o : OrderEntry) (ticks : 0 < cfg.tickSize)
    (word : IsInt64 (dbl.toInt64 b.midPrice)) (floor : 10 * cfg.tickSize ≤ dbl.toInt64 b.midPrice)
    (made : b.generateLimitOrder next dbl cfg.toOrderBlasterConfig = some b')
    (placed : b'.pushed = b.pushed ++ [.order o]) :
    Respects cfg (dbl.toInt64 b.midPrice) o.price ↔
      DrawnInRange cfg (dbl.toInt64 b.midPrice) (drawSide (next b.rng).1)
        (next (next b.rng).2).1 :=
  respects_iff ticks word floor (generateLimitOrder_price made placed)

def crossedBookStress : RangedConfig Int where
  initialMid := 1000000
  tickSize := 100
  volatility := 0
  limitPct := 90
  marketPct := 10
  minQty := 1
  maxQty := 10
  ordersPerBatch := 256
  priceRange := 200

def defaultRange : RangedConfig Int := { sampleConfig with priceRange := 5000 }

def fresh (cfg : RangedConfig Int) (seed : UInt64) : OrderBlaster UInt64 Int :=
  OrderBlaster.init stillPrices cfg.toOrderBlasterConfig (fun _ => .cancel ⟨0, 0⟩) (fun _ => 0)
    (fun _ => 0) (fun _ => .buy) (fun _ => 0) seed

def FirstBid (cfg : RangedConfig Int) (quantity : Int) : Prop :=
  ∃ b', (fresh cfg 12345).generateLimitOrder xorshift64 stillPrices cfg.toOrderBlasterConfig =
      some b' ∧ b'.pushed = [.order ⟨.buy, .limit, 1, 1000600, quantity⟩]

theorem firstBid_of_pushed {cfg : RangedConfig Int} {quantity : Int}
    (pushed : ((fresh cfg 12345).generateLimitOrder xorshift64 stillPrices
      cfg.toOrderBlasterConfig).map (·.pushed) =
        some [.order ⟨.buy, .limit, 1, 1000600, quantity⟩]) : FirstBid cfg quantity := by
  obtain ⟨b', made, pushed⟩ := Option.map_eq_some_iff.mp pushed
  exact ⟨b', made, pushed⟩

theorem default_range_respected :
    FirstBid defaultRange 42 ∧ Respects defaultRange 1000000 1000600 := by
  have first : FirstBid defaultRange 42 := firstBid_of_pushed (by decide +kernel)
  refine ⟨first, ?_⟩
  obtain ⟨b', made, pushed⟩ := first
  refine (limit_price_respects_iff xorshift64 stillPrices defaultRange (fresh defaultRange 12345) b'
    ⟨.buy, .limit, 1, 1000600, 42⟩ (by decide) (by decide) (by decide) made pushed).mpr ?_
  unfold DrawnInRange
  decide +kernel

/-- The scenario asks for two ticks and gets six. -/
theorem tight_range_exceeded :
    FirstBid crossedBookStress 2 ∧ crossedBookStress.priceRange = 200 ∧
      snappedMid crossedBookStress.tickSize 1000000 = 1000000 ∧
      ¬ Respects crossedBookStress 1000000 1000600 := by
  refine ⟨firstBid_of_pushed (by decide +kernel), rfl, by decide, fun respects => ?_⟩
  exact absurd respects.near (by decide)

end HftGrading.Loadgen.LimitPrices
