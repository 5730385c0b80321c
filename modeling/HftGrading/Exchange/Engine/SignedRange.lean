/- module: HftGrading/Exchange/Engine/SignedRange
   source: exchange/include/exchange/match_engine.hpp
   digest: The signed operations of the profit accounting, and the runs in which none of them overflows. -/

import HftGrading.Exchange.Book.CellBounds
import HftGrading.Exchange.Engine.EngineSteps
import Mathlib.Algebra.Order.Ring.Abs
import Mathlib.Tactic.Linarith
import Mathlib.Tactic.Ring

set_option autoImplicit false
set_option relaxedAutoImplicit false

namespace HftGrading.Exchange.Engine.SignedRange

open Lib.PartialExecution WireProtocol Book.PriceMap Book.LimitBook
open Book.LimitBook.OrderBook (MatchResult)
open Book.LevelSearch Book.MatchRounds Book.CellBounds EngineState
open EngineState.ContestantState (signedQty closingPnl nextEntry)
open EngineSteps

variable {G : Type}

def Closing (oldPos signed : Int) : Prop := (oldPos > 0 ∧ signed < 0) ∨ (oldPos < 0 ∧ signed > 0)

def Opening (oldPos signed : Int) : Prop := (oldPos ≥ 0 ∧ signed > 0) ∨ (oldPos ≤ 0 ∧ signed < 0)

instance (oldPos signed : Int) : Decidable (Closing oldPos signed) :=
  inferInstanceAs (Decidable (_ ∨ _))

instance (oldPos signed : Int) : Decidable (Opening oldPos signed) :=
  inferInstanceAs (Decidable (_ ∨ _))

def closeQty (oldPos signed : Int) : Int :=
  if signed > 0 then min signed (-oldPos) else max signed (-oldPos)

def unitPnl (oldPos avgEntry price : Int) : Int :=
  if oldPos > 0 then price - avgEntry else avgEntry - price

/-- The exact results of the 32-bit operations of `apply_fill`, in the order of the source. -/
def fillOps32 (oldPos signed : Int) : List Int :=
  [signed] ++ (if Closing oldPos signed then [-oldPos, |closeQty oldPos signed|] else []) ++
    (if Opening oldPos signed then [|oldPos|, |signed|, |oldPos| + |signed|] else []) ++
    [oldPos + signed]

/-- The exact results of the 64-bit operations of `apply_fill`, in the order of the source. -/
def fillOps64 (oldPos signed avgEntry realized price : Int) : List Int :=
  (if Closing oldPos signed then
    [unitPnl oldPos avgEntry price, |closeQty oldPos signed| * unitPnl oldPos avgEntry price,
      realized + |closeQty oldPos signed| * unitPnl oldPos avgEntry price] else []) ++
    (if Opening oldPos signed then
      [avgEntry * |oldPos|, price * |signed|, avgEntry * |oldPos| + price * |signed|] else [])

def ApplySafe (c : ContestantState) (cid : Nat) (side : Side) (price qty : Int) : Prop :=
  (∀ x ∈ fillOps32 (c.position cid) (signedQty side qty), IsInt32 x) ∧
    ∀ x ∈ fillOps64 (c.position cid) (signedQty side qty) (c.avgEntry cid) (c.realizedPnl cid) price,
      IsInt64 x

/-- The sum of the best prices, which `send_fill` and `make_session_end` halve, does not overflow. -/
def MidSafe (b : OrderBook) : Prop := IsInt64 (b.bestBidPrice.1 + b.bestBidPrice.2.bestAskPrice.1)

instance (c : ContestantState) (cid : Nat) (side : Side) (price qty : Int) :
    Decidable (ApplySafe c cid side price qty) := inferInstanceAs (Decidable (_ ∧ _))

instance (b : OrderBook) : Decidable (MidSafe b) := inferInstanceAs (Decidable (IsInt64 _))

/-- One round of the fill loop of `process_order`: two calls of `apply_fill`, two of `send_fill`. -/
def RoundSafe (contestantId : Nat) (order : OrderEntry) (e : MatchEngine G) (f : MatchResult) : Prop :=
  ApplySafe e.contestants (e.book.pool.orders f.makerIdx).contestantId
      (e.book.pool.orders f.makerIdx).side f.fillPrice f.fillQty ∧
    ApplySafe (e.contestants.applyFill (e.book.pool.orders f.makerIdx).contestantId
      (e.book.pool.orders f.makerIdx).side f.fillPrice f.fillQty) contestantId order.side
        f.fillPrice f.fillQty ∧
    MidSafe e.book ∧ MidSafe e.book.bestBidPrice.2.bestAskPrice.2

instance (contestantId : Nat) (order : OrderEntry) (e : MatchEngine G) (f : MatchResult) :
    Decidable (RoundSafe contestantId order e f) := inferInstanceAs (Decidable (_ ∧ _))

def LoopSafe (contestantId : Nat) (order : OrderEntry) (timestampNs : Nat) :
    MatchEngine G × Int → List MatchResult → Prop
  | _, [] => True
  | acc, f :: fills => RoundSafe contestantId order acc.1 f ∧
      LoopSafe contestantId order timestampNs
        (MatchEngine.settleFill contestantId order timestampNs acc f) fills

instance decidableLoopSafe (contestantId : Nat) (order : OrderEntry) (timestampNs : Nat) :
    (acc : MatchEngine G × Int) → (fills : List MatchResult) →
      Decidable (LoopSafe contestantId order timestampNs acc fills)
  | _, [] => inferInstanceAs (Decidable True)
  | acc, f :: fills =>
    have := decidableLoopSafe contestantId order timestampNs
      (MatchEngine.settleFill contestantId order timestampNs acc f) fills
    inferInstanceAs (Decidable (_ ∧ _))

/-- The engine as the fill loop of `process_order` meets it. -/
def counted (e : MatchEngine G) (contestantId : Nat) (book : OrderBook) : MatchEngine G :=
  { e with
    book := book
    contestants := { e.contestants with
      totalOrders := Function.update e.contestants.totalOrders contestantId
        (succ32 (e.contestants.totalOrders contestantId)) } }

/-- No signed operation overflows that `process_order` performs in `apply_fill` and `send_fill`. -/
def OrderSafe (e : MatchEngine G) (contestantId : Nat) (order : OrderEntry) (timestampNs : Nat) :
    Prop :=
  contestantId < e.contestants.count → e.orderRejection contestantId order = none →
    match e.book.matchOrder order.side order.price order.quantity contestantId 64 with
    | none => True
    | some (fills, book) => LoopSafe contestantId order timestampNs (counted e contestantId book, 0) fills

instance (e : MatchEngine G) (contestantId : Nat) (order : OrderEntry) (timestampNs : Nat) :
    Decidable (OrderSafe e contestantId order timestampNs) := by
  unfold OrderSafe
  split
  · infer_instance
  · infer_instance

/-- The price `make_session_end` marks to. -/
def sessionMid (lastUpdate : G → MarketUpdate) (e : MatchEngine G) : Int :=
  if (wrap64 (e.book.bestBidPrice.1 + e.book.bestBidPrice.2.bestAskPrice.1)).tdiv 2 ≤ 0 then
    (lastUpdate e.marketGen).lastTradePrice
  else (wrap64 (e.book.bestBidPrice.1 + e.book.bestBidPrice.2.bestAskPrice.1)).tdiv 2

theorem makeSessionEnd_finalPnl (lastUpdate : G → MarketUpdate) (e : MatchEngine G) (cid ts : Nat) :
    (e.makeSessionEnd lastUpdate cid ts).1.finalPnl =
      e.contestants.totalPnl cid (sessionMid lastUpdate e) := rfl

def unitValue (position avgEntry mid : Int) : Int :=
  if position > 0 then mid - avgEntry else avgEntry - mid

/-- The exact results of the 64-bit operations of `total_pnl` and `unrealized_pnl`; the size of the
position is the only 32-bit one. -/
def markOps64 (position avgEntry realized mid : Int) : List Int :=
  if position = 0 then [realized]
  else [unitValue position avgEntry mid, |position| * unitValue position avgEntry mid,
    realized + |position| * unitValue position avgEntry mid]

def SessionSafe (lastUpdate : G → MarketUpdate) (e : MatchEngine G) (cid : Nat) : Prop :=
  MidSafe e.book ∧ IsInt32 |e.contestants.position cid| ∧
    ∀ x ∈ markOps64 (e.contestants.position cid) (e.contestants.avgEntry cid)
      (e.contestants.realizedPnl cid) (sessionMid lastUpdate e), IsInt64 x

theorem isInt32_of_abs {x : Int} (small : |x| < 2147483648) : IsInt32 x := by
  have bounds := abs_lt.mp small
  exact ⟨by omega, by omega⟩

theorem isInt64_of_abs {x : Int} (small : |x| < 9223372036854775808) : IsInt64 x := by
  have bounds := abs_lt.mp small
  unfold IsInt64 int64Min int64Max
  exact ⟨by omega, by omega⟩

theorem abs_mul_le {a b A B : Int} (first : |a| ≤ A) (second : |b| ≤ B) : |a * b| ≤ A * B := by
  rw [abs_mul]
  exact mul_le_mul first second (abs_nonneg b) ((abs_nonneg a).trans first)

theorem abs_sub_le_double {a b A : Int} (first : |a| ≤ A) (second : |b| ≤ A) : |a - b| ≤ 2 * A := by
  have triangle := abs_sub a b
  omega

theorem abs_tdiv_le {a t B : Int} (positive : 0 < t) (bound : |a| ≤ B * t) : |a.tdiv t| ≤ B := by
  have nonneg : 0 ≤ B := by
    by_contra negative
    have below := mul_neg_of_neg_of_pos (not_le.mp negative) positive
    have above := abs_nonneg a
    omega
  have size : a.natAbs ≤ t.natAbs * B.toNat := by
    zify
    rw [Int.toNat_of_nonneg nonneg, abs_of_pos positive, mul_comm]
    exact bound
  have quotient : (a.tdiv t).natAbs ≤ B.toNat := by
    rw [Int.natAbs_tdiv]
    exact Nat.div_le_of_le_mul size
  rw [Int.abs_eq_natAbs]
  omega

theorem abs_signedQty (side : Side) {qty : Int} (nonneg : 0 ≤ qty) : |signedQty side qty| = qty := by
  cases side
  · exact abs_of_nonneg nonneg
  · exact (abs_neg qty).trans (abs_of_nonneg nonneg)

theorem closingPnl_eq {oldPos signed : Int} (avgEntry price : Int)
    (words : Closing oldPos signed → IsInt32 (-oldPos) ∧ IsInt32 |closeQty oldPos signed|) :
    closingPnl oldPos signed avgEntry price =
      if Closing oldPos signed then |closeQty oldPos signed| * unitPnl oldPos avgEntry price else 0 := by
  by_cases closing : Closing oldPos signed
  · rw [if_pos closing, closingPnl, if_pos (show _ ∨ _ from closing)]
    obtain ⟨negated, close⟩ := words closing
    rw [closeQty] at close
    simp only [wrap32_of_isInt32 negated, ite_wrap32_neg_eq_abs close.2, unitPnl, closeQty]
    by_cases long : oldPos > 0
    · rw [if_pos long, if_pos long]
    · rw [if_neg long, if_neg long]
  · rw [if_neg closing, closingPnl, if_neg (show ¬ (_ ∨ _) from closing)]

theorem abs_closeQty_le {oldPos signed : Int} (closing : Closing oldPos signed) :
    |closeQty oldPos signed| ≤ |signed| := by
  rw [closeQty]
  rcases closing with ⟨long, sells⟩ | ⟨short, buys⟩
  · rw [if_neg (not_lt.mpr sells.le), abs_of_neg sells, abs_le]
    omega
  · rw [if_pos buys, abs_of_pos buys, abs_le]
    omega

theorem abs_unitPnl_le {oldPos avgEntry price P : Int} (entry : |avgEntry| ≤ P) (near : |price| ≤ P) :
    |unitPnl oldPos avgEntry price| ≤ 2 * P := by
  rw [unitPnl]
  split_ifs
  · exact abs_sub_le_double near entry
  · exact abs_sub_le_double entry near

section Accounts

/-- Accounts after `v` units have been booked at prices up to `P` in size. -/
structure AccountsWithin (P v : Int) (c : ContestantState) : Prop where
  position : ∀ cid, |c.position cid| ≤ v
  entry : ∀ cid, |c.avgEntry cid| ≤ P
  profit : ∀ cid, |c.realizedPnl cid| ≤ 2 * P * v

variable {P v : Int} {c : ContestantState} {cid : Nat} {side : Side} {price qty : Int}

/-- What bounds a booking of `qty` units behind `v` others. -/
structure Affordable (P v price qty : Int) : Prop where
  nonneg : 0 ≤ qty
  near : |price| ≤ P
  narrow : v + qty < 2147483648
  wide : 2 * P * (v + qty) < 9223372036854775808

variable (within : AccountsWithin P v c) (fits : Affordable P v price qty)
include within fits

theorem AccountsWithin.closing_le (closing : Closing (c.position cid) (signedQty side qty)) :
    |(|closeQty (c.position cid) (signedQty side qty)|) *
      unitPnl (c.position cid) (c.avgEntry cid) price| ≤ qty * (2 * P) := by
  refine abs_mul_le ?_ (abs_unitPnl_le (within.entry cid) fits.near)
  rw [abs_abs]
  exact (abs_closeQty_le closing).trans (abs_signedQty side fits.nonneg).le

theorem AccountsWithin.profit_le (closing : Closing (c.position cid) (signedQty side qty)) :
    |c.realizedPnl cid + |closeQty (c.position cid) (signedQty side qty)| *
      unitPnl (c.position cid) (c.avgEntry cid) price| ≤ 2 * P * (v + qty) := by
  calc |c.realizedPnl cid + |closeQty (c.position cid) (signedQty side qty)| *
        unitPnl (c.position cid) (c.avgEntry cid) price|
      ≤ 2 * P * v + qty * (2 * P) :=
        (abs_add_le _ _).trans (add_le_add (within.profit cid) (within.closing_le fits closing))
    _ = 2 * P * (v + qty) := by ring

theorem AccountsWithin.cost_le :
    |c.avgEntry cid * |c.position cid| + price * (|signedQty side qty|)| ≤
      P * (|c.position cid| + |signedQty side qty|) := by
  calc |c.avgEntry cid * |c.position cid| + price * (|signedQty side qty|)|
      ≤ P * |c.position cid| + P * |signedQty side qty| := by
        refine (abs_add_le _ _).trans (add_le_add ?_ ?_)
        · exact abs_mul_le (within.entry cid) (abs_abs _).le
        · exact abs_mul_le fits.near (abs_abs _).le
    _ = P * (|c.position cid| + |signedQty side qty|) := by ring

theorem AccountsWithin.size_le : |c.position cid| + |signedQty side qty| ≤ v + qty := by
  rw [abs_signedQty side fits.nonneg]
  exact Int.add_le_add_right (within.position cid) qty

theorem AccountsWithin.nonneg : 0 ≤ P ∧ 0 ≤ v :=
  ⟨(abs_nonneg price).trans fits.near, (abs_nonneg _).trans (within.position 0)⟩

theorem AccountsWithin.cost_small : P * (v + qty) < 9223372036854775808 := by
  have wide := fits.wide
  have nonneg := within.nonneg fits
  have product := mul_nonneg nonneg.1 (add_nonneg nonneg.2 fits.nonneg)
  linarith

theorem AccountsWithin.cost_mono {u : Int} (less : u ≤ v + qty) : P * u ≤ P * (v + qty) :=
  mul_le_mul_of_nonneg_left less (within.nonneg fits).1

theorem AccountsWithin.ops32 (x : Int)
    (listed : x ∈ fillOps32 (c.position cid) (signedQty side qty)) : IsInt32 x := by
  have narrow := fits.narrow
  have size : |c.position cid| + |signedQty side qty| ≤ v + qty := within.size_le fits
  have signed := abs_nonneg (signedQty side qty)
  have held := abs_nonneg (c.position cid)
  apply isInt32_of_abs
  simp only [fillOps32, List.mem_append, List.mem_ite_nil_right, List.mem_cons, List.not_mem_nil,
    or_false] at listed
  rcases listed with ((rfl | ⟨closing, rfl | rfl⟩) | ⟨-, rfl | rfl | rfl⟩) | rfl
  · omega
  · rw [abs_neg]
    omega
  · rw [abs_abs]
    have close := abs_closeQty_le closing
    omega
  · rw [abs_abs]
    omega
  · rw [abs_abs]
    omega
  · rw [abs_of_nonneg (add_nonneg held signed)]
    omega
  · have sum := abs_add_le (c.position cid) (signedQty side qty)
    omega

theorem AccountsWithin.unitPnl_small (closing : Closing (c.position cid) (signedQty side qty)) :
    |unitPnl (c.position cid) (c.avgEntry cid) price| < 9223372036854775808 := by
  have wide := fits.wide
  have size : |c.position cid| + |signedQty side qty| ≤ v + qty := within.size_le fits
  have held := abs_nonneg (c.position cid)
  have traded : signedQty side qty ≠ 0 := by
    rcases closing with ⟨-, sells⟩ | ⟨-, buys⟩
    · exact sells.ne
    · exact buys.ne'
  have moved := abs_pos.mpr traded
  have unit : |unitPnl (c.position cid) (c.avgEntry cid) price| ≤ 2 * P :=
    abs_unitPnl_le (within.entry cid) fits.near
  have least := within.cost_mono fits (show 1 ≤ v + qty by omega)
  linarith

theorem AccountsWithin.ops64 (x : Int) (listed : x ∈ fillOps64 (c.position cid)
    (signedQty side qty) (c.avgEntry cid) (c.realizedPnl cid) price) : IsInt64 x := by
  have wide := fits.wide
  have size : |c.position cid| + |signedQty side qty| ≤ v + qty := within.size_le fits
  have cost := within.cost_small fits
  have signed := abs_nonneg (signedQty side qty)
  have held := abs_nonneg (c.position cid)
  have units := (within.nonneg fits).2
  apply isInt64_of_abs
  simp only [fillOps64, List.mem_append, List.mem_ite_nil_right, List.mem_cons, List.not_mem_nil,
    or_false] at listed
  rcases listed with ⟨closing, rfl | rfl | rfl⟩ | ⟨-, rfl | rfl | rfl⟩
  · exact within.unitPnl_small fits closing
  · have closed := within.closing_le fits closing
    have most := within.cost_mono fits (show qty ≤ v + qty by omega)
    linarith
  · exact (within.profit_le fits closing).trans_lt wide
  · have old : |c.avgEntry cid * (|c.position cid|)| ≤ P * |c.position cid| :=
      abs_mul_le (within.entry cid) (abs_abs _).le
    have most := within.cost_mono fits (show |c.position cid| ≤ v + qty by omega)
    linarith
  · have new : |price * (|signedQty side qty|)| ≤ P * |signedQty side qty| :=
      abs_mul_le fits.near (abs_abs _).le
    have most := within.cost_mono fits (show |signedQty side qty| ≤ v + qty by omega)
    linarith
  · have both : |c.avgEntry cid * |c.position cid| + price * (|signedQty side qty|)| ≤ _ :=
      within.cost_le fits
    have most := within.cost_mono fits size
    linarith

theorem AccountsWithin.applySafe : ApplySafe c cid side price qty :=
  ⟨within.ops32 fits, within.ops64 fits⟩

theorem AccountsWithin.entry_le (safe : ApplySafe c cid side price qty) :
    |nextEntry (c.position cid) (signedQty side qty) (c.avgEntry cid) price| ≤ P := by
  by_cases opening : Opening (c.position cid) (signedQty side qty)
  · rw [nextEntry, if_pos (show _ ∨ _ from opening)]
    have held : IsInt32 |c.position cid| := safe.1 _ (by simp [fillOps32, opening])
    have moved : IsInt32 |signedQty side qty| := safe.1 _ (by simp [fillOps32, opening])
    simp only [ite_wrap32_neg_eq_abs held.2, ite_wrap32_neg_eq_abs moved.2]
    have total : IsInt32 (|c.position cid| + |signedQty side qty|) :=
      safe.1 _ (by simp [fillOps32, opening])
    have old : IsInt64 (c.avgEntry cid * |c.position cid|) := safe.2 _ (by simp [fillOps64, opening])
    have new : IsInt64 (price * |signedQty side qty|) := safe.2 _ (by simp [fillOps64, opening])
    have both : IsInt64 (c.avgEntry cid * |c.position cid| + price * |signedQty side qty|) :=
      safe.2 _ (by simp [fillOps64, opening])
    rw [wrap32_of_isInt32 total, wrap64_of_isInt64 old, wrap64_of_isInt64 new, wrap64_of_isInt64 both]
    split_ifs with positive
    · exact abs_tdiv_le positive (within.cost_le fits)
    · exact within.entry cid
  · rw [nextEntry, if_neg (show ¬ (_ ∨ _) from opening)]
    exact within.entry cid

theorem AccountsWithin.applyFill : AccountsWithin P (v + qty) (c.applyFill cid side price qty) := by
  have safe : ApplySafe c cid side price qty := within.applySafe fits
  have nonneg := within.nonneg fits
  have more : 2 * P * v ≤ 2 * P * (v + qty) :=
    mul_le_mul_of_nonneg_left (by linarith [fits.nonneg]) (by linarith)
  have later := fits.nonneg
  rw [ContestantState.applyFill_eq]
  refine ⟨fun other => ?_, fun other => ?_, fun other => ?_⟩
  · show |Function.update c.position cid (wrap32 (c.position cid + signedQty side qty)) other| ≤ _
    by_cases own : other = cid
    · subst own
      have word : IsInt32 (c.position other + signedQty side qty) := safe.1 _ (by simp [fillOps32])
      rw [Function.update_self, wrap32_of_isInt32 word]
      exact (abs_add_le _ _).trans (within.size_le fits)
    · rw [Function.update_of_ne own]
      have held := within.position other
      omega
  · show |Function.update c.avgEntry cid (nextEntry (c.position cid) (signedQty side qty)
      (c.avgEntry cid) price) other| ≤ _
    by_cases own : other = cid
    · subst own
      rw [Function.update_self]
      exact within.entry_le fits safe
    · rw [Function.update_of_ne own]
      exact within.entry other
  · show |Function.update c.realizedPnl cid (wrap64 (c.realizedPnl cid + closingPnl (c.position cid)
      (signedQty side qty) (c.avgEntry cid) price)) other| ≤ _
    by_cases own : other = cid
    · subst own
      rw [Function.update_self, closingPnl_eq _ _ fun closing =>
        ⟨safe.1 _ (by simp [fillOps32, closing]), safe.1 _ (by simp [fillOps32, closing])⟩]
      by_cases closing : Closing (c.position other) (signedQty side qty)
      · have word : IsInt64 (c.realizedPnl other + |closeQty (c.position other) (signedQty side qty)| *
            unitPnl (c.position other) (c.avgEntry other) price) :=
          safe.2 _ (by simp [fillOps64, closing])
        rw [if_pos closing, wrap64_of_isInt64 word]
        exact within.profit_le fits closing
      · have word : IsInt64 (c.realizedPnl other) :=
          isInt64_of_abs ((within.profit other).trans_lt (more.trans_lt fits.wide))
        rw [if_neg closing, Int.add_zero, wrap64_of_isInt64 word]
        exact (within.profit other).trans more
    · rw [Function.update_of_ne own]
      exact (within.profit other).trans more

end Accounts

section Loop

variable {P v : Int}

theorem AccountsWithin.mono {c : ContestantState} {v' : Int} (within : AccountsWithin P v c)
    (nonneg : 0 ≤ P) (more : v ≤ v') : AccountsWithin P v' c where
  position cid := (within.position cid).trans more
  entry := within.entry
  profit cid := (within.profit cid).trans (mul_le_mul_of_nonneg_left more (by omega))

theorem AccountsWithin.congr {c c' : ContestantState} (within : AccountsWithin P v c)
    (position : c'.position = c.position) (entry : c'.avgEntry = c.avgEntry)
    (profit : c'.realizedPnl = c.realizedPnl) : AccountsWithin P v c' where
  position cid := by rw [position]; exact within.position cid
  entry cid := by rw [entry]; exact within.entry cid
  profit cid := by rw [profit]; exact within.profit cid

theorem midSafe_of_levels {b : OrderBook} (within : LevelsWithin P b) (nonneg : 0 ≤ P)
    (wide : 2 * P < 9223372036854775808) : MidSafe b := by
  have bid : -P ≤ b.bestBidPrice.1 ∧ b.bestBidPrice.1 ≤ P := within.best nonneg .buy
  have ask : -P ≤ b.bestBidPrice.2.bestAskPrice.1 ∧ b.bestBidPrice.2.bestAskPrice.1 ≤ P :=
    (within.same (samePrices_bestField _ .buy b)).best nonneg .sell
  unfold MidSafe IsInt64 int64Min int64Max
  omega

theorem samePrices_refresh (b : OrderBook) : SamePrices b (refresh b) := by
  intro s
  rw [refresh_levels]

variable (contestantId : Nat) (order : OrderEntry) (timestampNs : Nat)

/-- What the fill loop may still book behind `v` units. -/
structure LoopWithin (P v : Int) (e : MatchEngine G) (fills : List MatchResult) : Prop where
  nonneg : 0 ≤ P
  accounts : AccountsWithin P v e.contestants
  levels : LevelsWithin P e.book
  prices : ∀ f ∈ fills, |f.fillPrice| ≤ P
  quantities : ∀ f ∈ fills, 0 ≤ f.fillQty
  narrow : v + 2 * filledQty fills < 2147483648
  wide : 2 * P * (v + 2 * filledQty fills) < 9223372036854775808
  double : 2 * P < 9223372036854775808

theorem filledQty_nonneg {fills : List MatchResult} (nonneg : ∀ f ∈ fills, 0 ≤ f.fillQty) :
    0 ≤ filledQty fills :=
  List.sum_nonneg fun q listed => by
    obtain ⟨f, member, rfl⟩ := List.mem_map.mp listed
    exact nonneg f member

theorem filledQty_cons (f : MatchResult) (fills : List MatchResult) :
    filledQty (f :: fills) = f.fillQty + filledQty fills := by
  rw [filledQty, List.map_cons, List.sum_cons]
  rfl

theorem LoopWithin.round {acc : MatchEngine G × Int} {f : MatchResult} {fills : List MatchResult}
    (within : LoopWithin P v acc.1 (f :: fills)) :
    RoundSafe contestantId order acc.1 f ∧
      LoopWithin P (v + 2 * f.fillQty)
        (MatchEngine.settleFill contestantId order timestampNs acc f).1 fills := by
  have nonneg := within.nonneg
  have narrow := within.narrow
  have wide := within.wide
  have near := within.prices f List.mem_cons_self
  have some_ := within.quantities f List.mem_cons_self
  have later : ∀ g ∈ fills, 0 ≤ g.fillQty :=
    fun g listed => within.quantities g (List.mem_cons_of_mem f listed)
  have rest := filledQty_nonneg later
  rw [filledQty_cons] at narrow wide
  have grows : ∀ {u : Int}, u ≤ v + 2 * (f.fillQty + filledQty fills) →
      2 * P * u < 9223372036854775808 :=
    fun less => (mul_le_mul_of_nonneg_left less (by omega)).trans_lt wide
  have first : Affordable P v f.fillPrice f.fillQty :=
    ⟨some_, near, by omega, grows (by omega)⟩
  have second : Affordable P (v + f.fillQty) f.fillPrice f.fillQty :=
    ⟨some_, near, by omega, grows (by omega)⟩
  have maker : AccountsWithin P (v + f.fillQty) (acc.1.contestants.applyFill
      (acc.1.book.pool.orders f.makerIdx).contestantId (acc.1.book.pool.orders f.makerIdx).side
      f.fillPrice f.fillQty) := within.accounts.applyFill first
  refine ⟨⟨within.accounts.applySafe first, maker.applySafe second,
    midSafe_of_levels within.levels nonneg within.double,
    midSafe_of_levels (within.levels.same (samePrices_refresh _)) nonneg within.double⟩, ?_⟩
  refine ⟨nonneg, ?_, ?_, fun g listed => within.prices g (List.mem_cons_of_mem f listed), later,
    by omega, grows (by omega), within.double⟩
  · have sum : v + 2 * f.fillQty = v + f.fillQty + f.fillQty := by omega
    rw [sum]
    exact maker.applyFill second
  · rw [(settleFill_spec contestantId order timestampNs acc f).2.1]
    exact within.levels.same (samePrices_refresh _)

theorem LoopWithin.loop (fills : List MatchResult) (acc : MatchEngine G × Int)
    (within : LoopWithin P v acc.1 fills) :
    LoopSafe contestantId order timestampNs acc fills ∧
      AccountsWithin P (v + 2 * filledQty fills)
        (fills.foldl (MatchEngine.settleFill contestantId order timestampNs) acc).1.contestants := by
  induction fills generalizing acc v with
  | nil =>
    have none : v + 2 * filledQty [] = v := Int.add_zero v
    rw [none]
    exact ⟨trivial, within.accounts⟩
  | cons f fills ih =>
    obtain ⟨here, next⟩ := within.round contestantId order timestampNs
    obtain ⟨later, accounts⟩ := ih _ next
    have sum : v + 2 * filledQty (f :: fills) = v + 2 * f.fillQty + 2 * filledQty fills := by
      rw [filledQty_cons]
      omega
    rw [sum]
    exact ⟨⟨here, later⟩, accounts⟩

end Loop

section Engine

/-- An engine under the default size limit that has booked up to `v` units at prices up to `P`. -/
structure EngineWithin (P v : Int) (e : MatchEngine G) : Prop where
  nonneg : 0 ≤ P
  accounts : AccountsWithin P v e.contestants
  cells : CellsWithin P 50 e.book
  levels : LevelsWithin P e.book
  size : e.cfg.maxOrderSize = 50

variable {P v : Int} {e e' : MatchEngine G} {cid ts : Nat} {order : OrderEntry}

theorem engineWithin_init (nonneg : 0 ≤ P) (gen : G) :
    EngineWithin P 0 (MatchEngine.init .default gen) where
  nonneg := nonneg
  accounts := ⟨fun _ => le_rfl, fun _ => nonneg, fun _ => (Int.mul_zero (2 * P)).ge⟩
  cells := cellsWithin_init nonneg (by decide)
  levels s i := by
    have zero : ((MatchEngine.init .default gen).book.levels s).prices i = 0 := by cases s <;> rfl
    rw [zero]
    omega
  size := rfl

structure RoomFor (P v : Int) : Prop where
  narrow : v + 100 < 2147483648
  wide : 2 * P * (v + 100) < 9223372036854775808
  double : 2 * P < 9223372036854775808

theorem settleFills_cfg (fills : List MatchResult) (acc : MatchEngine G × Int) :
    (fills.foldl (MatchEngine.settleFill cid order ts) acc).1.cfg = acc.1.cfg :=
  (settleFills_spec cid order ts fills acc).2.2.cfg

theorem restRemainder_accounts {filled : Int} (returns : e.restRemainder cid order filled ts = some e') :
    e'.contestants.position = e.contestants.position ∧
      e'.contestants.avgEntry = e.contestants.avgEntry ∧
      e'.contestants.realizedPnl = e.contestants.realizedPnl ∧ e'.cfg = e.cfg := by
  rw [MatchEngine.restRemainder] at returns
  split_ifs at returns with wanted some_fill
  · obtain ⟨⟨r, b⟩, -, rest⟩ := Option.map_eq_some_iff.mp returns
    simp only at rest
    split_ifs at rest with real
    · subst rest
      exact ⟨rfl, rfl, rfl, rfl⟩
    · subst rest
      exact ⟨rfl, rfl, rfl, rfl⟩
  · cases returns
    exact ⟨rfl, rfl, rfl, rfl⟩
  · cases returns
    exact ⟨rfl, rfl, rfl, rfl⟩

theorem EngineWithin.loopWithin {fills : List MatchResult} {b₁ : OrderBook}
    (within : EngineWithin P v e) (room : RoomFor P v)
    (accepted : e.orderRejection cid order = none)
    (matches_ : e.book.matchOrder order.side order.price order.quantity cid 64 = some (fills, b₁)) :
    LoopWithin P v (counted e cid b₁) fills ∧ filledQty fills ≤ 50 ∧ CellsWithin P 50 b₁ := by
  have size := size_of_accepted accepted
  rw [within.size] at size
  obtain ⟨cells, total, prices, quantities⟩ := matchOrder_within within.cells size.1.le matches_
  have most : filledQty fills ≤ 50 := total.trans size.2
  have nonneg := within.nonneg
  have narrow := room.narrow
  refine ⟨⟨nonneg, within.accounts.congr rfl rfl rfl, within.levels.matchOrder matches_,
    fun f listed => abs_le.mpr (prices f listed), fun f listed => (quantities f listed).1, by omega,
    ?_, room.double⟩, most, cells⟩
  exact (mul_le_mul_of_nonneg_left (by omega) (by omega)).trans_lt room.wide

theorem EngineWithin.orderSafe (within : EngineWithin P v e) (room : RoomFor P v) :
    OrderSafe e cid order ts := by
  intro registered accepted
  split
  · trivial
  · next fills b₁ matches_ =>
      obtain ⟨loop, -, -⟩ := within.loopWithin room accepted matches_
      exact (loop.loop cid order ts fills (counted e cid b₁, 0)).1

theorem EngineWithin.executeOrder (within : EngineWithin P v e) (room : RoomFor P v)
    (near : |order.price| ≤ P) (accepted : e.orderRejection cid order = none)
    (returns : e.executeOrder cid order ts = some e') : EngineWithin P (v + 100) e' := by
  have nonneg := within.nonneg
  have size := size_of_accepted accepted
  rw [within.size] at size
  obtain ⟨⟨fills, b₁⟩, matches_, rest⟩ := Option.bind_eq_some_iff.mp returns
  obtain ⟨loop, most, cells⟩ := within.loopWithin room accepted matches_
  change MatchEngine.restRemainder (fills.foldl (MatchEngine.settleFill cid order ts)
    (counted e cid b₁, 0)).1 cid order (fills.foldl (MatchEngine.settleFill cid order ts)
      (counted e cid b₁, 0)).2 ts = some e' at rest
  have accounts := (loop.loop cid order ts fills (counted e cid b₁, 0)).2
  obtain ⟨position, entry, profit, cfg⟩ := restRemainder_accounts rest
  obtain ⟨sum, book, -⟩ := settleFills_spec cid order ts fills (counted e cid b₁, 0)
  have filled := filledQty_nonneg loop.quantities
  obtain ⟨adds, stays⟩ := restRemainder_book rest
  rw [sum, book] at adds stays
  have pool : (settledBook fills b₁).pool = b₁.pool := by
    rw [settledBook]
    split_ifs
    · rfl
    · exact refresh_pool b₁
  have settled : CellsWithin P 50 (settledBook fills b₁) := cells.cells (by rw [pool])
  have leveled : LevelsWithin P (settledBook fills b₁) := by
    rw [settledBook]
    split_ifs
    · exact loop.levels
    · exact loop.levels.same (samePrices_refresh b₁)
  have books : CellsWithin P 50 e'.book ∧ LevelsWithin P e'.book := by
    by_cases wanted : order.quantity - (0 + filledQty fills) > 0 ∧ order.orderType = .limit
    · obtain ⟨r, added⟩ := adds wanted
      exact ⟨settled.addOrder (abs_le.mp near) ⟨by omega, by omega⟩ added,
        leveled.addOrder (abs_le.mp near) added⟩
    · rw [stays wanted]
      exact ⟨settled, leveled⟩
  refine ⟨nonneg, ?_, books.1, books.2, ?_⟩
  · exact (accounts.mono nonneg (by omega)).congr position entry profit
  · rw [cfg, settleFills_cfg]
    exact within.size

/-- An order with a price up to `P` in size. -/
def Priced (P : Int) : EngineOp → Prop
  | .processOrder _ order _ => |order.price| ≤ P
  | _ => True

instance (P : Int) (op : EngineOp) : Decidable (Priced P op) := by
  cases op <;> unfold Priced <;> infer_instance

def unitsOf : EngineOp → Int
  | .processOrder .. => 100
  | _ => 0

theorem EngineWithin.asked (within : EngineWithin P v e) (field : PriceLevelPool → Nat → Int)
    (s : Side) : EngineWithin P v { e with book := (OrderBook.bestField field s e.book).2 } :=
  ⟨within.nonneg, within.accounts, within.cells.cells (by rw [OrderBook.bestField]; simp),
    within.levels.same (samePrices_bestField field s e.book), within.size⟩

theorem EngineWithin.generateTick (nextTick : G → Nat → MarketUpdate × G)
    (within : EngineWithin P v e) : EngineWithin P v (e.generateTick nextTick ts).2 := by
  have both := (within.asked PriceLevelPool.prices .buy).asked PriceLevelPool.prices .sell
  have ticked : ∀ {e₁ : MatchEngine G}, EngineWithin P v e₁ → ∀ (gen : G) (n : Nat),
      EngineWithin P v { e₁ with marketGen := gen, tickCount := n } :=
    fun within _ _ => ⟨within.nonneg, within.accounts, within.cells, within.levels, within.size⟩
  simp only [MatchEngine.generateTick]
  split_ifs
  · exact ticked ((both.asked PriceLevelPool.totalQty .buy).asked PriceLevelPool.totalQty .sell) _ _
  · exact ticked (both.asked PriceLevelPool.totalQty .sell) _ _
  · exact ticked (both.asked PriceLevelPool.totalQty .buy) _ _
  · exact ticked both _ _

theorem EngineWithin.mono (within : EngineWithin P v e) {w : Int} (more : v ≤ w) :
    EngineWithin P w e :=
  ⟨within.nonneg, within.accounts.mono within.nonneg more, within.cells, within.levels, within.size⟩

theorem EngineWithin.processCancel (within : EngineWithin P v e) {cancel : CancelRequest}
    (returns : e.processCancel cid cancel ts = some e') : EngineWithin P v e' := by
  rcases processCancel_cases returns with ⟨r, b, cancels, rfl⟩ | rfl
  · exact ⟨within.nonneg, within.accounts.congr rfl rfl rfl, within.cells.cancelOrder cancels,
      within.levels.cancelOrder cancels, within.size⟩
  · exact ⟨within.nonneg, within.accounts, within.cells, within.levels, within.size⟩

theorem EngineWithin.processOrder (within : EngineWithin P v e) (room : RoomFor P v)
    (priced : |order.price| ≤ P) (returns : e.processOrder cid order ts = some e') :
    EngineWithin P (v + 100) e' := by
  have more : v ≤ v + 100 := by omega
  rw [MatchEngine.processOrder] at returns
  split_ifs at returns with unknown
  · cases returns
    exact within.mono more
  · cases rejection : e.orderRejection cid order with
    | none =>
      rw [rejection] at returns
      exact within.executeOrder room priced rejection returns
    | some status =>
      rw [rejection] at returns
      cases returns
      have kept := within.mono more
      exact ⟨kept.nonneg, kept.accounts, kept.cells, kept.levels, kept.size⟩

theorem EngineWithin.apply (nextTick : G → Nat → MarketUpdate × G) (within : EngineWithin P v e)
    {op : EngineOp} (room : unitsOf op = 100 → RoomFor P v) (priced : Priced P op)
    (returns : op.apply nextTick e = some e') : EngineWithin P (v + unitsOf op) e' := by
  cases op with
  | registerContestant cash =>
    cases returns
    show EngineWithin P (v + 0) _
    rw [Int.add_zero]
    exact ⟨within.nonneg, within.accounts.congr rfl rfl rfl, within.cells, within.levels,
      within.size⟩
  | popOutbound =>
    cases returns
    show EngineWithin P (v + 0) e.popOutbound.2
    rw [Int.add_zero, MatchEngine.popOutbound]
    split_ifs
    · exact within
    · exact ⟨within.nonneg, within.accounts, within.cells, within.levels, within.size⟩
  | generateTick ts =>
    cases returns
    show EngineWithin P (v + 0) _
    rw [Int.add_zero]
    exact within.generateTick nextTick
  | processCancel cid cancel ts =>
    show EngineWithin P (v + 0) _
    rw [Int.add_zero]
    exact within.processCancel returns
  | processOrder cid order ts => exact within.processOrder (room rfl) priced returns

def unitsIn (ops : List EngineOp) : Int := (ops.map unitsOf).sum

theorem unitsOf_nonneg (op : EngineOp) : 0 ≤ unitsOf op := by
  cases op <;> simp [unitsOf]

theorem unitsIn_cons (op : EngineOp) (ops : List EngineOp) :
    unitsIn (op :: ops) = unitsOf op + unitsIn ops := by
  rw [unitsIn, List.map_cons, List.sum_cons]
  rfl

theorem unitsIn_nonneg (ops : List EngineOp) : 0 ≤ unitsIn ops :=
  List.sum_nonneg fun units listed => by
    obtain ⟨op, -, rfl⟩ := List.mem_map.mp listed
    exact unitsOf_nonneg op

theorem RoomFor.mono {v' : Int} (room : RoomFor P v') (nonneg : 0 ≤ P) (less : v ≤ v') :
    RoomFor P v := by
  have narrow := room.narrow
  exact ⟨by omega, (mul_le_mul_of_nonneg_left (by omega) (by omega)).trans_lt room.wide, room.double⟩

theorem EngineWithin.run (nextTick : G → Nat → MarketUpdate × G) {ops : List EngineOp}
    (within : EngineWithin P v e) (priced : ∀ op ∈ ops, Priced P op)
    (room : RoomFor P (v + unitsIn ops))
    (returns : run (EngineOp.apply nextTick) e ops = some e') :
    EngineWithin P (v + unitsIn ops) e' := by
  induction ops generalizing e v with
  | nil =>
    cases returns
    have none : v + unitsIn [] = v := Int.add_zero v
    rwa [none]
  | cons op ops ih =>
    obtain ⟨e₁, move, rest⟩ := Option.bind_eq_some_iff.mp returns
    have nonneg := within.nonneg
    have here := unitsOf_nonneg op
    have later := unitsIn_nonneg ops
    have sum : v + unitsIn (op :: ops) = v + unitsOf op + unitsIn ops := by
      rw [unitsIn_cons]
      omega
    rw [sum] at room ⊢
    have step := within.apply nextTick (fun _ => room.mono nonneg (by omega))
      (priced op List.mem_cons_self) move
    exact ih step (fun other listed => priced other (List.mem_cons_of_mem op listed)) room rest

theorem EngineWithin.sessionSafe {lastUpdate : G → MarketUpdate} (within : EngineWithin P v e)
    (quoted : |(lastUpdate e.marketGen).lastTradePrice| ≤ P) (room : RoomFor P v)
    (wide : 4 * P * v < 9223372036854775808) : SessionSafe lastUpdate e cid := by
  have nonneg := within.nonneg
  have safe := midSafe_of_levels within.levels nonneg room.double
  have held := within.accounts.position cid
  have narrow := room.narrow
  have bid : -P ≤ e.book.bestBidPrice.1 ∧ e.book.bestBidPrice.1 ≤ P := within.levels.best nonneg .buy
  have ask : -P ≤ e.book.bestBidPrice.2.bestAskPrice.1 ∧ e.book.bestBidPrice.2.bestAskPrice.1 ≤ P :=
    (within.levels.same (samePrices_bestField _ .buy e.book)).best nonneg .sell
  have mid : |sessionMid lastUpdate e| ≤ P := by
    rw [sessionMid, wrap64_of_isInt64 safe]
    split_ifs
    · exact quoted
    · refine abs_tdiv_le (by decide) (abs_le.mpr ?_)
      omega
  have unit : |unitValue (e.contestants.position cid) (e.contestants.avgEntry cid)
      (sessionMid lastUpdate e)| ≤ 2 * P := by
    rw [unitValue]
    split_ifs
    · exact abs_sub_le_double mid (within.accounts.entry cid)
    · exact abs_sub_le_double (within.accounts.entry cid) mid
  have profit := within.accounts.profit cid
  have value : |(|e.contestants.position cid|) * unitValue (e.contestants.position cid)
      (e.contestants.avgEntry cid) (sessionMid lastUpdate e)| ≤ v * (2 * P) :=
    abs_mul_le (by rwa [abs_abs]) unit
  have some_ : 0 ≤ P * v := mul_nonneg nonneg ((abs_nonneg _).trans held)
  refine ⟨safe, isInt32_of_abs (by rw [abs_abs]; omega), fun x listed => isInt64_of_abs ?_⟩
  rw [markOps64] at listed
  split_ifs at listed with flat
  · rw [List.mem_singleton.mp listed]
    linarith
  · simp only [List.mem_cons, List.not_mem_nil, or_false] at listed
    rcases listed with rfl | rfl | rfl
    · have double := room.double
      linarith
    · linarith
    · have sum := abs_add_le (e.contestants.realizedPnl cid) ((|e.contestants.position cid|) *
        unitValue (e.contestants.position cid) (e.contestants.avgEntry cid) (sessionMid lastUpdate e))
      linarith

/-- In a run under the default configuration with prices up to `P` in size, no signed operation of
the next order or of a session end overflows, as long as the orders are few enough for `P`. -/
theorem engine_arithmetic_in_range (P : Int) (nonneg : 0 ≤ P) (nextTick : G → Nat → MarketUpdate × G)
    (lastUpdate : G → MarketUpdate) (quoted : ∀ gen, |(lastUpdate gen).lastTradePrice| ≤ P) (gen : G)
    (ops : List EngineOp) (priced : ∀ op ∈ ops, Priced P op)
    (narrow : unitsIn ops + 100 < 2147483648)
    (wide : 4 * P * (unitsIn ops + 100) < 9223372036854775808) (e : MatchEngine G)
    (returns : run (EngineOp.apply nextTick) (MatchEngine.init .default gen) ops = some e) :
    (∀ cid order ts, OrderSafe e cid order ts) ∧ ∀ cid, SessionSafe lastUpdate e cid := by
  have units := unitsIn_nonneg ops
  have product := mul_nonneg nonneg units
  have room : RoomFor P (0 + unitsIn ops) := ⟨by omega, by linarith, by linarith⟩
  have within := (engineWithin_init nonneg gen).run nextTick priced room returns
  refine ⟨fun cid order ts => within.orderSafe room, fun cid => ?_⟩
  exact within.sessionSafe (quoted e.marketGen) room (by linarith)

def noUpdate (_ : Unit) : MarketUpdate := ⟨0, 0, 0, 0, 0, 0, 0, 0⟩

def bidRun (price : Int) : List EngineOp :=
  [.registerContestant 0, .registerContestant 0, .processOrder 0 ⟨.buy, .limit, 1, price, 2⟩ 0]

theorem bidRun_in_range :
    ∃ e, run (EngineOp.apply silentTick) (MatchEngine.init .default ()) (bidRun 10000) = some e ∧
      OrderSafe e 1 ⟨.sell, .limit, 2, 10000, 2⟩ 0 ∧ SessionSafe noUpdate e 0 := by
  have goes : (run (EngineOp.apply silentTick) (MatchEngine.init .default ())
      (bidRun 10000)).isSome = true := by decide +kernel
  obtain ⟨e, returns⟩ := Option.isSome_iff_exists.mp goes
  have safe := engine_arithmetic_in_range 10000 (by decide) silentTick noUpdate
    (fun _ => show |(0 : Int)| ≤ 10000 by decide) () (bidRun 10000) (by decide) (by decide) (by decide) e returns
  exact ⟨e, returns, safe.1 1 _ 0, safe.2 0⟩

/-- At a price of `2 ^ 62` the cost of two units is beyond 64 bits. -/
theorem bidRun_overflows :
    ∃ e, run (EngineOp.apply silentTick) (MatchEngine.init .default ())
        (bidRun 4611686018427387904) = some e ∧
      ¬ OrderSafe e 1 ⟨.sell, .limit, 2, 4611686018427387904, 2⟩ 0 := by
  have refuted : (run (EngineOp.apply silentTick) (MatchEngine.init .default ())
      (bidRun 4611686018427387904)).map (fun e =>
        decide (OrderSafe e 1 ⟨.sell, .limit, 2, 4611686018427387904, 2⟩ 0)) = some false := by
    decide +kernel
  obtain ⟨e, returns, same⟩ := Option.map_eq_some_iff.mp refuted
  exact ⟨e, returns, of_decide_eq_false same⟩

end Engine

end HftGrading.Exchange.Engine.SignedRange
