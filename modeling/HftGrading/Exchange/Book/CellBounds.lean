/- module: HftGrading/Exchange/Book/CellBounds
   source: exchange/include/exchange/orderbook.hpp
   digest: What match, add and cancel keep on every book, in order or not: few fills, bounded cells. -/

import HftGrading.Exchange.Book.LevelFilling
import HftGrading.Exchange.Book.LevelSearch

set_option autoImplicit false
set_option relaxedAutoImplicit false

namespace HftGrading.Exchange.Book.CellBounds

open Lib.PartialExecution WireProtocol PriceMap LimitBook
open LimitBook.OrderBook (Matching MatchResult fillStep matchLevel matchRound)
open LevelSearch LevelQueue LevelFilling

theorem closeIfEmpty_writes {b b' : OrderBook} {s : Side} {lidx : Nat}
    (closes : b.closeIfEmpty s lidx = some b') :
    ∃ L, L.prices = (b.levels s).prices ∧ b' = b.withLevels s L := by
  rw [OrderBook.closeIfEmpty] at closes
  split_ifs at closes
  · obtain ⟨L, deactivates, same⟩ := Option.bind_eq_some_iff.mp closes
    cases same
    obtain ⟨map, -, made⟩ := Option.bind_eq_some_iff.mp deactivates
    cases made
    exact ⟨{ b.levels s with
      active := Function.update (b.levels s).active lidx false
      priceMap := map
      bestIdx := if (b.levels s).bestIdx = lidx then nullIndex else (b.levels s).bestIdx }, rfl, rfl⟩
  · cases closes
    exact ⟨b.levels s, rfl, (OrderBook.withLevels_levels b s).symm⟩

theorem findBest_prices (s : Side) (L : PriceLevelPool) :
    (L.findBest s).2.prices = L.prices := by rw [findBest_snd]

section Matching

variable {I : Matching → Prop} {side : Side} {cid maxFills : Nat}
  (fill : ∀ m best oidx, I m → 0 < m.remaining → m.fills.length < maxFills →
    I (fillStep side best cid oidx m))
include fill

theorem matchLevel_keeps (best room oidx : Nat) (m : Matching) (holds : I m)
    (fits : m.fills.length + room ≤ maxFills) : I (matchLevel side best cid room oidx m) := by
  induction room generalizing oidx m with
  | zero => exact holds
  | succ room ih =>
    rw [matchLevel]
    split_ifs with goes
    · refine ih _ _ (fill m best oidx holds goes.2 (by omega)) ?_
      rw [fillStep]
      simp only [List.length_append, List.length_singleton]
      omega
    · exact holds

variable (levels : ∀ m s L, L.prices = (m.book.levels s).prices → I m →
  I { m with book := m.book.withLevels s L })
include levels

omit fill in
theorem closeIfEmpty_keeps {s : Side} {lidx : Nat} {m : Matching} {b : OrderBook} (holds : I m)
    (closes : m.book.closeIfEmpty s lidx = some b) : I { m with book := b } := by
  obtain ⟨L, prices, rfl⟩ := closeIfEmpty_writes closes
  exact levels m s L prices holds

theorem matchOrder_keeps {b b' : OrderBook} {aggressor : Side} {price quantity : Int}
    {fills : List MatchResult} (contra : side = aggressor.contra) (start : I ⟨b, [], quantity⟩)
    (returns : b.matchOrder aggressor price quantity cid maxFills = some (fills, b')) :
    ∃ m, I m ∧ m.fills = fills ∧
      b' = { m.book with totalFills := m.book.totalFills + m.fills.length } := by
  subst contra
  obtain ⟨m, whole, same⟩ := Option.bind_eq_some_iff.mp returns
  cases same
  refine ⟨m, ?_, rfl, rfl⟩
  refine loop_keeps (matchRound aggressor price cid maxFills) I I ?_ ?_ start whole
  · intro m m' holds round
    rw [matchRound] at round
    split_ifs at round with goes
    · simp only at round
      split_ifs at round with stop
      · cases round
      · obtain ⟨b₁, closes, same⟩ := Option.bind_eq_some_iff.mp round
        cases same
        refine closeIfEmpty_keeps levels
          (matchLevel_keeps fill _ _ _ _ (levels m _ _ (findBest_prices _ _) holds) ?_) closes
        show m.fills.length + (maxFills - m.fills.length) ≤ maxFills
        omega
    · cases round
  · intro m m' holds round
    rw [matchRound] at round
    split_ifs at round with goes
    · simp only at round
      split_ifs at round
      · cases round
        exact levels m _ _ (findBest_prices _ _) holds
      · obtain ⟨b₁, -, same⟩ := Option.bind_eq_some_iff.mp round
        cases same
    · cases round
      exact holds

end Matching

theorem matchOrder_few {b b' : OrderBook} {aggressor : Side} {price quantity : Int}
    {cid maxFills : Nat} {fills : List MatchResult}
    (returns : b.matchOrder aggressor price quantity cid maxFills = some (fills, b')) :
    fills.length ≤ maxFills := by
  obtain ⟨m, few, rfl, -⟩ := matchOrder_keeps (I := fun m => m.fills.length ≤ maxFills)
    (fun m best oidx _ _ room => by
      rw [fillStep]
      simp only [List.length_append, List.length_singleton]
      omega)
    (fun _ _ _ _ few => few) rfl (Nat.zero_le maxFills) returns
  exact few

section Cells

/-- Prices up to `P` in size and open quantities from 0 to `M`, in every cell of the pool. -/
def CellsWithin (P M : Int) (b : OrderBook) : Prop :=
  ∀ x, (-P ≤ (b.pool.orders x).price ∧ (b.pool.orders x).price ≤ P) ∧
    0 ≤ (b.pool.orders x).remainingQty ∧ (b.pool.orders x).remainingQty ≤ M

variable {P M : Int} {b b' : OrderBook}

theorem cellsWithin_init (price : 0 ≤ P) (quantity : 0 ≤ M) : CellsWithin P M OrderBook.init := by
  intro x
  show (-P ≤ 0 ∧ 0 ≤ P) ∧ (0 : Int) ≤ 0 ∧ 0 ≤ M
  omega

theorem CellsWithin.links (within : CellsWithin P M b)
    (same : ∀ x, body (b'.pool.orders x) = body (b.pool.orders x)) : CellsWithin P M b' := by
  intro x
  have price : (b'.pool.orders x).price = (b.pool.orders x).price :=
    (congrArg Order.price (same x) :)
  have open_ : (b'.pool.orders x).remainingQty = (b.pool.orders x).remainingQty :=
    (congrArg Order.remainingQty (same x) :)
  rw [price, open_]
  exact within x

theorem CellsWithin.cells (within : CellsWithin P M b) (same : b'.pool.orders = b.pool.orders) :
    CellsWithin P M b' := by
  rw [CellsWithin, same]
  exact within

theorem CellsWithin.modify (within : CellsWithin P M b) (x : Nat) (f : Order → Order)
    (fits : (-P ≤ (f (b.pool.orders x)).price ∧ (f (b.pool.orders x)).price ≤ P) ∧
      0 ≤ (f (b.pool.orders x)).remainingQty ∧ (f (b.pool.orders x)).remainingQty ≤ M) :
    CellsWithin P M (b.onPool (fun pool => pool.modify x f)) := by
  intro y
  rw [OrderBook.pool_onPool, orders_modify]
  split_ifs
  · exact fits
  · exact within y

theorem unlink_body (s : Side) (lidx x y : Nat) :
    body ((b.unlink s lidx x).pool.orders y) = body (b.pool.orders y) := by
  rw [OrderBook.unlink, skipPrev_orders, skipNext_orders]
  rfl

theorem CellsWithin.unlink (within : CellsWithin P M b) (s : Side) (lidx x : Nat) :
    CellsWithin P M (b.unlink s lidx x) := within.links (unlink_body s lidx x)

theorem CellsWithin.addOrder {cid ts r : Nat} {oid : UInt32} {s : Side} {price quantity : Int}
    (within : CellsWithin P M b) (near : -P ≤ price ∧ price ≤ P)
    (small : 0 ≤ quantity ∧ quantity ≤ M)
    (returns : b.addOrder cid oid s price quantity ts = some (r, b')) : CellsWithin P M b' := by
  rw [OrderBook.addOrder] at returns
  have unchanged : b.pool.alloc.2.orders = b.pool.orders := by
    rw [OrderPool.alloc]
    split_ifs
    · rfl
    · rfl
  have taken : CellsWithin P M { b with
      pool := b.pool.alloc.2
      nextExchangeId := b.nextExchangeId + 1 } := within.cells unchanged
  simp only at returns
  split_ifs at returns with none
  · cases returns
    exact within
  · have filled := taken.modify b.pool.alloc.1
      (OrderBook.fillCell b.nextExchangeId cid oid s price quantity ts) ⟨near, small⟩
    obtain ⟨⟨lidx, L⟩, -, rest⟩ := Option.bind_eq_some_iff.mp returns
    simp only at rest
    split_ifs at rest with unleveled
    · cases rest
      exact filled.cells rfl
    · cases rest
      have leveled := filled.cells (congrArg OrderPool.orders (OrderBook.pool_withLevels _ s L))
      have based := leveled.modify b.pool.alloc.1 (fun o => { o with levelIdx := lidx })
        (leveled b.pool.alloc.1)
      exact (based.links (append_body quantity)).cells
        (congrArg OrderPool.orders (OrderBook.pool_withLevels _ s _))

theorem CellsWithin.cancelOrder {x : Nat} {r : Bool} (within : CellsWithin P M b)
    (returns : b.cancelOrder x = some (r, b')) : CellsWithin P M b' := by
  rw [OrderBook.cancelOrder] at returns
  split_ifs at returns
  · cases returns
    exact within
  · simp only at returns
    split_ifs at returns
    · cases returns
      exact within
    · obtain ⟨b₁, closes, same⟩ := Option.bind_eq_some_iff.mp returns
      cases same
      have unlinked : CellsWithin P M b₁ := by
        obtain ⟨L, -, rfl⟩ := closeIfEmpty_writes closes
        refine (within.unlink (b.pool.orders x).side (b.pool.orders x).levelIdx x).cells ?_
        rw [OrderBook.pool_withLevels, pool_dropCount, pool_takeQty]
      have cell := unlinked x
      exact (unlinked.modify x (fun o => { o with remainingQty := 0 })
        ⟨cell.1, le_rfl, cell.2.1.trans cell.2.2⟩).cells rfl

/-- The loop of `match` while the cells are within bounds. -/
structure MatchesWithin (P M quantity : Int) (m : Matching) : Prop where
  cells : CellsWithin P M m.book
  wanted : 0 ≤ m.remaining
  total : (m.fills.map MatchResult.fillQty).sum + m.remaining = quantity
  prices : ∀ f ∈ m.fills, -P ≤ f.fillPrice ∧ f.fillPrice ≤ P
  quantities : ∀ f ∈ m.fills, 0 ≤ f.fillQty ∧ f.fillQty ≤ M

theorem MatchesWithin.fillStep {quantity : Int} {side : Side} {best cid x : Nat} {m : Matching}
    (within : MatchesWithin P M quantity m) :
    MatchesWithin P M quantity (fillStep side best cid x m) := by
  have cell := within.cells x
  have wanted := within.wanted
  rw [OrderBook.fillStep]
  generalize amount : (if m.remaining < (m.book.pool.orders x).remainingQty then m.remaining
    else (m.book.pool.orders x).remainingQty) = qty
  have bounds : 0 ≤ qty ∧ qty ≤ m.remaining ∧ qty ≤ (m.book.pool.orders x).remainingQty := by
    split_ifs at amount <;> omega
  have lowered := (within.cells.modify x (fun o => { o with remainingQty := o.remainingQty - qty })
    ⟨cell.1, by simp only; omega, by simp only; omega⟩).cells
      (congrArg OrderPool.orders (pool_takeQty _ side best qty))
  refine ⟨?_, ?_, ?_, ?_, ?_⟩
  · simp only
    split_ifs
    · have dropped := (lowered.unlink side best x).cells
        (congrArg OrderPool.orders (pool_dropCount _ side best))
      exact dropped.cells rfl
    · exact lowered
  · simp only
    omega
  · simp only [List.map_append, List.sum_append, List.map_singleton, List.sum_singleton]
    have total := within.total
    omega
  · intro f listed
    rcases List.mem_append.mp listed with old | new
    · exact within.prices f old
    · rw [List.mem_singleton.mp new]
      exact cell.1
  · intro f listed
    rcases List.mem_append.mp listed with old | new
    · exact within.quantities f old
    · rw [List.mem_singleton.mp new]
      exact ⟨bounds.1, by simp only; omega⟩

theorem matchOrder_within {aggressor : Side} {price quantity : Int} {cid maxFills : Nat}
    {fills : List MatchResult} (within : CellsWithin P M b) (wanted : 0 ≤ quantity)
    (returns : b.matchOrder aggressor price quantity cid maxFills = some (fills, b')) :
    CellsWithin P M b' ∧ (fills.map MatchResult.fillQty).sum ≤ quantity ∧
      (∀ f ∈ fills, -P ≤ f.fillPrice ∧ f.fillPrice ≤ P) ∧
      ∀ f ∈ fills, 0 ≤ f.fillQty ∧ f.fillQty ≤ M := by
  obtain ⟨m, done, rfl, rfl⟩ := matchOrder_keeps (I := MatchesWithin P M quantity)
    (fun m _ _ within _ _ => within.fillStep)
    (fun m s L _ within => ⟨within.cells.cells (by rw [OrderBook.pool_withLevels]), within.wanted,
      within.total, within.prices, within.quantities⟩) rfl
    ⟨within, wanted, Int.zero_add quantity, nofun, nofun⟩ returns
  have total := done.total
  have left := done.wanted
  exact ⟨done.cells.cells rfl, by omega, done.prices, done.quantities⟩

end Cells

section Levels

/-- Prices up to `P` in size, in every level of both sides. -/
def LevelsWithin (P : Int) (b : OrderBook) : Prop :=
  ∀ s i, -P ≤ (b.levels s).prices i ∧ (b.levels s).prices i ≤ P

def SamePrices (b b' : OrderBook) : Prop := ∀ s, (b'.levels s).prices = (b.levels s).prices

variable {P : Int} {b b' : OrderBook}

theorem LevelsWithin.same (within : LevelsWithin P b) (same : SamePrices b b') :
    LevelsWithin P b' := by
  intro s i
  rw [same]
  exact within s i

theorem SamePrices.trans {b'' : OrderBook} (first : SamePrices b b') (second : SamePrices b' b'') :
    SamePrices b b'' := fun s => (second s).trans (first s)

theorem samePrices_withLevels (b : OrderBook) {s : Side} {L : PriceLevelPool}
    (prices : L.prices = (b.levels s).prices) : SamePrices b (b.withLevels s L) := by
  intro t
  cases s <;> cases t <;> first | rfl | exact prices

theorem samePrices_onPool (b : OrderBook) (f : OrderPool → OrderPool) :
    SamePrices b (b.onPool f) := by
  intro s
  rw [OrderBook.levels_onPool]

theorem samePrices_unlink (b : OrderBook) (s : Side) (lidx x : Nat) :
    SamePrices b (b.unlink s lidx x) := by
  have next : SamePrices b (b.skipNext s lidx x) := by
    rw [OrderBook.skipNext]
    split_ifs
    · exact samePrices_onPool b _
    · exact samePrices_withLevels b rfl
  refine next.trans ?_
  rw [OrderBook.unlink, OrderBook.skipPrev]
  split_ifs
  · exact samePrices_onPool _ _
  · exact samePrices_withLevels _ rfl

theorem samePrices_append (b : OrderBook) (s : Side) (lidx x : Nat) (quantity : Int) :
    SamePrices b (b.append s lidx x quantity) := by
  have hooked : SamePrices b (b.hookLast s lidx x) := by
    rw [OrderBook.hookLast]
    split_ifs
    · exact samePrices_onPool b _
    · exact samePrices_withLevels b rfl
  exact hooked.trans (samePrices_withLevels _ rfl)

theorem samePrices_takeQty (b : OrderBook) (s : Side) (lidx : Nat) (qty : Int) :
    SamePrices b (b.takeQty s lidx qty) := samePrices_withLevels b rfl

theorem samePrices_dropCount (b : OrderBook) (s : Side) (lidx : Nat) :
    SamePrices b (b.dropCount s lidx) := samePrices_withLevels b rfl

theorem samePrices_fillStep (m : Matching) (s : Side) (best cid x : Nat) :
    SamePrices m.book (fillStep s best cid x m).book := by
  rw [fillStep]
  generalize (if m.remaining < (m.book.pool.orders x).remainingQty then m.remaining
    else (m.book.pool.orders x).remainingQty) = qty
  have lowered := (samePrices_onPool m.book (fun P =>
    P.modify x (fun o => { o with remainingQty := o.remainingQty - qty }))).trans
      (samePrices_takeQty _ s best qty)
  refine lowered.trans ?_
  simp only
  split_ifs
  · exact ((samePrices_unlink _ s best x).trans (samePrices_dropCount _ s best)).trans
      (samePrices_onPool _ _)
  · exact fun _ => rfl

theorem LevelsWithin.matchOrder {aggressor : Side} {price quantity : Int} {cid maxFills : Nat}
    {fills : List MatchResult} (within : LevelsWithin P b)
    (returns : b.matchOrder aggressor price quantity cid maxFills = some (fills, b')) :
    LevelsWithin P b' := by
  obtain ⟨m, same, -, rfl⟩ := matchOrder_keeps (I := fun m => SamePrices b m.book)
    (fun m best oidx same _ _ => same.trans (samePrices_fillStep m _ best cid oidx))
    (fun m s L prices same => same.trans (samePrices_withLevels _ prices)) rfl (fun _ => rfl) returns
  exact within.same (same.trans fun s => by cases s <;> rfl)

theorem LevelsWithin.findOrCreate {s : Side} {price : Int} {lidx : Nat} {L : PriceLevelPool}
    (within : LevelsWithin P b) (near : -P ≤ price ∧ price ≤ P)
    (returns : (b.levels s).findOrCreate price = some (lidx, L)) (i : Nat) :
    -P ≤ L.prices i ∧ L.prices i ≤ P := by
  obtain ⟨existing, -, rest⟩ := Option.bind_eq_some_iff.mp returns
  split_ifs at rest
  · cases rest
    exact within s i
  · cases rest
    exact within s i
  · obtain ⟨map, -, made⟩ := Option.bind_eq_some_iff.mp rest
    cases made
    show -P ≤ Function.update (b.levels s).prices (b.levels s).count price i ∧
      Function.update (b.levels s).prices (b.levels s).count price i ≤ P
    rw [Function.update_apply]
    split_ifs
    · exact near
    · exact within s i

theorem updateBest_prices (s : Side) (L : PriceLevelPool) (lidx : Nat) :
    (L.updateBest s lidx).prices = L.prices := by
  rw [PriceLevelPool.updateBest]
  split_ifs
  · rfl
  · rfl

theorem LevelsWithin.addOrder {cid ts r : Nat} {oid : UInt32} {s : Side} {price quantity : Int}
    (within : LevelsWithin P b) (near : -P ≤ price ∧ price ≤ P)
    (returns : b.addOrder cid oid s price quantity ts = some (r, b')) : LevelsWithin P b' := by
  rw [OrderBook.addOrder] at returns
  simp only at returns
  split_ifs at returns with none
  · cases returns
    exact within
  · obtain ⟨⟨lidx, L⟩, located, rest⟩ := Option.bind_eq_some_iff.mp returns
    have filled : LevelsWithin P { b with
        pool := b.pool.alloc.2.modify b.pool.alloc.1
          (OrderBook.fillCell b.nextExchangeId cid oid s price quantity ts)
        nextExchangeId := b.nextExchangeId + 1 } := within.same fun t => by cases t <;> rfl
    simp only at rest
    split_ifs at rest with unleveled
    · cases rest
      exact filled.same (samePrices_onPool _ _)
    · cases rest
      have leveled : LevelsWithin P (OrderBook.withLevels { b with
          pool := b.pool.alloc.2.modify b.pool.alloc.1
            (OrderBook.fillCell b.nextExchangeId cid oid s price quantity ts)
          nextExchangeId := b.nextExchangeId + 1 } s L) := by
        intro t i
        rcases Side.eq_or_eq_contra s t with rfl | rfl
        · rw [OrderBook.levels_withLevels]
          exact filled.findOrCreate near located i
        · rw [OrderBook.levels_contra_withLevels]
          exact filled _ i
      have hooked := leveled.same ((samePrices_onPool _ (fun P =>
        P.modify b.pool.alloc.1 (fun o => { o with levelIdx := lidx }))).trans
          (samePrices_append _ s lidx b.pool.alloc.1 quantity))
      exact (hooked.same (samePrices_withLevels _ (updateBest_prices s _ lidx))).same
        fun t => by cases t <;> rfl

theorem LevelsWithin.cancelOrder {x : Nat} {r : Bool} (within : LevelsWithin P b)
    (returns : b.cancelOrder x = some (r, b')) : LevelsWithin P b' := by
  rw [OrderBook.cancelOrder] at returns
  split_ifs at returns
  · cases returns
    exact within
  · simp only at returns
    split_ifs at returns
    · cases returns
      exact within
    · obtain ⟨b₁, closes, same⟩ := Option.bind_eq_some_iff.mp returns
      cases same
      obtain ⟨L, prices, rfl⟩ := closeIfEmpty_writes closes
      have unlinked := samePrices_unlink b (b.pool.orders x).side (b.pool.orders x).levelIdx x
      have taken := (unlinked.trans (samePrices_takeQty _ (b.pool.orders x).side
        (b.pool.orders x).levelIdx (b.pool.orders x).remainingQty)).trans
          (samePrices_dropCount _ (b.pool.orders x).side (b.pool.orders x).levelIdx)
      exact within.same ((taken.trans (samePrices_withLevels _ prices)).trans
        fun s => by rw [OrderBook.levels_onPool, OrderBook.levels_onPool])

theorem LevelsWithin.best (within : LevelsWithin P b) (nonneg : 0 ≤ P) (s : Side) :
    -P ≤ (OrderBook.bestField PriceLevelPool.prices s b).1 ∧
      (OrderBook.bestField PriceLevelPool.prices s b).1 ≤ P := by
  rw [OrderBook.bestField]
  simp only
  split_ifs
  · rw [findBest_prices]
    exact within s _
  · omega

theorem samePrices_bestField (field : PriceLevelPool → Nat → Int) (s : Side) (b : OrderBook) :
    SamePrices b (OrderBook.bestField field s b).2 :=
  samePrices_withLevels b (findBest_prices s _)

end Levels

end HftGrading.Exchange.Book.CellBounds
