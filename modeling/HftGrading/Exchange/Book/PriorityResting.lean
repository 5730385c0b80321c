/- module: HftGrading/Exchange/Book/PriorityResting
   source: exchange/include/exchange/orderbook.hpp
   digest: An order that rests joins the walk of its side behind the orders of its price. -/

import HftGrading.Exchange.Book.PriorityWalk
import HftGrading.Exchange.Book.BestCache

set_option autoImplicit false
set_option relaxedAutoImplicit false

namespace HftGrading.Exchange.Book.PriorityResting

open Function (update)
open Lib.PartialExecution Lib.PriceTimePriority
open Lib.RobinHoodTable (arcBounded_of_card)
open WireProtocol PriceMap LimitBook LevelSearch LevelQueue LevelFilling MatchRounds BookRep
open BookRuns BestCache PriorityWalk

variable {b : OrderBook} {Q : Queues} {s : Side}

theorem walkable_of_rep (rep : Rep b Q) (indexed : Indexed (b.levels s)) : Walkable b s := by
  refine ⟨indexed, fun i _ => ?_⟩
  rw [rep.queue_eq]
  exact rep.level s i

def activePrices (L : PriceLevelPool) : Finset Int := ((activeLevels L).map L.prices).toFinset

theorem mem_activePrices {L : PriceLevelPool} (indexed : Indexed L) (p : Int) :
    p ∈ activePrices L ↔ ∃ i, L.active i = true ∧ L.prices i = p := by
  rw [activePrices, List.mem_toFinset, List.mem_map]
  constructor
  · rintro ⟨i, hi, price⟩
    exact ⟨i, (mem_activeLevels indexed i).mp hi, price⟩
  · rintro ⟨i, active, price⟩
    exact ⟨i, (mem_activeLevels indexed i).mpr active, price⟩

section Rests

variable {cid ts x i : Nat} {client : UInt32} {price quantity : Int} {L : PriceLevelPool}

private theorem rests_old_lot {y : Nat} (other : y ≠ x) :
    lot (rested b cid client s price quantity ts x i L) y = lot b y := by
  have cell : body ((rested b cid client s price quantity ts x i L).pool.orders y) =
      body (b.pool.orders y) := rested_other i L other
  have qty : restingQty (rested b cid client s price quantity ts x i L) y = restingQty b y := by
    rw [rested_qty, if_neg other]
  have same : ((rested b cid client s price quantity ts x i L).pool.orders y).price =
      (b.pool.orders y).price := (congrArg Order.price cell :)
  rw [lot, lot, qty, same]

private theorem rests_new_lot :
    lot (rested b cid client s price quantity ts x i L) x = ⟨x, price, quantity⟩ := by
  have cell : body ((rested b cid client s price quantity ts x i L).pool.orders x) =
      body { OrderBook.fillCell b.nextExchangeId cid client s price quantity ts
        (b.pool.orders x) with levelIdx := i } := rested_self i L
  have qty : restingQty (rested b cid client s price quantity ts x i L) x = quantity := by
    rw [rested_qty, if_pos rfl]
  have named : ((rested b cid client s price quantity ts x i L).pool.orders x).price = price :=
    (congrArg Order.price cell :)
  rw [lot, qty, named]

variable (rep : Rep b Q) (top : ∃ rest, freeSlots b = rest ++ [x])
  (located : Located (b.levels s) price i L) (real : i ≠ nullIndex)
include rep top located real

theorem rests_indexed (indexed : Indexed (b.levels s))
    (spread : Spread (insert price (activePrices (b.levels s)))) :
    Indexed ((rested b cid client s price quantity ts x i L).levels s) := by
  have joined : Joined s i L ((rested b cid client s price quantity ts x i L).levels s) :=
    rested_joined rep top located real
  have opened : Indexed L := by
    apply indexed.located located spread (Finset.mem_insert_self _ _)
    intro j active
    exact Finset.mem_insert_of_mem ((mem_activePrices indexed _).mpr ⟨j, active, rfl⟩)
  exact opened.congr joined.priceMap joined.prices joined.active joined.count joined.capacity

private theorem rests_queue_lots (positive : 0 < quantity) (t : Side) (j : Nat) :
    levelLots (rested b cid client s price quantity ts x i L) t j =
      (Q t j).map (lot b) ++ if t = s ∧ j = i then [⟨x, price, quantity⟩] else [] := by
  have unlisted := (rep.top_free top).2
  have old : ∀ t j, (Q t j).map (lot (rested b cid client s price quantity ts x i L)) =
      (Q t j).map (lot b) := by
    intro t j
    apply List.map_congr_left
    intro y hy
    exact rests_old_lot (fun e => unlisted t j (e ▸ hy))
  have rep' : Rep (rested b cid client s price quantity ts x i L) (place Q s i (Q s i ++ [x])) :=
    rep.rests positive top located real
  rw [levelLots, rep'.queue_eq]
  split_ifs with here
  · obtain ⟨rfl, rfl⟩ := here
    rw [place_self, List.map_append, old, List.map_singleton, rests_new_lot]
  · rw [place_other (not_and_or.mp here), old, List.append_nil]

theorem rests_contra_lots (positive : 0 < quantity) :
    restingLots (rested b cid client s price quantity ts x i L) s.contra =
      restingLots b s.contra := by
  have lots : ∀ j, levelLots (rested b cid client s price quantity ts x i L) s.contra j =
      levelLots b s.contra j := by
    intro j
    rw [rests_queue_lots rep top located real positive, if_neg (fun h => s.contra_ne h.1),
      List.append_nil, levelLots, rep.queue_eq]
  rw [restingLots, restingLots, rested_contra_eq, funext lots]

omit top real in
private theorem rests_before (indexed : Indexed (b.levels s)) (opened : Indexed L) {j : Nat}
    (active : L.active j = true) :
    (restingLots b s).filter (fun l => depth s l = rank s (L.prices j)) = (Q s j).map (lot b) := by
  have walkable := walkable_of_rep rep indexed
  by_cases empty : Q s j = []
  · rw [empty, List.map_nil, List.filter_eq_nil_iff]
    intro l hl here
    obtain ⟨k, live, member⟩ := (walkable.mem_restingLots l).mp hl
    have listed := (rep.active s k).mp live
    obtain ⟨price', active'⟩ := located_listed located rep listed
    have same : rank s l.price = rank s (L.prices j) := of_decide_eq_true here
    rw [walkable.lot_price live l member, ← price', rank_inj] at same
    exact listed (opened.distinct active' active same ▸ empty)
  · rw [(located_listed located rep empty).1,
      walkable.filter_restingLots ((rep.active s j).mpr empty), levelLots, rep.queue_eq]

theorem rests_lots (positive : 0 < quantity) (indexed : Indexed (b.levels s))
    (spread : Spread (insert price (activePrices (b.levels s)))) :
    restingLots (rested b cid client s price quantity ts x i L) s =
      arrive (depth s) ⟨x, price, quantity⟩ (restingLots b s) := by
  have walkable := walkable_of_rep rep indexed
  have rep' : Rep (rested b cid client s price quantity ts x i L) (place Q s i (Q s i ++ [x])) :=
    rep.rests positive top located real
  have walkable' : Walkable (rested b cid client s price quantity ts x i L) s :=
    walkable_of_rep rep' (rests_indexed rep top located real indexed spread)
  have joined : Joined s i L ((rested b cid client s price quantity ts x i L).levels s) :=
    rested_joined rep top located real
  have at_price := located_price located real
  have active_i := (located_active located real).2
  have opened : Indexed L :=
    walkable'.indexed.congr joined.priceMap.symm joined.prices.symm joined.active.symm
      joined.count.symm joined.capacity.symm
  apply walkable'.restingLots_unique
  · exact (ordered_restingLots b s).arrive _
  · intro j active
    rw [joined.active] at active
    rw [joined.prices, filter_arrive _ (ordered_restingLots b s),
      rests_before rep located indexed opened active,
      rests_queue_lots rep top located real positive]
    congr 1
    by_cases e : j = i
    · subst e
      simp [depth, at_price]
    · have away : rank s price ≠ rank s (L.prices j) := by
        rw [← at_price]
        intro same
        exact e (opened.distinct active_i active ((rank_inj s _ _).mp same)).symm
      simp [depth, e, away]
  · intro l hl
    rw [joined.prices, joined.active]
    rcases mem_arrive.mp hl with rfl | hl
    · exact ⟨i, active_i, at_price.symm⟩
    · obtain ⟨k, live, member⟩ := (walkable.mem_restingLots l).mp hl
      obtain ⟨price', active'⟩ := located_listed located rep ((rep.active s k).mp live)
      exact ⟨k, active', by rw [walkable.lot_price live l member, price']⟩

end Rests

section Clear

structure Clear (b : OrderBook) (Q : Queues) : Prop where
  rep : Rep b Q
  tame : Tame b Q
  sighted : Sighted b Q
  indexed : ∀ s, Indexed (b.levels s)

theorem clear_init : Clear OrderBook.init (fun _ _ => []) where
  rep := rep_init
  tame := tame_init
  sighted := sighted_init
  indexed := fun s => by cases s <;> exact indexed_init

structure Welcome (b : OrderBook) (side : Side) (price quantity : Int) : Prop where
  positive : 0 < quantity
  fits : Fits b side price quantity
  priced : better side price (scanStart side)
  unobscured : Unobscured b side price
  spread : Spread (insert price (activePrices (b.levels side)))

variable {cid ts x i : Nat} {client : UInt32} {price quantity : Int} {L : PriceLevelPool}

theorem Clear.rests (clear : Clear b Q) (welcome : Welcome b s price quantity)
    (top : ∃ rest, freeSlots b = rest ++ [x]) (located : Located (b.levels s) price i L)
    (real : i ≠ nullIndex) :
    Clear (rested b cid client s price quantity ts x i L) (place Q s i (Q s i ++ [x])) := by
  refine ⟨clear.rep.rests welcome.positive top located real,
    clear.tame.rests clear.rep welcome.fits top located real,
    clear.sighted.rests clear.rep welcome.priced welcome.unobscured top located real, fun t => ?_⟩
  rcases Side.eq_or_eq_contra s t with rfl | rfl
  · exact rests_indexed clear.rep top located real (clear.indexed t) welcome.spread
  · rw [rested_contra_eq]
    exact clear.indexed s.contra

theorem Clear.refused (clear : Clear b Q) (top : ∃ rest, freeSlots b = rest ++ [x]) :
    Clear ((stamped b cid client s price quantity ts x).onPool (fun P => P.free x)) Q := by
  have levels : ∀ t, ((stamped b cid client s price quantity ts x).onPool
      (fun P => P.free x)).levels t = b.levels t := fun t => by cases t <;> rfl
  refine ⟨clear.rep.unleveled top, clear.tame.refused clear.rep top, ?_, fun t => ?_⟩
  · exact clear.sighted.same (fun t => by rw [levels]) (fun t => by rw [levels])
  · rw [levels]
    exact clear.indexed t

theorem Clear.drains {Q' : Queues} {b' : OrderBook} (clear : Clear b Q) (drains : Drains Q b Q' b') :
    Clear b' Q' := by
  refine ⟨drains.rep clear.rep, clear.tame.drains clear.rep drains,
    clear.sighted.drains clear.rep clear.tame drains, ?_⟩
  induction drains with
  | refl => exact clear.indexed
  | look _ c ih =>
    intro t
    rcases Side.eq_or_eq_contra c t with rfl | rfl
    · rw [look_levels]
      exact (ih t).congr rfl rfl rfl rfl rfl
    · rw [look_levels_contra]
      exact ih c.contra
  | @shed Q₁ b₁ b₂ b₃ c j gone kept before nonempty shed settled ih =>
    intro t
    have frame := shed.frame
    rcases Side.eq_or_eq_contra c t with rfl | rfl
    · apply Settled.indexed settled
      · exact (ih t).congr frame.priceMap frame.prices frame.active frame.count
          frame.levelCapacity
      · rw [frame.active]
        exact ((before.rep clear.rep).active t j).mpr nonempty
    · rw [settled.contra, frame.contra]
      exact ih c.contra
  | tally _ n ih =>
    intro t
    rw [tally_levels]
    exact ih t

def Welcoming (b : OrderBook) : BookOp → Prop
  | .addOrder _ _ side price quantity _ => Welcome b side price quantity
  | .cancelOrder x => ∃ s i, x ∈ b.queue s i
  | _ => True

theorem Clear.effect {Q' : Queues} {b' : OrderBook} {op : BookOp} (clear : Clear b Q)
    (welcoming : Welcoming b op) (effect : Effect Q b op Q' b') : Clear b' Q' := by
  cases effect with
  | drains drains => exact clear.drains drains
  | refused top => exact clear.refused top
  | rests top located real => exact clear.rests welcoming top located real

theorem welcoming_runs_clear (ops : List BookOp)
    (welcoming : Obeys BookOp.apply Welcoming OrderBook.init ops) :
    ∃ b, run BookOp.apply OrderBook.init ops = some b ∧ ∃ Q, Clear b Q := by
  have keep : ∀ b op, (∃ Q, Clear b Q) → Welcoming b op →
      ∃ b', op.apply b = some b' ∧ ∃ Q, Clear b' Q := by
    rintro b op ⟨Q, clear⟩ legal
    have proper : Proper b op := by
      cases op with
      | addOrder => exact legal.positive
      | cancelOrder => exact legal
      | _ => trivial
    obtain ⟨Q', b', step, effect, -⟩ := apply_effect clear.rep op proper
    exact ⟨b', step, Q', clear.effect legal effect⟩
  exact run_returns BookOp.apply Welcoming (fun b => ∃ Q, Clear b Q) keep ops OrderBook.init
    ⟨_, clear_init⟩ welcoming

theorem spread_of_few {L : PriceLevelPool} (few : (activeLevels L).length ≤ 254) (price : Int) :
    Spread (insert price (activePrices L)) := by
  have inserted := Finset.card_insert_le price (activePrices L)
  have listed : (activePrices L).card ≤ ((activeLevels L).map L.prices).length :=
    List.toFinset_card_le _
  rw [List.length_map] at listed
  exact arcBounded_of_card (by omega)

/-- A test for `Welcoming`: few enough prices are spread whatever they hash to. -/
def welcomingTest (b : OrderBook) : BookOp → Bool
  | .addOrder cid client side price quantity ts =>
    carefulTest b (.addOrder cid client side price quantity ts) &&
      decide ((activeLevels (b.levels side)).length ≤ 254)
  | .cancelOrder x => listedTest b x
  | _ => true

theorem welcoming_of_test (b : OrderBook) (op : BookOp) (passed : welcomingTest b op = true) :
    Welcoming b op := by
  cases op with
  | addOrder cid client side price quantity ts =>
    obtain ⟨careful, few⟩ := Bool.and_eq_true_iff.mp passed
    obtain ⟨positive, fits, priced, unobscured⟩ := careful_of_test b _ careful
    exact ⟨positive, fits, priced, unobscured, spread_of_few (of_decide_eq_true few) price⟩
  | cancelOrder x => exact ⟨_, _, of_decide_eq_true passed⟩
  | _ => trivial

end Clear

end HftGrading.Exchange.Book.PriorityResting
