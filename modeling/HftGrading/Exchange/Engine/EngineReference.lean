/- module: HftGrading/Exchange/Engine/EngineReference
   source: exchange/include/exchange/match_engine.hpp
   digest: The engine on order flow against the textbook exchange of price-time priority. -/

import HftGrading.Exchange.Engine.NoCrossing
import HftGrading.Exchange.Engine.ZeroSum
import HftGrading.Exchange.Book.OwnedWalk
import Mathlib.Algebra.BigOperators.Ring.Finset

set_option autoImplicit false
set_option relaxedAutoImplicit false

namespace HftGrading.Exchange.Engine.EngineReference

open Function (update)
open Lib.PartialExecution Lib.PriceTimePriority WireProtocol Book.PriceMap Book.LimitBook
open Book.LimitBook.OrderBook (MatchResult beyondLimit)
open Book.LevelSearch Book.LevelQueue Book.LevelFilling Book.MatchRounds Book.BookRep Book.BookRuns
open Book.BestCache Book.PriorityWalk Book.PriorityResting Book.PriorityMatching Book.OwnedWalk
open EngineState
open HftGrading.Exchange.Engine.EngineState.ContestantState (signedQty signedQty_zero signedQty_add
  signedQty_contra)
open EngineSteps NoCrossing ProfitAccounts Settlement OpenInterest Positions ZeroSum

variable {G : Type}

/-- The textbook exchange: resting lots per side under owner and client id, best price
first and oldest first, and the positions that its trades have made. -/
structure Textbook where
  resting : Side → List (Lot (Nat × UInt32) Int)
  position : Nat → Int

namespace Textbook

def init : Textbook := ⟨fun _ => [], fun _ => 0⟩

def Ignores (cfg : MatchEngineConfig) (t : Textbook) (cid : Nat) (order : OrderEntry) : Prop :=
  ¬ (1 ≤ order.quantity ∧ order.quantity ≤ cfg.maxOrderSize) ∨
    cfg.maxPosition < signedQty order.side (t.position cid) + order.quantity

instance (cfg : MatchEngineConfig) (t : Textbook) (cid : Nat) (order : OrderEntry) :
    Decidable (t.Ignores cfg cid order) := by
  unfold Ignores
  infer_instance

def swept (t : Textbook) (order : OrderEntry) : Swept (Nat × UInt32) Int :=
  sweep (fun p => ¬ beyondLimit order.side order.price p) (t.resting order.side.contra).length
    order.quantity (t.resting order.side.contra)

def trades (cfg : MatchEngineConfig) (t : Textbook) (cid : Nat) (order : OrderEntry) :
    List (Lot (Nat × UInt32) Int) :=
  if t.Ignores cfg cid order then [] else (t.swept order).fills

/-- What one trade moves for contestant `c`, who may be maker, taker or both. -/
def moved (cid : Nat) (side : Side) (c : Nat) (trade : Lot (Nat × UInt32) Int) : Int :=
  (if trade.ref.1 = c then signedQty side.contra trade.qty else 0) +
    if cid = c then signedQty side trade.qty else 0

def submit (cfg : MatchEngineConfig) (t : Textbook) (cid : Nat) (order : OrderEntry) : Textbook :=
  if t.Ignores cfg cid order then t
  else
    { resting :=
        let after := update t.resting order.side.contra (t.swept order).rest
        if 0 < (t.swept order).left ∧ order.orderType = .limit then
          update after order.side (arrive (fun l => rank order.side l.price)
            ⟨(cid, order.clientOrderId), order.price, (t.swept order).left⟩ (after order.side))
        else after
      position := fun c => t.position c + ((t.swept order).fills.map (moved cid order.side c)).sum }

def apply (cfg : MatchEngineConfig) (t : Textbook) : EngineOp → Textbook
  | .processOrder cid order _ => t.submit cfg cid order
  | _ => t

def after (cfg : MatchEngineConfig) (ops : List EngineOp) : Textbook := ops.foldl (apply cfg) init

/-- What an operation reports: each trade to its maker and to its taker. -/
def reports (cfg : MatchEngineConfig) (t : Textbook) : EngineOp → List FillReport
  | .processOrder cid order _ => (t.trades cfg cid order).flatMap (fun f =>
    [⟨f.ref.1, f.ref.2, order.side.contra, f.price, f.qty⟩,
      ⟨cid, order.clientOrderId, order.side, f.price, f.qty⟩])
  | _ => []

end Textbook

section Searches

variable {b b' : OrderBook} {Q : Queues}

inductive Searched (b : OrderBook) : OrderBook → Prop
  | refl : Searched b b
  | look {b' : OrderBook} (before : Searched b b') (c : Side) : Searched b (look b' c)
  | tally {b' : OrderBook} (before : Searched b b') (n : Nat) :
      Searched b { b' with totalFills := n }

theorem Searched.drains (searched : Searched b b') : Drains Q b Q b' := by
  induction searched with
  | refl => exact .refl
  | look _ c ih => exact .look ih c
  | tally _ n ih => exact .tally ih n

theorem Searched.pool (searched : Searched b b') : b'.pool = b.pool := by
  induction searched with
  | refl => rfl
  | look _ c ih => rw [look_pool, ih]
  | tally _ n ih => exact ih

theorem Searched.levels (searched : Searched b b') (s : Side) :
    ∃ r, b'.levels s = { b.levels s with bestIdx := r } := by
  induction searched with
  | refl => exact ⟨_, rfl⟩
  | @look b₁ _ c ih =>
    obtain ⟨r, same⟩ := ih
    rcases Side.eq_or_eq_contra c s with rfl | rfl
    · exact ⟨_, by rw [look_levels, same]⟩
    · exact ⟨r, by rw [look_levels_contra, same]⟩
  | tally _ n ih =>
    obtain ⟨r, same⟩ := ih
    exact ⟨r, by rw [tally_levels, same]⟩

theorem Searched.ownedLots_eq (searched : Searched b b') : ownedLots b' = ownedLots b := by
  funext s
  have names : owner b' = owner b := owner_of_static (fun x => by rw [searched.pool])
  rw [ownedLots, ownedLots, names, restingLots_same_pool searched.pool (searched.levels s)]

def Alert (b : OrderBook) (Q : Queues) : Prop :=
  ∀ s, (b.levels s).bestIdx = nullIndex → ∀ i, Q s i = []

theorem findBest_null (orderly : Orderly b Q) (s : Side)
    (null : ((b.levels s).findBest s).1 = nullIndex) (i : Nat) : Q s i = [] := by
  rcases orderly.sighted.found orderly.rep orderly.tame s with ⟨-, empty⟩ | ⟨listed, -⟩
  · exact empty i
  · exact absurd null ((orderly.rep.mapped s).lt_nullIndex (orderly.rep.bound _ _ listed)).ne

theorem Searched.alert (searched : Searched b b') (orderly : Orderly b Q) (alert : Alert b Q) :
    Alert b' Q := by
  induction searched with
  | refl => exact alert
  | look before c ih =>
    intro s null
    rcases Side.eq_or_eq_contra c s with rfl | rfl
    · rw [look_levels] at null
      exact findBest_null (orderly.drains before.drains) s null
    · rw [look_levels_contra] at null
      exact ih c.contra null
  | tally _ n ih =>
    intro s null
    rw [tally_levels] at null
    exact ih s null

theorem alert_refresh (orderly : Orderly b Q) : Alert (refresh b) Q := by
  intro s null
  rw [refresh_levels] at null
  exact findBest_null orderly s null

theorem settledBook_searched (fills : List MatchResult) (b : OrderBook) :
    Searched b (settledBook fills b) := by
  rw [settledBook]
  split_ifs
  · exact .refl
  · exact .look (.look .refl .buy) .sell

theorem generateTick_searched (nextTick : G → Nat → MarketUpdate × G) (e : MatchEngine G) (ts : Nat) :
    Searched e.book (e.generateTick nextTick ts).2.book := by
  have both : Searched e.book (refresh e.book) := .look (.look .refl .buy) .sell
  simp only [MatchEngine.generateTick]
  split_ifs
  · exact .look (.look both .buy) .sell
  · exact .look both .sell
  · exact .look both .buy
  · exact both

theorem matched_searched {side : Side} {price quantity : Int} {cid maxFills : Nat} {Q₁ : Queues}
    {before b₁ : OrderBook} (matched : Matched Q b side price quantity cid maxFills Q₁ [] before b₁) :
    Q₁ = Q ∧ Searched b b₁ := by
  obtain ⟨same, rfl⟩ := matched.idle rfl
  refine ⟨same, ?_⟩
  rcases matched.outcome with ⟨-, rfl⟩ | ⟨-, rfl⟩
  · exact .tally .refl _
  · exact .tally (.look .refl side.contra) _

theorem alert_settled {side : Side} {price quantity : Int} {cid maxFills : Nat} {Q₁ : Queues}
    {fills : List MatchResult} {before b₁ : OrderBook} (orderly : Orderly b Q) (alert : Alert b Q)
    (matched : Matched Q b side price quantity cid maxFills Q₁ fills before b₁) :
    Alert (settledBook fills b₁) Q₁ := by
  by_cases none : fills = []
  · subst none
    obtain ⟨rfl, searched⟩ := matched_searched matched
    exact searched.alert orderly alert
  · rw [settledBook, if_neg none]
    exact alert_refresh (orderly.drains matched.drained)

theorem Alert.unobscured (alert : Alert b Q) (rep : Rep b Q) (side : Side) (price : Int) :
    Unobscured b side price := by
  by_cases null : (b.levels side).bestIdx = nullIndex
  · right
    intro i active
    exact absurd (alert side null i) (rep.active_iff.mp active)
  · exact Or.inl null

theorem Alert.rests (alert : Alert b Q) (rep : Rep b Q) {cid ts x i : Nat} {client : UInt32}
    {side : Side} {price quantity : Int} {L : PriceLevelPool}
    (top : ∃ rest, freeSlots b = rest ++ [x]) (located : Located (b.levels side) price i L)
    (real : i ≠ nullIndex) :
    Alert (rested b cid client side price quantity ts x i L) (place Q side i (Q side i ++ [x])) := by
  intro s null j
  rcases Side.eq_or_eq_contra side s with rfl | rfl
  · have joined : Joined s i L ((rested b cid client s price quantity ts x i L).levels s) :=
      rested_joined rep top located real
    rw [joined.bestIdx, PriceLevelPool.updateBest] at null
    split_ifs at null with new
    · exact absurd null real
    · exact absurd null (not_or.mp new).1
  · rw [rested_contra_eq] at null
    rw [place_other (Or.inl side.contra_ne)]
    exact alert side.contra null j

end Searches

section Bounds

variable {b : OrderBook} {Q : Queues}

theorem sum_length_le (rep : Rep b Q) (s : Side) :
    ∑ i ∈ Finset.range (b.levels s).count, (Q s i).length ≤ maxOrders * 2 := by
  have disjoint : ∀ i ∈ Finset.range (b.levels s).count, ∀ j ∈ Finset.range (b.levels s).count,
      i ≠ j → Disjoint (Q s i).toFinset (Q s j).toFinset := by
    intro i _ j _ apart
    refine Finset.disjoint_left.mpr (fun x hi hj => ?_)
    exact apart (rep.apart (List.mem_toFinset.mp hj) (List.mem_toFinset.mp hi)).2
  have inside : (Finset.range (b.levels s).count).biUnion (fun i => (Q s i).toFinset) ⊆
      Finset.range (maxOrders * 2) := by
    intro x hx
    obtain ⟨i, -, listed⟩ := Finset.mem_biUnion.mp hx
    rw [← rep.capacity]
    exact Finset.mem_range.mpr (rep.inside s i x (List.mem_toFinset.mp listed))
  have count := Finset.card_le_card inside
  rw [Finset.card_biUnion disjoint, Finset.card_range] at count
  refine le_trans (Finset.sum_le_sum (fun i _ => ?_)) count
  rw [List.toFinset_card_of_nodup (rep.level s i).nodup]

theorem openQty_le (rep : Rep b Q) (small : ∀ s i, ∀ x ∈ Q s i, restingQty b x ≤ 50) (c : Nat)
    (s : Side) : openQty b c s ≤ 6553600 := by
  have level : ∀ i, ((Q s i).map (fun x => mine b c x * restingQty b x)).sum ≤
      50 * ((Q s i).length : Int) := by
    intro i
    refine le_trans (List.sum_le_sum (fun x hx => ?_)) (sum_le_of_small (small s i))
    have part := mul_le_mul_of_nonneg_right (mine_le_one b c x) ((rep.level s i).resting x hx).le
    rwa [one_mul] at part
  have slots := sum_length_le rep s
  rw [show maxOrders * 2 = 131072 from rfl] at slots
  calc openQty b c s
      ≤ ∑ i ∈ Finset.range (b.levels s).count, 50 * ((Q s i).length : Int) := by
        rw [openQty_eq rep, weighed]
        exact Finset.sum_le_sum (fun i _ => level i)
    _ = 50 * ((∑ i ∈ Finset.range (b.levels s).count, (Q s i).length : Nat) : Int) := by
        rw [Nat.cast_sum, Finset.mul_sum]
    _ ≤ 6553600 := by omega

end Bounds

section Orders

variable {e e' : MatchEngine G} {Q Q' Q₁ : Queues} {t : Textbook} {cid ts : Nat} {order : OrderEntry}
  {fills : List MatchResult} {before b₁ : OrderBook}

structure Follows (t : Textbook) (Q : Queues) (e : MatchEngine G) : Prop where
  default : e.cfg = .default
  limited : Limited 6553700 Q e
  orderly : Orderly e.book Q
  indexed : ∀ s, Indexed (e.book.levels s)
  alert : Alert e.book Q
  walks : ownedLots e.book = t.resting
  positions : e.contestants.position = t.position

theorem Follows.clear (follows : Follows t Q e) : Clear e.book Q :=
  ⟨follows.orderly.rep, follows.orderly.tame, follows.orderly.sighted, follows.indexed⟩

theorem Follows.accepted_iff (follows : Follows t Q e) :
    e.orderRejection cid order = none ↔ ¬ t.Ignores e.cfg cid order := by
  have long : e.contestants.position cid ≤ 6553700 := follows.limited.position_le cid .buy
  have short : -e.contestants.position cid ≤ 6553700 := follows.limited.position_le cid .sell
  have size : e.cfg.maxOrderSize = 50 := by rw [follows.default]; rfl
  rw [MatchEngine.orderRejection, Textbook.Ignores, ← follows.positions, size]
  by_cases bad : order.quantity ≤ 0 ∨ order.quantity > 50
  · rw [if_pos bad]
    exact iff_of_false (by simp) (not_not.mpr (Or.inl (by omega)))
  · have word : ∀ q, -50 ≤ q → q ≤ 50 →
        wrap32 (e.contestants.position cid + q) = e.contestants.position cid + q := by
      intro q _ _
      exact wrap32_of_isInt32 ⟨by omega, by omega⟩
    have less := word (-order.quantity) (by omega) (by omega)
    rw [← Int.sub_eq_add_neg] at less
    rw [if_neg bad, word order.quantity (by omega) (by omega), less]
    cases side : order.side with
    | buy =>
      simp only [true_and, signedQty, reduceCtorEq, false_and, if_false]
      split_ifs with ended
      · exact iff_of_false (by simp) (by omega)
      · exact iff_of_true rfl (by omega)
    | sell =>
      simp only [true_and, signedQty, reduceCtorEq, false_and, if_false]
      split_ifs with ended
      · exact iff_of_false (by simp) (by omega)
      · exact iff_of_true rfl (by omega)

theorem netQty_results {b : OrderBook} {side : Side} (lots : List (Lot Nat Int))
    (makers : ∀ l ∈ lots, (b.pool.orders l.ref).side = side.contra) (c : Nat) :
    netQty c (fillBookings b cid side (results cid lots)) =
      ((lots.map (Lot.rename (owner b))).map (Textbook.moved cid side c)).sum := by
  induction lots with
  | nil => rfl
  | cons l lots ih =>
    have first := makers l List.mem_cons_self
    have rest := ih (fun m hm => makers m (List.mem_cons_of_mem l hm))
    have none : netQty c [] = 0 := rfl
    rw [fillBookings, results] at rest
    rw [fillBookings, results, List.map_cons, List.flatMap_cons, netQty_append, rest, legs,
      netQty_cons, netQty_cons, none, first, List.map_cons, List.map_cons, List.sum_cons]
    simp only [Textbook.moved, Lot.rename, owner, Booking.signed]
    omega

theorem fillReports_results {b : OrderBook} (lots : List (Lot Nat Int))
    (makers : ∀ l ∈ lots, (b.pool.orders l.ref).side = order.side.contra) :
    fillReports b cid order (results cid lots) =
      (lots.map (Lot.rename (owner b))).flatMap (fun f =>
        [⟨f.ref.1, f.ref.2, order.side.contra, f.price, f.qty⟩,
          ⟨cid, order.clientOrderId, order.side, f.price, f.qty⟩]) := by
  rw [fillReports, results, List.flatMap_map, List.flatMap_map]
  refine List.flatMap_congr (fun l member => ?_)
  simp only [tellings, makers l member, Lot.rename, owner]

theorem Follows.swept_eq (follows : Follows t Q e) (accepted : e.orderRejection cid order = none) :
    t.swept order =
      ⟨(reference e.book order.side order.price order.quantity 64).fills.map
          (Lot.rename (owner e.book)),
        (reference e.book order.side order.price order.quantity 64).left,
        (reference e.book order.side order.price order.quantity 64).rest.map
          (Lot.rename (owner e.book))⟩ := by
  obtain ⟨-, size⟩ := size_of_accepted accepted
  rw [follows.default] at size
  have few : order.quantity ≤ ((64 : Nat) : Int) := le_trans size (by decide)
  have roomy : Roomy (fun p => ¬ beyondLimit order.side order.price p) 64 order.quantity
      (restingLots e.book order.side.contra) :=
    roomy_of_want_le _ (fun l hl => (lot_listed follows.clear hl).2.1) few
  rw [Textbook.swept, ← follows.walks, ownedLots, sweep_named _ _ roomy]
  rfl

section Executed

variable (follows : Follows t Q e) (executed : Executed Q e cid order ts fills Q₁ before b₁ Q' e')
include follows executed

theorem Follows.crossed : Crossed e.book order.side cid
    (reference e.book order.side order.price order.quantity 64) Q₁ fills b₁ :=
  crossed_of_drains follows.clear executed.matched.drained executed.returns

theorem Follows.makers :
    ∀ l ∈ (reference e.book order.side order.price order.quantity 64).fills,
      (e.book.pool.orders l.ref).side = order.side.contra := by
  intro l member
  have made : (⟨l.ref, cid, l.price, l.qty⟩ : MatchResult) ∈ fills := by
    rw [(follows.crossed executed).fills, results]
    exact List.mem_map_of_mem member
  obtain ⟨i, listed⟩ := executed.matched.makers _ made
  exact (follows.orderly.rep.level order.side.contra i).side l.ref listed

variable (accepted : e.orderRejection cid order = none)
include accepted

theorem Follows.told : fillReports e.book cid order fills =
    t.reports e.cfg (.processOrder cid order ts) := by
  rw [(follows.crossed executed).fills, fillReports_results _ (follows.makers executed),
    Textbook.reports, Textbook.trades, if_neg (follows.accepted_iff.mp accepted),
    follows.swept_eq accepted]

theorem Follows.next (c : Nat) :
    nextPosition e cid order fills c = (t.submit e.cfg cid order).position c := by
  rw [nextPosition, (follows.crossed executed).fills, netQty_results _ (follows.makers executed),
    Textbook.submit, if_neg (follows.accepted_iff.mp accepted), follows.swept_eq accepted,
    follows.positions]

theorem Follows.settled : ownedLots (settledBook fills b₁) =
    update t.resting order.side.contra (t.swept order).rest := by
  have crossed := follows.crossed executed
  have names := owner_of_static crossed.static
  rw [(settledBook_searched fills b₁).ownedLots_eq, follows.swept_eq accepted, ← follows.walks]
  funext s
  rcases Side.eq_or_eq_contra order.side s with rfl | rfl
  · rw [Function.update_of_ne order.side.contra_ne.symm, ownedLots, ownedLots, names, crossed.own]
  · rw [Function.update_self, ownedLots, names, crossed.rest]

theorem Follows.left : (t.swept order).left = order.quantity - filledQty fills := by
  rw [follows.swept_eq accepted]
  exact (follows.crossed executed).left (sweep_fills_sum _ _ _ _)

theorem Follows.room (orderly' : Orderly e'.book Q') (c : Nat) :
    signedQty order.side (nextPosition e cid order fills c) + openQty e'.book c order.side ≤
      6553700 := by
  have wanted := (size_of_accepted accepted).1
  by_cases self : c = cid
  · have legal := follows.accepted_iff.mp accepted
    rw [Textbook.Ignores, follows.default, ← follows.positions] at legal
    have limit : signedQty order.side (e.contestants.position cid) + order.quantity ≤ 100 :=
      not_lt.mp (not_or.mp legal).2
    obtain ⟨-, filled⟩ := executed_filled wanted executed
    obtain ⟨taken, part⟩ := makerQty_bounds (b := e.book) executed.matched.positive c
    have total := openQty_le orderly'.rep orderly'.small c order.side
    rw [nextPosition, executed_netQty follows.orderly.rep executed c, if_pos self]
    subst self
    generalize order.side = s at *
    cases s
    · simp only [signedQty, Side.contra] at *
      omega
    · simp only [signedQty, Side.contra] at *
      omega
  · have exposes := (executed_exposes follows.orderly.rep wanted executed c).1
    rw [if_neg self, Int.add_zero] at exposes
    exact exposes.trans (follows.limited.exposed c order.side)

end Executed

/-- A limit or immediate-or-cancel order of a registered contestant, at a positive price below
`INT64_MAX`, where no side has more than 254 levels in use and `add_order` does not fail. -/
structure Flowing (e : MatchEngine G) (cid : Nat) (order : OrderEntry) (ts : Nat) : Prop where
  registered : cid < e.contestants.count
  kind : order.orderType = .limit ∨ order.orderType = .ioc
  positive : 0 < order.price
  priced : order.price < 9223372036854775807
  narrow : ∀ s, (activeLevels (e.book.levels s)).length ≤ 254
  added : Provided e (.processOrder cid order ts)

theorem Flowing.better_scanStart (flowing : Flowing e cid order ts) :
    better order.side order.price (scanStart order.side) := by
  have positive := flowing.positive
  have priced := flowing.priced
  cases order.side
  · exact lt_trans (by decide) positive
  · exact priced

theorem Follows.placed (follows : Follows t Q e) (accepted : e.orderRejection cid order = none)
    (flowing : Flowing e cid order ts)
    (executed : Executed Q e cid order ts fills Q₁ before b₁ Q' e') :
    ownedLots e'.book = (t.submit e.cfg cid order).resting ∧
      (∀ s, Indexed (e'.book.levels s)) ∧ Alert e'.book Q' := by
  have matched := executed.matched
  have crossed := follows.crossed executed
  have drains := settledBook_drains (Q := Q₁) fills b₁
  have clear : Clear (settledBook fills b₁) Q₁ := crossed.clear.drains drains
  have orderly : Orderly (settledBook fills b₁) Q₁ :=
    (follows.orderly.drains matched.drained).drains drains
  have alert := alert_settled follows.orderly follows.alert matched
  have walks := follows.settled executed accepted
  have left := follows.left executed accepted
  have added := flowing.added flowing.registered accepted fills b₁ executed.returns
  rw [Textbook.submit, if_neg (follows.accepted_iff.mp accepted), left]
  have placed := executed.placed
  generalize e'.book = b' at placed ⊢
  generalize e'.cancelMap = m' at placed
  cases placed with
  | ended why =>
    refine ⟨?_, clear.indexed, alert⟩
    rw [walks]
    exact (if_neg why).symm
  | exhausted wanted null =>
    obtain ⟨c, returns⟩ := null
    exact absurd rfl (added wanted _ c returns)
  | refused wanted top null =>
    obtain ⟨c, returns⟩ := null
    exact absurd rfl (added wanted _ c returns)
  | @rests x i L wanted top located real =>
    obtain ⟨r, levels⟩ := (settledBook_searched fills b₁).levels order.side
    have narrow : (activeLevels ((settledBook fills b₁).levels order.side)).length ≤ 254 := by
      rw [levels, crossed.levels]
      exact flowing.narrow order.side
    have size : order.quantity - filledQty fills ≤ 50 := by
      obtain ⟨wants, size⟩ := size_of_accepted accepted
      obtain ⟨filled, -⟩ := executed_filled wants executed
      rw [follows.default] at size
      have few : order.quantity ≤ 50 := size
      omega
    have welcome : Welcome (settledBook fills b₁) order.side order.price
        (order.quantity - filledQty fills) :=
      ⟨wanted.1, orderly.fits order.price size, flowing.better_scanStart,
        alert.unobscured orderly.rep order.side order.price, spread_of_few narrow order.price⟩
    refine ⟨?_, (clear.rests welcome top located real).indexed,
      alert.rests orderly.rep top located real⟩
    rw [rests_owned clear welcome top located real, walks]
    exact (if_pos wanted).symm

theorem Follows.executed (follows : Follows t Q e) (accepted : e.orderRejection cid order = none)
    (flowing : Flowing e cid order ts)
    (executed : Executed Q e cid order ts fills Q₁ before b₁ Q' e')
    (accounted : Accounted e (.processOrder cid order ts) e') (cfg : e'.cfg = e.cfg) :
    Follows (t.submit e.cfg cid order) Q' e' := by
  have wanted := (size_of_accepted accepted).1
  have discreet : Discreet e (.processOrder cid order ts) := fun _ =>
    ⟨flowing.better_scanStart,
      Or.inl (follows.alert.unobscured follows.orderly.rep order.side order.price)⟩
  have orderly' : Orderly e'.book Q' := follows.orderly.step follows.default discreet
    (.executed flowing.registered accepted executed)
  obtain ⟨walks, indexed, alert⟩ := follows.placed accepted flowing executed
  obtain ⟨limited, next⟩ := follows.limited.executed (by decide) wanted executed accounted
    (fillsOf_executed flowing.registered accepted executed)
    (follows.room executed accepted orderly')
  refine ⟨cfg.trans follows.default, limited, orderly', indexed, alert, walks, ?_⟩
  funext c
  rw [next, follows.next executed accepted]

theorem Follows.searched {op : EngineOp} (follows : Follows t Q e)
    (accounted : Accounted e op e') (none : opBookings e op = [])
    (searched : Searched e.book e'.book) (cfg : e'.cfg = e.cfg)
    (position : e'.contestants.position = e.contestants.position) : Follows t Q e' := by
  have drains : Drains Q e.book Q e'.book := searched.drains
  refine ⟨cfg.trans follows.default, ?_, follows.orderly.drains drains,
    (follows.clear.drains drains).indexed, searched.alert follows.orderly follows.alert,
    searched.ownedLots_eq.trans follows.walks, position.trans follows.positions⟩
  exact follows.limited.idle (by decide) accounted none (drains.rep follows.orderly.rep)
    (fun c s => openQty_drains follows.orderly.rep drains c s)

end Orders

/-- Order flow: orders as above and ticks, registrations and polls among them; no cancels. -/
def OrderFlow (e : MatchEngine G) : EngineOp → Prop
  | .processOrder cid order ts => Flowing e cid order ts
  | .processCancel _ _ _ => False
  | _ => True

theorem Follows.step {e : MatchEngine G} {t : Textbook} {Q : Queues} {op : EngineOp}
    (nextTick : G → Nat → MarketUpdate × G) (follows : Follows t Q e) (flow : OrderFlow e op) :
    ∃ Q' e', op.apply nextTick e = some e' ∧ Follows (t.apply e.cfg op) Q' e' ∧
      (emitted e e').filterMap fillReport = t.reports e.cfg op := by
  have account : ∀ {e' : MatchEngine G}, op.apply nextTick e = some e' → Accounted e op e' :=
    fun returns => apply_accounted nextTick follows.orderly.rep follows.limited.bounded returns
  cases op with
  | registerContestant cash =>
    have accounted := account rfl
    exact ⟨Q, _, rfl, follows.searched accounted rfl .refl rfl rfl, accounted.told⟩
  | generateTick ts =>
    have accounted := account rfl
    exact ⟨Q, _, rfl, follows.searched accounted rfl (generateTick_searched nextTick e ts) rfl rfl,
      accounted.told⟩
  | popOutbound =>
    have accounted := account rfl
    have same : e.popOutbound.2.book = e.book ∧ e.popOutbound.2.cfg = e.cfg ∧
        e.popOutbound.2.contestants = e.contestants := by
      rw [MatchEngine.popOutbound]
      split_ifs
      · exact ⟨rfl, rfl, rfl⟩
      · exact ⟨rfl, rfl, rfl⟩
    refine ⟨Q, _, rfl, follows.searched accounted rfl ?_ same.2.1 ?_, accounted.told⟩
    · rw [same.1]
      exact .refl
    · rw [same.2.2]
  | processCancel cid cancel ts => exact flow.elim
  | processOrder cid order ts =>
    have known : ¬ cid ≥ e.contestants.count := not_le.mpr flow.registered
    cases rejection : e.orderRejection cid order with
    | some status =>
      have goes : EngineOp.apply nextTick e (.processOrder cid order ts) =
          some (e.sendAck cid order.clientOrderId status 0 order.price order.quantity) := by
        show e.processOrder cid order ts = _
        rw [MatchEngine.processOrder, if_neg known, rejection]
      have ignores : t.Ignores e.cfg cid order := by
        by_contra legal
        rw [follows.accepted_iff.mpr legal] at rejection
        cases rejection
      have idle : fillsOf e cid order = [] :=
        if_neg (fun legal => by rw [rejection] at legal; cases legal.2)
      have accounted := account goes
      refine ⟨Q, _, goes, ?_, ?_⟩
      · rw [Textbook.apply, Textbook.submit, if_pos ignores]
        refine follows.searched accounted ?_ .refl rfl rfl
        rw [opBookings, idle]
        rfl
      · rw [accounted.told, opReports, idle, Textbook.reports, Textbook.trades, if_pos ignores]
        rfl
    | none =>
      have goes : EngineOp.apply nextTick e (.processOrder cid order ts) =
          e.executeOrder cid order ts := by
        show e.processOrder cid order ts = _
        rw [MatchEngine.processOrder, if_neg known, rejection]
      obtain ⟨fills, Q₁, before, b₁, Q', e', returns, executed, cfg, -⟩ :=
        executeOrder_executed follows.orderly.rep cid order ts
      have accounted := account (goes.trans returns)
      refine ⟨Q', e', goes.trans returns,
        follows.executed rejection flow executed accounted cfg, ?_⟩
      rw [accounted.told, opReports, fillsOf_executed flow.registered rejection executed,
        follows.told executed rejection]

theorem follows_init (gen : G) :
    Follows Textbook.init (fun _ _ => []) (MatchEngine.init .default gen) where
  default := rfl
  limited := limited_init .default gen (by decide)
  orderly := orderly_init
  indexed := clear_init.indexed
  alert := fun _ _ _ => rfl
  walks := by
    funext s
    cases s <;> rfl
  positions := rfl

/-- On order flow the engine is the textbook exchange: each operation reports the textbook's
trades and leaves the textbook's resting orders. -/
theorem order_flow_is_textbook (nextTick : G → Nat → MarketUpdate × G) (gen : G)
    (ops : List EngineOp) (op : EngineOp)
    (flow : Obeys (EngineOp.apply nextTick) OrderFlow (MatchEngine.init .default gen) (ops ++ [op])) :
    ∃ e e', run (EngineOp.apply nextTick) (MatchEngine.init .default gen) ops = some e ∧
      op.apply nextTick e = some e' ∧
      (emitted e e').filterMap fillReport = (Textbook.after .default ops).reports .default op ∧
      ownedLots e'.book = (Textbook.after .default (ops ++ [op])).resting := by
  have snoc : ∀ h o, Textbook.after .default (h ++ [o]) =
      (Textbook.after .default h).apply .default o := by
    intro h o
    rw [Textbook.after, List.foldl_append]
    rfl
  have keep : ∀ h (e : MatchEngine G) o, (∃ Q, Follows (Textbook.after .default h) Q e) →
      OrderFlow e o → True →
      ∃ e', o.apply nextTick e = some e' ∧ ∃ Q, Follows (Textbook.after .default (h ++ [o])) Q e' := by
    rintro h e o ⟨Q, follows⟩ legal -
    obtain ⟨Q', e', returns, follows', -⟩ := follows.step nextTick legal
    rw [follows.default, ← snoc] at follows'
    exact ⟨e', returns, Q', follows'⟩
  obtain ⟨before, last⟩ := flow.split
  obtain ⟨e, returns, Q, follows⟩ := run_returns_history (EngineOp.apply nextTick) OrderFlow
    (fun _ => True) (fun h e => ∃ Q, Follows (Textbook.after .default h) Q e)
    (fun _ _ _ => trivial) keep [] ops _ ⟨_, follows_init gen⟩ trivial before
  obtain ⟨Q', e', step, follows', told⟩ := follows.step nextTick (last e returns).1
  rw [follows.default] at follows' told
  refine ⟨e, e', returns, step, told, ?_⟩
  rw [snoc]
  exact follows'.walks

def orderFlowTest (e : MatchEngine G) : EngineOp → Bool
  | .processOrder cid order ts =>
    decide (cid < e.contestants.count ∧
      (order.orderType = .limit ∨ order.orderType = .ioc) ∧ 0 < order.price ∧
      order.price < 9223372036854775807 ∧ (activeLevels (e.book.levels .buy)).length ≤ 254 ∧
      (activeLevels (e.book.levels .sell)).length ≤ 254) &&
    providedTest e (.processOrder cid order ts)
  | .processCancel _ _ _ => false
  | _ => true

theorem orderFlow_of_test (e : MatchEngine G) (op : EngineOp) (passed : orderFlowTest e op = true) :
    OrderFlow e op := by
  cases op with
  | processOrder cid order ts =>
    obtain ⟨static, added⟩ := Bool.and_eq_true_iff.mp passed
    obtain ⟨registered, kind, positive, priced, bids, asks⟩ := of_decide_eq_true static
    refine ⟨registered, kind, positive, priced, fun s => ?_, provided_of_test e _ added⟩
    cases s
    · exact bids
    · exact asks
  | processCancel cid cancel ts => cases passed
  | _ => trivial

theorem order_flow_is_textbook_two_asks :
    ∃ e e', run (EngineOp.apply silentTick) (MatchEngine.init .default ())
        [.registerContestant 0, .registerContestant 0, .processOrder 0 ⟨.sell, .limit, 1, 101, 5⟩ 0,
          .processOrder 0 ⟨.sell, .limit, 2, 100, 5⟩ 0, .processOrder 0 ⟨.sell, .limit, 3, 99, 51⟩ 0,
          .generateTick 0] = some e ∧
      EngineOp.apply silentTick e (.processOrder 1 ⟨.buy, .ioc, 7, 101, 12⟩ 0) = some e' ∧
      (emitted e e').filterMap fillReport =
        [⟨0, 2, .sell, 100, 5⟩, ⟨1, 7, .buy, 100, 5⟩, ⟨0, 1, .sell, 101, 5⟩, ⟨1, 7, .buy, 101, 5⟩] ∧
      ownedLots e'.book = fun _ => [] := by
  obtain ⟨e, e', returns, step, told, walks⟩ := order_flow_is_textbook silentTick ()
    [.registerContestant 0, .registerContestant 0, .processOrder 0 ⟨.sell, .limit, 1, 101, 5⟩ 0,
      .processOrder 0 ⟨.sell, .limit, 2, 100, 5⟩ 0, .processOrder 0 ⟨.sell, .limit, 3, 99, 51⟩ 0,
      .generateTick 0] (.processOrder 1 ⟨.buy, .ioc, 7, 101, 12⟩ 0)
    (obeys_of_test orderFlow_of_test _ _ (by decide +kernel))
  refine ⟨e, e', returns, step, told.trans (by decide +kernel), walks.trans ?_⟩
  funext s
  cases s
  · decide +kernel
  · decide +kernel

end HftGrading.Exchange.Engine.EngineReference
