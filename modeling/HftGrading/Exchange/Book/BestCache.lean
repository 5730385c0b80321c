/- module: HftGrading/Exchange/Book/BestCache
   source: exchange/include/exchange/orderbook.hpp
   digest: When the cached best level can be trusted, and the run after which it cannot. -/

import HftGrading.Exchange.Book.BookRuns

set_option autoImplicit false
set_option relaxedAutoImplicit false

namespace HftGrading.Exchange.Book.BestCache

open Lib.PartialExecution WireProtocol PriceMap LimitBook
open LimitBook.OrderBook (MatchResult beyondLimit)
open LevelSearch LevelQueue LevelFilling MatchRounds BookRep BookRuns

variable {b b' : OrderBook} {Q Q' : Queues} {s : Side} {i : Nat}

/-- Level `r` has orders and no level with orders ranks before it. -/
def Front (b : OrderBook) (Q : Queues) (s : Side) (r : Nat) : Prop :=
  Q s r ≠ [] ∧ ∀ i, Q s i ≠ [] → ¬ better s ((b.levels s).prices i) ((b.levels s).prices r)

structure Sighted (b : OrderBook) (Q : Queues) : Prop where
  cache : ∀ s, (b.levels s).bestIdx = nullIndex ∨ Front b Q s (b.levels s).bestIdx
  priced : ∀ s i, Q s i ≠ [] → better s ((b.levels s).prices i) (scanStart s)

theorem visible_iff (rep : Rep b Q) (tame : Tame b Q) (s : Side) (i : Nat) :
    Visible (b.levels s) i ↔ Q s i ≠ [] := by
  constructor
  · exact fun visible => rep.active_iff.mp visible.1
  · intro nonempty
    refine ⟨rep.active_iff.mpr nonempty, ?_⟩
    rw [tame.total rep]
    exact (rep.level s i).sum_pos nonempty

theorem Sighted.cached (sighted : Sighted b Q) (rep : Rep b Q) (tame : Tame b Q) (s : Side) :
    Cached s (b.levels s) := by
  rcases sighted.cache s with none | ⟨nonempty, leads⟩
  · exact Or.inl none
  · refine Or.inr ⟨rep.active_iff.mpr nonempty, fun i seen => ?_⟩
    exact leads i ((visible_iff rep tame s i).mp seen)

theorem Sighted.found (sighted : Sighted b Q) (rep : Rep b Q) (tame : Tame b Q) (s : Side) :
    (((b.levels s).findBest s).1 = nullIndex ∧ ∀ i, Q s i = []) ∨
      Front b Q s ((b.levels s).findBest s).1 := by
  have visible := visible_iff rep tame s
  have cached := sighted.cached rep tame s
  rcases findBest_isBest cached (fun i seen => sighted.priced s i ((visible i).mp seen)) with
    ⟨none, unseen⟩ | ⟨seen, leads⟩
  · left
    refine ⟨none, fun i => ?_⟩
    by_contra nonempty
    exact unseen i ((visible i).mpr nonempty)
  · exact Or.inr ⟨(visible _).mp seen, fun i nonempty => leads i ((visible i).mpr nonempty)⟩

theorem Sighted.same (sighted : Sighted b Q)
    (prices : ∀ s, (b'.levels s).prices = (b.levels s).prices)
    (cache : ∀ s, (b'.levels s).bestIdx = (b.levels s).bestIdx) : Sighted b' Q := by
  refine ⟨fun s => ?_, fun s i => ?_⟩
  · rw [cache, Front, prices]
    exact sighted.cache s
  · rw [prices]
    exact sighted.priced s i

theorem Sighted.look (sighted : Sighted b Q) (rep : Rep b Q) (tame : Tame b Q) (c : Side) :
    Sighted (look b c) Q := by
  refine ⟨fun s => ?_, fun s i => ?_⟩
  · rcases Side.eq_or_eq_contra c s with rfl | rfl
    · rw [Front, look_levels]
      rcases sighted.found rep tame s with ⟨none, -⟩ | front
      · exact Or.inl none
      · exact Or.inr front
    · rw [Front, look_levels_contra]
      exact sighted.cache c.contra
  · rcases Side.eq_or_eq_contra c s with rfl | rfl
    · rw [look_levels]
      exact sighted.priced s i
    · rw [look_levels_contra]
      exact sighted.priced c.contra i

theorem Sighted.settle {b₁ : OrderBook} {gone kept : List Nat} (sighted : Sighted b Q)
    (shed : Shed s i (Q s i) gone kept b b₁) (settled : Settled s i kept b₁ b') :
    Sighted b' (place Q s i kept) := by
  have fewer : ∀ t j, place Q s i kept t j ≠ [] → Q t j ≠ [] := by
    refine place_forall (C := fun t j l => l ≠ [] → Q t j ≠ []) ?_ (fun _ _ _ h => h)
    intro nonempty
    obtain ⟨x, hx⟩ := List.exists_mem_of_ne_nil _ nonempty
    exact List.ne_nil_of_mem (shed.order.subset hx)
  have prices : ∀ t, (b'.levels t).prices = (b.levels t).prices := by
    intro t
    rcases Side.eq_or_eq_contra s t with rfl | rfl
    · rw [settled.prices, shed.frame.prices]
    · rw [settled.contra, shed.frame.contra]
  have front : ∀ t r, Front b Q t r → place Q s i kept t r ≠ [] →
      Front b' (place Q s i kept) t r := by
    intro t r old nonempty
    refine ⟨nonempty, fun j hj => ?_⟩
    rw [prices]
    exact old.2 j (fewer t j hj)
  refine ⟨fun t => ?_, fun t j nonempty => ?_⟩
  · rcases Side.eq_or_eq_contra s t with rfl | rfl
    · rw [settled.bestIdx, shed.frame.bestIdx]
      split_ifs with emptied
      · exact Or.inl rfl
      · rcases sighted.cache t with none | old
        · exact Or.inl none
        · refine Or.inr (front t _ old ?_)
          by_cases same : (b.levels t).bestIdx = i
          · rw [same, place_self]
            exact fun none => emptied ⟨none, same⟩
          · rw [place_other (Or.inr same)]
            exact old.1
    · rw [settled.contra, shed.frame.contra]
      rcases sighted.cache s.contra with none | old
      · exact Or.inl none
      · refine Or.inr (front _ _ old ?_)
        rw [place_other (Or.inl s.contra_ne)]
        exact old.1
  · rw [prices]
    exact sighted.priced t j (fewer t j nonempty)

theorem Sighted.drains (sighted : Sighted b Q) (rep : Rep b Q) (tame : Tame b Q)
    (drains : Drains Q b Q' b') : Sighted b' Q' := by
  induction drains with
  | refl => exact sighted
  | look before c ih => exact ih.look (before.rep rep) (tame.drains rep before) c
  | shed before _ shed settled ih => exact ih.settle shed settled
  | tally before n ih =>
    exact ih.same (fun s => by rw [tally_levels]) (fun s => by rw [tally_levels])

theorem Sighted.beyond {aggressor : Side} {price quantity : Int} {cid maxFills : Nat}
    {fills : List MatchResult} {before : OrderBook} (sighted : Sighted b Q) (rep : Rep b Q)
    (tame : Tame b Q)
    (matched : Matched Q b aggressor price quantity cid maxFills Q' fills before b')
    (short : (fills.map MatchResult.fillQty).sum < quantity) (few : fills.length < maxFills)
    (i : Nat) (nonempty : Q' aggressor.contra i ≠ []) :
    beyondLimit aggressor price ((b.levels aggressor.contra).prices i) := by
  have rep' := matched.drains.rep rep
  have prices := matched.drains.prices aggressor.contra
  rcases matched.outcome with ⟨sated, -⟩ | ⟨why, -⟩
  · omega
  rcases (sighted.drains rep tame matched.drains).found rep' (tame.drains rep matched.drains)
    aggressor.contra with ⟨-, empty⟩ | ⟨listed, leads⟩
  · exact absurd (empty i) nonempty
  · have real := ((rep'.mapped aggressor.contra).lt_nullIndex (rep'.bound _ _ listed)).ne
    have limit := why.resolve_left real
    have behind := leads i nonempty
    rw [prices] at limit behind
    rw [beyondLimit_iff, better_iff] at limit ⊢
    rw [better_iff] at behind
    omega

def Unobscured (b : OrderBook) (side : Side) (price : Int) : Prop :=
  (b.levels side).bestIdx ≠ nullIndex ∨
    ∀ i, Active (b.levels side) i → ¬ better side ((b.levels side).prices i) price

private theorem Sighted.front_rests (sighted : Sighted b Q) (rep : Rep b Q) {cid ts x : Nat}
    {client : UInt32} {price quantity : Int} (unobscured : Unobscured b s price)
    {L : PriceLevelPool} (top : ∃ rest, freeSlots b = rest ++ [x])
    (located : Located (b.levels s) price i L) (real : i ≠ nullIndex) :
    Front (rested b cid client s price quantity ts x i L) (place Q s i (Q s i ++ [x])) s
      ((rested b cid client s price quantity ts x i L).levels s).bestIdx := by
  have joined : Joined s i L ((rested b cid client s price quantity ts x i L).levels s) :=
    rested_joined rep top located real
  have at_price := located_price located real
  -- Levels with orders keep their prices when a level is opened.
  have old : ∀ j, Q s j ≠ [] → L.prices j = (b.levels s).prices j :=
    fun j nonempty => (located_listed located rep nonempty).1
  have old_best : (b.levels s).bestIdx ≠ nullIndex →
      Front b Q s (b.levels s).bestIdx := (sighted.cache s).resolve_left
  rw [Front, joined.bestIdx, joined.prices]
  unfold PriceLevelPool.updateBest
  rw [located_bestIdx located, at_price]
  split_ifs with takes
  · refine ⟨by simp, fun j hj => ?_⟩
    rcases place_append_ne_nil.mp hj with ⟨-, rfl⟩ | nonempty
    · rw [at_price, better_iff]
      exact lt_irrefl _
    rw [at_price, old j nonempty]
    by_cases empty : (b.levels s).bestIdx = nullIndex
    · exact (unobscured.resolve_left (fun h => h empty)) j (rep.active_iff.mpr nonempty)
    · have front := old_best empty
      have ahead := takes.resolve_left empty
      have behind := front.2 j nonempty
      rw [old _ front.1] at ahead
      rw [better_iff] at *
      omega
  · obtain ⟨some_best, behind⟩ := not_or.mp takes
    have front := old_best some_best
    have same : L.bestIdx = (b.levels s).bestIdx := located_bestIdx located
    rw [same]
    refine ⟨place_append_ne_nil.mpr (Or.inr front.1), fun j hj => ?_⟩
    rcases place_append_ne_nil.mp hj with ⟨-, rfl⟩ | nonempty
    · rwa [at_price]
    · rw [old j nonempty, old _ front.1]
      exact front.2 j nonempty

theorem Sighted.rests (sighted : Sighted b Q) (rep : Rep b Q) {cid ts x : Nat} {client : UInt32}
    {price quantity : Int} (priced : better s price (scanStart s))
    (unobscured : Unobscured b s price) {L : PriceLevelPool}
    (top : ∃ rest, freeSlots b = rest ++ [x]) (located : Located (b.levels s) price i L)
    (real : i ≠ nullIndex) :
    Sighted (rested b cid client s price quantity ts x i L) (place Q s i (Q s i ++ [x])) := by
  have joined : Joined s i L ((rested b cid client s price quantity ts x i L).levels s) :=
    rested_joined rep top located real
  have other : ∀ j, place Q s i (Q s i ++ [x]) s.contra j = Q s.contra j :=
    fun j => place_other (Or.inl s.contra_ne)
  refine ⟨fun t => ?_, fun t j nonempty => ?_⟩
  · rcases Side.eq_or_eq_contra s t with rfl | rfl
    · exact Or.inr (sighted.front_rests rep unobscured top located real)
    · rw [Front, rested_contra_eq]
      simp only [other]
      exact sighted.cache s.contra
  · rcases Side.eq_or_eq_contra s t with rfl | rfl
    · rw [joined.prices]
      rcases place_append_ne_nil.mp nonempty with ⟨-, rfl⟩ | nonempty
      · rwa [located_price located real]
      · rw [(located_listed located rep nonempty).1]
        exact sighted.priced t j nonempty
    · rw [rested_contra_eq]
      rw [other] at nonempty
      exact sighted.priced s.contra j nonempty

theorem Sighted.effect (sighted : Sighted b Q) (rep : Rep b Q) (tame : Tame b Q) {op : BookOp}
    (careful : ∀ cid client side price quantity ts,
      op = .addOrder cid client side price quantity ts →
        better side price (scanStart side) ∧ Unobscured b side price)
    (effect : Effect Q b op Q' b') : Sighted b' Q' := by
  cases effect with
  | drains drains => exact sighted.drains rep tame drains
  | refused top => exact sighted.same (fun s => by cases s <;> rfl) (fun s => by cases s <;> rfl)
  | rests top located real =>
    obtain ⟨priced, unobscured⟩ := careful _ _ _ _ _ _ rfl
    exact sighted.rests rep priced unobscured top located real

theorem sighted_init : Sighted OrderBook.init (fun _ _ => []) :=
  ⟨fun s => Or.inl (by cases s <;> rfl), fun _ _ nonempty => absurd rfl nonempty⟩

/-- `find_best_bid` has found the highest bid level with quantity. -/
def NamesBestBid (L : PriceLevelPool) (r : Nat) : Prop :=
  (r = nullIndex ↔ ∀ i, ¬ Visible L i) ∧
    (r ≠ nullIndex → Visible L r ∧ ∀ i, Visible L i → L.prices i ≤ L.prices r)

/-- `find_best_ask` has found the lowest ask level with quantity. -/
def NamesBestAsk (L : PriceLevelPool) (r : Nat) : Prop :=
  (r = nullIndex ↔ ∀ i, ¬ Visible L i) ∧
    (r ≠ nullIndex → Visible L r ∧ ∀ i, Visible L i → L.prices r ≤ L.prices i)

private theorem Sighted.names (sighted : Sighted b Q) (rep : Rep b Q) (tame : Tame b Q) (s : Side) :
    (((b.levels s).findBest s).1 = nullIndex ↔ ∀ i, ¬ Visible (b.levels s) i) ∧
      (((b.levels s).findBest s).1 ≠ nullIndex → Visible (b.levels s) ((b.levels s).findBest s).1 ∧
        ∀ i, Visible (b.levels s) i →
          ¬ better s ((b.levels s).prices i) ((b.levels s).prices ((b.levels s).findBest s).1)) := by
  have visible := visible_iff rep tame s
  rcases sighted.found rep tame s with ⟨none, empty⟩ | ⟨nonempty, leads⟩
  · refine ⟨⟨fun _ i seen => (visible i).mp seen (empty i), fun _ => none⟩, ?_⟩
    exact fun found => absurd none found
  · have seen := (visible _).mpr nonempty
    have real := ((rep.mapped s).lt_nullIndex (rep.bound s _ nonempty)).ne
    refine ⟨⟨fun none => absurd none real, fun unseen => absurd seen (unseen _)⟩, fun _ => ?_⟩
    exact ⟨seen, fun i seen => leads i ((visible i).mp seen)⟩

/-- Positive quantities in range, cancels of resting orders, no bid at `INT64_MIN`
and no ask at `INT64_MAX`; and on a side whose cache is empty no order that
ranks behind an open level. -/
def Careful (b : OrderBook) : BookOp → Prop
  | .addOrder _ _ side price quantity _ =>
    0 < quantity ∧ Fits b side price quantity ∧ better side price (scanStart side) ∧
      Unobscured b side price
  | .cancelOrder x => ∃ s i, x ∈ b.queue s i
  | _ => True

/-- In careful runs the best-level searches are right in every state reached. -/
theorem careful_runs_name_best (ops : List BookOp)
    (careful : Obeys BookOp.apply Careful OrderBook.init ops) :
    ∃ b, run BookOp.apply OrderBook.init ops = some b ∧
      NamesBestBid b.bids b.bids.findBestBid.1 ∧ NamesBestAsk b.asks b.asks.findBestAsk.1 := by
  have keep : ∀ b op, (∃ Q, Rep b Q ∧ Tame b Q ∧ Sighted b Q) → Careful b op →
      ∃ b', op.apply b = some b' ∧ ∃ Q, Rep b' Q ∧ Tame b' Q ∧ Sighted b' Q := by
    rintro b op ⟨Q, rep, tame, sighted⟩ legal
    have proper : Proper b op := by
      cases op with
      | addOrder => exact legal.1
      | cancelOrder => exact legal
      | _ => trivial
    have moderate : Moderate b op := by
      cases op with
      | addOrder => exact legal.2.1
      | _ => trivial
    obtain ⟨Q', b', step, effect, rep'⟩ := apply_effect rep op proper
    refine ⟨b', step, Q', rep', tame.effect rep moderate effect, sighted.effect rep tame ?_ effect⟩
    rintro cid client side price quantity ts rfl
    exact legal.2.2
  obtain ⟨b, returns, Q, rep, tame, sighted⟩ := run_returns BookOp.apply Careful
    (fun b => ∃ Q, Rep b Q ∧ Tame b Q ∧ Sighted b Q) keep ops OrderBook.init
    ⟨_, rep_init, tame_init, sighted_init⟩ careful
  have bid := sighted.names rep tame .buy
  have ask := sighted.names rep tame .sell
  refine ⟨b, returns, ⟨bid.1, fun found => ⟨(bid.2 found).1, fun i seen => ?_⟩⟩,
    ⟨ask.1, fun found => ⟨(ask.2 found).1, fun i seen => ?_⟩⟩⟩
  · exact not_lt.mp ((bid.2 found).2 i seen)
  · exact not_lt.mp ((ask.2 found).2 i seen)

def carefulTest (b : OrderBook) : BookOp → Bool
  | .addOrder _ _ side price quantity _ =>
    decide (0 < quantity ∧
      (quantity < 2147483648 ∧ ∀ i < (b.levels side).count, (b.levels side).prices i = price →
        levelQty b side i + quantity < 2147483648) ∧
      better side price (scanStart side) ∧ ((b.levels side).bestIdx ≠ nullIndex ∨
        ∀ i < (b.levels side).count, ¬ better side ((b.levels side).prices i) price))
  | .cancelOrder x => listedTest b x
  | _ => true

theorem careful_of_test (b : OrderBook) (op : BookOp) (passed : carefulTest b op = true) :
    Careful b op := by
  cases op with
  | addOrder cid client side price quantity ts =>
    obtain ⟨positive, fits, priced, unobscured⟩ := decide_eq_true_iff.mp passed
    refine ⟨positive, ⟨fits.1, fun i active => fits.2 i active.1⟩, priced, ?_⟩
    exact unobscured.imp_right (fun behind i active => behind i active.1)
  | cancelOrder x => exact ⟨_, _, of_decide_eq_true passed⟩
  | _ => trivial

theorem careful_runs_name_best_queried :
    ∃ b, run BookOp.apply OrderBook.init
        [.addOrder 0 1 .buy 1000000 10 0, .addOrder 0 2 .buy 990000 10 0, .cancelOrder 0,
          .bestBidPrice, .addOrder 0 3 .buy 980000 10 0] = some b ∧
      NamesBestBid b.bids b.bids.findBestBid.1 ∧ NamesBestAsk b.asks b.asks.findBestAsk.1 :=
  careful_runs_name_best _ (obeys_of_test careful_of_test _ _ (by decide +kernel))

def cancelledBest : List BookOp :=
  [.addOrder 0 1 .buy 1000000 10 0, .addOrder 0 2 .buy 990000 10 0, .cancelOrder 0,
    .addOrder 0 3 .buy 980000 10 0]

/-- Without the query the third bid takes the empty cache, although the second ranks before it. -/
theorem cancelled_best_names_worse_bid :
    Obeys BookOp.apply Proper OrderBook.init cancelledBest ∧
      ∃ b, run BookOp.apply OrderBook.init cancelledBest = some b ∧
        b.bids.findBestBid.1 = 2 ∧ ¬ NamesBestBid b.bids b.bids.findBestBid.1 := by
  have proper : Obeys BookOp.apply Proper OrderBook.init cancelledBest :=
    obeys_of_test proper_of_test _ _ (by decide +kernel)
  have facts : (run BookOp.apply OrderBook.init cancelledBest).map (fun b =>
      (b.bids.findBestBid.1, b.bids.count, b.bids.active 1, b.bids.totalQty 1, b.bids.prices 1,
        b.bids.prices 2)) = some (2, 3, true, 10, 990000, 980000) := by decide +kernel
  obtain ⟨b, returns, fields⟩ := Option.map_eq_some_iff.mp facts
  simp only [Prod.mk.injEq] at fields
  obtain ⟨best, count, active, total, second, third⟩ := fields
  refine ⟨proper, b, returns, best, fun names => ?_⟩
  rw [best] at names
  have seen : Visible b.bids 1 := ⟨⟨by rw [count]; decide, active⟩, by rw [total]; decide⟩
  have least := (names.2 (by decide)).2 1 seen
  rw [second, third] at least
  exact absurd least (by decide)

end HftGrading.Exchange.Book.BestCache
