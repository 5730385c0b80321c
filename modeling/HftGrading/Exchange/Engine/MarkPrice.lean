/- module: HftGrading/Exchange/Engine/MarkPrice
   source: exchange/include/exchange/match_engine.hpp
   digest: Where the price a session is marked to lies relative to the orders that rest. -/

import HftGrading.Exchange.Engine.NoCrossing
import HftGrading.Exchange.Engine.SignedRange

set_option autoImplicit false
set_option relaxedAutoImplicit false

namespace HftGrading.Exchange.Engine.MarkPrice

open Lib.PartialExecution WireProtocol Book.PriceMap Book.LimitBook Book.LevelQueue Book.BookRep
open Book.BestCache
open Book.CellBounds (findBest_prices)
open EngineState EngineSteps NoCrossing SignedRange

variable {G : Type} {b : OrderBook} {Q : Queues}

def priceAt (b : OrderBook) (x : Nat) : Int := (b.pool.orders x).price

/-- A price no resting order contradicts: at least every bid, at most every ask. -/
def InsideBook (b : OrderBook) (mark : Int) : Prop :=
  (∀ x, Resting b .buy x → priceAt b x ≤ mark) ∧ ∀ y, Resting b .sell y → mark ≤ priceAt b y

/-- A best price as a query should return it: 0 for a side without orders, else the price of a
resting order that none ranks before. -/
def SeesBest (b : OrderBook) (s : Side) (p : Int) : Prop :=
  ((∀ x, ¬ Resting b s x) ∧ p = 0) ∨
    ((∃ x, Resting b s x ∧ priceAt b x = p) ∧ ∀ y, Resting b s y → ¬ better s (priceAt b y) p)

/-- The sum of the best prices, halved. -/
def middle (b : OrderBook) : Int := (b.bestBidPrice.1 + b.bestBidPrice.2.bestAskPrice.1).tdiv 2

theorem middle_eq (nonneg : 0 ≤ b.bestBidPrice.1 + b.bestBidPrice.2.bestAskPrice.1) :
    middle b = (b.bestBidPrice.1 + b.bestBidPrice.2.bestAskPrice.1) / 2 :=
  Int.tdiv_eq_ediv_of_nonneg nonneg

theorem sessionMid_eq (lastUpdate : G → MarketUpdate) (e : MatchEngine G) (fits : MidSafe e.book) :
    sessionMid lastUpdate e =
      if middle e.book ≤ 0 then (lastUpdate e.marketGen).lastTradePrice else middle e.book := by
  rw [sessionMid, wrap64_of_isInt64 fits, middle]

section Middle

variable (positive : ∀ s x, Resting b s x → 0 < priceAt b x)
  (bid : SeesBest b .buy b.bestBidPrice.1) (ask : SeesBest b .sell b.bestBidPrice.2.bestAskPrice.1)
include positive bid ask

theorem middle_of_bids_only {x : Nat} (rests : Resting b .buy x)
    (none : ∀ y, ¬ Resting b .sell y) : ¬ InsideBook b (middle b) := by
  intro inside
  rcases ask with ⟨-, zero⟩ | ⟨⟨y, asked, -⟩, -⟩
  · rcases bid with ⟨empty, -⟩ | ⟨⟨z, best, same⟩, -⟩
    · exact absurd rests (empty x)
    · have above := inside.1 z best
      have worth := positive .buy z best
      rw [same] at above worth
      rw [middle_eq (by omega)] at above
      omega
  · exact none y asked

theorem middle_of_no_bids (none : ∀ x, ¬ Resting b .buy x) : InsideBook b (middle b) := by
  refine ⟨fun x rests => absurd rests (none x), fun y rests => ?_⟩
  rcases bid with ⟨-, zero⟩ | ⟨⟨x, best, -⟩, -⟩
  · rcases ask with ⟨empty, -⟩ | ⟨⟨z, best, same⟩, least⟩
    · exact absurd rests (empty y)
    · have below : ¬ priceAt b y < b.bestBidPrice.2.bestAskPrice.1 := least y rests
      have worth := positive .sell z best
      rw [middle_eq (by omega)]
      omega
  · exact absurd best (none x)

theorem middle_of_both_sides (uncrossed : ∀ x y, Resting b .buy x → Resting b .sell y →
    priceAt b x ≤ priceAt b y) {x y : Nat} (bids : Resting b .buy x) (asks : Resting b .sell y) :
    InsideBook b (middle b) := by
  rcases bid with ⟨empty, -⟩ | ⟨⟨p, bestBid, bidPrice⟩, most⟩
  · exact absurd bids (empty x)
  rcases ask with ⟨empty, -⟩ | ⟨⟨q, bestAsk, askPrice⟩, least⟩
  · exact absurd asks (empty y)
  have apart := uncrossed p q bestBid bestAsk
  have worth := positive .buy p bestBid
  rw [bidPrice, askPrice] at apart
  rw [bidPrice] at worth
  rw [middle_eq (by omega)]
  refine ⟨fun z rests => ?_, fun z rests => ?_⟩
  · have above : ¬ b.bestBidPrice.1 < priceAt b z := most z rests
    omega
  · have below : ¬ priceAt b z < b.bestBidPrice.2.bestAskPrice.1 := least z rests
    omega

theorem inside_sessionMid_iff {e : MatchEngine G} (lastUpdate : G → MarketUpdate)
    (same : e.book = b) (uncrossed : ∀ x y, Resting b .buy x → Resting b .sell y →
      priceAt b x ≤ priceAt b y) (fits : MidSafe b) :
    InsideBook b (sessionMid lastUpdate e) ↔
      if middle b ≤ 0 then InsideBook b (lastUpdate e.marketGen).lastTradePrice
      else (∃ x, Resting b .buy x) → ∃ y, Resting b .sell y := by
  subst same
  rw [sessionMid_eq lastUpdate e fits]
  split_ifs with low
  · exact Iff.rfl
  · constructor
    · rintro inside ⟨x, rests⟩
      by_contra none
      exact middle_of_bids_only positive bid ask rests (not_exists.mp none) inside
    · intro matched
      by_cases bids : ∃ x, Resting e.book .buy x
      · obtain ⟨y, asks⟩ := matched bids
        obtain ⟨x, bids⟩ := bids
        exact middle_of_both_sides positive bid ask uncrossed bids asks
      · exact middle_of_no_bids positive bid ask (not_exists.mp bids)

end Middle

/-- On an uncrossed book with positive prices whose best prices are found, and whose sum does not
overflow, a session is marked inside the book exactly if, when the middle is not positive, the last
trade of the generator lies inside the book, and otherwise an ask rests whenever a bid does. -/
theorem session_mark_inside_book_iff (lastUpdate : G → MarketUpdate) (e : MatchEngine G)
    (positive : ∀ s x, Resting e.book s x → 0 < priceAt e.book x)
    (uncrossed : ∀ x y, Resting e.book .buy x → Resting e.book .sell y →
      priceAt e.book x ≤ priceAt e.book y)
    (bid : SeesBest e.book .buy e.book.bestBidPrice.1)
    (ask : SeesBest e.book .sell e.book.bestBidPrice.2.bestAskPrice.1) (fits : MidSafe e.book) :
    InsideBook e.book (sessionMid lastUpdate e) ↔
      if middle e.book ≤ 0 then InsideBook e.book (lastUpdate e.marketGen).lastTradePrice
      else (∃ x, Resting e.book .buy x) → ∃ y, Resting e.book .sell y :=
  inside_sessionMid_iff positive bid ask lastUpdate rfl uncrossed fits

theorem orderly_seesBest (orderly : Orderly b Q) (s : Side) :
    SeesBest b s (OrderBook.bestField PriceLevelPool.prices s b).1 := by
  have rep := orderly.rep
  have priced : ∀ {i x}, x ∈ Q s i → priceAt b x = (b.levels s).prices i :=
    fun listed => (rep.level s _).price _ listed
  rw [OrderBook.bestField]
  simp only [findBest_prices]
  rcases orderly.sighted.found rep orderly.tame s with ⟨null, empty⟩ | ⟨nonempty, leads⟩
  · rw [if_neg (not_not.mpr null)]
    refine .inl ⟨?_, rfl⟩
    rintro x ⟨i, listed⟩
    rw [rep.queue_eq, empty i] at listed
    cases listed
  · have real := ((rep.mapped s).lt_nullIndex (rep.bound s _ nonempty)).ne
    rw [if_pos real]
    obtain ⟨x, listed⟩ := List.exists_mem_of_ne_nil _ nonempty
    refine .inr ⟨⟨x, ⟨_, by rwa [rep.queue_eq]⟩, priced listed⟩, ?_⟩
    rintro y ⟨i, other⟩
    rw [rep.queue_eq] at other
    rw [priced other]
    exact leads i (List.ne_nil_of_mem other)

/-- In a discreet run the two queries see the best prices, so nothing is left to assume of them. -/
theorem discreet_runs_marked_inside_iff (nextTick : G → Nat → MarketUpdate × G)
    (lastUpdate : G → MarketUpdate) (marketGen : G) (ops : List EngineOp)
    (discreet : Obeys (EngineOp.apply nextTick) Discreet (MatchEngine.init .default marketGen) ops) :
    ∃ e, run (EngineOp.apply nextTick) (MatchEngine.init .default marketGen) ops = some e ∧
      ((∀ s x, Resting e.book s x → 0 < priceAt e.book x) → MidSafe e.book →
        (InsideBook e.book (sessionMid lastUpdate e) ↔
          if middle e.book ≤ 0 then InsideBook e.book (lastUpdate e.marketGen).lastTradePrice
          else (∃ x, Resting e.book .buy x) → ∃ y, Resting e.book .sell y)) := by
  obtain ⟨e, returns, Q, orderly⟩ := discreet_runs_orderly nextTick marketGen ops discreet
  refine ⟨e, returns, fun positive fits => ?_⟩
  exact inside_sessionMid_iff positive (orderly_seesBest orderly .buy)
    (orderly_seesBest orderly .sell) lastUpdate rfl
    (fun x y bids asks => (orderly.uncrossed x y bids asks).le) fits

def pricedTest (b : OrderBook) : Bool :=
  [Side.buy, Side.sell].all fun s => (List.range (b.levels s).count).all fun i =>
    (b.queue s i).all fun x => decide (0 < priceAt b x)

theorem positive_of_test (rep : Rep b Q) (passed : pricedTest b = true) (s : Side) (x : Nat)
    (rests : Resting b s x) : 0 < priceAt b x := by
  obtain ⟨i, listed⟩ := rests
  have inside : i < (b.levels s).count := rep.bound s i (by
    rw [← rep.queue_eq]
    exact List.ne_nil_of_mem listed)
  have sides := List.all_eq_true.mp passed s (by cases s <;> simp)
  have levels := List.all_eq_true.mp sides i (List.mem_range.mpr inside)
  exact of_decide_eq_true (List.all_eq_true.mp levels x listed)

def quotedRun : List EngineOp :=
  [.registerContestant 0, .registerContestant 0, .processOrder 0 ⟨.buy, .limit, 1, 100, 5⟩ 0,
    .processOrder 1 ⟨.sell, .limit, 2, 104, 5⟩ 0]

theorem quotedRun_marked_inside_book :
    ∃ e, run (EngineOp.apply silentTick) (MatchEngine.init .default ()) quotedRun = some e ∧
      sessionMid noUpdate e = 102 ∧ InsideBook e.book (sessionMid noUpdate e) := by
  obtain ⟨e, returns, Q, orderly⟩ := discreet_runs_orderly silentTick () quotedRun
    (obeys_of_test discreet_of_test _ _ (by decide +kernel))
  have facts : (run (EngineOp.apply silentTick) (MatchEngine.init .default ()) quotedRun).map
      (fun e => (pricedTest e.book, sessionMid noUpdate e, middle e.book, decide (MidSafe e.book),
        e.book.queue .sell 0)) = some (true, 102, 102, true, [1]) := by decide +kernel
  rw [returns] at facts
  simp only [Option.map_some, Option.some.injEq, Prod.mk.injEq, decide_eq_true_eq] at facts
  obtain ⟨priced, mark, mid, fits, asks⟩ := facts
  refine ⟨e, returns, mark, ?_⟩
  refine (session_mark_inside_book_iff noUpdate e (positive_of_test orderly.rep priced)
    (fun x y bids asks => (orderly.uncrossed x y bids asks).le) (orderly_seesBest orderly .buy)
    (orderly_seesBest orderly .sell) fits).mpr ?_
  rw [if_neg (by rw [mid]; decide)]
  exact fun _ => ⟨1, 0, by simp [asks]⟩

/-- A bid at 100 and nothing else: the session is marked at 50. -/
theorem lone_bid_marked_below :
    ∃ e, run (EngineOp.apply silentTick) (MatchEngine.init .default ())
        [.registerContestant 0, .processOrder 0 ⟨.buy, .limit, 1, 100, 5⟩ 0] = some e ∧
      (∀ s x, Resting e.book s x → 0 < priceAt e.book x) ∧ Uncrossed e.book ∧
      Resting e.book .buy 0 ∧ priceAt e.book 0 = 100 ∧ sessionMid noUpdate e = 50 ∧
      ¬ InsideBook e.book (sessionMid noUpdate e) := by
  obtain ⟨e, returns, Q, orderly⟩ := discreet_runs_orderly silentTick ()
    [.registerContestant 0, .processOrder 0 ⟨.buy, .limit, 1, 100, 5⟩ 0]
    (obeys_of_test discreet_of_test _ _ (by decide +kernel))
  have facts : (run (EngineOp.apply silentTick) (MatchEngine.init .default ())
      [.registerContestant 0, .processOrder 0 ⟨.buy, .limit, 1, 100, 5⟩ 0]).map
      (fun e => (pricedTest e.book, sessionMid noUpdate e, priceAt e.book 0,
        e.book.queue .buy 0)) = some (true, 50, 100, [0]) := by decide +kernel
  rw [returns] at facts
  simp only [Option.map_some, Option.some.injEq, Prod.mk.injEq] at facts
  obtain ⟨priced, mark, price, bids⟩ := facts
  have rests : Resting e.book .buy 0 := ⟨0, by simp [bids]⟩
  refine ⟨e, returns, positive_of_test orderly.rep priced, orderly.uncrossed, rests, price, mark, ?_⟩
  intro inside
  have above := inside.1 0 rests
  rw [price, mark] at above
  exact absurd above (by decide)

end HftGrading.Exchange.Engine.MarkPrice
