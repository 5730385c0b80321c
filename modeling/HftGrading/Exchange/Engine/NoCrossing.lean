/- module: HftGrading/Exchange/Engine/NoCrossing
   source: exchange/include/exchange/match_engine.hpp
   digest: While no order hides a better level behind an empty cache, bids stay below asks. -/

import HftGrading.Exchange.Engine.EngineSteps

set_option autoImplicit false
set_option relaxedAutoImplicit false

namespace HftGrading.Exchange.Engine.NoCrossing

open Lib.PartialExecution WireProtocol Book.PriceMap Book.LimitBook
open Book.LimitBook.OrderBook (MatchResult beyondLimit)
open Book.LevelSearch Book.LevelQueue Book.LevelFilling Book.MatchRounds Book.BookRep Book.BookRuns
open Book.BestCache EngineState EngineSteps

variable {G : Type} {b b' : OrderBook} {Q Q' : Queues} {s : Side}

/-- The book under the default limits: small orders, caches that are empty or
right, and levels of opposite sides that do not trade with each other. -/
structure Orderly (b : OrderBook) (Q : Queues) : Prop where
  rep : Rep b Q
  small : ∀ s i, ∀ x ∈ Q s i, restingQty b x ≤ 50
  sighted : Sighted b Q
  apart : ∀ s i j, Q s i ≠ [] → Q s.contra j ≠ [] →
    beyondLimit s ((b.levels s).prices i) ((b.levels s.contra).prices j)

theorem sum_le_of_small {l : List Nat} (small : ∀ x ∈ l, restingQty b x ≤ 50) :
    (l.map (restingQty b)).sum ≤ 50 * (l.length : Int) := by
  induction l with
  | nil => simp
  | cons x l ih =>
    have first := small x List.mem_cons_self
    have rest := ih (fun y hy => small y (List.mem_cons_of_mem x hy))
    rw [List.map_cons, List.sum_cons, List.length_cons]
    omega

theorem length_le_capacity (rep : Rep b Q) (s : Side) (i : Nat) :
    (Q s i).length ≤ maxOrders * 2 := by
  have inside : (Q s i).toFinset ⊆ Finset.range (maxOrders * 2) := by
    intro x hx
    rw [← rep.capacity]
    exact Finset.mem_range.mpr (rep.inside s i x (List.mem_toFinset.mp hx))
  have count := Finset.card_le_card inside
  rwa [List.toFinset_card_of_nodup (rep.level s i).nodup, Finset.card_range] at count

theorem levelSum_lt (rep : Rep b Q) (small : ∀ s i, ∀ x ∈ Q s i, restingQty b x ≤ 50) (s : Side)
    (i : Nat) : ((Q s i).map (restingQty b)).sum + 50 < 2147483648 := by
  have sum := sum_le_of_small (small s i)
  have length := length_le_capacity rep s i
  rw [show maxOrders * 2 = 131072 from rfl] at length
  omega

theorem Orderly.tame (orderly : Orderly b Q) : Tame b Q := by
  intro s i
  have sum := levelSum_lt orderly.rep orderly.small s i
  omega

theorem Orderly.fits (orderly : Orderly b Q) (price : Int) {quantity : Int} (few : quantity ≤ 50) :
    Fits b s price quantity := by
  refine ⟨by omega, fun i _ _ => ?_⟩
  have sum := levelSum_lt orderly.rep orderly.small s i
  rw [levelQty, orderly.rep.queue_eq]
  omega

theorem Orderly.drains (orderly : Orderly b Q) (drains : Drains Q b Q' b') : Orderly b' Q' := by
  have still : ∀ s i, Q' s i ≠ [] → Q s i ≠ [] := by
    intro s i nonempty none
    have sublist := drains.sublist s i
    rw [none, List.sublist_nil] at sublist
    exact nonempty sublist
  refine ⟨drains.rep orderly.rep, fun s i x hx => ?_,
    orderly.sighted.drains orderly.rep orderly.tame drains, fun s i j hi hj => ?_⟩
  · have before := orderly.small s i x ((drains.sublist s i).subset hx)
    have lower := drains.lower x
    omega
  · rw [drains.prices, drains.prices]
    exact orderly.apart s i j (still s i hi) (still s.contra j hj)

section Resting

variable {cid ts x i : Nat} {client : UInt32} {price quantity : Int} {L : PriceLevelPool}

theorem Orderly.rests (orderly : Orderly b Q) (positive : 0 < quantity) (few : quantity ≤ 50)
    (priced : better s price (scanStart s)) (unobscured : Unobscured b s price)
    (free : ∀ j, Q s.contra j ≠ [] → beyondLimit s price ((b.levels s.contra).prices j))
    (top : ∃ rest, freeSlots b = rest ++ [x]) (located : Located (b.levels s) price i L)
    (real : i ≠ nullIndex) :
    Orderly (rested b cid client s price quantity ts x i L) (place Q s i (Q s i ++ [x])) := by
  have joined : Joined s i L ((rested b cid client s price quantity ts x i L).levels s) :=
    rested_joined orderly.rep top located real
  have contra : (rested b cid client s price quantity ts x i L).levels s.contra =
      b.levels s.contra := rested_contra_eq i L
  -- A level of the order's side is the one it joins or an old one, at its old price.
  have own : ∀ j, place Q s i (Q s i ++ [x]) s j ≠ [] → ∀ k, Q s.contra k ≠ [] →
      beyondLimit s (L.prices j) ((b.levels s.contra).prices k) := by
    intro j hj k hk
    rcases place_append_ne_nil.mp hj with ⟨-, rfl⟩ | old
    · rw [located_price located real]
      exact free k hk
    · rw [(located_listed located orderly.rep old).1]
      exact orderly.apart s j k old hk
  have other : ∀ k, place Q s i (Q s i ++ [x]) s.contra k = Q s.contra k :=
    fun k => place_other (Or.inl s.contra_ne)
  refine ⟨orderly.rep.rests positive top located real, ?_,
    orderly.sighted.rests orderly.rep priced unobscured top located real, ?_⟩
  · have unlisted := (orderly.rep.top_free top).2
    refine place_forall (C := fun _ _ l => ∀ y ∈ l, restingQty _ y ≤ 50) ?_ ?_
    · intro y hy
      rw [rested_qty]
      split_ifs with new
      · exact few
      · rcases List.mem_append.mp hy with hy | hy
        · exact orderly.small s i y hy
        · exact absurd (List.mem_singleton.mp hy) new
    · intro t j _ y hy
      have old : y ≠ x := fun e => unlisted t j (e ▸ hy)
      rw [rested_qty, if_neg old]
      exact orderly.small t j y hy
  · intro t j k hj hk
    rcases Side.eq_or_eq_contra s t with rfl | rfl
    · rw [other] at hk
      rw [joined.prices, contra]
      exact own j hj k hk
    · rw [Side.contra_contra] at hk ⊢
      rw [other] at hj
      have faces := own k hk j hj
      rw [contra, joined.prices]
      rw [beyondLimit_iff, better_iff] at faces ⊢
      revert faces
      cases s <;> simp only [Side.contra, rank] <;> omega

theorem Orderly.refused (orderly : Orderly b Q) (top : ∃ rest, freeSlots b = rest ++ [x]) :
    Orderly ((stamped b cid client s price quantity ts x).onPool (fun P => P.free x)) Q := by
  have levels : ∀ t, ((stamped b cid client s price quantity ts x).onPool
      (fun P => P.free x)).levels t = b.levels t := fun t => by cases t <;> rfl
  have unlisted := (orderly.rep.top_free top).2
  refine ⟨orderly.rep.unleveled top, fun t j y hy => ?_,
    orderly.sighted.same (fun t => by rw [levels]) (fun t => by rw [levels]), ?_⟩
  · have other : y ≠ x := fun e => unlisted t j (e ▸ hy)
    have same : restingQty ((stamped b cid client s price quantity ts x).onPool
        (fun P => P.free x)) y = restingQty b y := by simp [restingQty, stamped, other]
    rw [same]
    exact orderly.small t j y hy
  · intro t j k hj hk
    rw [levels, levels]
    exact orderly.apart t j k hj hk

end Resting

section Runs

/-- Where a match at this limit would find something to trade with. -/
def Marketable (b : OrderBook) (side : Side) (price : Int) : Prop :=
  ∃ j, b.queue side.contra j ≠ [] ∧ ¬ beyondLimit side price ((b.levels side.contra).prices j)

/-- Limit orders do not sit where a scan starts; they come when the cache of
their side is filled, or rank before every open level there, or trade on
arrival (the fill messages refresh the cache). Cancels find orders that rest. -/
def Discreet (e : MatchEngine G) : EngineOp → Prop
  | .processOrder _ order _ => order.orderType = .limit →
      better order.side order.price (scanStart order.side) ∧
        (Unobscured e.book order.side order.price ∨ Marketable e.book order.side order.price)
  | .processCancel cid cancel ts => FindsResting e (.processCancel cid cancel ts)
  | _ => True

variable {e e' : MatchEngine G} {cid ts : Nat} {order : OrderEntry} {fills : List MatchResult}
  {Q₁ : Queues} {before b₁ : OrderBook}

variable (orderly : Orderly e.book Q)
  (matched : Matched Q e.book order.side order.price order.quantity cid 64 Q₁ fills before b₁)
include orderly matched

theorem remainder_beyond (few : order.quantity ≤ 50) (left : order.quantity - filledQty fills > 0)
    (j : Nat) (nonempty : Q₁ order.side.contra j ≠ []) :
    beyondLimit order.side order.price ((e.book.levels order.side.contra).prices j) := by
  have count := length_le_filledQty matched.positive
  rw [filledQty] at count left
  exact orderly.sighted.beyond orderly.rep orderly.tame matched (by omega) (by omega) j nonempty

theorem remainder_unobscured (few : order.quantity ≤ 50)
    (left : order.quantity - filledQty fills > 0)
    (discreet : Unobscured e.book order.side order.price ∨
      Marketable e.book order.side order.price) :
    Unobscured (settledBook fills b₁) order.side order.price := by
  have drains := matched.drained
  by_cases none : fills = []
  · obtain ⟨same, rfl⟩ := matched.idle none
    have own : b₁.levels order.side = e.book.levels order.side := by
      rcases matched.outcome with ⟨-, rfl⟩ | ⟨-, rfl⟩
      · exact tally_levels _
      · rw [tally_levels]
        have contra := look_levels_contra (b := e.book) (c := order.side.contra)
        rwa [Side.contra_contra] at contra
    rw [settledBook, if_pos none, Unobscured, own]
    rcases discreet with unobscured | ⟨j, nonempty, within⟩
    · exact unobscured
    · rw [orderly.rep.queue_eq, ← same] at nonempty
      exact absurd (remainder_beyond orderly matched few left j nonempty) within
  · -- A fill has refreshed the cache: it is empty only on an empty side.
    rw [settledBook, if_neg none, Unobscured, refresh_levels]
    have orderly₁ := orderly.drains drains
    rcases orderly₁.sighted.found orderly₁.rep orderly₁.tame order.side with
      ⟨-, empty⟩ | ⟨listed, -⟩
    · right
      intro i active
      exact absurd (empty i) (orderly₁.rep.active_iff.mp active)
    · left
      exact ((orderly₁.rep.mapped order.side).lt_nullIndex (orderly₁.rep.bound _ _ listed)).ne

omit matched in
theorem Orderly.step {op : EngineOp} (default : e.cfg = .default) (discreet : Discreet e op)
    (step : EngineStep Q e op Q' e') : Orderly e'.book Q' := by
  cases step with
  | quiet book => exact orderly.drains book
  | cancelled owned listed shed settled =>
    exact orderly.drains (.shed .refl (List.ne_nil_of_mem listed) shed settled)
  | @executed cid ts order fills Q₁ _ before b₁ _ registered accepted executed =>
    obtain ⟨positive, size⟩ := size_of_accepted accepted
    have few : order.quantity ≤ 50 := by rwa [default] at size
    have matched := executed.matched
    have drains := matched.drained
    have settles : Orderly (settledBook fills b₁) Q₁ :=
      (orderly.drains drains).drains (settledBook_drains fills b₁)
    have filled : 0 ≤ filledQty fills := by
      have count := length_le_filledQty matched.positive
      omega
    have placed := executed.placed
    generalize e'.book = b' at placed ⊢
    generalize e'.cancelMap = m' at placed
    cases placed with
    | ended => exact settles
    | exhausted => exact settles
    | refused wanted top => exact settles.refused top
    | rests wanted top located real =>
      obtain ⟨priced, cache⟩ := discreet wanted.2
      refine settles.rests wanted.1 (by omega) priced
        (remainder_unobscured orderly matched few wanted.1 cache) ?_ top located real
      intro j nonempty
      rw [(settledBook_drains (Q := Q₁) fills b₁).prices, drains.prices]
      exact remainder_beyond orderly matched few wanted.1 j nonempty

omit orderly matched

/-- Every resting bid is priced below every resting ask. -/
def Uncrossed (b : OrderBook) : Prop :=
  ∀ x y, Resting b .buy x → Resting b .sell y → (b.pool.orders x).price < (b.pool.orders y).price

theorem Orderly.uncrossed (orderly : Orderly b Q) : Uncrossed b := by
  rintro x y ⟨i, hx⟩ ⟨j, hy⟩
  rw [orderly.rep.queue_eq] at hx hy
  rw [(orderly.rep.level .buy i).price x hx, (orderly.rep.level .sell j).price y hy]
  exact orderly.apart .buy i j (List.ne_nil_of_mem hx) (List.ne_nil_of_mem hy)

theorem orderly_init : Orderly OrderBook.init (fun _ _ => []) where
  rep := rep_init
  small := by simp
  sighted := sighted_init
  apart := fun _ _ _ nonempty => absurd rfl nonempty

theorem discreet_runs_orderly (nextTick : G → Nat → MarketUpdate × G) (marketGen : G)
    (ops : List EngineOp)
    (discreet : Obeys (EngineOp.apply nextTick) Discreet (MatchEngine.init .default marketGen) ops) :
    ∃ e, run (EngineOp.apply nextTick) (MatchEngine.init .default marketGen) ops = some e ∧
      ∃ Q, Orderly e.book Q := by
  have keep : ∀ (e : MatchEngine G) op, (e.cfg = .default ∧ ∃ Q, Orderly e.book Q) →
      Discreet e op → ∃ e', op.apply nextTick e = some e' ∧
        e'.cfg = .default ∧ ∃ Q, Orderly e'.book Q := by
    rintro e op ⟨default, Q, orderly⟩ legal
    have finds : FindsResting e op := by
      cases op with
      | processCancel => exact legal
      | _ => trivial
    obtain ⟨Q', e', apply, step, cfg⟩ := apply_step nextTick orderly.rep op finds
    exact ⟨e', apply, cfg.trans default, Q', orderly.step default legal step⟩
  obtain ⟨e, returns, -, Q, orderly⟩ := run_returns (EngineOp.apply nextTick) Discreet
    (fun e => e.cfg = .default ∧ ∃ Q, Orderly e.book Q) keep ops _ ⟨rfl, _, orderly_init⟩ discreet
  exact ⟨e, returns, Q, orderly⟩

/-- Under the default limits a discreet run returns and never crosses the book. -/
theorem discreet_runs_uncrossed (nextTick : G → Nat → MarketUpdate × G) (marketGen : G)
    (ops : List EngineOp)
    (discreet : Obeys (EngineOp.apply nextTick) Discreet (MatchEngine.init .default marketGen) ops) :
    ∃ e, run (EngineOp.apply nextTick) (MatchEngine.init .default marketGen) ops = some e ∧
      Uncrossed e.book := by
  obtain ⟨e, returns, Q, orderly⟩ := discreet_runs_orderly nextTick marketGen ops discreet
  exact ⟨e, returns, orderly.uncrossed⟩

def discreetTest (e : MatchEngine G) : EngineOp → Bool
  | .processOrder _ order _ =>
    decide (order.orderType ≠ .limit) ||
      decide (better order.side order.price (scanStart order.side)) &&
        decide ((e.book.levels order.side).bestIdx ≠ nullIndex ∨
          ∀ i < (e.book.levels order.side).count,
            ¬ better order.side ((e.book.levels order.side).prices i) order.price)
  | .processCancel cid cancel ts => findsRestingTest e (.processCancel cid cancel ts)
  | _ => true

theorem discreet_of_test (e : MatchEngine G) (op : EngineOp) (passed : discreetTest e op = true) :
    Discreet e op := by
  cases op with
  | processOrder cid order ts =>
    intro limit
    rcases Bool.or_eq_true_iff.mp passed with other | passed
    · exact absurd limit (of_decide_eq_true other)
    · obtain ⟨priced, behind⟩ := Bool.and_eq_true_iff.mp passed
      refine ⟨of_decide_eq_true priced, Or.inl ?_⟩
      exact (of_decide_eq_true behind).imp_right (fun behind i active => behind i active.1)
  | processCancel cid cancel ts => exact findsResting_of_test e (.processCancel cid cancel ts) passed
  | _ => trivial

theorem discreet_runs_uncrossed_ticked :
    ∃ e, run (EngineOp.apply silentTick) (MatchEngine.init .default ())
        [.registerContestant 10000000, .registerContestant 10000000,
          .processOrder 0 ⟨.sell, .limit, 1, 100, 1⟩ 0, .processOrder 0 ⟨.sell, .limit, 2, 101, 1⟩ 0,
          .processCancel 0 ⟨1, 0⟩ 0, .generateTick 0, .processOrder 0 ⟨.sell, .limit, 3, 105, 1⟩ 0,
          .processOrder 1 ⟨.buy, .limit, 1, 103, 2⟩ 0] = some e ∧ Uncrossed e.book :=
  discreet_runs_uncrossed silentTick () _ (obeys_of_test discreet_of_test _ _ (by decide +kernel))

/-- The same without the tick: the third ask takes the empty cache, the bid at 103
meets only it and comes to rest above the ask at 101. -/
theorem hidden_ask_crosses_book :
    ∃ e, run (EngineOp.apply silentTick) (MatchEngine.init .default ())
        [.registerContestant 10000000, .registerContestant 10000000,
          .processOrder 0 ⟨.sell, .limit, 1, 100, 1⟩ 0, .processOrder 0 ⟨.sell, .limit, 2, 101, 1⟩ 0,
          .processCancel 0 ⟨1, 0⟩ 0, .processOrder 0 ⟨.sell, .limit, 3, 105, 1⟩ 0,
          .processOrder 1 ⟨.buy, .limit, 1, 103, 2⟩ 0] = some e ∧ ¬ Uncrossed e.book := by
  have shown : ((run (EngineOp.apply silentTick) (MatchEngine.init .default ())
      [.registerContestant 10000000, .registerContestant 10000000,
        .processOrder 0 ⟨.sell, .limit, 1, 100, 1⟩ 0, .processOrder 0 ⟨.sell, .limit, 2, 101, 1⟩ 0,
        .processCancel 0 ⟨1, 0⟩ 0, .processOrder 0 ⟨.sell, .limit, 3, 105, 1⟩ 0,
        .processOrder 1 ⟨.buy, .limit, 1, 103, 2⟩ 0]).map fun e =>
      (e.book.queue .buy 0, e.book.queue .sell 1,
        (e.book.pool.orders 2).price, (e.book.pool.orders 1).price)) =
      some ([2], [1], 103, 101) := by decide +kernel
  obtain ⟨e, returns, seen⟩ := Option.map_eq_some_iff.mp shown
  simp only [Prod.mk.injEq] at seen
  obtain ⟨bids, asks, bid, ask⟩ := seen
  refine ⟨e, returns, fun uncrossed => ?_⟩
  have below := uncrossed 2 1 ⟨0, by simp [bids]⟩ ⟨1, by simp [asks]⟩
  omega

end Runs

end HftGrading.Exchange.Engine.NoCrossing
