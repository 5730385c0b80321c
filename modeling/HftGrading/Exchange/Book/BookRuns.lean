/- module: HftGrading/Exchange/Book/BookRuns
   source: exchange/include/exchange/orderbook.hpp
   digest: Runs of book operations from the initial book keep lists, counters and slots in order. -/

import HftGrading.Exchange.Book.BookRep
import Mathlib.Algebra.BigOperators.Group.Finset.Basic

set_option autoImplicit false
set_option relaxedAutoImplicit false

namespace HftGrading.Exchange.Book.BookRuns

open Function (update)
open Lib.PartialExecution Lib.PriceTimePriority WireProtocol PriceMap LimitBook
open LimitBook.OrderBook (Matching MatchResult beyondLimit)
open LevelSearch LevelQueue LevelFilling MatchRounds BookRep
open scoped BigOperators

inductive BookOp
  | addOrder (contestantId : Nat) (clientOrderId : UInt32) (side : Side) (price quantity : Int)
      (timestampNs : Nat)
  | cancelOrder (orderIdx : Nat)
  | matchOrder (aggressor : Side) (price quantity : Int) (contestantId maxFills : Nat)
  | bestBidPrice
  | bestAskPrice
  | bestBidQty
  | bestAskQty

/-- The book after one operation; results other than the book are dropped. -/
def BookOp.apply (b : OrderBook) : BookOp → Option OrderBook
  | .addOrder cid client side price quantity ts =>
    (b.addOrder cid client side price quantity ts).map Prod.snd
  | .cancelOrder x => (b.cancelOrder x).map Prod.snd
  | .matchOrder aggressor price quantity cid maxFills =>
    (b.matchOrder aggressor price quantity cid maxFills).map Prod.snd
  | .bestBidPrice => some b.bestBidPrice.2
  | .bestAskPrice => some b.bestAskPrice.2
  | .bestBidQty => some b.bestBidQty.2
  | .bestAskQty => some b.bestAskQty.2

variable {b b' : OrderBook} {Q Q' : Queues} {s : Side} {i : Nat}

inductive Drains (Q : Queues) (b : OrderBook) : Queues → OrderBook → Prop
  | refl : Drains Q b Q b
  | look {Q' : Queues} {b' : OrderBook} (before : Drains Q b Q' b') (c : Side) :
      Drains Q b Q' (look b' c)
  | shed {Q' : Queues} {b' b₁ b'' : OrderBook} {s : Side} {i : Nat} {gone kept : List Nat}
      (before : Drains Q b Q' b') (nonempty : Q' s i ≠ [])
      (shed : Shed s i (Q' s i) gone kept b' b₁) (settled : Settled s i kept b₁ b'') : Drains Q b (place Q' s i kept) b''
  | tally {Q' : Queues} {b' : OrderBook} (before : Drains Q b Q' b') (n : Nat) :
      Drains Q b Q' { b' with totalFills := n }

theorem tally_levels (n : Nat) : ({ b with totalFills := n } : OrderBook).levels s = b.levels s := by
  cases s <;> rfl

theorem Drains.rep (drains : Drains Q b Q' b') (rep : Rep b Q) : Rep b' Q' := by
  induction drains with
  | refl => exact rep
  | look _ c ih => exact ih.look c
  | shed _ _ shed settled ih => exact ih.settle shed settled
  | tally _ n ih => exact ih.same_pool rfl rfl (fun s => ⟨_, tally_levels n⟩)

theorem Drains.static (drains : Drains Q b Q' b') (x : Nat) :
    static (b'.pool.orders x) = static (b.pool.orders x) := by
  induction drains with
  | refl => rfl
  | look _ c ih => rw [look_pool, ih]
  | shed _ _ shed settled ih => rw [settled.pool, shed.frame.static, ih]
  | tally _ n ih => exact ih

theorem Drains.sublist (drains : Drains Q b Q' b') (s : Side) (i : Nat) :
    (Q' s i).Sublist (Q s i) := by
  induction drains generalizing s i with
  | refl => exact List.Sublist.refl _
  | look _ _ ih => exact ih s i
  | shed _ _ shed _ ih =>
    exact place_forall (C := fun t j l => l.Sublist (Q t j)) (shed.order.trans (ih _ _))
      (fun t j _ => ih t j) s i
  | tally _ _ ih => exact ih s i

theorem Drains.prices (drains : Drains Q b Q' b') (s : Side) :
    (b'.levels s).prices = (b.levels s).prices := by
  induction drains with
  | refl => rfl
  | look _ c ih =>
    rcases Side.eq_or_eq_contra c s with rfl | rfl
    · rw [look_levels]
      exact ih
    · rw [look_levels_contra, ih]
  | @shed _ _ _ _ c _ _ _ _ _ shed settled ih =>
    rcases Side.eq_or_eq_contra c s with rfl | rfl
    · rw [settled.prices, shed.frame.prices, ih]
    · rw [settled.contra, shed.frame.contra, ih]
  | tally _ n ih => rw [tally_levels, ih]

theorem Drains.lower (drains : Drains Q b Q' b') (x : Nat) : restingQty b' x ≤ restingQty b x := by
  induction drains with
  | refl => exact le_rfl
  | look _ c ih =>
    rw [restingQty, look_pool]
    exact ih
  | @shed Q₁ b₁ b₂ b₃ c j _ _ _ _ shed settled ih =>
    refine le_trans ?_ ih
    rw [restingQty, settled.pool, ← restingQty]
    by_cases hx : x ∈ Q₁ c j
    · exact shed.lower x hx
    · rw [restingQty, shed.frame.orders x hx, restingQty]
  | tally _ n ih => exact ih

theorem Drains.unlisted (drains : Drains Q b Q' b') (x : Nat) (unlisted : ∀ s i, x ∉ Q' s i) :
    restingQty b' x = 0 ∨ (∀ s i, x ∉ Q s i) ∧ restingQty b' x = restingQty b x := by
  induction drains with
  | refl => exact Or.inr ⟨unlisted, rfl⟩
  | look _ c ih =>
    rw [restingQty, look_pool]
    exact ih unlisted
  | tally _ n ih => exact ih unlisted
  | @shed Q₁ b₁ b₂ b₃ s i gone kept before nonempty shed settled ih =>
    have qty : restingQty b₃ x = restingQty b₂ x := by rw [restingQty, settled.pool, restingQty]
    rw [qty]
    by_cases here : x ∈ Q₁ s i
    · have left : x ∉ kept := by
        have off := unlisted s i
        rwa [place_self] at off
      have away := (List.mem_append.mp (shed.perm.mem_iff.mp here)).resolve_right left
      exact Or.inl (shed.spent x away)
    · rw [restingQty, shed.frame.orders x here, ← restingQty]
      refine ih (fun t j hx => ?_)
      by_cases same : t = s ∧ j = i
      · obtain ⟨rfl, rfl⟩ := same
        exact here hx
      · have off := unlisted t j
        rw [place_other (not_and_or.mp same)] at off
        exact off hx

section Weights

def weighed (b : OrderBook) (Q : Queues) (s : Side) (w : Nat → Int) : Int :=
  ∑ i ∈ Finset.range (b.levels s).count, ((Q s i).map (fun x => w x * restingQty b x)).sum

variable {w : Nat → Int}

theorem weighed_congr {w' : Nat → Int} (count : (b'.levels s).count = (b.levels s).count)
    (lists : ∀ i, Q' s i = Q s i)
    (same : ∀ i, ∀ x ∈ Q s i, w' x * restingQty b' x = w x * restingQty b x) :
    weighed b' Q' s w' = weighed b Q s w := by
  rw [weighed, weighed, count]
  refine Finset.sum_congr rfl (fun i _ => ?_)
  rw [lists, List.map_congr_left (same i)]

theorem weighed_place {kept : List Nat} (count : (b'.levels s).count = (b.levels s).count)
    (inside : i < (b.levels s).count)
    (others : ∀ j, j ≠ i → ∀ x ∈ Q s j, restingQty b' x = restingQty b x) :
    weighed b' (place Q s i kept) s w + ((Q s i).map (fun x => w x * restingQty b x)).sum =
      weighed b Q s w + (kept.map (fun x => w x * restingQty b' x)).sum := by
  have member : i ∈ Finset.range (b.levels s).count := Finset.mem_range.mpr inside
  rw [weighed, weighed, count, ← Finset.add_sum_erase _ _ member, ← Finset.add_sum_erase _ _ member,
    place_self]
  have rest : ∑ j ∈ (Finset.range (b.levels s).count).erase i,
      ((place Q s i kept s j).map (fun x => w x * restingQty b' x)).sum =
      ∑ j ∈ (Finset.range (b.levels s).count).erase i,
        ((Q s j).map (fun x => w x * restingQty b x)).sum := by
    refine Finset.sum_congr rfl (fun j hj => ?_)
    have other := (Finset.mem_erase.mp hj).1
    rw [place_other (Or.inr other)]
    exact congrArg List.sum (List.map_congr_left (fun x hx => by rw [others j other x hx]))
  rw [rest]
  omega

section Shedding

variable {b₁ : OrderBook} {gone kept : List Nat} (rep : Rep b Q)
  (shed : Shed s i (Q s i) gone kept b b₁) (settled : Settled s i kept b₁ b')
include rep shed settled

theorem settle_others {t : Side} {j x : Nat} (other : t ≠ s ∨ j ≠ i) (hx : x ∈ Q t j) :
    restingQty b' x = restingQty b x := by
  rw [restingQty, settled.pool, shed.frame.orders x (rep.not_mem other hx), restingQty]

theorem weighed_settle (nonempty : Q s i ≠ []) :
    weighed b' (place Q s i kept) s w + ((Q s i).map (fun x => w x * restingQty b x)).sum =
      weighed b Q s w + (kept.map (fun x => w x * restingQty b' x)).sum :=
  weighed_place (settled.count.trans shed.frame.count) (rep.bound s i nonempty)
    (fun _ other _ hx => settle_others rep shed settled (Or.inr other) hx)

theorem weighed_settle_contra : weighed b' (place Q s i kept) s.contra w = weighed b Q s.contra w := by
  apply weighed_congr
  · rw [settled.contra, shed.frame.contra]
  · exact fun j => place_other (Or.inl s.contra_ne)
  · intro j x hx
    rw [settle_others rep shed settled (Or.inl s.contra_ne) hx]

end Shedding

theorem weighed_look (c t : Side) : weighed (look b c) Q t w = weighed b Q t w := by
  apply weighed_congr
  · rcases Side.eq_or_eq_contra c t with rfl | rfl
    · rw [look_levels]
    · rw [look_levels_contra]
  · exact fun _ => rfl
  · intro i x _
    rw [restingQty, look_pool, restingQty]

theorem weighed_tally (n : Nat) (t : Side) :
    weighed { b with totalFills := n } Q t w = weighed b Q t w := by
  cases t <;> rfl

end Weights

section MatchOutcome

variable {aggressor : Side} {price quantity : Int} {cid maxFills : Nat}

/-- What a match has done to a book in order. `before` is the book when the loop
was left, short of the last search. -/
structure Matched (Q : Queues) (b : OrderBook) (aggressor : Side) (price quantity : Int)
    (cid maxFills : Nat) (Q' : Queues) (fills : List MatchResult) (before b' : OrderBook) : Prop where
  drains : Drains Q b Q' before
  own : before.levels aggressor = b.levels aggressor
  ownQueues : Q' aggressor = Q aggressor
  idle : fills = [] → Q' = Q ∧ before = b
  positive : ∀ f ∈ fills, 0 < f.fillQty
  few : fills.length ≤ maxFills
  filled : (fills.map MatchResult.fillQty).sum ≤ max quantity 0
  makers : ∀ f ∈ fills, ∃ i, f.makerIdx ∈ Q aggressor.contra i
  balance : ∀ w : Nat → Int, weighed b' Q' aggressor.contra w +
    (fills.map (fun f => w f.makerIdx * f.fillQty)).sum = weighed b Q aggressor.contra w
  ownWeight : ∀ w : Nat → Int, weighed b' Q' aggressor w = weighed b Q aggressor w
  outcome :
    ((max quantity 0 ≤ (fills.map MatchResult.fillQty).sum ∨ maxFills ≤ fills.length) ∧
        b' = { before with totalFills := before.totalFills + fills.length }) ∨
      (((before.levels aggressor.contra).findBest aggressor.contra).1 = nullIndex ∨
          beyondLimit aggressor price ((before.levels aggressor.contra).prices
            ((before.levels aggressor.contra).findBest aggressor.contra).1)) ∧
        b' = { look before aggressor.contra with
          totalFills := before.totalFills + fills.length }

private structure Underway (Q : Queues) (b : OrderBook) (aggressor : Side) (quantity : Int)
    (maxFills : Nat) (R : Nat → List Nat) (m : Matching) : Prop where
  rep : Rep m.book (update Q aggressor.contra R)
  drains : Drains Q b (update Q aggressor.contra R) m.book
  own : m.book.levels aggressor = b.levels aggressor
  idle : m.fills = [] → R = Q aggressor.contra ∧ m.book = b
  positive : ∀ f ∈ m.fills, 0 < f.fillQty
  few : m.fills.length ≤ maxFills
  sum : (m.fills.map MatchResult.fillQty).sum + m.remaining = quantity
  left : min quantity 0 ≤ m.remaining
  makers : ∀ f ∈ m.fills, ∃ i, f.makerIdx ∈ Q aggressor.contra i
  balance : ∀ w : Nat → Int, weighed m.book (update Q aggressor.contra R) aggressor.contra w +
    (m.fills.map (fun f => w f.makerIdx * f.fillQty)).sum = weighed b Q aggressor.contra w
  ownWeight : ∀ w : Nat → Int,
    weighed m.book (update Q aggressor.contra R) aggressor w = weighed b Q aggressor w

private theorem round_weighed {R : Nat → List Nat} {m m' : Matching} {best : Nat}
    {gone kept : List Nat} {b₁ : OrderBook} (rep : Rep m.book (update Q aggressor.contra R))
    (nonempty : R best ≠ [])
    (round : Round aggressor price cid maxFills R best gone kept b₁ m m') (w : Nat → Int) :
    weighed m'.book (update Q aggressor.contra (update R best kept)) aggressor.contra w +
        ((results cid (levelSweep maxFills m (R best)).fills).map
          (fun f => w f.makerIdx * f.fillQty)).sum =
      weighed m.book (update Q aggressor.contra R) aggressor.contra w := by
  have here : R best = update Q aggressor.contra R aggressor.contra best := by simp
  have shed := round.shed
  rw [here] at shed
  have settle := weighed_settle (w := w) (rep.look aggressor.contra) shed round.settled
    (here ▸ nonempty)
  have lists : place (update Q aggressor.contra R) aggressor.contra best kept =
      update Q aggressor.contra (update R best kept) := by simp [place]
  have balance := sweep_weighed (fun _ : Int => True) (maxFills - m.fills.length) m.remaining
    ((R best).map (lot m.book)) w
  rw [← levelSweep, ← round.rest, List.map_map, List.map_map] at balance
  have after : ∀ x, restingQty m'.book x = restingQty b₁ x := fun x => by
    rw [restingQty, round.settled.pool, restingQty]
  have before : ∀ x, restingQty (look m.book aggressor.contra) x = restingQty m.book x := fun x => by
    rw [restingQty, look_pool, restingQty]
  rw [lists, weighed_look, ← here] at settle
  simp only [after, before] at settle
  rw [results, List.map_map]
  simp only [Function.comp_def, lot] at balance ⊢
  omega

private theorem underway_round {R : Nat → List Nat} {m m' : Matching} {best : Nat}
    {gone kept : List Nat} {b₁ : OrderBook}
    (underway : Underway Q b aggressor quantity maxFills R m)
    (round : Round aggressor price cid maxFills R best gone kept b₁ m m') :
    Underway Q b aggressor quantity maxFills (update R best kept) m' := by
  have here : R best = update Q aggressor.contra R aggressor.contra best := by simp
  have ready : Ready m.book aggressor.contra R := by
    simpa using underway.rep.ready aggressor.contra
  have level := ready.level best round.live
  have shed := round.shed
  rw [here] at shed
  have next := (underway.drains.look aggressor.contra).shed (here ▸ ready.nonempty round) shed
    round.settled
  have progress := ready.progress round
  refine ⟨underway.rep.round round, by simpa [place] using next, ?_, ?_, ?_, progress.2, ?_, ?_, ?_,
    ?_, ?_⟩
  · have contra := round.settled.contra
    have frame := round.shed.frame.contra
    rw [Side.contra_contra] at contra frame
    rw [contra, frame, ← underway.own]
    simp [MatchRounds.look]
  · intro none
    rw [none] at progress
    exact absurd progress.1 (Nat.not_lt_zero _)
  · intro f hf
    rw [round.fills, List.mem_append] at hf
    rcases hf with old | new
    · exact underway.positive f old
    · obtain ⟨g, hg, rfl⟩ := List.mem_map.mp new
      obtain ⟨-, l, hl, -, -, positive⟩ := sweep_fills_of (fun _ : Int => True) _ _ _ g hg
      obtain ⟨x, hx, rfl⟩ := List.mem_map.mp hl
      exact positive (level.resting x hx)
  · have sum := sweep_fills_sum (fun _ : Int => True) (maxFills - m.fills.length) m.remaining
      ((R best).map (lot m.book))
    have total := underway.sum
    rw [round.fills, round.left, List.map_append, List.sum_append, results, List.map_map]
    unfold levelSweep
    change _ + (List.map Lot.qty _).sum + _ = _
    omega
  · have nonneg := sweep_left_nonneg (fun _ : Int => True) (maxFills - m.fills.length) m.remaining
      ((R best).map (lot m.book)) round.wanted.le
    rw [round.left]
    unfold levelSweep
    omega
  · intro f hf
    rw [round.fills, List.mem_append] at hf
    rcases hf with old | new
    · exact underway.makers f old
    · obtain ⟨g, hg, rfl⟩ := List.mem_map.mp new
      obtain ⟨-, l, hl, same, -⟩ := sweep_fills_of (fun _ : Int => True) _ _ _ g hg
      obtain ⟨x, hx, rfl⟩ := List.mem_map.mp hl
      have listed := (underway.drains.sublist aggressor.contra best).subset (here ▸ hx)
      exact ⟨best, same ▸ listed⟩
  · intro w
    have moved := round_weighed underway.rep (ready.nonempty round) round w
    have balance := underway.balance w
    rw [round.fills, List.map_append, List.sum_append]
    omega
  · intro w
    have kept := weighed_settle_contra (w := w) (underway.rep.look aggressor.contra) shed
      round.settled
    rw [Side.contra_contra, weighed_look, underway.ownWeight w] at kept
    rw [← kept]
    congr 1
    simp [place]

theorem matchOrder_matched (rep : Rep b Q) (aggressor : Side) (price quantity : Int)
    (cid maxFills : Nat) :
    ∃ Q' fills before b', b.matchOrder aggressor price quantity cid maxFills = some (fills, b') ∧
      Matched Q b aggressor price quantity cid maxFills Q' fills before b' := by
  have start : Underway Q b aggressor quantity maxFills (Q aggressor.contra) ⟨b, [], quantity⟩ := by
    refine ⟨?_, ?_, rfl, fun _ => ⟨rfl, rfl⟩, by simp, Nat.zero_le _, by simp, by simp, by simp,
      by simp, by simp⟩
    · simpa using rep
    · simpa using Drains.refl
  obtain ⟨R, m, m', run, under, exit⟩ := matchOrder_returns
    (Underway Q b aggressor quantity maxFills)
    (fun R m under => by simpa using under.rep.ready aggressor.contra)
    (fun R m best gone kept b₁ m' under round => underway_round under round)
    b quantity (Q aggressor.contra) start
  have sum := under.sum
  have left := under.left
  have nonneg : 0 ≤ (m.fills.map MatchResult.fillQty).sum := by
    apply List.sum_nonneg
    intro q hq
    obtain ⟨f, hf, rfl⟩ := List.mem_map.mp hq
    exact (under.positive f hf).le
  refine ⟨update Q aggressor.contra R, m'.fills, m.book, _, run, under.drains, under.own, ?_, ?_,
    ?_, ?_, ?_, ?_, ?_, ?_, ?_⟩
  · exact Function.update_of_ne (Side.contra_ne aggressor).symm _ _
  · intro none
    have nothing : m.fills = [] := by
      cases exit <;> exact none
    obtain ⟨rfl, same⟩ := under.idle nothing
    exact ⟨Function.update_eq_self _ _, same⟩
  · cases exit <;> exact under.positive
  · cases exit <;> exact under.few
  · have filled : (m'.fills.map MatchResult.fillQty).sum = (m.fills.map MatchResult.fillQty).sum := by
      cases exit <;> rfl
    omega
  · cases exit <;> exact under.makers
  · intro w
    rw [weighed_tally]
    cases exit with
    | sated => exact under.balance w
    | blocked =>
      rw [weighed_look]
      exact under.balance w
  · intro w
    rw [weighed_tally]
    cases exit with
    | sated => exact under.ownWeight w
    | blocked =>
      rw [weighed_look]
      exact under.ownWeight w
  · cases exit with
    | sated why =>
      left
      refine ⟨?_, rfl⟩
      rcases why with done | out
      · left
        omega
      · exact Or.inr out
    | blocked _ _ why =>
      right
      refine ⟨why, ?_⟩
      simp [MatchRounds.look]

theorem Matched.drained {fills : List MatchResult} {before : OrderBook}
    (matched : Matched Q b aggressor price quantity cid maxFills Q' fills before b') :
    Drains Q b Q' b' := by
  rcases matched.outcome with ⟨-, rfl⟩ | ⟨-, rfl⟩
  · exact .tally matched.drains _
  · exact .tally (.look matched.drains _) _

theorem Matched.own_levels {fills : List MatchResult} {before : OrderBook}
    (matched : Matched Q b aggressor price quantity cid maxFills Q' fills before b') :
    b'.levels aggressor = b.levels aggressor := by
  have looked := look_levels_contra (b := before) (c := aggressor.contra)
  rw [Side.contra_contra] at looked
  rcases matched.outcome with ⟨-, rfl⟩ | ⟨-, rfl⟩
  · rw [tally_levels, matched.own]
  · rw [tally_levels, looked, matched.own]

theorem Matched.filled_nonneg {fills : List MatchResult} {before : OrderBook}
    (matched : Matched Q b aggressor price quantity cid maxFills Q' fills before b') :
    0 ≤ (fills.map MatchResult.fillQty).sum := by
  apply List.sum_nonneg
  intro q hq
  obtain ⟨f, member, rfl⟩ := List.mem_map.mp hq
  exact (matched.positive f member).le

end MatchOutcome

def levelQty (b : OrderBook) (s : Side) (i : Nat) : Int := ((b.queue s i).map (restingQty b)).sum

def sideQty (b : OrderBook) (s : Side) : Int :=
  ((List.range (b.levels s).count).map (levelQty b s)).sum

def Tame (b : OrderBook) (Q : Queues) : Prop :=
  ∀ s i, ((Q s i).map (restingQty b)).sum < 2147483648

theorem Tame.total (tame : Tame b Q) (rep : Rep b Q) (s : Side) (i : Nat) :
    (b.levels s).totalQty i = ((Q s i).map (restingQty b)).sum := by
  exact (rep.level s i).total_of_fits (tame s i)

theorem Tame.same (tame : Tame b Q)
    (same : ∀ s i, ∀ x ∈ Q s i, restingQty b' x = restingQty b x) : Tame b' Q := by
  intro s i
  rw [List.map_congr_left (same s i)]
  exact tame s i

theorem Tame.drains (tame : Tame b Q) (rep : Rep b Q) (drains : Drains Q b Q' b') : Tame b' Q' := by
  induction drains with
  | refl => exact tame
  | look _ c ih => exact ih.same (fun _ _ x _ => by simp [restingQty])
  | tally _ n ih => exact ih.same (fun _ _ _ _ => rfl)
  | @shed Q₁ b₁ b₂ b₃ s i gone kept before _ shed settled ih =>
    have rep₁ := before.rep rep
    have level := rep₁.level s i
    have pool : ∀ x, restingQty b₃ x = restingQty b₂ x := fun x => by
      rw [restingQty, settled.pool, restingQty]
    refine place_forall (C := fun _ _ l => (l.map (restingQty b₃)).sum < 2147483648) ?_ ?_
    · rw [List.map_congr_left (fun x _ => pool x)]
      exact (shed.sum_le level).trans_lt (ih s i)
    · intro t j other
      have same : ∀ x ∈ Q₁ t j, restingQty b₃ x = restingQty b₁ x := by
        intro x hx
        rw [pool, restingQty, shed.frame.orders x (rep₁.not_mem other hx), restingQty]
      rw [List.map_congr_left same]
      exact ih t j

def Fits (b : OrderBook) (side : Side) (price quantity : Int) : Prop :=
  quantity < 2147483648 ∧ ∀ i, Active (b.levels side) i → (b.levels side).prices i = price →
    levelQty b side i + quantity < 2147483648

theorem Tame.rests (tame : Tame b Q) (rep : Rep b Q) {cid ts x : Nat} {client : UInt32}
    {price quantity : Int} (fits : Fits b s price quantity) {L : PriceLevelPool}
    (top : ∃ rest, freeSlots b = rest ++ [x]) (located : Located (b.levels s) price i L)
    (real : i ≠ nullIndex) :
    Tame (rested b cid client s price quantity ts x i L) (place Q s i (Q s i ++ [x])) := by
  have unlisted := (rep.top_free top).2
  have old : ∀ t j, (Q t j).map (restingQty (rested b cid client s price quantity ts x i L)) =
      (Q t j).map (restingQty b) := by
    intro t j
    apply List.map_congr_left
    intro y hy
    have other : y ≠ x := fun e => unlisted t j (e ▸ hy)
    rw [rested_qty, if_neg other]
  refine place_forall (C := fun _ _ l => (l.map _).sum < 2147483648) ?_ (fun t j _ => ?_)
  · rw [List.map_append, old, List.sum_append]
    simp only [List.map_cons, List.map_nil, List.sum_cons, List.sum_nil, rested_qty, if_true]
    -- The level is an old one at the price of the order, or a new one without orders.
    cases located with
    | existing _ active at_price =>
      have room := fits.2 i active at_price
      unfold levelQty at room
      rw [rep.queue_eq] at room
      omega
    | full => exact absurd rfl real
    | created m =>
      have fresh : Q s (b.levels s).count = [] := by
        by_contra some_listed
        exact lt_irrefl _ (rep.bound s _ some_listed)
      rw [fresh]
      have small := fits.1
      simp only [List.map_nil, List.sum_nil]
      omega
  · rw [old]
    exact tame t j

theorem levelQty_le_sideQty (rep : Rep b Q) (hi : i < (b.levels s).count) :
    levelQty b s i ≤ sideQty b s := by
  apply List.single_le_sum
  · intro q hq
    obtain ⟨j, -, rfl⟩ := List.mem_map.mp hq
    rw [levelQty, rep.queue_eq]
    exact (rep.level s j).sum_nonneg
  · exact List.mem_map_of_mem (List.mem_range.mpr hi)

theorem fits_of_sideQty (rep : Rep b Q) {price quantity : Int}
    (sum : sideQty b s + quantity < 2147483648) : Fits b s price quantity := by
  have nonneg : 0 ≤ sideQty b s := by
    apply List.sum_nonneg
    intro q hq
    obtain ⟨j, -, rfl⟩ := List.mem_map.mp hq
    rw [levelQty, rep.queue_eq]
    exact (rep.level s j).sum_nonneg
  refine ⟨by omega, fun i active _ => ?_⟩
  have le := levelQty_le_sideQty rep active.1
  omega

def listed (b : OrderBook) : List Nat :=
  (List.range (b.levels .buy).count).flatMap (b.queue .buy) ++
    (List.range (b.levels .sell).count).flatMap (b.queue .sell)

/-- A book in order, level by level and slot by slot. -/
structure InOrder (b : OrderBook) : Prop where
  active_iff : ∀ s i, (b.levels s).active i = true ↔ 0 < (b.levels s).orderCount i
  visits : ∀ s i, (b.queue s i).length = (b.levels s).orderCount i ∧ (b.queue s i).Nodup
  ends : ∀ s i, (b.levels s).head i = (b.queue s i).headD nullIndex ∧
    (b.levels s).tail i = (b.queue s i).getLastD nullIndex ∧
    (b.queue s i ≠ [] → prevOf b ((b.levels s).head i) = nullIndex ∧
      nextOf b ((b.levels s).tail i) = nullIndex)
  inverse : ∀ s i, ∀ x ∈ b.queue s i, nextOf b x ≠ nullIndex →
    nextOf b x ∈ b.queue s i ∧ prevOf b (nextOf b x) = x
  cells : ∀ s i, ∀ x ∈ b.queue s i, (b.pool.orders x).levelIdx = i ∧
    (b.pool.orders x).price = (b.levels s).prices i ∧ (b.pool.orders x).side = s
  total : ∀ s i, (b.levels s).totalQty i = ((b.queue s i).map (restingQty b)).sum
  positive : ∀ s i, ∀ x ∈ b.queue s i, 0 < restingQty b x
  aged : ∀ s i, (b.queue s i).Pairwise
    (fun x y => (b.pool.orders x).exchangeId < (b.pool.orders y).exchangeId)
  slots : (freeSlots b ++ listed b).Perm (List.range b.pool.capacity)

theorem mem_listed (rep : Rep b Q) (x : Nat) : x ∈ listed b ↔ ∃ s i, x ∈ Q s i := by
  have side : ∀ s, x ∈ (List.range (b.levels s).count).flatMap (b.queue s) ↔ ∃ i, x ∈ Q s i := by
    intro s
    rw [List.mem_flatMap, rep.queue_eq]
    constructor
    · rintro ⟨i, -, hx⟩
      exact ⟨i, hx⟩
    · rintro ⟨i, hx⟩
      exact ⟨i, List.mem_range.mpr (rep.bound s i (List.ne_nil_of_mem hx)), hx⟩
  rw [listed, List.mem_append, side, side]
  constructor
  · rintro (⟨i, hx⟩ | ⟨i, hx⟩)
    exacts [⟨_, i, hx⟩, ⟨_, i, hx⟩]
  · rintro ⟨s, i, hx⟩
    cases s with
    | buy => exact Or.inl ⟨i, hx⟩
    | sell => exact Or.inr ⟨i, hx⟩

private theorem nodup_listed (rep : Rep b Q) : (listed b).Nodup := by
  have side : ∀ s, ((List.range (b.levels s).count).flatMap (b.queue s)).Nodup := by
    intro s
    rw [List.nodup_flatMap, rep.queue_eq]
    refine ⟨fun i _ => (rep.level s i).nodup, ?_⟩
    refine List.nodup_range.imp ?_
    intro i j other x hx hx'
    exact other (rep.apart hx' hx).2
  refine List.nodup_append.mpr ⟨side _, side _, ?_⟩
  rintro x hx y hy rfl
  rw [List.mem_flatMap, rep.queue_eq] at hx hy
  obtain ⟨i, -, hx⟩ := hx
  obtain ⟨j, -, hy⟩ := hy
  exact absurd (rep.apart hx hy).1 (by decide)

theorem inOrder_of_rep (rep : Rep b Q) (tame : Tame b Q) : InOrder b := by
  have queue := rep.queue_eq
  refine ⟨?_, ?_, ?_, ?_, ?_, ?_, ?_, ?_, ?_⟩
  · intro s i
    rw [rep.active, (rep.level s i).count, List.length_pos_iff]
  · intro s i
    rw [queue]
    exact ⟨(rep.level s i).count.symm, (rep.level s i).nodup⟩
  · intro s i
    rw [queue, (rep.level s i).head, (rep.level s i).tail]
    exact ⟨rfl, rfl, fun nonempty => (rep.level s i).linked.ends nonempty nullIndex⟩
  · intro s i x hx inner
    rw [queue] at hx ⊢
    exact (rep.level s i).linked.prev_next hx inner
  · intro s i x hx
    rw [queue] at hx
    exact ⟨rep.index s i x hx, (rep.level s i).price x hx, (rep.level s i).side x hx⟩
  · intro s i
    rw [queue]
    exact tame.total rep s i
  · intro s i x hx
    rw [queue] at hx
    exact (rep.level s i).resting x hx
  · intro s i
    rw [queue]
    exact rep.aged s i
  · have nodup : (freeSlots b ++ listed b).Nodup := by
      refine List.nodup_append.mpr ⟨rep.distinct, nodup_listed rep, ?_⟩
      rintro x hx y hy rfl
      obtain ⟨s, i, hy⟩ := (mem_listed rep x).mp hy
      exact ((rep.slots x).mp hx).2 s i hy
    rw [List.perm_ext_iff_of_nodup nodup List.nodup_range]
    intro x
    rw [List.mem_append, mem_listed rep, List.mem_range]
    constructor
    · rintro (free | ⟨s, i, hx⟩)
      · exact ((rep.slots x).mp free).1
      · exact rep.inside s i x hx
    · intro range
      by_cases held : ∃ s i, x ∈ Q s i
      · exact Or.inr held
      · exact Or.inl ((rep.slots x).mpr ⟨range, fun s i hx => held ⟨s, i, hx⟩⟩)

inductive Effect (Q : Queues) (b : OrderBook) : BookOp → Queues → OrderBook → Prop
  | drains {op : BookOp} {Q' : Queues} {b' : OrderBook} (drains : Drains Q b Q' b') :
      Effect Q b op Q' b'
  | refused {cid ts x : Nat} {client : UInt32} {side : Side} {price quantity : Int}
      (top : ∃ rest, freeSlots b = rest ++ [x]) :
      Effect Q b (.addOrder cid client side price quantity ts) Q
        ((stamped b cid client side price quantity ts x).onPool (fun P => P.free x))
  | rests {cid ts x i : Nat} {client : UInt32} {side : Side} {price quantity : Int}
      {L : PriceLevelPool} (top : ∃ rest, freeSlots b = rest ++ [x])
      (located : Located (b.levels side) price i L) (real : i ≠ nullIndex) :
      Effect Q b (.addOrder cid client side price quantity ts)
        (place Q side i (Q side i ++ [x])) (rested b cid client side price quantity ts x i L)

/-- Quantities are positive and cancels name resting orders. -/
def Proper (b : OrderBook) : BookOp → Prop
  | .addOrder _ _ _ _ quantity _ => 0 < quantity
  | .cancelOrder x => ∃ s i, x ∈ b.queue s i
  | _ => True

def listedTest (b : OrderBook) (x : Nat) : Bool :=
  decide (x ∈ b.queue (b.pool.orders x).side (b.pool.orders x).levelIdx)

def properTest (b : OrderBook) : BookOp → Bool
  | .addOrder _ _ _ _ quantity _ => decide (0 < quantity)
  | .cancelOrder x => listedTest b x
  | _ => true

theorem proper_of_test (b : OrderBook) (op : BookOp) (passed : properTest b op = true) :
    Proper b op := by
  cases op with
  | addOrder _ _ _ _ quantity _ => exact (decide_eq_true_iff (p := 0 < quantity)).mp passed
  | cancelOrder x => exact ⟨_, _, of_decide_eq_true passed⟩
  | _ => trivial

theorem apply_effect (rep : Rep b Q) (op : BookOp) (proper : Proper b op) :
    ∃ Q' b', op.apply b = some b' ∧ Effect Q b op Q' b' ∧ Rep b' Q' := by
  cases op with
  | addOrder cid client side price quantity ts =>
    obtain ⟨r, b', run, added⟩ := addOrder_added cid client side price quantity ts rep
    have step : BookOp.apply b (.addOrder cid client side price quantity ts) = some b' := by
      simp [BookOp.apply, run]
    cases added with
    | exhausted => exact ⟨Q, b, step, .drains .refl, rep⟩
    | unleveled x top => exact ⟨Q, _, step, .refused top, rep.unleveled top⟩
    | rests x i L top located real =>
      exact ⟨_, _, step, .rests top located real, rep.rests proper top located real⟩
  | cancelOrder x =>
    obtain ⟨s, i, hx⟩ := proper
    rw [rep.queue_eq] at hx
    obtain ⟨b₁, b', run, shed, settled, -, rep'⟩ := rep.cancelOrder hx
    exact ⟨_, b', by simp [BookOp.apply, run], .drains (.shed .refl (List.ne_nil_of_mem hx) shed settled), rep'⟩
  | matchOrder aggressor price quantity cid maxFills =>
    obtain ⟨Q', fills, before, b', run, matched⟩ :=
      matchOrder_matched rep aggressor price quantity cid maxFills
    exact ⟨Q', b', by simp [BookOp.apply, run], .drains matched.drained,
      matched.drained.rep rep⟩
  | bestBidPrice => exact ⟨Q, _, rfl, .drains (.look .refl .buy), rep.look .buy⟩
  | bestAskPrice => exact ⟨Q, _, rfl, .drains (.look .refl .sell), rep.look .sell⟩
  | bestBidQty => exact ⟨Q, _, rfl, .drains (.look .refl .buy), rep.look .buy⟩
  | bestAskQty => exact ⟨Q, _, rfl, .drains (.look .refl .sell), rep.look .sell⟩

def Moderate (b : OrderBook) : BookOp → Prop
  | .addOrder _ _ side price quantity _ => Fits b side price quantity
  | _ => True

theorem Tame.refused (tame : Tame b Q) (rep : Rep b Q) {cid ts x : Nat} {client : UInt32}
    {price quantity : Int} (top : ∃ rest, freeSlots b = rest ++ [x]) :
    Tame ((stamped b cid client s price quantity ts x).onPool (fun P => P.free x)) Q := by
  have unlisted := (rep.top_free top).2
  apply tame.same
  intro t j y hy
  have other : y ≠ x := fun e => unlisted t j (e ▸ hy)
  simp [restingQty, stamped, other]

theorem Tame.effect (tame : Tame b Q) (rep : Rep b Q) {op : BookOp} (moderate : Moderate b op)
    (effect : Effect Q b op Q' b') : Tame b' Q' := by
  cases effect with
  | drains drains => exact tame.drains rep drains
  | refused top => exact tame.refused rep top
  | rests top located real => exact tame.rests rep moderate top located real

theorem tame_init : Tame OrderBook.init (fun _ _ => []) := by
  intro s i
  simp

/-- Positive quantities that keep the sum resting on their side below `2^31`, and
cancels of resting orders only. -/
def Admissible (b : OrderBook) : BookOp → Prop
  | .addOrder _ _ side _ quantity _ => 0 < quantity ∧ sideQty b side + quantity < 2147483648
  | .cancelOrder x => ∃ s i, x ∈ b.queue s i
  | _ => True

/-- Every admissible run from the initial book returns and leaves the book in order. -/
theorem book_runs_in_order (ops : List BookOp)
    (admissible : Obeys BookOp.apply Admissible OrderBook.init ops) :
    ∃ b, run BookOp.apply OrderBook.init ops = some b ∧ InOrder b := by
  have keep : ∀ b op, (∃ Q, Rep b Q ∧ Tame b Q) → Admissible b op →
      ∃ b', op.apply b = some b' ∧ ∃ Q, Rep b' Q ∧ Tame b' Q := by
    rintro b op ⟨Q, rep, tame⟩ legal
    have proper : Proper b op := by
      cases op with
      | addOrder => exact legal.1
      | cancelOrder => exact legal
      | _ => trivial
    have moderate : Moderate b op := by
      cases op with
      | addOrder => exact fits_of_sideQty rep legal.2
      | _ => trivial
    obtain ⟨Q', b', step, effect, rep'⟩ := apply_effect rep op proper
    exact ⟨b', step, Q', rep', tame.effect rep moderate effect⟩
  obtain ⟨b, returns, Q, rep, tame⟩ := run_returns BookOp.apply Admissible
    (fun b => ∃ Q, Rep b Q ∧ Tame b Q) keep ops OrderBook.init ⟨_, rep_init, tame_init⟩ admissible
  exact ⟨b, returns, inOrder_of_rep rep tame⟩

def admissibleTest (b : OrderBook) : BookOp → Bool
  | .addOrder _ _ side _ quantity _ =>
    decide (0 < quantity ∧ sideQty b side + quantity < 2147483648)
  | .cancelOrder x => listedTest b x
  | _ => true

theorem admissible_of_test (b : OrderBook) (op : BookOp) (passed : admissibleTest b op = true) :
    Admissible b op := by
  cases op with
  | addOrder _ _ side _ quantity _ =>
    exact (decide_eq_true_iff (p := 0 < quantity ∧ sideQty b side + quantity < 2147483648)).mp
      passed
  | cancelOrder x => exact ⟨_, _, of_decide_eq_true passed⟩
  | _ => trivial

theorem book_runs_in_order_cancel_fill :
    ∃ b, run BookOp.apply OrderBook.init
        [.addOrder 0 1 .buy 1000000 5 0, .addOrder 1 1 .buy 1000000 3 0, .cancelOrder 0,
          .matchOrder .sell 990000 2 2 64] = some b ∧ InOrder b :=
  book_runs_in_order _ (obeys_of_test admissible_of_test _ _ (by decide +kernel))

end HftGrading.Exchange.Book.BookRuns
