/- module: HftGrading/Exchange/Engine/OpenInterest
   source: exchange/include/exchange/match_engine.hpp, exchange/include/exchange/orderbook.hpp
   digest: The quantity a contestant has resting on each side, and its position with it, order by order. -/

import HftGrading.Exchange.Book.Conservation
import HftGrading.Exchange.Engine.Settlement

set_option autoImplicit false
set_option relaxedAutoImplicit false

namespace HftGrading.Exchange.Engine.OpenInterest

open WireProtocol Book.PriceMap Book.LimitBook
open Book.LimitBook.OrderBook (MatchResult)
open Book.LevelSearch Book.LevelQueue Book.LevelFilling Book.MatchRounds Book.BookRep Book.BookRuns
open Book.Conservation EngineState
open HftGrading.Exchange.Engine.EngineState.ContestantState (signedQty signedQty_zero signedQty_add
  signedQty_contra)
open EngineSteps ProfitAccounts Settlement
open scoped BigOperators

variable {b b' : OrderBook} {Q Q' : Queues} {s t : Side}

section Contestants

def mine (b : OrderBook) (cid x : Nat) : Int :=
  if (b.pool.orders x).contestantId = cid then 1 else 0

def openQty (b : OrderBook) (cid : Nat) (s : Side) : Int :=
  ((List.range (b.levels s).count).map (fun i =>
    ((b.queue s i).map (fun x => mine b cid x * restingQty b x)).sum)).sum

theorem mine_nonneg (b : OrderBook) (cid x : Nat) : 0 ≤ mine b cid x := by
  rw [mine]
  split_ifs <;> decide

theorem mine_le_one (b : OrderBook) (cid x : Nat) : mine b cid x ≤ 1 := by
  rw [mine]
  split_ifs <;> decide

theorem mine_static (static : ∀ x, static (b'.pool.orders x) = static (b.pool.orders x)) (cid : Nat) :
    mine b' cid = mine b cid := by
  funext x
  rw [mine, mine, contestantId_of_static (static x)]

variable {cid : Nat}

theorem openQty_eq (rep : Rep b Q) (cid : Nat) (s : Side) :
    openQty b cid s = weighed b Q s (mine b cid) := by
  rw [openQty, rep.queue_eq]
  rfl

theorem openQty_nonneg (rep : Rep b Q) (cid : Nat) (s : Side) : 0 ≤ openQty b cid s := by
  rw [openQty_eq rep]
  exact weighed_nonneg rep (mine_nonneg b cid)

theorem openQty_drains (rep : Rep b Q) (drains : Drains Q b Q' b') (cid : Nat) (s : Side) :
    openQty b' cid s ≤ openQty b cid s := by
  rw [openQty_eq rep, openQty_eq (drains.rep rep), mine_static drains.static]
  exact weighed_drains rep (mine_nonneg b cid) drains s

def makerQty (b : OrderBook) (cid : Nat) (fills : List MatchResult) : Int :=
  (fills.map (fun f => mine b cid f.makerIdx * f.fillQty)).sum

theorem makerQty_bounds {fills : List MatchResult} (positive : ∀ f ∈ fills, 0 < f.fillQty) (cid : Nat) :
    0 ≤ makerQty b cid fills ∧ makerQty b cid fills ≤ filledQty fills := by
  rw [makerQty, filledQty]
  constructor
  · apply List.sum_nonneg
    intro q hq
    obtain ⟨f, hf, rfl⟩ := List.mem_map.mp hq
    exact mul_nonneg (mine_nonneg b cid _) (positive f hf).le
  · refine List.sum_le_sum (fun f hf => ?_)
    have part := mul_le_mul_of_nonneg_right (mine_le_one b cid f.makerIdx) (positive f hf).le
    rwa [one_mul] at part

end Contestants

section Orders

variable {G : Type} {e e' : MatchEngine G} {cid ts : Nat} {order : OrderEntry} {m m' : CancelMap}
  {remaining : Int} {fills : List MatchResult} {Q₁ : Queues} {before b₁ : OrderBook}

theorem Placed.openQty_le (placed : Placed Q b m cid order remaining ts Q' b' m') (rep : Rep b Q)
    (left : 0 ≤ remaining) (c : Nat) :
    openQty b' c order.side.contra ≤ openQty b c order.side.contra ∧
      openQty b' c order.side ≤ openQty b c order.side + if c = cid then remaining else 0 := by
  have nonneg : (0 : Int) ≤ if c = cid then remaining else 0 := by
    split_ifs
    · exact left
    · exact le_rfl
  have rep' := placed.rep rep
  rw [openQty_eq rep, openQty_eq rep, openQty_eq rep', openQty_eq rep']
  cases placed with
  | ended => exact ⟨le_rfl, by omega⟩
  | exhausted => exact ⟨le_rfl, by omega⟩
  | @refused x wanted top =>
    have same : ∀ t, weighed ((stamped b cid order.clientOrderId order.side order.price remaining
        ts x).onPool (fun P => P.free x)) Q t (mine ((stamped b cid order.clientOrderId order.side
        order.price remaining ts x).onPool (fun P => P.free x)) c) = weighed b Q t (mine b c) := by
      intro t
      apply weighed_congr
      · cases t <;> rfl
      · exact fun _ => rfl
      · intro i y hy
        have other : y ≠ x := fun h => (rep.top_free top).2 t i (h ▸ hy)
        simp [mine, restingQty, stamped, OrderPool.free, other]
    rw [same, same]
    exact ⟨le_rfl, by omega⟩
  | @rests x i L wanted top located real =>
    have same : ∀ y, y ≠ x → mine (rested b cid order.clientOrderId order.side order.price
        remaining ts x i L) c y = mine b c y := by
      intro y other
      have owner : ((rested b cid order.clientOrderId order.side order.price remaining ts x i
          L).pool.orders y).contestantId = (b.pool.orders y).contestantId :=
        (congrArg Order.contestantId (rested_other i L other) :)
      rw [mine, mine, owner]
    have own : mine (rested b cid order.clientOrderId order.side order.price remaining ts x i L) c x *
        remaining = if c = cid then remaining else 0 := by
      have owner : ((rested b cid order.clientOrderId order.side order.price remaining ts x i
          L).pool.orders x).contestantId = cid :=
        (congrArg Order.contestantId (rested_self i L) :)
      rw [mine, owner]
      by_cases self : c = cid
      · rw [if_pos self.symm, if_pos self, one_mul]
      · rw [if_neg (fun h => self h.symm), if_neg self, zero_mul]
    rw [weighed_rests rep top located real same, weighed_rests_contra rep top same, own]
    exact ⟨le_rfl, le_rfl⟩

variable (rep : Rep e.book Q) (wanted : 0 < order.quantity)
  (executed : Executed Q e cid order ts fills Q₁ before b₁ Q' e')
include wanted executed

theorem executed_filled : 0 ≤ filledQty fills ∧ filledQty fills ≤ order.quantity := by
  have nonneg := executed.matched.filled_nonneg
  have filled := executed.matched.filled
  rw [max_eq_left wanted.le] at filled
  exact ⟨nonneg, filled⟩

include rep

theorem executed_openQty (c : Nat) :
    openQty e'.book c order.side.contra + makerQty e.book c fills ≤
        openQty e.book c order.side.contra ∧
      openQty e'.book c order.side ≤
        openQty e.book c order.side + if c = cid then order.quantity - filledQty fills else 0 := by
  have matched := executed.matched
  have rep₁ := matched.drained.rep rep
  have drains := settledBook_drains (Q := Q₁) fills b₁
  obtain ⟨-, bound⟩ := executed_filled wanted executed
  obtain ⟨contra, own⟩ := Placed.openQty_le executed.placed (drains.rep rep₁) (by omega) c
  have contra₁ := openQty_drains rep₁ drains c order.side.contra
  have own₁ := openQty_drains rep₁ drains c order.side
  have balance := matched.balance (mine e.book c)
  have kept := matched.ownWeight (mine e.book c)
  rw [← mine_static matched.drained.static, ← openQty_eq rep₁, mine_static matched.drained.static,
    ← openQty_eq rep, ← makerQty] at balance
  rw [← mine_static matched.drained.static, ← openQty_eq rep₁, mine_static matched.drained.static,
    ← openQty_eq rep] at kept
  constructor
  · omega
  · omega

omit wanted in
theorem executed_netQty (c : Nat) : netQty c (fillBookings e.book cid order.side fills) =
    (if c = cid then signedQty order.side (filledQty fills) else 0) +
      signedQty order.side.contra (makerQty e.book c fills) := by
  have sides : ∀ f ∈ fills, (e.book.pool.orders f.makerIdx).side = order.side.contra := by
    intro f hf
    obtain ⟨i, listed⟩ := executed.matched.makers f hf
    exact (rep.level order.side.contra i).side f.makerIdx listed
  clear executed rep
  induction fills with
  | nil => simp [fillBookings, netQty, bookingsOf, filledQty, makerQty, signedQty_zero]
  | cons f fills ih =>
    have first := sides f List.mem_cons_self
    have rest := ih (fun g hg => sides g (List.mem_cons_of_mem f hg))
    have scaled : (if (e.book.pool.orders f.makerIdx).contestantId = c then
        signedQty order.side.contra f.fillQty else 0) =
        signedQty order.side.contra (mine e.book c f.makerIdx * f.fillQty) := by
      rw [mine]
      split_ifs
      · rw [one_mul]
      · rw [zero_mul, signedQty_zero]
    have filled : filledQty (f :: fills) = f.fillQty + filledQty fills := List.sum_cons
    have taken : makerQty e.book c (f :: fills) =
        mine e.book c f.makerIdx * f.fillQty + makerQty e.book c fills := List.sum_cons
    have none : netQty c [] = 0 := rfl
    rw [fillBookings] at rest
    rw [fillBookings, List.flatMap_cons, netQty_append, rest, legs, first, netQty_cons, netQty_cons,
      filled, taken, signedQty_add, signedQty_add]
    simp only [Booking.signed, scaled]
    by_cases self : c = cid
    · rw [if_pos self.symm, if_pos self, if_pos self, none]
      omega
    · rw [if_neg (fun h => self h.symm), if_neg self, if_neg self, none]
      omega

end Orders

end HftGrading.Exchange.Engine.OpenInterest
