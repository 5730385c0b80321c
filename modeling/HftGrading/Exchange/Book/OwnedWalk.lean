/- module: HftGrading/Exchange/Book/OwnedWalk
   source: exchange/include/exchange/orderbook.hpp
   digest: The walk of a side under owners and client ids, through a match and a resting order. -/

import HftGrading.Exchange.Book.PriorityMatching

set_option autoImplicit false
set_option relaxedAutoImplicit false

namespace HftGrading.Exchange.Book.OwnedWalk

open Function (update)
open Lib.PriceTimePriority WireProtocol PriceMap LimitBook
open LimitBook.OrderBook (MatchResult)
open LevelSearch LevelQueue LevelFilling MatchRounds BookRep BookRuns PriorityWalk PriorityResting
open PriorityMatching

def owner (b : OrderBook) (x : Nat) : Nat × UInt32 :=
  ((b.pool.orders x).contestantId, (b.pool.orders x).clientOrderId)

/-- The walk of a side under owners and client ids. -/
def ownedLots (b : OrderBook) (s : Side) : List (Lot (Nat × UInt32) Int) :=
  (restingLots b s).map (Lot.rename (owner b))

variable {b b₁ : OrderBook} {Q Q₁ : Queues} {side : Side} {price quantity : Int}

theorem owner_of_static (static : ∀ x, static (b₁.pool.orders x) = static (b.pool.orders x)) :
    owner b₁ = owner b := by
  funext x
  rw [owner, owner, contestantId_of_static (static x), clientOrderId_of_static (static x)]

theorem lot_listed (clear : Clear b Q) {l : Lot Nat Int} (member : l ∈ restingLots b side) :
    (∃ i, l.ref ∈ Q side i) ∧ 0 < l.qty ∧ better side l.price (scanStart side) := by
  have walkable := walkable_of_rep clear.rep (clear.indexed side)
  obtain ⟨i, active, here⟩ := (walkable.mem_restingLots l).mp member
  have price := walkable.lot_price active l here
  obtain ⟨x, hx, rfl⟩ := List.mem_map.mp here
  rw [clear.rep.queue_eq] at hx
  refine ⟨⟨i, hx⟩, (clear.rep.level side i).resting x hx, ?_⟩
  rw [price]
  exact clear.sighted.priced side i (List.ne_nil_of_mem hx)

section Matching

variable {fills : List MatchResult} {cid maxFills : Nat}

structure Crossed (b : OrderBook) (side : Side) (cid : Nat) (r : Swept Nat Int) (Q₁ : Queues)
    (fills : List MatchResult) (b₁ : OrderBook) : Prop where
  clear : Clear b₁ Q₁
  fills : fills = results cid r.fills
  rest : restingLots b₁ side.contra = r.rest
  own : restingLots b₁ side = restingLots b side
  levels : b₁.levels side = b.levels side
  static : ∀ x, static (b₁.pool.orders x) = static (b.pool.orders x)
  slots : b.pool.freeTop ≤ b₁.pool.freeTop

theorem crossed_of_drains (clear : Clear b Q) (drains : Drains Q b Q₁ b₁)
    (returns : b.matchOrder side price quantity cid maxFills = some (fills, b₁)) :
    Crossed b side cid (reference b side price quantity maxFills) Q₁ fills b₁ := by
  have valid := valid_of_clear clear side.contra
  obtain ⟨b', reference, rest, -, changes⟩ := matchOrder_reference valid.shown price quantity cid
    maxFills
  obtain ⟨made, rfl⟩ := Prod.mk.inj (Option.some.inj (returns.symm.trans reference))
  have own := changes.own
  rw [Side.contra_contra] at own
  obtain ⟨gone, -, slots⟩ := changes.freed
  refine ⟨clear.drains drains, made, rest, valid.own_lots changes, own, changes.static, ?_⟩
  have longer := slots.length_eq
  simp only [freeSlots, List.length_map, List.length_range, List.length_append] at longer
  omega

theorem Crossed.left {r : Swept Nat Int} (crossed : Crossed b side cid r Q₁ fills b₁)
    (balance : (r.fills.map Lot.qty).sum + r.left = quantity) :
    r.left = quantity - (fills.map MatchResult.fillQty).sum := by
  have filled : (fills.map MatchResult.fillQty).sum = (r.fills.map Lot.qty).sum := by
    rw [crossed.fills, results, List.map_map]
    rfl
  omega

end Matching

section Resting

variable {cid ts x i : Nat} {client : UInt32} {L : PriceLevelPool}

theorem rests_owned (clear : Clear b Q) (welcome : Welcome b side price quantity)
    (top : ∃ rest, freeSlots b = rest ++ [x]) (located : Located (b.levels side) price i L)
    (real : i ≠ nullIndex) :
    ownedLots (rested b cid client side price quantity ts x i L) =
      update (ownedLots b) side (arrive (fun l => rank side l.price) ⟨(cid, client), price, quantity⟩
        (ownedLots b side)) := by
  have unlisted := (clear.rep.top_free top).2
  have self : owner (rested b cid client side price quantity ts x i L) x = (cid, client) :=
    congrArg₂ Prod.mk (congrArg Order.contestantId (rested_self i L) :)
      (congrArg Order.clientOrderId (rested_self i L) :)
  -- The other orders keep their names.
  have others : ∀ t, (restingLots b t).map (Lot.rename
      (owner (rested b cid client side price quantity ts x i L))) = ownedLots b t := by
    intro t
    apply List.map_congr_left
    intro l member
    obtain ⟨j, listed⟩ := (lot_listed clear member).1
    have other : l.ref ≠ x := fun e => unlisted t j (e ▸ listed)
    have same : owner (rested b cid client side price quantity ts x i L) l.ref = owner b l.ref :=
      congrArg₂ Prod.mk (congrArg Order.contestantId (rested_other i L other) :)
        (congrArg Order.clientOrderId (rested_other i L other) :)
    rw [Lot.rename, Lot.rename, same]
  funext t
  rcases Side.eq_or_eq_contra side t with rfl | rfl
  · have joins : arrive (fun l => rank t l.price)
        (Lot.rename (owner (rested b cid client t price quantity ts x i L)) ⟨x, price, quantity⟩)
        ((restingLots b t).map (Lot.rename
          (owner (rested b cid client t price quantity ts x i L)))) =
        (arrive (depth t) ⟨x, price, quantity⟩ (restingLots b t)).map (Lot.rename
          (owner (rested b cid client t price quantity ts x i L))) :=
      arrive_map _ (fun _ => rfl) _ _
    rw [Function.update_self, ownedLots, rests_lots clear.rep top located real welcome.positive
      (clear.indexed t) welcome.spread, ← joins, others, Lot.rename, self]
  · rw [Function.update_of_ne side.contra_ne, ownedLots,
      rests_contra_lots clear.rep top located real welcome.positive, others]

end Resting

end HftGrading.Exchange.Book.OwnedWalk
