/- module: HftGrading/Exchange/Book/LevelQueue
   source: exchange/include/exchange/orderbook.hpp
   digest: The order list of one price level, and what unlinking, filling and walking do to it. -/

import HftGrading.Exchange.Book.LimitBook
import HftGrading.Lib.PriceTimePriority
import Mathlib.Algebra.Order.BigOperators.Group.List

set_option autoImplicit false
set_option relaxedAutoImplicit false

namespace HftGrading.Exchange.Book.LevelQueue

open Function (update)
open Lib.IntrusiveList Lib.PriceTimePriority WireProtocol PriceMap LimitBook

def nextOf (b : OrderBook) (x : Nat) : Nat := (b.pool.orders x).next

def prevOf (b : OrderBook) (x : Nat) : Nat := (b.pool.orders x).prev

def restingQty (b : OrderBook) (x : Nat) : Int := (b.pool.orders x).remainingQty

/-- The level's list is `l`, by both links and at both ends. -/
structure Threaded (b : OrderBook) (s : Side) (i : Nat) (l : List Nat) : Prop where
  linked : Linked (nextOf b) (prevOf b) nullIndex l nullIndex
  nodup : l.Nodup
  real : ∀ x ∈ l, x < nullIndex
  head : (b.levels s).head i = l.headD nullIndex
  tail : (b.levels s).tail i = l.getLastD nullIndex

structure LevelRep (b : OrderBook) (s : Side) (i : Nat) (l : List Nat) : Prop
    extends Threaded b s i l where
  count : (b.levels s).orderCount i = l.length
  total : (b.levels s).totalQty i = wrap32 (l.map (restingQty b)).sum
  resting : ∀ x ∈ l, 0 < restingQty b x
  price : ∀ x ∈ l, (b.pool.orders x).price = (b.levels s).prices i
  side : ∀ x ∈ l, (b.pool.orders x).side = s

variable {b b' b'' : OrderBook} {s : Side} {i : Nat} {l l₁ l₂ : List Nat}

theorem Threaded.length_le (threaded : Threaded b s i l) : l.length ≤ nullIndex := by
  have inside : l.toFinset ⊆ Finset.range nullIndex := by
    intro x hx
    exact Finset.mem_range.mpr (threaded.real x (List.mem_toFinset.mp hx))
  have count := Finset.card_le_card inside
  rwa [List.toFinset_card_of_nodup threaded.nodup, Finset.card_range] at count

theorem Threaded.ne_null (threaded : Threaded b s i l) {x : Nat} (hx : x ∈ l) : x ≠ nullIndex :=
  (threaded.real x hx).ne

theorem LevelRep.queue_eq (rep : LevelRep b s i l) : b.queue s i = l := by
  unfold OrderBook.queue
  rw [rep.count, rep.head]
  exact rep.linked.walk_eq (fun x hx => rep.ne_null hx)

theorem LevelRep.sum_nonneg (rep : LevelRep b s i l) : 0 ≤ (l.map (restingQty b)).sum := by
  apply List.sum_nonneg
  intro q hq
  obtain ⟨x, hx, rfl⟩ := List.mem_map.mp hq
  exact (rep.resting x hx).le

theorem LevelRep.sum_pos (rep : LevelRep b s i l) (nonempty : l ≠ []) :
    0 < (l.map (restingQty b)).sum := by
  obtain ⟨x, hx⟩ := List.exists_mem_of_ne_nil l nonempty
  have le := List.single_le_sum (l := l.map (restingQty b))
    (fun q hq => by
      obtain ⟨y, hy, rfl⟩ := List.mem_map.mp hq
      exact (rep.resting y hy).le) _ (List.mem_map_of_mem hx)
  exact (rep.resting x hx).trans_le le

theorem LevelRep.total_of_fits (rep : LevelRep b s i l)
    (fits : (l.map (restingQty b)).sum < 2147483648) :
    (b.levels s).totalQty i = (l.map (restingQty b)).sum := by
  rw [rep.total]
  exact wrap32_of_nonneg rep.sum_nonneg fits

theorem levelRep_nil (head : (b.levels s).head i = nullIndex) (tail : (b.levels s).tail i = nullIndex)
    (count : (b.levels s).orderCount i = 0) (total : (b.levels s).totalQty i = 0) :
    LevelRep b s i [] where
  linked := trivial
  nodup := List.nodup_nil
  real := by simp
  head := head
  tail := tail
  count := count
  total := by simpa [wrap32] using total
  resting := by simp
  price := by simp
  side := by simp

theorem Threaded.congr (threaded : Threaded b s i l)
    (next : ∀ x ∈ l, nextOf b' x = nextOf b x) (prev : ∀ x ∈ l, prevOf b' x = prevOf b x)
    (head : (b'.levels s).head i = (b.levels s).head i)
    (tail : (b'.levels s).tail i = (b.levels s).tail i) : Threaded b' s i l where
  linked := threaded.linked.congr next prev
  nodup := threaded.nodup
  real := threaded.real
  head := head.trans threaded.head
  tail := tail.trans threaded.tail

theorem LevelRep.congr (rep : LevelRep b s i l)
    (orders : ∀ x ∈ l, b'.pool.orders x = b.pool.orders x)
    (head : (b'.levels s).head i = (b.levels s).head i)
    (tail : (b'.levels s).tail i = (b.levels s).tail i)
    (count : (b'.levels s).orderCount i = (b.levels s).orderCount i)
    (total : (b'.levels s).totalQty i = (b.levels s).totalQty i)
    (prices : (b'.levels s).prices i = (b.levels s).prices i) : LevelRep b' s i l where
  toThreaded := rep.toThreaded.congr (fun x hx => by rw [nextOf, orders x hx, nextOf])
    (fun x hx => by rw [prevOf, orders x hx, prevOf]) head tail
  count := count.trans rep.count
  total := by
    have same : l.map (restingQty b') = l.map (restingQty b) :=
      List.map_congr_left (fun x hx => by rw [restingQty, orders x hx, restingQty])
    rw [total, rep.total, same]
  resting := fun x hx => by
    rw [restingQty, orders x hx]
    exact rep.resting x hx
  price := fun x hx => by rw [orders x hx, prices, rep.price x hx]
  side := fun x hx => by rw [orders x hx, rep.side x hx]

/-- The fields of a cell that no walk writes. -/
def static (o : Order) : Order := { o with remainingQty := 0, next := 0, prev := 0 }

section StaticFields

variable {o o' : Order} (same : static o = static o')
include same

theorem exchangeId_of_static : o.exchangeId = o'.exchangeId := (congrArg Order.exchangeId same :)

theorem clientOrderId_of_static : o.clientOrderId = o'.clientOrderId :=
  (congrArg Order.clientOrderId same :)

theorem contestantId_of_static : o.contestantId = o'.contestantId :=
  (congrArg Order.contestantId same :)

theorem price_of_static : o.price = o'.price := (congrArg Order.price same :)

theorem side_of_static : o.side = o'.side := (congrArg Order.side same :)

theorem levelIdx_of_static : o.levelIdx = o'.levelIdx := (congrArg Order.levelIdx same :)

end StaticFields

/-- The levels of a side with the list of level `i` masked. -/
def mask (L : PriceLevelPool) (i : Nat) : PriceLevelPool :=
  { L with
    head := update L.head i 0
    tail := update L.tail i 0
    orderCount := update L.orderCount i 0
    totalQty := update L.totalQty i 0 }

/-- Between the two books only the list of level `i` and quantities and links of
the cells in `l` have changed, and slots have been freed. -/
structure Frame (s : Side) (i : Nat) (l : List Nat) (b b' : OrderBook) : Prop where
  contra : b'.levels s.contra = b.levels s.contra
  level : mask (b'.levels s) i = mask (b.levels s) i
  orders : ∀ x ∉ l, b'.pool.orders x = b.pool.orders x
  static : ∀ x, static (b'.pool.orders x) = static (b.pool.orders x)
  capacity : b'.pool.capacity = b.pool.capacity
  nextExchangeId : b'.nextExchangeId = b.nextExchangeId
  totalOrders : b'.totalOrders = b.totalOrders
  totalFills : b'.totalFills = b.totalFills

theorem Frame.refl (s : Side) (i : Nat) (l : List Nat) (b : OrderBook) : Frame s i l b b :=
  ⟨rfl, rfl, fun _ _ => rfl, fun _ => rfl, rfl, rfl, rfl, rfl⟩

theorem Frame.trans (first : Frame s i l b b') (second : Frame s i l b' b'') :
    Frame s i l b b'' where
  contra := second.contra.trans first.contra
  level := second.level.trans first.level
  orders := fun x hx => (second.orders x hx).trans (first.orders x hx)
  static := fun x => (second.static x).trans (first.static x)
  capacity := second.capacity.trans first.capacity
  nextExchangeId := second.nextExchangeId.trans first.nextExchangeId
  totalOrders := second.totalOrders.trans first.totalOrders
  totalFills := second.totalFills.trans first.totalFills

theorem Frame.mono (frame : Frame s i l₁ b b') (sub : ∀ x ∈ l₁, x ∈ l₂) : Frame s i l₂ b b' :=
  { frame with orders := fun x hx => frame.orders x (fun h => hx (sub x h)) }

section Consequences

variable (frame : Frame s i l b b')
include frame

theorem Frame.prices : (b'.levels s).prices = (b.levels s).prices :=
  (congrArg PriceLevelPool.prices frame.level :)

theorem Frame.active : (b'.levels s).active = (b.levels s).active :=
  (congrArg PriceLevelPool.active frame.level :)

theorem Frame.count : (b'.levels s).count = (b.levels s).count :=
  (congrArg PriceLevelPool.count frame.level :)

theorem Frame.levelCapacity : (b'.levels s).capacity = (b.levels s).capacity :=
  (congrArg PriceLevelPool.capacity frame.level :)

theorem Frame.priceMap : (b'.levels s).priceMap = (b.levels s).priceMap :=
  (congrArg PriceLevelPool.priceMap frame.level :)

theorem Frame.bestIdx : (b'.levels s).bestIdx = (b.levels s).bestIdx :=
  (congrArg PriceLevelPool.bestIdx frame.level :)

theorem Frame.totalQty {j : Nat} (other : j ≠ i) :
    (b'.levels s).totalQty j = (b.levels s).totalQty j := by
  have same := congrFun (congrArg PriceLevelPool.totalQty frame.level) j
  simpa [mask, other] using same

theorem Frame.levelRep {t : Side} {j : Nat} {l' : List Nat} (rep : LevelRep b t j l')
    (other : t ≠ s ∨ j ≠ i) (apart : ∀ x ∈ l', x ∉ l) : LevelRep b' t j l' := by
  have orders : ∀ x ∈ l', b'.pool.orders x = b.pool.orders x := fun x hx =>
    frame.orders x (apart x hx)
  rcases Side.eq_or_eq_contra s t with rfl | rfl
  · have away : j ≠ i := other.resolve_left (fun h => h rfl)
    have field : ∀ {β : Type} (f : PriceLevelPool → Nat → β),
        f (mask (b'.levels t) i) j = f (mask (b.levels t) i) j := by
      intro β f
      rw [frame.level]
    refine rep.congr orders ?_ ?_ ?_ ?_ ?_
    · simpa [mask, away] using field PriceLevelPool.head
    · simpa [mask, away] using field PriceLevelPool.tail
    · simpa [mask, away] using field PriceLevelPool.orderCount
    · simpa [mask, away] using field PriceLevelPool.totalQty
    · exact field PriceLevelPool.prices
  · apply rep.congr orders <;> rw [frame.contra]

end Consequences

section Primitives

variable (b s i) (x y : Nat) (q : Int) (f : Order → Order)

@[simp] theorem orders_modify (P : OrderPool) :
    (P.modify x f).orders y = if y = x then f (P.orders x) else P.orders y := by
  simp [OrderPool.modify, Function.update_apply]

@[simp] theorem orders_free (P : OrderPool) : (P.free x).orders = P.orders := rfl

theorem frame_modify (same : ∀ o, static (f o) = static o) :
    Frame s i [x] b (b.onPool (fun P => P.modify x f)) where
  contra := by simp
  level := by simp
  orders := fun y hy => by
    have other : y ≠ x := by simpa using hy
    simp [other]
  static := fun y => by
    by_cases e : y = x <;> simp [e, same]
  capacity := rfl
  nextExchangeId := rfl
  totalOrders := rfl
  totalFills := rfl

theorem frame_free : Frame s i [] b (b.onPool (fun P => P.free x)) :=
  ⟨by simp, by simp, fun _ _ => rfl, fun _ => rfl, rfl, rfl, rfl, rfl⟩

theorem frame_withLevels (L : PriceLevelPool) (same : mask L i = mask (b.levels s) i) :
    Frame s i [] b (b.withLevels s L) := by
  refine ⟨by simp, by simpa using same, ?_, ?_, ?_, ?_, ?_, ?_⟩ <;> simp

theorem frame_takeQty : Frame s i [] b (b.takeQty s i q) :=
  frame_withLevels b s i _ (by simp [mask])

theorem frame_dropCount : Frame s i [] b (b.dropCount s i) :=
  frame_withLevels b s i _ (by simp [mask])

@[simp] theorem pool_takeQty : (b.takeQty s i q).pool = b.pool := by simp [OrderBook.takeQty]

@[simp] theorem pool_dropCount : (b.dropCount s i).pool = b.pool := by simp [OrderBook.dropCount]

end Primitives

section Unlink

variable {x : Nat}

theorem skipNext_orders (y : Nat) :
    (b.skipNext s i x).pool.orders y =
      { b.pool.orders y with
        next := if prevOf b x ≠ nullIndex ∧ y = prevOf b x then nextOf b x else nextOf b y } := by
  by_cases inner : (b.pool.orders x).prev = nullIndex
  · simp [OrderBook.skipNext, prevOf, nextOf, inner]
  · by_cases same : y = (b.pool.orders x).prev <;>
      simp [OrderBook.skipNext, prevOf, nextOf, inner, same]

theorem skipPrev_orders (y : Nat) :
    (b.skipPrev s i x).pool.orders y =
      { b.pool.orders y with
        prev := if nextOf b x ≠ nullIndex ∧ y = nextOf b x then prevOf b x else prevOf b y } := by
  by_cases inner : (b.pool.orders x).next = nullIndex
  · simp [OrderBook.skipPrev, prevOf, nextOf, inner]
  · by_cases same : y = (b.pool.orders x).next <;>
      simp [OrderBook.skipPrev, prevOf, nextOf, inner, same]

theorem skipNext_levels :
    (b.skipNext s i x).levels s =
      { b.levels s with
        head := if prevOf b x ≠ nullIndex then (b.levels s).head
          else update (b.levels s).head i (nextOf b x) } := by
  unfold OrderBook.skipNext prevOf nextOf
  split_ifs <;> simp

theorem skipPrev_levels :
    (b.skipPrev s i x).levels s =
      { b.levels s with
        tail := if nextOf b x ≠ nullIndex then (b.levels s).tail
          else update (b.levels s).tail i (prevOf b x) } := by
  unfold OrderBook.skipPrev prevOf nextOf
  split_ifs <;> simp

private theorem skipNext_frame (inside : prevOf b x ≠ nullIndex → prevOf b x ∈ l) :
    Frame s i l b (b.skipNext s i x) := by
  unfold OrderBook.skipNext
  split_ifs with inner
  · refine (frame_modify b s i (b.pool.orders x).prev
      (fun p => { p with next := (b.pool.orders x).next }) (fun _ => rfl)).mono ?_
    intro y hy
    rw [List.mem_singleton.mp hy]
    exact inside inner
  · exact (frame_withLevels b s i _ (by simp [mask])).mono (by simp)

private theorem skipPrev_frame (inside : nextOf b x ≠ nullIndex → nextOf b x ∈ l) :
    Frame s i l b (b.skipPrev s i x) := by
  unfold OrderBook.skipPrev
  split_ifs with inner
  · refine (frame_modify b s i (b.pool.orders x).next
      (fun p => { p with prev := (b.pool.orders x).prev }) (fun _ => rfl)).mono ?_
    intro y hy
    rw [List.mem_singleton.mp hy]
    exact inside inner
  · exact (frame_withLevels b s i _ (by simp [mask])).mono (by simp)

private theorem skipNext_self (apart : prevOf b x ≠ x) :
    nextOf (b.skipNext s i x) x = nextOf b x ∧ prevOf (b.skipNext s i x) x = prevOf b x := by
  have other : ¬ (prevOf b x ≠ nullIndex ∧ x = prevOf b x) := fun h => apart h.2.symm
  constructor
  · simp only [nextOf, skipNext_orders, if_neg other]
  · simp only [prevOf, skipNext_orders]

theorem unlink_orders (apart : prevOf b x ≠ x) (y : Nat) :
    (b.unlink s i x).pool.orders y =
      { b.pool.orders y with
        next := if prevOf b x ≠ nullIndex ∧ y = prevOf b x then nextOf b x else nextOf b y
        prev := if nextOf b x ≠ nullIndex ∧ y = nextOf b x then prevOf b x else prevOf b y } := by
  obtain ⟨next, prev⟩ := skipNext_self (s := s) (i := i) apart
  unfold OrderBook.unlink
  rw [skipPrev_orders, next, prev, skipNext_orders]
  simp only [prevOf, skipNext_orders]

theorem unlink_levels (apart : prevOf b x ≠ x) :
    (b.unlink s i x).levels s =
      { b.levels s with
        head := if prevOf b x ≠ nullIndex then (b.levels s).head
          else update (b.levels s).head i (nextOf b x)
        tail := if nextOf b x ≠ nullIndex then (b.levels s).tail
          else update (b.levels s).tail i (prevOf b x) } := by
  obtain ⟨next, prev⟩ := skipNext_self (s := s) (i := i) apart
  unfold OrderBook.unlink
  rw [skipPrev_levels, next, prev, skipNext_levels]

/-- The free stack, bottom first. -/
def freeSlots (b : OrderBook) : List Nat := (List.range b.pool.freeTop).map b.pool.freeList

theorem freeSlots_unlink : freeSlots (b.unlink s i x) = freeSlots b := by
  have first : freeSlots (b.skipNext s i x) = freeSlots b := by
    unfold OrderBook.skipNext
    split_ifs <;> simp [freeSlots, OrderPool.modify]
  have second : ∀ c : OrderBook, freeSlots (c.skipPrev s i x) = freeSlots c := by
    intro c
    unfold OrderBook.skipPrev
    split_ifs <;> simp [freeSlots, OrderPool.modify]
  exact (second _).trans first

variable (threaded : Threaded b s i (l₁ ++ x :: l₂))
include threaded

theorem Threaded.prev_ne : prevOf b x ≠ x := by
  rw [threaded.linked.prev_eq]
  intro same
  have nodup := (List.nodup_append.mp threaded.nodup).2.2
  cases l₁ with
  | nil => exact threaded.ne_null (by simp) same.symm
  | cons y l₁ =>
    exact nodup _ (getLastD_mem (by simp) nullIndex) x (by simp) same

theorem Threaded.prev_mem (inner : prevOf b x ≠ nullIndex) : prevOf b x ∈ l₁ := by
  rw [threaded.linked.prev_eq] at inner ⊢
  cases l₁ with
  | nil => exact absurd rfl inner
  | cons y l₁ => exact getLastD_mem (by simp) nullIndex

theorem Threaded.next_mem (inner : nextOf b x ≠ nullIndex) : nextOf b x ∈ l₂ := by
  rw [threaded.linked.next_eq] at inner ⊢
  cases l₂ with
  | nil => exact absurd rfl inner
  | cons y l₂ => simp

theorem Threaded.unlink : Threaded (b.unlink s i x) s i (l₁ ++ l₂) := by
  have apart := threaded.prev_ne
  have sub : ∀ y ∈ l₁ ++ l₂, y ∈ l₁ ++ x :: l₂ := by
    intro y hy
    simp only [List.mem_append, List.mem_cons] at hy ⊢
    tauto
  have real : ∀ y ∈ l₁ ++ l₂, y ≠ nullIndex := fun y hy => threaded.ne_null (sub y hy)
  refine ⟨threaded.linked.unlink threaded.nodup real ?_ ?_ ?_ ?_, ?_,
    fun y hy => threaded.real y (sub y hy), ?_, ?_⟩
  · intro y hy same
    have inner : prevOf b x ≠ nullIndex := same ▸ real y hy
    simp only [nextOf, unlink_orders apart, if_pos (And.intro inner same)]
  · intro y _ other
    simp only [nextOf, unlink_orders apart, if_neg (fun h => other h.2 :
      ¬ (prevOf b x ≠ nullIndex ∧ y = prevOf b x))]
  · intro y hy same
    have inner : nextOf b x ≠ nullIndex := same ▸ real y hy
    simp only [prevOf, unlink_orders apart, if_pos (And.intro inner same)]
  · intro y _ other
    simp only [prevOf, unlink_orders apart, if_neg (fun h => other h.2 :
      ¬ (nextOf b x ≠ nullIndex ∧ y = nextOf b x))]
  · exact threaded.nodup.sublist
      (List.Sublist.append (List.Sublist.refl l₁) (List.sublist_cons_self x l₂))
  · rw [unlink_levels apart, threaded.linked.prev_eq, threaded.linked.next_eq, headD_append]
    cases l₁ with
    | nil => simp
    | cons y l₁ =>
      have inner : (y :: l₁).getLastD nullIndex ≠ nullIndex :=
        real _ (List.mem_append_left l₂ (getLastD_mem (by simp) nullIndex))
      simp only [if_pos inner]
      rw [threaded.head]
      rfl
  · rw [unlink_levels apart, threaded.linked.prev_eq, threaded.linked.next_eq, getLastD_append]
    cases l₂ with
    | nil => simp
    | cons y l₂ =>
      have inner : (y :: l₂).headD nullIndex ≠ nullIndex :=
        real _ (List.mem_append_right l₁ (by simp))
      simp only [if_pos inner]
      rw [threaded.tail, getLastD_append]
      simp only [List.getLastD_cons]

theorem Threaded.frame_unlink : Frame s i (l₁ ++ l₂) b (b.unlink s i x) := by
  obtain ⟨next, -⟩ := skipNext_self (s := s) (i := i) threaded.prev_ne
  refine (skipNext_frame ?_).trans (skipPrev_frame ?_)
  · exact fun inner => List.mem_append_left l₂ (threaded.prev_mem inner)
  · rw [next]
    exact fun inner => List.mem_append_right l₁ (threaded.next_mem inner)

end Unlink

section Removal

variable {x : Nat}

theorem LevelRep.remove (rep : LevelRep b s i (l₁ ++ x :: l₂))
    (threaded : Threaded b' s i (l₁ ++ l₂))
    (static : ∀ y, static (b'.pool.orders y) = static (b.pool.orders y))
    (qty : ∀ y ∈ l₁ ++ l₂, restingQty b' y = restingQty b y)
    (count : (b'.levels s).orderCount i = pred32 ((b.levels s).orderCount i))
    (total : (b'.levels s).totalQty i = wrap32 ((b.levels s).totalQty i - restingQty b x))
    (prices : (b'.levels s).prices i = (b.levels s).prices i) : LevelRep b' s i (l₁ ++ l₂) where
  toThreaded := threaded
  count := by
    have long := rep.length_le
    simp only [List.length_append, List.length_cons, nullIndex] at long
    rw [count, rep.count, List.length_append, List.length_cons, ← Nat.add_assoc,
      pred32_succ (by omega), List.length_append]
  total := by
    have same : (l₁ ++ l₂).map (restingQty b') = (l₁ ++ l₂).map (restingQty b) :=
      List.map_congr_left qty
    rw [total, rep.total, wrap32_wrap32_sub, same]
    congr 1
    simp only [List.map_append, List.map_cons, List.sum_append, List.sum_cons]
    omega
  resting := fun y hy => by
    rw [qty y hy]
    exact rep.resting y (by simp only [List.mem_append, List.mem_cons] at hy ⊢; tauto)
  price := fun y hy => by
    rw [price_of_static (static y), prices]
    exact rep.price y (by simp only [List.mem_append, List.mem_cons] at hy ⊢; tauto)
  side := fun y hy => by
    rw [side_of_static (static y)]
    exact rep.side y (by simp only [List.mem_append, List.mem_cons] at hy ⊢; tauto)

end Removal

end HftGrading.Exchange.Book.LevelQueue
