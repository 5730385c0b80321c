/- module: HftGrading/Exchange/Book/LevelFilling
   source: exchange/include/exchange/orderbook.hpp
   digest: How a level's list sheds filled and cancelled orders and takes on new ones. -/

import HftGrading.Exchange.Book.LevelQueue

set_option autoImplicit false
set_option relaxedAutoImplicit false

namespace HftGrading.Exchange.Book.LevelFilling

open Function (update)
open Lib.IntrusiveList Lib.PriceTimePriority WireProtocol PriceMap LimitBook LevelQueue

variable {b b' b'' : OrderBook} {s : Side} {i : Nat} {l l₁ l₂ : List Nat}

structure Shed (s : Side) (i : Nat) (l gone kept : List Nat) (b b' : OrderBook) : Prop where
  perm : l.Perm (gone ++ kept)
  order : kept.Sublist l
  rep : LevelRep b' s i kept
  frame : Frame s i l b b'
  freed : freeSlots b' = freeSlots b ++ gone
  spent : ∀ x ∈ gone, restingQty b' x = 0
  lower : ∀ x ∈ l, restingQty b' x ≤ restingQty b x

theorem Shed.sum_le {gone kept : List Nat} (shed : Shed s i l gone kept b b')
    (rep : LevelRep b s i l) : (kept.map (restingQty b')).sum ≤ (l.map (restingQty b)).sum := by
  calc (kept.map (restingQty b')).sum
      ≤ (kept.map (restingQty b)).sum :=
        List.sum_le_sum (fun x hx => shed.lower x (shed.order.subset hx))
    _ ≤ (l.map (restingQty b)).sum := by
        apply (shed.order.map _).sum_le_sum
        intro q hq
        obtain ⟨x, hx, rfl⟩ := List.mem_map.mp hq
        exact (rep.resting x hx).le

section Cancelling

variable {x : Nat}

def withdraw (b : OrderBook) (s : Side) (i x : Nat) : OrderBook :=
  ((((b.unlink s i x).takeQty s i (restingQty b x)).dropCount s i).onPool
    (fun P => P.modify x (fun o => { o with remainingQty := 0 }))).onPool (fun P => P.free x)

private theorem withdraw_orders (y : Nat) :
    (withdraw b s i x).pool.orders y =
      if y = x then { (b.unlink s i x).pool.orders x with remainingQty := 0 }
      else (b.unlink s i x).pool.orders y := by
  simp [withdraw]

theorem freeSlots_free (c : OrderBook) (x : Nat) :
    freeSlots (c.onPool (fun P => P.free x)) = freeSlots c ++ [x] := by
  simp only [freeSlots, OrderBook.pool_onPool, OrderPool.free, List.range_succ, List.map_append,
    List.map_cons, List.map_nil, Function.update_self]
  congr 1
  apply List.map_congr_left
  intro j hj
  exact Function.update_of_ne (Nat.ne_of_lt (List.mem_range.mp hj)) _ _

theorem withdraw_qty (rep : LevelRep b s i (l₁ ++ x :: l₂)) (y : Nat) :
    restingQty (withdraw b s i x) y = if y = x then 0 else restingQty b y := by
  rw [restingQty, withdraw_orders]
  split_ifs with e
  · rfl
  · rw [unlink_orders rep.prev_ne]
    rfl

theorem withdraw_shed (rep : LevelRep b s i (l₁ ++ x :: l₂)) :
    Shed s i (l₁ ++ x :: l₂) [x] (l₁ ++ l₂) b (withdraw b s i x) := by
  have apart := rep.prev_ne
  have fresh : x ∉ l₁ ++ l₂ := by
    have nodup := List.nodup_middle.mp rep.nodup
    exact (List.nodup_cons.mp nodup).1
  have frame : Frame s i (l₁ ++ x :: l₂) b (withdraw b s i x) := by
    refine (rep.frame_unlink.mono ?_).trans ?_
    · intro y hy
      simp only [List.mem_append, List.mem_cons] at hy ⊢
      tauto
    · refine ((frame_takeQty _ s i (restingQty b x)).mono (by simp)).trans ?_
      refine ((frame_dropCount _ s i).mono (by simp)).trans ?_
      refine ((frame_modify _ s i x (fun o => { o with remainingQty := 0 })
        (fun _ => rfl)).mono (by simp)).trans ?_
      exact (frame_free _ s i x).mono (by simp)
  have cells := withdraw_orders (b := b) (s := s) (i := i) (x := x)
  refine ⟨?_, ?_, rep.remove ?_ frame.static ?_ ?_ ?_ ?_, frame, ?_, ?_, ?_⟩
  · exact List.perm_middle
  · exact (List.Sublist.refl l₁).append (List.sublist_cons_self x l₂)
  · refine rep.unlink.congr ?_ ?_ ?_ ?_
    · intro y _
      by_cases e : y = x <;> simp [nextOf, cells, e]
    · intro y _
      by_cases e : y = x <;> simp [prevOf, cells, e]
    · simp [withdraw, OrderBook.takeQty, OrderBook.dropCount]
    · simp [withdraw, OrderBook.takeQty, OrderBook.dropCount]
  · intro y hy
    have other : y ≠ x := fun e => fresh (e ▸ hy)
    rw [withdraw_qty rep, if_neg other]
  · simp [withdraw, OrderBook.takeQty, OrderBook.dropCount, unlink_levels apart]
  · simp [withdraw, OrderBook.takeQty, OrderBook.dropCount, unlink_levels apart]
  · rw [frame.prices]
  · rw [withdraw, freeSlots_free, ← freeSlots_unlink (b := b) (s := s) (i := i) (x := x)]
    simp [freeSlots, OrderPool.modify]
  · intro y hy
    rw [withdraw_qty rep, if_pos (List.mem_singleton.mp hy)]
  · intro y hy
    rw [withdraw_qty rep]
    split_ifs
    · exact (rep.resting y hy).le
    · exact le_rfl

theorem closeIfEmpty_onPool (c : OrderBook) (f : OrderPool → OrderPool) :
    (c.onPool f).closeIfEmpty s i = (c.closeIfEmpty s i).map (fun c => c.onPool f) := by
  simp only [OrderBook.closeIfEmpty, OrderBook.levels_onPool]
  split_ifs
  · cases (c.levels s).deactivate i with
    | none => rfl
    | some L => cases s <;> rfl
  · rfl

theorem cancelOrder_eq (inside : x < b.pool.capacity) (rests : 0 < restingQty b x)
    (side : (b.pool.orders x).side = s) (index : (b.pool.orders x).levelIdx = i) :
    b.cancelOrder x = ((withdraw b s i x).closeIfEmpty s i).map (fun c => (true, c)) := by
  subst side index
  unfold restingQty at rests
  simp only [OrderBook.cancelOrder, not_le.mpr inside, not_le.mpr rests, if_false, withdraw,
    closeIfEmpty_onPool, restingQty]
  cases OrderBook.closeIfEmpty _ _ _ <;> rfl

end Cancelling

section Appending

variable {x : Nat}

private theorem append_orders (q : Int) (apart : (b.levels s).tail i ≠ x) (y : Nat) :
    (b.append s i x q).pool.orders y =
      { b.pool.orders y with
        next := if (b.levels s).tail i ≠ nullIndex ∧ y = (b.levels s).tail i then x
          else nextOf b y
        prev := if (b.levels s).tail i ≠ nullIndex ∧ y = x then (b.levels s).tail i
          else prevOf b y } := by
  by_cases empty : (b.levels s).tail i = nullIndex
  · simp [OrderBook.append, OrderBook.hookLast, empty, nextOf, prevOf]
  · by_cases last : y = (b.levels s).tail i
    · subst last
      simp [OrderBook.append, OrderBook.hookLast, empty, prevOf, apart]
    · by_cases new : y = x <;>
        simp [OrderBook.append, OrderBook.hookLast, empty, nextOf, prevOf, last, new, apart.symm]

private theorem append_levels (q : Int) :
    (b.append s i x q).levels s =
      { b.levels s with
        head := if (b.levels s).tail i ≠ nullIndex then (b.levels s).head
          else update (b.levels s).head i x
        tail := update (b.levels s).tail i x
        totalQty := update (b.levels s).totalQty i (wrap32 ((b.levels s).totalQty i + q))
        orderCount := update (b.levels s).orderCount i (succ32 ((b.levels s).orderCount i)) } := by
  by_cases empty : (b.levels s).tail i = nullIndex <;>
    simp [OrderBook.append, OrderBook.hookLast, empty]

def body (o : Order) : Order := { o with next := 0, prev := 0 }

theorem append_body (q : Int) (y : Nat) :
    body ((b.append s i x q).pool.orders y) = body (b.pool.orders y) := by
  by_cases empty : (b.levels s).tail i = nullIndex
  · simp [OrderBook.append, OrderBook.hookLast, empty]
  · by_cases new : y = x <;> by_cases last : x = (b.levels s).tail i <;>
      by_cases last' : y = (b.levels s).tail i <;>
        simp_all [OrderBook.append, OrderBook.hookLast, body]

theorem freeSlots_append (q : Int) : freeSlots (b.append s i x q) = freeSlots b := by
  by_cases empty : (b.levels s).tail i = nullIndex <;>
    simp [OrderBook.append, OrderBook.hookLast, empty, freeSlots, OrderPool.modify]

variable (rep : LevelRep b s i l)
include rep

private theorem tail_mem (inner : (b.levels s).tail i ≠ nullIndex) : (b.levels s).tail i ∈ l := by
  rw [rep.tail] at inner ⊢
  cases l with
  | nil => exact absurd rfl inner
  | cons y l => exact getLastD_mem (by simp) nullIndex

theorem append_frame (q : Int) : Frame s i (x :: l) b (b.append s i x q) := by
  have hook : Frame s i (x :: l) b (b.hookLast s i x) := by
    unfold OrderBook.hookLast
    split_ifs with inner
    · have inside := tail_mem rep inner
      refine ((frame_modify b s i ((b.levels s).tail i) (fun o => { o with next := x })
        (fun _ => rfl)).mono ?_).trans ((frame_modify _ s i x
          (fun o => { o with prev := (b.levels s).tail i }) (fun _ => rfl)).mono (by simp))
      intro y hy
      rw [List.mem_singleton.mp hy]
      exact List.mem_cons_of_mem x inside
    · exact (frame_withLevels b s i _ (by simp [mask])).mono (by simp)
  exact hook.trans ((frame_withLevels _ s i _ (by simp [mask])).mono (by simp))

private theorem tail_ne (real : x < nullIndex) (fresh : x ∉ l) : (b.levels s).tail i ≠ x := by
  intro same
  apply fresh
  rw [← same]
  exact tail_mem rep (same ▸ real.ne)

private theorem append_threaded (q : Int) (real : x < nullIndex) (fresh : x ∉ l)
    (next : nextOf b x = nullIndex) (prev : prevOf b x = nullIndex) :
    Threaded (b.append s i x q) s i (l ++ [x]) := by
  have apart := tail_ne rep real fresh
  have cells := append_orders q apart
  have nodup : (l ++ [x]).Nodup := by
    rw [List.nodup_append]
    refine ⟨rep.nodup, List.nodup_singleton x, ?_⟩
    intro y hy z hz same
    rw [List.mem_singleton.mp hz] at same
    exact fresh (same ▸ hy)
  refine ⟨rep.linked.append rep.nodup ?_ ?_ ?_ ?_ ?_, nodup, ?_, ?_, ?_⟩
  · intro y hy
    have other : y ≠ x := fun e => fresh (e ▸ hy)
    simp [prevOf, cells, other]
  · intro y hy last
    rw [← rep.tail] at last
    have inner : (b.levels s).tail i ≠ nullIndex := last ▸ rep.ne_null hy
    simp [nextOf, cells, last, inner]
  · intro y _ other
    rw [← rep.tail] at other
    simp [nextOf, cells, other]
  · rw [prevOf, cells, ← rep.tail]
    by_cases empty : (b.levels s).tail i = nullIndex <;> simp [empty, prev]
  · simp only [nextOf, cells]
    rw [if_neg (fun h => apart h.2.symm)]
    exact next
  · intro y hy
    rcases List.mem_append.mp hy with old | new
    · exact rep.real y old
    · rw [List.mem_singleton.mp new]
      exact real
  · rw [append_levels, headD_append]
    cases l with
    | nil =>
      have empty : (b.levels s).tail i = nullIndex := rep.tail
      simp [empty]
    | cons y l =>
      have inner : (b.levels s).tail i ≠ nullIndex := by
        rw [rep.tail]
        exact rep.ne_null (getLastD_mem (by simp) nullIndex)
      simp only [if_pos inner, rep.head, List.headD_cons]
  · rw [append_levels, getLastD_append]
    simp

theorem append_rep {q : Int} (real : x < nullIndex) (fresh : x ∉ l) (positive : 0 < q)
    (qty : restingQty b x = q) (next : nextOf b x = nullIndex) (prev : prevOf b x = nullIndex)
    (price : (b.pool.orders x).price = (b.levels s).prices i)
    (side : (b.pool.orders x).side = s) : LevelRep (b.append s i x q) s i (l ++ [x]) := by
  have frame := append_frame (x := x) rep q
  have threaded := append_threaded rep q real fresh next prev
  have long := threaded.length_le
  simp only [List.length_append, List.length_singleton, nullIndex] at long
  have keep : ∀ y, restingQty (b.append s i x q) y = restingQty b y := by
    intro y
    rw [restingQty, append_orders q (tail_ne rep real fresh)]
    rfl
  have static : ∀ y ∈ l ++ [x], (b.pool.orders y).price = (b.levels s).prices i ∧
      (b.pool.orders y).side = s ∧ 0 < restingQty b y := by
    intro y hy
    rcases List.mem_append.mp hy with old | new
    · exact ⟨rep.price y old, rep.side y old, rep.resting y old⟩
    · rw [List.mem_singleton.mp new]
      exact ⟨price, side, qty ▸ positive⟩
  refine ⟨threaded, ?_, ?_, ?_, ?_, ?_⟩
  · rw [append_levels]
    simp only [Function.update_self, rep.count, List.length_append, List.length_singleton]
    exact succ32_of_lt (by omega)
  · have same : (l ++ [x]).map (restingQty (b.append s i x q)) = (l ++ [x]).map (restingQty b) :=
      List.map_congr_left (fun y _ => keep y)
    rw [append_levels, same]
    simp [rep.total, qty]
  · exact fun y hy => (keep y).symm ▸ (static y hy).2.2
  · exact fun y hy => by rw [price_of_static (frame.static y), frame.prices, (static y hy).1]
  · exact fun y hy => by rw [side_of_static (frame.static y), (static y hy).2.1]

end Appending

section Filling

open OrderBook (Matching MatchResult fillStep matchLevel)

def lot (b : OrderBook) (x : Nat) : Lot Nat Int := ⟨x, (b.pool.orders x).price, restingQty b x⟩

def results (cid : Nat) (fills : List (Lot Nat Int)) : List MatchResult :=
  fills.map (fun f => ⟨f.ref, cid, f.price, f.qty⟩)

/-- `remaining_qty -= q` on the order and `total_qty -= q` on its level. -/
private def consume (b : OrderBook) (s : Side) (i x : Nat) (q : Int) : OrderBook :=
  (b.onPool (fun P => P.modify x (fun o => { o with remainingQty := o.remainingQty - q }))).takeQty
    s i q

private def retire (b : OrderBook) (s : Side) (i x : Nat) : OrderBook :=
  ((b.unlink s i x).dropCount s i).onPool (fun P => P.free x)

private theorem consume_orders (x y : Nat) (q : Int) : (consume b s i x q).pool.orders y =
    if y = x then { b.pool.orders x with remainingQty := restingQty b x - q }
    else b.pool.orders y := by
  simp [consume, restingQty]

private theorem consume_levels (x : Nat) (q : Int) : (consume b s i x q).levels s =
    { b.levels s with
      totalQty := update (b.levels s).totalQty i (wrap32 ((b.levels s).totalQty i - q)) } := by
  simp [consume, OrderBook.takeQty]

private theorem consume_frame (x : Nat) (q : Int) : Frame s i [x] b (consume b s i x q) :=
  (frame_modify b s i x (fun o => { o with remainingQty := o.remainingQty - q })
    (fun _ => rfl)).trans ((frame_takeQty _ s i q).mono (by simp))

private theorem freeSlots_consume (x : Nat) (q : Int) :
    freeSlots (consume b s i x q) = freeSlots b := by
  simp [freeSlots, consume, OrderPool.modify]

private theorem consume_threaded (threaded : Threaded b s i l) (x : Nat) (q : Int) :
    Threaded (consume b s i x q) s i l := by
  refine threaded.congr ?_ ?_ ?_ ?_
  · intro y _
    by_cases e : y = x <;> simp [nextOf, consume_orders, e]
  · intro y _
    by_cases e : y = x <;> simp [prevOf, consume_orders, e]
  · rw [consume_levels]
  · rw [consume_levels]

variable {x : Nat} {m : Matching} (cid : Nat)

private theorem part_shed (rep : LevelRep b s i (x :: l)) {q : Int} (positive : 0 < q)
    (less : q < restingQty b x) :
    Shed s i (x :: l) [] (x :: l) b (consume b s i x q) := by
  have fresh : x ∉ l := (List.nodup_cons.mp rep.nodup).1
  have qty : l.map (restingQty (consume b s i x q)) = l.map (restingQty b) := by
    apply List.map_congr_left
    intro y hy
    have other : y ≠ x := fun e => fresh (e ▸ hy)
    simp [restingQty, consume_orders, other]
  have frame := consume_frame (b := b) (s := s) (i := i) x q
  refine ⟨List.Perm.refl _, List.Sublist.refl _,
    ⟨consume_threaded rep.toThreaded x q, ?_, ?_, ?_, ?_, ?_⟩, frame.mono (by simp), ?_, by simp, ?_⟩
  · rw [consume_levels]
    exact rep.count
  · rw [consume_levels]
    simp only [Function.update_self, rep.total, List.map_cons, List.sum_cons, qty,
      wrap32_wrap32_sub]
    simp only [restingQty, consume_orders, if_true]
    congr 1
    omega
  · intro y hy
    by_cases e : y = x
    · simp only [restingQty, consume_orders, if_pos e]
      unfold restingQty at less
      omega
    · simp only [restingQty, consume_orders, if_neg e]
      exact rep.resting y hy
  · intro y hy
    rw [price_of_static (frame.static y), frame.prices]
    exact rep.price y hy
  · intro y hy
    rw [side_of_static (frame.static y)]
    exact rep.side y hy
  · rw [freeSlots_consume, List.append_nil]
  · intro y _
    by_cases e : y = x
    · subst e
      simp only [restingQty, consume_orders, if_true]
      omega
    · simp only [restingQty, consume_orders, if_neg e, le_refl]

private theorem retire_orders (c : OrderBook) (y : Nat) :
    (retire c s i x).pool.orders y = (c.unlink s i x).pool.orders y := by
  simp [retire]

private theorem retire_qty (rep : LevelRep b s i (x :: l)) (y : Nat) :
    restingQty (retire (consume b s i x (restingQty b x)) s i x) y =
      if y = x then 0 else restingQty b y := by
  have threaded : Threaded (consume b s i x (restingQty b x)) s i ([] ++ x :: l) :=
    consume_threaded rep.toThreaded x (restingQty b x)
  rw [restingQty, retire_orders, unlink_orders threaded.prev_ne]
  simp only [consume_orders]
  split_ifs with e
  · exact sub_self _
  · rfl

private theorem whole_shed (rep : LevelRep b s i (x :: l)) :
    Shed s i (x :: l) [x] l b (retire (consume b s i x (restingQty b x)) s i x) := by
  have fresh : x ∉ l := (List.nodup_cons.mp rep.nodup).1
  have threaded : Threaded (consume b s i x (restingQty b x)) s i ([] ++ x :: l) :=
    consume_threaded rep.toThreaded x (restingQty b x)
  have apart := threaded.prev_ne
  have frame : Frame s i (x :: l) b (retire (consume b s i x (restingQty b x)) s i x) := by
    refine ((consume_frame x (restingQty b x)).mono (by simp)).trans ?_
    refine (threaded.frame_unlink.mono ?_).trans ?_
    · exact fun y hy => List.mem_cons_of_mem x hy
    · exact ((frame_dropCount _ s i).mono (by simp)).trans ((frame_free _ s i x).mono (by simp))
  refine ⟨List.Perm.refl _, List.sublist_cons_self x l, ?_, frame, ?_, ?_, ?_⟩
  · have rep : LevelRep b s i ([] ++ x :: l) := rep
    refine rep.remove ?_ frame.static ?_ ?_ ?_ ?_
    · refine threaded.unlink.congr ?_ ?_ ?_ ?_
      · intro y _
        rw [nextOf, retire_orders, nextOf]
      · intro y _
        rw [prevOf, retire_orders, prevOf]
      · simp [retire, OrderBook.dropCount]
      · simp [retire, OrderBook.dropCount]
    · intro y hy
      have other : y ≠ x := fun e => fresh (e ▸ hy)
      rw [retire_qty rep, if_neg other]
    · simp [retire, OrderBook.dropCount, unlink_levels apart, consume_levels]
    · simp [retire, OrderBook.dropCount, unlink_levels apart, consume_levels]
    · rw [frame.prices]
  · rw [retire, freeSlots_free]
    congr 1
    rw [← freeSlots_consume (b := b) (s := s) (i := i) x (restingQty b x),
      ← freeSlots_unlink (b := consume b s i x (restingQty b x)) (s := s) (i := i) (x := x)]
    simp [freeSlots]
  · intro y hy
    rw [retire_qty rep, if_pos (List.mem_singleton.mp hy)]
  · intro y hy
    rw [retire_qty rep]
    split_ifs
    · exact (rep.resting y hy).le
    · exact le_rfl

theorem fillStep_part (rep : LevelRep m.book s i (x :: l)) (wanted : 0 < m.remaining)
    (less : m.remaining < restingQty m.book x) :
    Shed s i (x :: l) [] (x :: l) m.book (fillStep s i cid x m).book ∧
      (fillStep s i cid x m).book.pool.orders x =
        { m.book.pool.orders x with remainingQty := restingQty m.book x - m.remaining } ∧
      (∀ y ≠ x, (fillStep s i cid x m).book.pool.orders y = m.book.pool.orders y) ∧
      (fillStep s i cid x m).fills =
        m.fills ++ results cid [⟨x, (m.book.pool.orders x).price, m.remaining⟩] ∧
      (fillStep s i cid x m).remaining = 0 := by
  have alive : restingQty m.book x - m.remaining ≠ 0 := by omega
  have step : fillStep s i cid x m =
      ⟨consume m.book s i x m.remaining,
        m.fills ++ results cid [⟨x, (m.book.pool.orders x).price, m.remaining⟩], 0⟩ := by
    unfold restingQty at less alive
    simp [fillStep, less, alive, results, consume]
  rw [step]
  refine ⟨part_shed rep wanted less, by simp [consume_orders], ?_, rfl, rfl⟩
  intro y other
  simp [consume_orders, other]

theorem fillStep_whole (rep : LevelRep m.book s i (x :: l))
    (enough : restingQty m.book x ≤ m.remaining) :
    Shed s i (x :: l) [x] l m.book (fillStep s i cid x m).book ∧
      (∀ y ≠ x, restingQty (fillStep s i cid x m).book y = restingQty m.book y) ∧
      (fillStep s i cid x m).fills = m.fills ++ results cid [lot m.book x] ∧
      (fillStep s i cid x m).remaining = m.remaining - restingQty m.book x := by
  have step : fillStep s i cid x m =
      ⟨retire (consume m.book s i x (restingQty m.book x)) s i x,
        m.fills ++ results cid [lot m.book x], m.remaining - restingQty m.book x⟩ := by
    unfold restingQty at enough
    simp [fillStep, not_lt.mpr enough, results, lot, restingQty, consume, retire]
  rw [step]
  refine ⟨whole_shed rep, ?_, rfl, rfl⟩
  intro y other
  rw [retire_qty rep, if_neg other]

theorem matchLevel_idle (room y : Nat) (idle : m.remaining ≤ 0) : matchLevel s i cid room y m = m := by
  cases room with
  | zero => rfl
  | succ room => simp [matchLevel, not_lt.mpr idle]

private theorem matchLevel_fill (room : Nat) (real : x ≠ nullIndex) (wanted : 0 < m.remaining) :
    matchLevel s i cid (room + 1) x m =
      matchLevel s i cid room (m.book.pool.orders x).next (fillStep s i cid x m) :=
  if_pos ⟨real, wanted⟩

private theorem Shed.start (rep : LevelRep b s i l) : Shed s i l [] l b b :=
  ⟨List.Perm.refl l, List.Sublist.refl l, rep, Frame.refl s i l b, by simp, by simp,
    fun _ _ => le_rfl⟩

private theorem Shed.cons {gone kept : List Nat} (nodup : (x :: l).Nodup)
    (first : Shed s i (x :: l) [x] l b b') (later : Shed s i l gone kept b' b'') :
    Shed s i (x :: l) (x :: gone) kept b b'' where
  perm := later.perm.cons x
  order := later.order.trans (List.sublist_cons_self x l)
  rep := later.rep
  frame := first.frame.trans (later.frame.mono (fun _ hy => List.mem_cons_of_mem x hy))
  freed := by
    rw [later.freed, first.freed, List.append_assoc]
    rfl
  spent := fun y hy => by
    rcases List.mem_cons.mp hy with rfl | hy
    · have fresh := (List.nodup_cons.mp nodup).1
      rw [restingQty, later.frame.orders y fresh]
      exact first.spent y (by simp)
    · exact later.spent y hy
  lower := fun y hy => by
    rcases List.mem_cons.mp hy with rfl | old
    · have fresh := (List.nodup_cons.mp nodup).1
      rw [restingQty, later.frame.orders y fresh]
      exact first.lower y hy
    · exact (later.lower y old).trans (first.lower y hy)

theorem matchLevel_sweep (room : Nat) (m : Matching) (l : List Nat) (rep : LevelRep m.book s i l) :
    (matchLevel s i cid room (l.headD nullIndex) m).fills = m.fills ++ results cid
        (sweep (fun _ => True) room m.remaining (l.map (lot m.book))).fills ∧
      (matchLevel s i cid room (l.headD nullIndex) m).remaining =
        (sweep (fun _ => True) room m.remaining (l.map (lot m.book))).left ∧
      ∃ gone kept,
        Shed s i l gone kept m.book (matchLevel s i cid room (l.headD nullIndex) m).book ∧
          kept.map (lot (matchLevel s i cid room (l.headD nullIndex) m).book) =
            (sweep (fun _ => True) room m.remaining (l.map (lot m.book))).rest := by
  induction room generalizing m l with
  | zero => simpa [matchLevel, results] using ⟨[], l, Shed.start rep, rfl⟩
  | succ room ih =>
    by_cases idle : m.remaining ≤ 0
    · rw [matchLevel_idle cid _ _ idle, sweep_done idle]
      simpa [results] using ⟨[], l, Shed.start rep, rfl⟩
    have wanted : 0 < m.remaining := not_le.mp idle
    cases l with
    | nil =>
      refine ⟨by simp [matchLevel, results], by simp [matchLevel], [], [], ?_, by simp⟩
      simpa [matchLevel] using Shed.start rep
    | cons x l =>
      have next : (m.book.pool.orders x).next = l.headD nullIndex := rep.linked.2.1
      have fresh : x ∉ l := (List.nodup_cons.mp rep.nodup).1
      rw [List.headD_cons, matchLevel_fill cid room (rep.ne_null (by simp)) wanted, next,
        List.map_cons]
      by_cases less : m.remaining < restingQty m.book x
      · obtain ⟨shed, cell, others, fills, left⟩ := fillStep_part cid rep wanted less
        rw [matchLevel_idle cid _ _ left.le, sweep_part wanted trivial less, fills, left]
        refine ⟨rfl, rfl, [], x :: l, shed, ?_⟩
        rw [List.map_cons]
        congr 1
        · rw [lot, restingQty, cell]
          rfl
        · apply List.map_congr_left
          intro y hy
          rw [lot, restingQty, others y (fun e => fresh (e ▸ hy))]
          rfl
      · have enough : restingQty m.book x ≤ m.remaining := not_lt.mp less
        obtain ⟨shed, same, fills, left⟩ := fillStep_whole cid rep enough
        have lots : l.map (lot (fillStep s i cid x m).book) = l.map (lot m.book) := by
          apply List.map_congr_left
          intro y hy
          rw [lot, same y (fun e => fresh (e ▸ hy)),
            price_of_static (shed.frame.static y), lot]
        obtain ⟨fills', left', gone, kept, later, rest⟩ := ih _ l shed.rep
        rw [lots, left] at fills' left' rest
        rw [sweep_whole wanted trivial enough, fills', left', fills]
        refine ⟨by simp [results, lot], rfl, x :: gone, kept, shed.cons rep.nodup later, ?_⟩
        exact rest

end Filling

end HftGrading.Exchange.Book.LevelFilling
