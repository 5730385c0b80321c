/- module: HftGrading/Exchange/Book/BookRep
   source: exchange/include/exchange/orderbook.hpp
   digest: The representation invariant of the whole book, and what each operation does to it. -/

import HftGrading.Exchange.Book.MatchRounds

set_option autoImplicit false
set_option relaxedAutoImplicit false

namespace HftGrading.Exchange.Book.BookRep

open Function (update)
open Lib.PriceTimePriority WireProtocol PriceMap LimitBook
open LimitBook.OrderBook (Matching)
open LevelSearch LevelQueue LevelFilling MatchRounds

abbrev Queues := Side → Nat → List Nat

def place (Q : Queues) (s : Side) (i : Nat) (l : List Nat) : Queues := update Q s (update (Q s) i l)

section Place

variable {Q : Queues} {s t : Side} {i j : Nat} {l : List Nat}

@[simp] theorem place_self : place Q s i l s i = l := by simp [place]

theorem place_other (other : t ≠ s ∨ j ≠ i) : place Q s i l t j = Q t j := by
  by_cases side : t = s
  · subst side
    simp [place, other.resolve_left (fun h => h rfl)]
  · simp [place, side]

theorem place_forall {C : Side → Nat → List Nat → Prop} (here : C s i l)
    (there : ∀ t j, (t ≠ s ∨ j ≠ i) → C t j (Q t j)) (t : Side) (j : Nat) :
    C t j (place Q s i l t j) := by
  by_cases same : t = s ∧ j = i
  · obtain ⟨rfl, rfl⟩ := same
    rwa [place_self]
  · have other : t ≠ s ∨ j ≠ i := not_and_or.mp same
    rw [place_other other]
    exact there t j other

theorem mem_place_append {x y : Nat} :
    y ∈ place Q s i (Q s i ++ [x]) t j ↔ y ∈ Q t j ∨ (t = s ∧ j = i ∧ y = x) := by
  by_cases same : t = s ∧ j = i
  · obtain ⟨rfl, rfl⟩ := same
    rw [place_self, List.mem_append, List.mem_singleton]
    exact or_congr_right (by simp)
  · rw [place_other (not_and_or.mp same)]
    exact ⟨Or.inl, fun h => h.resolve_right fun new => same ⟨new.1, new.2.1⟩⟩

theorem place_append_ne_nil {x : Nat} :
    place Q s i (Q s i ++ [x]) t j ≠ [] ↔ (t = s ∧ j = i) ∨ Q t j ≠ [] := by
  by_cases same : t = s ∧ j = i
  · obtain ⟨rfl, rfl⟩ := same
    simp
  · rw [place_other (not_and_or.mp same)]
    exact ⟨Or.inr, fun h => h.resolve_left same⟩

end Place

structure Rep (b : OrderBook) (Q : Queues) : Prop where
  level : ∀ s i, LevelRep b s i (Q s i)
  index : ∀ s i, ∀ x ∈ Q s i, (b.pool.orders x).levelIdx = i
  active : ∀ s i, (b.levels s).active i = true ↔ Q s i ≠ []
  bound : ∀ s i, Q s i ≠ [] → i < (b.levels s).count
  mapped : ∀ s, Mapped (b.levels s)
  aged : ∀ s i, (Q s i).Pairwise
    (fun x y => (b.pool.orders x).exchangeId < (b.pool.orders y).exchangeId)
  issued : ∀ s i, ∀ x ∈ Q s i, (b.pool.orders x).exchangeId < b.nextExchangeId
  capacity : b.pool.capacity = maxOrders * 2
  inside : ∀ s i, ∀ x ∈ Q s i, x < b.pool.capacity
  distinct : (freeSlots b).Nodup
  slots : ∀ x, x ∈ freeSlots b ↔ x < b.pool.capacity ∧ ∀ s i, x ∉ Q s i

variable {b b₁ b' : OrderBook} {Q : Queues} {s : Side} {i : Nat}

theorem Rep.queue_eq (rep : Rep b Q) : b.queue = Q := by
  funext s i
  exact (rep.level s i).queue_eq

theorem Rep.apart (rep : Rep b Q) {t : Side} {j x : Nat} (hx : x ∈ Q s i) (hx' : x ∈ Q t j) :
    t = s ∧ j = i := by
  have side := (rep.level s i).side x hx
  have side' := (rep.level t j).side x hx'
  exact ⟨side'.symm.trans side, (rep.index t j x hx').symm.trans (rep.index s i x hx)⟩

theorem Rep.not_mem (rep : Rep b Q) {t : Side} {j x : Nat} (other : t ≠ s ∨ j ≠ i)
    (hx : x ∈ Q t j) : x ∉ Q s i := by
  intro hx'
  obtain ⟨side, index⟩ := rep.apart hx' hx
  exact other.elim (fun h => h side) (fun h => h index)

theorem Rep.ready (rep : Rep b Q) (c : Side) : Ready b c (Q c) where
  mapped := rep.mapped c
  level := fun i _ => rep.level c i
  apart := fun _ _ _ _ other _ hx => rep.not_mem (Or.inr other) hx

theorem Rep.active_iff (rep : Rep b Q) : Active (b.levels s) i ↔ Q s i ≠ [] :=
  ⟨fun h => (rep.active s i).mp h.2, fun h => ⟨rep.bound s i h, (rep.active s i).mpr h⟩⟩

private theorem freeSlots_init : freeSlots OrderBook.init =
    (List.range (maxOrders * 2)).map (fun i => maxOrders * 2 - 1 - i) := rfl

theorem rep_init : Rep OrderBook.init (fun _ _ => []) where
  level := fun s _ => by cases s <;> exact levelRep_nil rfl rfl rfl rfl
  index := by simp
  active := fun s _ => by cases s <;> simp [OrderBook.init, OrderBook.levels, PriceLevelPool.init]
  bound := by simp
  mapped := fun s => by cases s <;> exact mapped_init
  aged := fun _ _ => List.Pairwise.nil
  issued := by simp
  capacity := rfl
  inside := by simp
  distinct := by
    rw [freeSlots_init, List.nodup_map_iff_inj_on List.nodup_range]
    intro i hi j hj same
    have hi := List.mem_range.mp hi
    have hj := List.mem_range.mp hj
    omega
  slots := fun x => by
    have capacity : OrderBook.init.pool.capacity = maxOrders * 2 := rfl
    rw [freeSlots_init, List.mem_map, capacity]
    constructor
    · rintro ⟨i, hi, rfl⟩
      have hi := List.mem_range.mp hi
      exact ⟨by omega, by simp⟩
    · rintro ⟨hx, -⟩
      exact ⟨maxOrders * 2 - 1 - x, List.mem_range.mpr (by omega), by omega⟩

theorem Rep.same (rep : Rep b Q)
    (orders : ∀ s i, ∀ x ∈ Q s i, b'.pool.orders x = b.pool.orders x)
    (capacity : b'.pool.capacity = b.pool.capacity) (free : freeSlots b' = freeSlots b)
    (ids : b.nextExchangeId ≤ b'.nextExchangeId)
    (levels : ∀ s, ∃ r, b'.levels s = { b.levels s with bestIdx := r }) : Rep b' Q where
  level := fun s i => by
    obtain ⟨r, same⟩ := levels s
    apply (rep.level s i).congr (orders s i) <;> rw [same]
  index := fun s i x hx => by
    rw [orders s i x hx]
    exact rep.index s i x hx
  active := fun s i => by
    obtain ⟨r, same⟩ := levels s
    rw [same]
    exact rep.active s i
  bound := fun s i => by
    obtain ⟨r, same⟩ := levels s
    rw [same]
    exact rep.bound s i
  mapped := fun s => by
    obtain ⟨r, same⟩ := levels s
    rw [same]
    exact (rep.mapped s).congr rfl rfl rfl rfl
  aged := fun s i => by
    refine (rep.aged s i).imp_of_mem ?_
    intro x y hx hy less
    rwa [orders s i x hx, orders s i y hy]
  issued := fun s i x hx => by
    rw [orders s i x hx]
    exact (rep.issued s i x hx).trans_le ids
  capacity := capacity.trans rep.capacity
  inside := by
    rw [capacity]
    exact rep.inside
  distinct := by
    rw [free]
    exact rep.distinct
  slots := by
    rw [free, capacity]
    exact rep.slots

theorem Rep.same_pool (rep : Rep b Q) (pool : b'.pool = b.pool)
    (ids : b'.nextExchangeId = b.nextExchangeId)
    (levels : ∀ s, ∃ r, b'.levels s = { b.levels s with bestIdx := r }) : Rep b' Q :=
  rep.same (fun _ _ _ _ => by rw [pool]) (by rw [pool]) (by rw [freeSlots, pool, freeSlots])
    ids.ge levels

theorem Rep.look (rep : Rep b Q) (c : Side) : Rep (look b c) Q := by
  refine rep.same_pool look_pool (by simp [MatchRounds.look]) (fun s => ?_)
  rcases Side.eq_or_eq_contra c s with rfl | rfl
  · exact ⟨_, look_levels⟩
  · exact ⟨_, look_levels_contra⟩

section Shedding

variable {gone kept : List Nat}

theorem Rep.free_settle (rep : Rep b Q) (split : (Q s i).Perm (gone ++ kept)) :
    (freeSlots b ++ gone).Nodup ∧ ∀ x, x ∈ freeSlots b ++ gone ↔
      x < b.pool.capacity ∧ ∀ t j, x ∉ place Q s i kept t j := by
  have members : ∀ x, x ∈ Q s i ↔ x ∈ gone ∨ x ∈ kept := by
    intro x
    rw [split.mem_iff, List.mem_append]
  have listed : ∀ x t j, x ∈ place Q s i kept t j → x ∈ Q t j := fun x =>
    place_forall (C := fun t j l => x ∈ l → x ∈ Q t j) (fun hx => (members x).mpr (Or.inr hx))
      (fun _ _ _ hx => hx)
  obtain ⟨gone_nodup, -, apart⟩ := List.nodup_append.mp
    (split.nodup_iff.mp (rep.level s i).nodup)
  constructor
  · refine List.nodup_append.mpr ⟨rep.distinct, gone_nodup, ?_⟩
    rintro x hx y hy rfl
    exact ((rep.slots x).mp hx).2 s i ((members x).mpr (Or.inl hy))
  · intro x
    rw [List.mem_append, rep.slots]
    constructor
    · rintro (⟨range, unlisted⟩ | left)
      · exact ⟨range, fun t j hx => unlisted t j (listed x t j hx)⟩
      · have here := (members x).mpr (Or.inl left)
        refine ⟨rep.inside s i x here, ?_⟩
        exact place_forall (C := fun _ _ l => x ∉ l) (fun hx => apart x left x hx rfl)
          (fun t j other hx => rep.not_mem other hx here)
    · rintro ⟨range, unlisted⟩
      by_cases left : x ∈ gone
      · exact Or.inr left
      · refine Or.inl ⟨range, fun t j hx => ?_⟩
        by_cases same : t = s ∧ j = i
        · obtain ⟨rfl, rfl⟩ := same
          have stays := ((members x).mp hx).resolve_left left
          exact unlisted t j (by rwa [place_self])
        · exact unlisted t j (by rwa [place_other (not_and_or.mp same)])

theorem Rep.active_settle (rep : Rep b Q) (shed : Shed s i (Q s i) gone kept b b₁)
    (settled : Settled s i kept b₁ b') (t : Side) (j : Nat) :
    (b'.levels t).active j = true ↔ place Q s i kept t j ≠ [] := by
  have frame := shed.frame
  rcases Side.eq_or_eq_contra s t with rfl | rfl
  · rw [settled.active_iff, frame.active, rep.active]
    by_cases e : j = i
    · subst e
      rw [place_self]
      constructor
      · exact fun h => h.2 rfl
      · intro some_left
        refine ⟨?_, fun _ => some_left⟩
        obtain ⟨x, hx⟩ := List.exists_mem_of_ne_nil _ some_left
        exact List.ne_nil_of_mem (shed.order.subset hx)
    · rw [place_other (Or.inr e)]
      exact ⟨fun h => h.1, fun h => ⟨h, fun h' => absurd h' e⟩⟩
  · rw [settled.contra, frame.contra, place_other (Or.inl s.contra_ne)]
    exact rep.active s.contra j

theorem Rep.settle (rep : Rep b Q) (shed : Shed s i (Q s i) gone kept b b₁)
    (settled : Settled s i kept b₁ b') : Rep b' (place Q s i kept) := by
  have frame := shed.frame
  have listed : ∀ t j, ∀ x ∈ place Q s i kept t j, x ∈ Q t j :=
    place_forall (C := fun t j l => ∀ x ∈ l, x ∈ Q t j) (fun x hx => shed.order.subset hx)
      (fun _ _ _ _ hx => hx)
  have static : ∀ x, static (b'.pool.orders x) = static (b.pool.orders x) := by
    intro x
    rw [settled.pool]
    exact frame.static x
  have capacity : b'.pool.capacity = b.pool.capacity := by rw [settled.pool, frame.capacity]
  have free : freeSlots b' = freeSlots b ++ gone := by
    rw [freeSlots, settled.pool]
    exact shed.freed
  obtain ⟨distinct, slots⟩ := rep.free_settle shed.perm
  refine ⟨?_, ?_, rep.active_settle shed settled, ?_, ?_, ?_, ?_, capacity.trans rep.capacity, ?_,
    free ▸ distinct, ?_⟩
  · refine place_forall (settled.levelRep shed.rep) ?_
    intro t j other
    exact settled.levelRep (frame.levelRep (rep.level t j) other
      (fun x hx => rep.not_mem other hx))
  · intro t j x hx
    rw [levelIdx_of_static (static x)]
    exact rep.index t j x (listed t j x hx)
  · intro t j some_left
    have old : Q t j ≠ [] := by
      obtain ⟨x, hx⟩ := List.exists_mem_of_ne_nil _ some_left
      exact List.ne_nil_of_mem (listed t j x hx)
    rcases Side.eq_or_eq_contra s t with rfl | rfl
    · rw [settled.count, frame.count]
      exact rep.bound t j old
    · rw [settled.contra, frame.contra]
      exact rep.bound s.contra j old
  · intro t
    rcases Side.eq_or_eq_contra s t with rfl | rfl
    · exact settled.mapped ((rep.mapped t).congr frame.priceMap frame.count frame.prices
        frame.levelCapacity)
    · rw [settled.contra, frame.contra]
      exact rep.mapped s.contra
  · have same : (fun x y => (b'.pool.orders x).exchangeId < (b'.pool.orders y).exchangeId) =
        (fun x y => (b.pool.orders x).exchangeId < (b.pool.orders y).exchangeId) := by
      funext x y
      rw [exchangeId_of_static (static x), exchangeId_of_static (static y)]
    rw [same]
    exact place_forall ((rep.aged s i).sublist shed.order) (fun t j _ => rep.aged t j)
  · intro t j x hx
    rw [exchangeId_of_static (static x), settled.nextExchangeId, frame.nextExchangeId]
    exact rep.issued t j x (listed t j x hx)
  · intro t j x hx
    rw [capacity]
    exact rep.inside t j x (listed t j x hx)
  · intro x
    rw [free, capacity]
    exact slots x

theorem Rep.cancelOrder (rep : Rep b Q) {x : Nat} (hx : x ∈ Q s i) :
    ∃ b₁ b', b.cancelOrder x = some (true, b') ∧
      Shed s i (Q s i) [x] ((Q s i).erase x) b b₁ ∧ Settled s i ((Q s i).erase x) b₁ b' ∧
      (∀ y, y ≠ x → restingQty b' y = restingQty b y) ∧
      Rep b' (place Q s i ((Q s i).erase x)) := by
  have level := rep.level s i
  obtain ⟨l₁, l₂, split⟩ := List.append_of_mem hx
  have erased : (Q s i).erase x = l₁ ++ l₂ := by
    have fresh : x ∉ l₁ := by
      have nodup := level.nodup
      rw [split, List.nodup_middle, List.nodup_cons] at nodup
      exact fun h => nodup.1 (List.mem_append_left l₂ h)
    rw [split, List.erase_append_right _ fresh, List.erase_cons_head]
  have shed : Shed s i (Q s i) [x] ((Q s i).erase x) b (withdraw b s i x) := by
    rw [erased, split]
    exact withdraw_shed (split ▸ level)
  have frame := shed.frame
  obtain ⟨b', closing, settled⟩ := closeIfEmpty_settled shed.rep
    ((rep.mapped s).congr frame.priceMap frame.count frame.prices frame.levelCapacity)
  refine ⟨withdraw b s i x, b', ?_, shed, settled, fun y other => ?_, rep.settle shed settled⟩
  · rw [cancelOrder_eq (rep.inside s i x hx) (level.resting x hx) (level.side x hx)
      (rep.index s i x hx), closing]
    rfl
  · rw [restingQty, settled.pool, ← restingQty, withdraw_qty (split ▸ level), if_neg other]

end Shedding

section Matching

variable {aggressor : Side} {price : Int} {cid maxFills : Nat}

theorem Rep.round {m m' : Matching} {R : Nat → List Nat} {best : Nat} {gone kept : List Nat}
    (rep : Rep m.book (update Q aggressor.contra R))
    (round : Round aggressor price cid maxFills R best gone kept b₁ m m') :
    Rep m'.book (update Q aggressor.contra (update R best kept)) := by
  have shed := round.shed
  have looked := rep.look aggressor.contra
  have here : R best = update Q aggressor.contra R aggressor.contra best := by simp
  rw [here] at shed
  have next := looked.settle shed round.settled
  simpa [place] using next

end Matching

section Adding

variable (b : OrderBook) (cid : Nat) (client : UInt32) (s : Side) (price quantity : Int)
  (ts x : Nat)

/-- The book once the top free slot `x` has been taken and filled in. -/
def stamped : OrderBook :=
  { b with
    pool := ({ b.pool with freeTop := b.pool.freeTop - 1 } : OrderPool).modify x
      (OrderBook.fillCell b.nextExchangeId cid client s price quantity ts)
    nextExchangeId := b.nextExchangeId + 1 }

/-- The book once the level `i` of the new order is known and its cell says so. -/
def prepared (i : Nat) (L : PriceLevelPool) : OrderBook :=
  ((stamped b cid client s price quantity ts x).withLevels s L).onPool
    (fun P => P.modify x (fun o => { o with levelIdx := i }))

def rested (i : Nat) (L : PriceLevelPool) : OrderBook :=
  let c := ((prepared b cid client s price quantity ts x i L).append s i x quantity).onLevels s
    (fun L => L.updateBest s i)
  { c with totalOrders := c.totalOrders + 1 }

/-- The three ways an `add_order` can end. -/
inductive Added : Nat → OrderBook → Prop
  | exhausted (none_free : b.pool.freeTop = 0) : Added nullIndex b
  | unleveled (x : Nat) (top : ∃ rest, freeSlots b = rest ++ [x])
      (no_room : (b.levels s).capacity ≤ (b.levels s).count)
      (missed : Missed (b.levels s) price) :
      Added nullIndex ((stamped b cid client s price quantity ts x).onPool (fun P => P.free x))
  | rests (x i : Nat) (L : PriceLevelPool) (top : ∃ rest, freeSlots b = rest ++ [x])
      (located : Located (b.levels s) price i L) (real : i ≠ nullIndex)
      (lookup : (b.levels s).findOrCreate price = some (i, L)) :
      Added x (rested b cid client s price quantity ts x i L)

variable {b cid client s price quantity ts x}

theorem Rep.top_lt (rep : Rep b Q) (top : ∃ rest, freeSlots b = rest ++ [x]) : x < nullIndex := by
  obtain ⟨rest, split⟩ := top
  have free : x ∈ freeSlots b := by simp [split]
  have range := ((rep.slots x).mp free).1
  rw [rep.capacity] at range
  unfold maxOrders at range
  unfold nullIndex
  omega

variable (cid client s price quantity ts) in
theorem addOrder_added (rep : Rep b Q) :
    ∃ r b', b.addOrder cid client s price quantity ts = some (r, b') ∧
      Added b cid client s price quantity ts r b' := by
  by_cases none_free : b.pool.freeTop = 0
  · exact ⟨nullIndex, b, by simp [OrderBook.addOrder, OrderPool.alloc, none_free],
      .exhausted none_free⟩
  generalize slot : b.pool.freeList (b.pool.freeTop - 1) = x
  have top : ∃ rest, freeSlots b = rest ++ [x] := by
    refine ⟨(List.range (b.pool.freeTop - 1)).map b.pool.freeList, ?_⟩
    obtain ⟨n, hn⟩ := Nat.exists_eq_succ_of_ne_zero none_free
    rw [hn] at slot
    simp only [freeSlots, hn, List.range_succ, List.map_append, List.map_cons, List.map_nil,
      Nat.succ_eq_add_one, Nat.add_sub_cancel] at slot ⊢
    rw [slot]
  have real : x ≠ nullIndex := (rep.top_lt top).ne
  have levels : (stamped b cid client s price quantity ts x).levels s = b.levels s := by
    cases s <;> rfl
  obtain ⟨i, L, lookup, located⟩ := findOrCreate_located (rep.mapped s) price
  have run : b.addOrder cid client s price quantity ts =
      if i = nullIndex then
        some (nullIndex, (stamped b cid client s price quantity ts x).onPool (fun P => P.free x))
      else some (x, rested b cid client s price quantity ts x i L) := by
    have step : b.addOrder cid client s price quantity ts =
        ((stamped b cid client s price quantity ts x).levels s).findOrCreate price >>=
          fun r => if r.1 = nullIndex then
            some (nullIndex, (stamped b cid client s price quantity ts x).onPool
              (fun P => P.free x))
          else some (x, rested b cid client s price quantity ts x r.1 r.2) := by
      simp only [OrderBook.addOrder, OrderPool.alloc, none_free, if_false, slot, real]
      rfl
    rw [step, levels, lookup]
    rfl
  cases located with
  | existing i active at_price =>
    have lt := (rep.mapped s).lt_nullIndex active.1
    rw [if_neg lt.ne] at run
    exact ⟨_, _, run, .rests x i _ top (.existing i active at_price) lt.ne lookup⟩
  | full no_room missed =>
    rw [if_pos rfl] at run
    exact ⟨_, _, run, .unleveled x top no_room missed⟩
  | created m room mapped missed inserted =>
    have lt : (b.levels s).count < nullIndex := mapped.lt_nullIndex (Nat.lt_succ_self _)
    rw [if_neg lt.ne] at run
    exact ⟨_, _, run, .rests x _ _ top (.created m room mapped missed inserted) lt.ne lookup⟩

theorem Rep.top_free (rep : Rep b Q) (top : ∃ rest, freeSlots b = rest ++ [x]) :
    x < b.pool.capacity ∧ ∀ t j, x ∉ Q t j := by
  obtain ⟨rest, split⟩ := top
  exact (rep.slots x).mp (by simp [split])

theorem freeSlots_stamped (top : ∃ rest, freeSlots b = rest ++ [x]) :
    freeSlots b = freeSlots (stamped b cid client s price quantity ts x) ++ [x] := by
  obtain ⟨rest, split⟩ := top
  have length : b.pool.freeTop = rest.length + 1 := by
    have := congrArg List.length split
    simpa [freeSlots] using this
  have take : freeSlots (stamped b cid client s price quantity ts x) = rest := by
    have slots : freeSlots (stamped b cid client s price quantity ts x) =
        (List.range rest.length).map b.pool.freeList := by
      simp [freeSlots, stamped, OrderPool.modify, length]
    rw [freeSlots, length, List.range_succ, List.map_append] at split
    rw [slots]
    exact (List.append_inj' split rfl).1
  rw [take, split]

private theorem stamped_other {y : Nat} (other : y ≠ x) :
    (stamped b cid client s price quantity ts x).pool.orders y = b.pool.orders y := by
  simp [stamped, other]

theorem Rep.unleveled (rep : Rep b Q) (top : ∃ rest, freeSlots b = rest ++ [x]) :
    Rep ((stamped b cid client s price quantity ts x).onPool (fun P => P.free x)) Q := by
  have unlisted := (rep.top_free top).2
  refine rep.same ?_ rfl ?_ (Nat.le_succ _) (fun t => ⟨(b.levels t).bestIdx, ?_⟩)
  · intro t j y hy
    exact stamped_other (fun e => unlisted t j (e ▸ hy))
  · rw [freeSlots_free, ← freeSlots_stamped top]
  · cases t <;> rfl

/-- A book `p` made from `b` in which slot `x` holds an order for level `i`,
not yet in the list. -/
structure Prepared (b : OrderBook) (s : Side) (price quantity : Int) (x i : Nat)
    (L : PriceLevelPool) (p : OrderBook) : Prop where
  levels : p.levels s = L
  contra : p.levels s.contra = b.levels s.contra
  others : ∀ y ≠ x, p.pool.orders y = b.pool.orders y
  capacity : p.pool.capacity = b.pool.capacity
  free : freeSlots b = freeSlots p ++ [x]
  ids : p.nextExchangeId = b.nextExchangeId + 1
  qty : restingQty p x = quantity
  next : nextOf p x = nullIndex
  prev : prevOf p x = nullIndex
  cellPrice : (p.pool.orders x).price = price
  cellSide : (p.pool.orders x).side = s
  cellIndex : (p.pool.orders x).levelIdx = i
  cellId : (p.pool.orders x).exchangeId = b.nextExchangeId

theorem prepared_prepared (i : Nat) (L : PriceLevelPool)
    (top : ∃ rest, freeSlots b = rest ++ [x]) :
    Prepared b s price quantity x i L (prepared b cid client s price quantity ts x i L) where
  levels := by simp [prepared]
  contra := by cases s <;> rfl
  others := fun y other => by simp [prepared, stamped, other]
  capacity := by simp [prepared, stamped, OrderPool.modify]
  free := by
    have taken : freeSlots b = freeSlots (stamped b cid client s price quantity ts x) ++ [x] :=
      freeSlots_stamped top
    rw [taken]
    simp [freeSlots, prepared, stamped, OrderPool.modify]
  ids := by simp [prepared, stamped]
  qty := by simp [restingQty, prepared, stamped, OrderBook.fillCell]
  next := by simp [nextOf, prepared, stamped, OrderBook.fillCell]
  prev := by simp [prevOf, prepared, stamped, OrderBook.fillCell]
  cellPrice := by simp [prepared, stamped, OrderBook.fillCell]
  cellSide := by simp [prepared, stamped, OrderBook.fillCell]
  cellIndex := by simp [prepared, stamped]
  cellId := by simp [prepared, stamped, OrderBook.fillCell]

section Located

variable {i : Nat} {L : PriceLevelPool} (located : Located (b.levels s) price i L)
include located

theorem located_price (real : i ≠ nullIndex) : L.prices i = price := by
  cases located with
  | existing _ _ at_price => exact at_price
  | full => exact absurd rfl real
  | created m => exact Function.update_self _ _ _

theorem located_active (real : i ≠ nullIndex) : Active L i := by
  cases located with
  | existing _ active => exact active
  | full => exact absurd rfl real
  | created m => exact ⟨Nat.lt_succ_self _, Function.update_self _ _ _⟩

theorem located_mapped (mapped : Mapped (b.levels s)) : Mapped L := by
  cases located with
  | existing => exact mapped
  | full => exact mapped
  | created m _ mapped' => exact mapped'

theorem located_count : (b.levels s).count ≤ L.count := by
  cases located with
  | existing => exact le_rfl
  | full => exact le_rfl
  | created m => exact Nat.le_succ _

theorem located_bestIdx : L.bestIdx = (b.levels s).bestIdx := by
  cases located <;> rfl

theorem located_other {j : Nat} (other : j ≠ i) :
    L.head j = (b.levels s).head j ∧ L.tail j = (b.levels s).tail j ∧
      L.orderCount j = (b.levels s).orderCount j ∧ L.totalQty j = (b.levels s).totalQty j ∧
      L.prices j = (b.levels s).prices j ∧ L.active j = (b.levels s).active j := by
  cases located with
  | existing => exact ⟨rfl, rfl, rfl, rfl, rfl, rfl⟩
  | full => exact ⟨rfl, rfl, rfl, rfl, rfl, rfl⟩
  | created m => simp [PriceLevelPool.openLevel, other]

theorem located_listed (rep : Rep b Q) {j : Nat} (nonempty : Q s j ≠ []) :
    L.prices j = (b.levels s).prices j ∧ L.active j = true := by
  have active := (rep.active s j).mpr nonempty
  cases located with
  | existing => exact ⟨rfl, active⟩
  | full => exact ⟨rfl, active⟩
  | created m =>
    have below : j ≠ (b.levels s).count := (rep.bound s j nonempty).ne
    exact ⟨Function.update_of_ne below _ _, (Function.update_of_ne below _ _).trans active⟩

end Located

theorem Rep.free_append (rep : Rep b Q) {rest : List Nat} (free : freeSlots b = rest ++ [x]) :
    rest.Nodup ∧ ∀ y, y ∈ rest ↔
      y < b.pool.capacity ∧ ∀ t j, y ∉ place Q s i (Q s i ++ [x]) t j := by
  have nodup := rep.distinct
  rw [free] at nodup
  obtain ⟨distinct, -, apart⟩ := List.nodup_append.mp nodup
  refine ⟨distinct, fun y => ?_⟩
  have slots := rep.slots y
  rw [free, List.mem_append, List.mem_singleton] at slots
  constructor
  · intro listed
    obtain ⟨inside, unlisted⟩ := slots.mp (Or.inl listed)
    refine ⟨inside, fun t j hy => ?_⟩
    rcases mem_place_append.mp hy with old | ⟨-, -, rfl⟩
    · exact unlisted t j old
    · exact apart y listed y (by simp) rfl
  · rintro ⟨inside, unlisted⟩
    have off : ∀ t j, y ∉ Q t j := fun t j hy => unlisted t j (mem_place_append.mpr (Or.inl hy))
    rcases slots.mpr ⟨inside, off⟩ with listed | rfl
    · exact listed
    · exact absurd (mem_place_append.mpr (Or.inr ⟨rfl, rfl, rfl⟩)) (unlisted s i)

section Resting

variable {i : Nat} {L : PriceLevelPool} {p : OrderBook} (rep : Rep b Q)
  (top : ∃ rest, freeSlots b = rest ++ [x]) (located : Located (b.levels s) price i L)
  (real : i ≠ nullIndex) (ready : Prepared b s price quantity x i L p)
include rep top located real ready

theorem Prepared.level (t : Side) (j : Nat) : LevelRep p t j (Q t j) := by
  have unlisted := (rep.top_free top).2
  have orders : ∀ y ∈ Q t j, p.pool.orders y = b.pool.orders y := fun y hy =>
    ready.others y (fun e => unlisted t j (e ▸ hy))
  rcases Side.eq_or_eq_contra s t with rfl | rfl
  swap
  · apply (rep.level s.contra j).congr orders <;> rw [ready.contra]
  by_cases other : j = i
  swap
  · obtain ⟨head, tail, count, total, prices, -⟩ := located_other located other
    apply (rep.level t j).congr orders <;> rw [ready.levels] <;> assumption
  subst other
  cases located with
  | existing => apply (rep.level t j).congr orders <;> rw [ready.levels]
  | full => exact absurd rfl real
  | created m =>
    have fresh : Q t (b.levels t).count = [] := by
      by_contra some_listed
      exact lt_irrefl _ (rep.bound t _ some_listed)
    rw [fresh]
    apply levelRep_nil <;> rw [ready.levels] <;> simp [PriceLevelPool.openLevel]

theorem Prepared.static_append (t : Side) (j : Nat) {y : Nat} (listed : y ∈ Q t j) :
    static ((p.append s i x quantity).pool.orders y) = static (b.pool.orders y) := by
  have unlisted := (rep.top_free top).2
  have frame := append_frame (x := x) (ready.level rep top located real s i) quantity
  rw [frame.static, ready.others y fun e => unlisted t j (e ▸ listed)]

theorem Prepared.exchangeId_append :
    ((p.append s i x quantity).pool.orders x).exchangeId = b.nextExchangeId := by
  have frame := append_frame (x := x) (ready.level rep top located real s i) quantity
  rw [exchangeId_of_static (frame.static x), ready.cellId]

theorem Prepared.active_append (t : Side) (j : Nat) :
    (((p.append s i x quantity).levels t).active j = true ↔
        place Q s i (Q s i ++ [x]) t j ≠ []) ∧
      (place Q s i (Q s i ++ [x]) t j ≠ [] → j < ((p.append s i x quantity).levels t).count) := by
  have frame := append_frame (x := x) (ready.level rep top located real s i) quantity
  rcases Side.eq_or_eq_contra s t with rfl | rfl
  · rw [frame.active, frame.count, ready.levels]
    by_cases e : j = i
    · subst e
      obtain ⟨below, active⟩ := located_active located real
      exact ⟨by simp [active], fun _ => below⟩
    · rw [(located_other located e).2.2.2.2.2, place_other (Or.inr e)]
      exact ⟨rep.active t j, fun some_listed =>
        (rep.bound t j some_listed).trans_le (located_count located)⟩
  · rw [frame.contra, ready.contra, place_other (Or.inl s.contra_ne)]
    exact ⟨rep.active s.contra j, rep.bound s.contra j⟩

theorem Prepared.mapped_append (t : Side) : Mapped ((p.append s i x quantity).levels t) := by
  have frame := append_frame (x := x) (ready.level rep top located real s i) quantity
  rcases Side.eq_or_eq_contra s t with rfl | rfl
  · apply (located_mapped located (rep.mapped t)).congr
    · rw [frame.priceMap, ready.levels]
    · rw [frame.count, ready.levels]
    · rw [frame.prices, ready.levels]
    · rw [frame.levelCapacity, ready.levels]
  · rw [frame.contra, ready.contra]
    exact rep.mapped s.contra

theorem Prepared.aged_append (t : Side) (j : Nat) :
    (place Q s i (Q s i ++ [x]) t j).Pairwise fun y z =>
      ((p.append s i x quantity).pool.orders y).exchangeId <
        ((p.append s i x quantity).pool.orders z).exchangeId := by
  have kept := ready.static_append rep top located real
  have aged : ∀ t j, (Q t j).Pairwise (fun y z =>
      ((p.append s i x quantity).pool.orders y).exchangeId <
        ((p.append s i x quantity).pool.orders z).exchangeId) := by
    intro t j
    refine (rep.aged t j).imp_of_mem ?_
    intro y z hy hz less
    rwa [exchangeId_of_static (kept t j hy), exchangeId_of_static (kept t j hz)]
  revert t j
  refine place_forall ?_ (fun t j _ => aged t j)
  refine List.pairwise_append.mpr ⟨aged s i, List.pairwise_singleton _ x, ?_⟩
  intro y hy z hz
  rw [List.mem_singleton.mp hz, ready.exchangeId_append rep top located real,
    exchangeId_of_static (kept s i hy)]
  exact rep.issued s i y hy

theorem Prepared.rep_append (positive : 0 < quantity) :
    Rep (p.append s i x quantity) (place Q s i (Q s i ++ [x])) := by
  obtain ⟨range, unlisted⟩ := rep.top_free top
  have levels := ready.level rep top located real
  have frame := append_frame (x := x) (levels s i) quantity
  have kept := ready.static_append rep top located real
  have newest := ready.exchangeId_append rep top located real
  have used := ready.active_append rep top located real
  have capacity : (p.append s i x quantity).pool.capacity = b.pool.capacity :=
    frame.capacity.trans ready.capacity
  have free : freeSlots b = freeSlots (p.append s i x quantity) ++ [x] := by
    rw [freeSlots_append, ready.free]
  obtain ⟨distinct, slots⟩ := rep.free_append (s := s) (i := i) free
  refine ⟨?_, ?_, fun t j => (used t j).1, fun t j => (used t j).2,
    ready.mapped_append rep top located real, ready.aged_append rep top located real, ?_,
    capacity.trans rep.capacity, ?_, distinct, ?_⟩
  · apply place_forall
    · apply append_rep (levels s i) (rep.top_lt top) (unlisted s i) positive ready.qty ready.next
        ready.prev
      · rw [ready.cellPrice, ready.levels, located_price located real]
      · exact ready.cellSide
    · intro t j other
      apply frame.levelRep (levels t j) other
      intro y hy hy'
      rcases List.mem_cons.mp hy' with rfl | hy'
      · exact unlisted t j hy
      · exact rep.not_mem other hy hy'
  · intro t j y hy
    rcases mem_place_append.mp hy with hy | ⟨rfl, rfl, rfl⟩
    · rw [levelIdx_of_static (kept t j hy)]
      exact rep.index t j y hy
    · rw [levelIdx_of_static (frame.static y), ready.cellIndex]
  · intro t j y hy
    rw [frame.nextExchangeId, ready.ids]
    rcases mem_place_append.mp hy with hy | ⟨-, -, rfl⟩
    · rw [exchangeId_of_static (kept t j hy)]
      exact Nat.lt_succ_of_lt (rep.issued t j y hy)
    · rw [newest]
      exact Nat.lt_succ_self _
  · intro t j y hy
    rw [capacity]
    rcases mem_place_append.mp hy with hy | ⟨-, -, rfl⟩
    · exact rep.inside t j y hy
    · exact range
  · intro y
    rw [capacity]
    exact slots y

end Resting

theorem updateBest_bestIdx (L : PriceLevelPool) (i : Nat) :
    ∃ r, L.updateBest s i = { L with bestIdx := r } := by
  unfold PriceLevelPool.updateBest
  split_ifs
  · exact ⟨i, rfl⟩
  · exact ⟨L.bestIdx, rfl⟩

theorem rested_levels (i : Nat) (L : PriceLevelPool) :
    (rested b cid client s price quantity ts x i L).levels s =
      (((prepared b cid client s price quantity ts x i L).append s i x quantity).levels
        s).updateBest s i := by
  cases s <;> rfl

theorem rested_contra (i : Nat) (L : PriceLevelPool) :
    (rested b cid client s price quantity ts x i L).levels s.contra =
      ((prepared b cid client s price quantity ts x i L).append s i x quantity).levels s.contra := by
  cases s <;> rfl

/-- The levels `R` after an order has joined level `i` of `L`. -/
structure Joined (s : Side) (i : Nat) (L R : PriceLevelPool) : Prop where
  prices : R.prices = L.prices
  active : R.active = L.active
  count : R.count = L.count
  priceMap : R.priceMap = L.priceMap
  capacity : R.capacity = L.capacity
  bestIdx : R.bestIdx = (L.updateBest s i).bestIdx

theorem rested_joined (rep : Rep b Q) {i : Nat} {L : PriceLevelPool}
    (top : ∃ rest, freeSlots b = rest ++ [x]) (located : Located (b.levels s) price i L)
    (real : i ≠ nullIndex) :
    Joined s i L ((rested b cid client s price quantity ts x i L).levels s) := by
  have ready : Prepared b s price quantity x i L
      (prepared b cid client s price quantity ts x i L) := prepared_prepared i L top
  have frame := append_frame (x := x) (ready.level rep top located real s i) quantity
  have prices := frame.prices
  have bestIdx := frame.bestIdx
  rw [ready.levels] at prices bestIdx
  obtain ⟨r, best⟩ := updateBest_bestIdx (s := s) (((prepared b cid client s price quantity ts x i
    L).append s i x quantity).levels s) i
  rw [rested_levels]
  refine ⟨?_, ?_, ?_, ?_, ?_, ?_⟩
  · rw [best, prices]
  · rw [best, frame.active, ready.levels]
  · rw [best, frame.count, ready.levels]
  · rw [best, frame.priceMap, ready.levels]
  · rw [best, frame.levelCapacity, ready.levels]
  · unfold PriceLevelPool.updateBest
    rw [prices, bestIdx]
    split_ifs
    · rfl
    · exact bestIdx

theorem rested_contra_eq (i : Nat) (L : PriceLevelPool) :
    (rested b cid client s price quantity ts x i L).levels s.contra = b.levels s.contra := by
  rw [rested_contra]
  unfold OrderBook.append OrderBook.hookLast
  split_ifs <;> cases s <;> rfl

theorem rested_self (i : Nat) (L : PriceLevelPool) :
    body ((rested b cid client s price quantity ts x i L).pool.orders x) =
      body { OrderBook.fillCell b.nextExchangeId cid client s price quantity ts
        (b.pool.orders x) with levelIdx := i } := by
  have appended := append_body (b := prepared b cid client s price quantity ts x i L) (s := s)
    (i := i) (x := x) quantity x
  have cell : (prepared b cid client s price quantity ts x i L).pool.orders x =
      { OrderBook.fillCell b.nextExchangeId cid client s price quantity ts
        (b.pool.orders x) with levelIdx := i } := by simp [prepared, stamped]
  rw [cell] at appended
  rw [← appended]
  simp [rested]

theorem rested_other (i : Nat) (L : PriceLevelPool) {y : Nat} (other : y ≠ x) :
    body ((rested b cid client s price quantity ts x i L).pool.orders y) =
      body (b.pool.orders y) := by
  have appended := append_body (b := prepared b cid client s price quantity ts x i L) (s := s)
    (i := i) (x := x) quantity y
  have cell : (prepared b cid client s price quantity ts x i L).pool.orders y =
      b.pool.orders y := by simp [prepared, stamped, other]
  rw [cell] at appended
  rw [← appended]
  simp [rested]

theorem rested_qty (i : Nat) (L : PriceLevelPool) (y : Nat) :
    restingQty (rested b cid client s price quantity ts x i L) y =
      if y = x then quantity else restingQty b y := by
  split_ifs with e
  · subst e
    exact (congrArg Order.remainingQty (rested_self i L) :)
  · exact (congrArg Order.remainingQty (rested_other i L e) :)

theorem Rep.rests (rep : Rep b Q) (positive : 0 < quantity) {i : Nat} {L : PriceLevelPool}
    (top : ∃ rest, freeSlots b = rest ++ [x]) (located : Located (b.levels s) price i L)
    (real : i ≠ nullIndex) :
    Rep (rested b cid client s price quantity ts x i L) (place Q s i (Q s i ++ [x])) := by
  have ready : Prepared b s price quantity x i L
      (prepared b cid client s price quantity ts x i L) := prepared_prepared i L top
  refine (ready.rep_append rep top located real positive).same_pool ?_ ?_ ?_
  · simp [rested]
  · simp [rested]
  · intro t
    rcases Side.eq_or_eq_contra s t with rfl | rfl
    · rw [rested_levels]
      exact updateBest_bestIdx _ i
    · rw [rested_contra]
      exact ⟨_, rfl⟩

end Adding

end HftGrading.Exchange.Book.BookRep
