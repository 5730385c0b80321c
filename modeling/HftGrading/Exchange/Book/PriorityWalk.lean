/- module: HftGrading/Exchange/Book/PriorityWalk
   source: exchange/include/exchange/orderbook.hpp
   digest: The resting orders of a side as one list, best price first and oldest first within a price. -/

import HftGrading.Exchange.Book.MatchRounds
import HftGrading.Exchange.Book.PriceMapContents

set_option autoImplicit false
set_option relaxedAutoImplicit false

namespace HftGrading.Exchange.Book.PriorityWalk

open Function (update)
open Lib.RobinHoodTable (ArcBounded)
open Lib.PriceTimePriority WireProtocol PriceMap PriceMapProbing PriceMapContents LimitBook
open LevelSearch LevelQueue LevelFilling MatchRounds

section Index

structure Indexed (L : PriceLevelPool) : Prop where
  sound : Sound L.priceMap
  stores : ∀ p v, Stores L.priceMap p v ↔ L.active v = true ∧ L.prices v = p
  allocated : ∀ i, L.active i = true → i < L.count
  small : L.count ≤ maxPriceLevelsOb
  capacity : L.capacity = maxPriceLevelsOb

variable {L L' : PriceLevelPool}

theorem indexed_init : Indexed (PriceLevelPool.init maxPriceLevelsOb) where
  sound := sound_clear
  stores := fun p v => ⟨fun h => absurd h (stores_clear p v), fun h => by cases h.1⟩
  allocated := fun i active => by cases active
  small := Nat.zero_le _
  capacity := rfl

theorem Indexed.distinct (indexed : Indexed L) {i j : Nat} (hi : L.active i = true)
    (hj : L.active j = true) (same : L.prices i = L.prices j) : i = j :=
  indexed.sound.stores_unique ((indexed.stores (L.prices j) i).mpr ⟨hi, same⟩)
    ((indexed.stores (L.prices j) j).mpr ⟨hj, rfl⟩)

theorem Indexed.mapped (indexed : Indexed L) : Mapped L := by
  refine ⟨?_, ?_, indexed.small, indexed.capacity⟩
  · intro s hs
    by_cases used : L.priceMap.distances s = 0
    · exact Or.inl (indexed.sound.shape.blank s hs used).2
    · obtain ⟨active, price⟩ := (indexed.stores _ _).mp ⟨s, hs, used, rfl, rfl⟩
      exact Or.inr ⟨indexed.allocated _ active, price⟩
  · have few := indexed.sound.occupied_card_le (S := (Finset.range L.count).image L.prices) (by
      intro p v stored
      obtain ⟨active, price⟩ := (indexed.stores p v).mp stored
      exact Finset.mem_image.mpr ⟨v, Finset.mem_range.mpr (indexed.allocated v active), price⟩)
    have image := Finset.card_image_le (s := Finset.range L.count) (f := L.prices)
    rw [Finset.card_range] at image
    exact few.trans image

theorem Indexed.congr (indexed : Indexed L) (map : L'.priceMap = L.priceMap)
    (prices : L'.prices = L.prices) (active : L'.active = L.active) (count : L'.count = L.count)
    (capacity : L'.capacity = L.capacity) : Indexed L' := by
  refine ⟨?_, ?_, ?_, ?_, ?_⟩
  · rw [map]
    exact indexed.sound
  · rw [map, active, prices]
    exact indexed.stores
  · rw [active, count]
    exact indexed.allocated
  · rw [count]
    exact indexed.small
  · rw [capacity, indexed.capacity]

theorem Indexed.closed (indexed : Indexed L) {i : Nat} (active : L.active i = true)
    {m : PriceHashMap} (removed : L.priceMap.remove (L.prices i) = some m) :
    Indexed (closed L i m) := by
  obtain ⟨m', removed', sound, stores⟩ :=
    remove_key indexed.sound (L.prices i) indexed.mapped.map_room
  obtain rfl : m' = m := Option.some.inj (removed'.symm.trans removed)
  refine ⟨sound, fun p v => ?_, fun j live => ?_, indexed.small, indexed.capacity⟩
  · rw [LevelSearch.closed, stores, indexed.stores]
    by_cases e : v = i
    · subst e
      simp only [Function.update_self, Bool.false_eq_true, false_and, iff_false]
      rintro ⟨⟨-, price⟩, other⟩
      exact other price.symm
    · simp only [Function.update_of_ne e]
      refine ⟨fun h => h.1, fun h => ⟨h, ?_⟩⟩
      rintro rfl
      exact e (indexed.distinct h.1 active h.2)
  · change update L.active i false j = true at live
    apply indexed.allocated
    by_cases e : j = i
    · rw [e, Function.update_self] at live
      cases live
    · rwa [Function.update_of_ne e] at live

theorem Settled.indexed {c : Side} {i : Nat} {kept : List Nat} {b₁ b' : OrderBook}
    (settled : Settled c i kept b₁ b') (indexed : Indexed (b₁.levels c))
    (active : (b₁.levels c).active i = true) : Indexed (b'.levels c) := by
  cases settled with
  | opened => exact indexed
  | closed m _ removed =>
    rw [OrderBook.levels_withLevels]
    exact indexed.closed active removed

theorem Indexed.not_missed (indexed : Indexed L) {price : Int} (missed : Missed L price) {i : Nat}
    (active : L.active i = true) : L.prices i ≠ price := by
  intro at_price
  have found := find_stored indexed.sound ((indexed.stores price i).mpr ⟨active, at_price⟩)
  exact missed i found
    ⟨(indexed.mapped.lt_nullIndex (indexed.allocated i active)).ne, active⟩

def Spread (S : Finset Int) : Prop := ArcBounded priceMapCapacity 254 PriceHashMap.hash S

theorem Indexed.located (indexed : Indexed L) {price : Int} {i : Nat}
    (located : Located L price i L') {S : Finset Int} (spread : Spread S) (new : price ∈ S)
    (old : ∀ j, L.active j = true → L.prices j ∈ S) : Indexed L' := by
  cases located with
  | existing => exact indexed
  | full => exact indexed
  | created m room mapped missed inserted =>
    have fresh : ∀ w, ¬ Stores L.priceMap price w := by
      intro w stored
      obtain ⟨active, at_price⟩ := (indexed.stores price w).mp stored
      exact indexed.not_missed missed active at_price
    have card := indexed.mapped.map_room
    obtain ⟨m', inserted', sound, stores⟩ := insert_fresh (v := L.count) indexed.sound
      (by omega) fresh spread (by
        rintro q w (stored | ⟨rfl, -⟩)
        · obtain ⟨active, rfl⟩ := (indexed.stores q w).mp stored
          exact old w active
        · exact new)
    obtain rfl : m' = m := Option.some.inj (inserted'.symm.trans inserted)
    refine ⟨sound, fun p v => ?_, fun j active => ?_, mapped.small, mapped.capacity⟩
    · rw [stores, indexed.stores]
      change _ ↔ update L.active L.count true v = true ∧ update L.prices L.count price v = p
      by_cases e : v = L.count
      · subst e
        have unused : ¬ L.active L.count = true :=
          fun active => lt_irrefl _ (indexed.allocated _ active)
        simp [unused, eq_comm]
      · simp [e]
    · change update L.active L.count true j = true at active
      by_cases e : j = L.count
      · exact e ▸ Nat.lt_succ_self _
      · rw [Function.update_of_ne e] at active
        exact Nat.lt_succ_of_lt (indexed.allocated j active)

end Index

section Walk

def activeLevels (L : PriceLevelPool) : List Nat :=
  (List.range L.count).filter (fun i => L.active i)

def levelLots (b : OrderBook) (s : Side) (i : Nat) : List (Lot Nat Int) := (b.queue s i).map (lot b)

def depth (s : Side) (l : Lot Nat Int) : Int := rank s l.price

/-- The resting orders of a side: best price first, list order within a price. -/
def restingLots (b : OrderBook) (s : Side) : List (Lot Nat Int) :=
  arriveAll (depth s) ((activeLevels (b.levels s)).flatMap (levelLots b s))

theorem ordered_restingLots (b : OrderBook) (s : Side) : Ordered (depth s) (restingLots b s) :=
  ordered_arriveAll _ _

structure Walkable (b : OrderBook) (s : Side) : Prop where
  indexed : Indexed (b.levels s)
  level : ∀ i, (b.levels s).active i = true → LevelRep b s i (b.queue s i)

variable {b b' : OrderBook} {s : Side}

theorem mem_activeLevels {L : PriceLevelPool} (indexed : Indexed L) (i : Nat) :
    i ∈ activeLevels L ↔ L.active i = true := by
  rw [activeLevels, List.mem_filter, List.mem_range]
  exact ⟨fun h => h.2, fun h => ⟨indexed.allocated i h, h⟩⟩

private theorem flatMap_single {α : Type} {f : Nat → List α} {l : List Nat} (nodup : l.Nodup)
    {i : Nat} (hi : i ∈ l) (others : ∀ j ∈ l, j ≠ i → f j = []) : l.flatMap f = f i := by
  induction l with
  | nil => cases hi
  | cons j l ih =>
    obtain ⟨fresh, nodup⟩ := List.nodup_cons.mp nodup
    rw [List.flatMap_cons]
    rcases List.mem_cons.mp hi with rfl | hi
    · have none : l.flatMap f = [] := by
        rw [List.flatMap_eq_nil_iff]
        exact fun k hk => others k (List.mem_cons_of_mem i hk) (fun e => fresh (e ▸ hk))
      rw [none, List.append_nil]
    · have away : j ≠ i := fun e => fresh (e ▸ hi)
      rw [others j (by simp) away, List.nil_append]
      exact ih nodup hi (fun k hk => others k (List.mem_cons_of_mem j hk))

variable (walkable : Walkable b s)
include walkable

theorem Walkable.lot_price {i : Nat} (active : (b.levels s).active i = true) :
    ∀ l ∈ levelLots b s i, l.price = (b.levels s).prices i := by
  intro l hl
  obtain ⟨x, hx, rfl⟩ := List.mem_map.mp hl
  exact (walkable.level i active).price x hx

private theorem Walkable.filter_level {i : Nat} (active : (b.levels s).active i = true) (k : Int) :
    (levelLots b s i).filter (fun l => depth s l = k) =
      if rank s ((b.levels s).prices i) = k then levelLots b s i else [] :=
  filter_of_eq (fun l hl => congrArg (rank s) (walkable.lot_price active l hl)) k

theorem Walkable.filter_restingLots {i : Nat} (active : (b.levels s).active i = true) :
    (restingLots b s).filter (fun l => depth s l = rank s ((b.levels s).prices i)) =
      levelLots b s i := by
  have nodup : (activeLevels (b.levels s)).Nodup := List.nodup_range.filter _
  rw [restingLots, filter_arriveAll, List.filter_flatMap]
  rw [flatMap_single nodup ((mem_activeLevels walkable.indexed i).mpr active)]
  · rw [walkable.filter_level active, if_pos rfl]
  · intro j hj other
    have live := (mem_activeLevels walkable.indexed j).mp hj
    rw [walkable.filter_level live, if_neg]
    intro same
    exact other (walkable.indexed.distinct live active ((rank_inj s _ _).mp same))

theorem Walkable.mem_restingLots (l : Lot Nat Int) :
    l ∈ restingLots b s ↔ ∃ i, (b.levels s).active i = true ∧ l ∈ levelLots b s i := by
  have key : l ∈ restingLots b s ↔
      l ∈ (activeLevels (b.levels s)).flatMap (levelLots b s) := by
    have filters := filter_arriveAll (depth s)
      ((activeLevels (b.levels s)).flatMap (levelLots b s)) (depth s l)
    have left : l ∈ (restingLots b s).filter (fun a => depth s a = depth s l) ↔
        l ∈ restingLots b s := by simp [List.mem_filter]
    have right : l ∈ ((activeLevels (b.levels s)).flatMap (levelLots b s)).filter
        (fun a => depth s a = depth s l) ↔
        l ∈ (activeLevels (b.levels s)).flatMap (levelLots b s) := by simp [List.mem_filter]
    rw [← left, ← right, restingLots, filters]
  rw [key, List.mem_flatMap]
  constructor
  · rintro ⟨i, hi, hl⟩
    exact ⟨i, (mem_activeLevels walkable.indexed i).mp hi, hl⟩
  · rintro ⟨i, active, hl⟩
    exact ⟨i, (mem_activeLevels walkable.indexed i).mpr active, hl⟩

theorem Walkable.restingLots_unique {w : List (Lot Nat Int)} (ordered : Ordered (depth s) w)
    (levels : ∀ i, (b.levels s).active i = true →
      w.filter (fun l => depth s l = rank s ((b.levels s).prices i)) = levelLots b s i)
    (placed : ∀ l ∈ w, ∃ i, (b.levels s).active i = true ∧
      l.price = (b.levels s).prices i) : restingLots b s = w := by
  apply (ordered_restingLots b s).eq_of_filter_eq ordered
  intro k
  by_cases shown : ∃ i, (b.levels s).active i = true ∧ rank s ((b.levels s).prices i) = k
  · obtain ⟨i, active, rfl⟩ := shown
    rw [walkable.filter_restingLots active, levels i active]
  · have left : (restingLots b s).filter (fun l => depth s l = k) = [] := by
      apply List.filter_eq_nil_iff.mpr
      intro l hl here
      obtain ⟨i, active, hl⟩ := (walkable.mem_restingLots l).mp hl
      refine shown ⟨i, active, ?_⟩
      rw [← walkable.lot_price active l hl]
      exact of_decide_eq_true here
    have right : w.filter (fun l => depth s l = k) = [] := by
      apply List.filter_eq_nil_iff.mpr
      intro l hl here
      obtain ⟨i, active, price⟩ := placed l hl
      refine shown ⟨i, active, ?_⟩
      rw [← price]
      exact of_decide_eq_true here
    rw [left, right]

theorem Walkable.restingLots_split {best : Nat} (active : (b.levels s).active best = true)
    (leads : ∀ i, (b.levels s).active i = true → b.queue s i ≠ [] →
      ¬ better s ((b.levels s).prices i) ((b.levels s).prices best)) :
    restingLots b s = levelLots b s best ++
      (restingLots b s).filter (fun l => depth s l ≠ rank s ((b.levels s).prices best)) := by
  have least : ∀ l ∈ restingLots b s, rank s ((b.levels s).prices best) ≤ depth s l := by
    intro l hl
    obtain ⟨i, live, hl⟩ := (walkable.mem_restingLots l).mp hl
    have nonempty : b.queue s i ≠ [] := by
      obtain ⟨x, hx, -⟩ := List.mem_map.mp hl
      exact List.ne_nil_of_mem hx
    have behind := leads i live nonempty
    rw [better_iff, not_lt] at behind
    rwa [depth, walkable.lot_price live l hl]
  have split := (ordered_restingLots b s).split_least least
  rwa [walkable.filter_restingLots active] at split

end Walk

end HftGrading.Exchange.Book.PriorityWalk
