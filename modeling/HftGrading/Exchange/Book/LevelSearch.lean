/- module: HftGrading/Exchange/Book/LevelSearch
   source: exchange/include/exchange/orderbook.hpp
   digest: What the best-level searches, the level lookup and the closing of a level return. -/

import HftGrading.Exchange.Book.LimitBook
import HftGrading.Exchange.Book.PriceMapProbing

set_option autoImplicit false
set_option relaxedAutoImplicit false

namespace HftGrading.Exchange.Book.LevelSearch

open Function (update)
open WireProtocol PriceMap PriceMapProbing LimitBook

section Ranking

def rank : Side → Int → Int
  | .buy, p => -p
  | .sell, p => p

variable (side : Side) (p q : Int)

theorem better_iff : better side p q ↔ rank side p < rank side q := by
  cases side <;> simp [better, rank]

theorem rank_inj : rank side p = rank side q ↔ p = q := by
  cases side <;> simp [rank]

theorem beyondLimit_iff : OrderBook.beyondLimit side p q ↔ better side.contra p q := by
  cases side <;> rfl

end Ranking

variable {side : Side} {L : PriceLevelPool}

def Active (L : PriceLevelPool) (i : Nat) : Prop := i < L.count ∧ L.active i = true

def Visible (L : PriceLevelPool) (i : Nat) : Prop := Active L i ∧ 0 < L.totalQty i

def Leads (side : Side) (L : PriceLevelPool) (r : Nat) : Prop :=
  ∀ i, Visible L i → ¬ better side (L.prices i) (L.prices r)

def Cached (side : Side) (L : PriceLevelPool) : Prop :=
  L.bestIdx = nullIndex ∨ Active L L.bestIdx ∧ Leads side L L.bestIdx

def IsBest (side : Side) (L : PriceLevelPool) (r : Nat) : Prop :=
  (r = nullIndex ∧ ∀ i, ¬ Visible L i) ∨ Visible L r ∧ Leads side L r

/-- The accumulator of a scan that has passed the levels below `n`. -/
private def Scanned (side : Side) (L : PriceLevelPool) (n : Nat) (best : Nat × Int) : Prop :=
  (best = (nullIndex, scanStart side) ∧
      ∀ i < n, Visible L i → ¬ better side (L.prices i) (scanStart side)) ∨
    Visible L best.1 ∧ best.2 = L.prices best.1 ∧
      ∀ i < n, Visible L i → ¬ better side (L.prices i) best.2

private theorem scanned_step {n : Nat} {best : Nat × Int} (hn : n < L.count)
    (scanned : Scanned side L n best) :
    Scanned side L (n + 1) (PriceLevelPool.scanRound side L best n) := by
  unfold PriceLevelPool.scanRound
  split_ifs with take
  · obtain ⟨live, stock, ahead⟩ := take
    refine Or.inr ⟨⟨⟨hn, live⟩, stock⟩, rfl, ?_⟩
    intro i hi visible
    rcases Nat.lt_succ_iff_lt_or_eq.mp hi with below | rfl
    · rw [better_iff] at ahead ⊢
      rcases scanned with ⟨rfl, rest⟩ | ⟨-, -, rest⟩
      all_goals
        have behind := rest i below visible
        rw [better_iff] at behind
        simp only at ahead ⊢
        omega
    · rw [better_iff]
      exact lt_irrefl _
  · have skip : Visible L n → ¬ better side (L.prices n) best.2 := fun visible ahead =>
      take ⟨visible.1.2, visible.2, ahead⟩
    rcases scanned with ⟨rfl, rest⟩ | ⟨found, price, rest⟩
    · refine Or.inl ⟨rfl, fun i hi => ?_⟩
      rcases Nat.lt_succ_iff_lt_or_eq.mp hi with below | rfl
      exacts [rest i below, skip]
    · refine Or.inr ⟨found, price, fun i hi => ?_⟩
      rcases Nat.lt_succ_iff_lt_or_eq.mp hi with below | rfl
      exacts [rest i below, skip]

private theorem scanned_range (side : Side) (L : PriceLevelPool) (n : Nat) (hn : n ≤ L.count) :
    Scanned side L n
      ((List.range n).foldl (PriceLevelPool.scanRound side L) (nullIndex, scanStart side)) := by
  induction n with
  | zero => exact Or.inl ⟨rfl, fun i hi => absurd hi (Nat.not_lt_zero i)⟩
  | succ n ih =>
    rw [List.range_succ, List.foldl_append]
    exact scanned_step (by omega) (ih (by omega))

theorem rebuildBest_spec (side : Side) (L : PriceLevelPool) :
    ((PriceLevelPool.rebuildBest side L).1 = nullIndex ∧
        ∀ i, Visible L i → ¬ better side (L.prices i) (scanStart side)) ∨
      Visible L (PriceLevelPool.rebuildBest side L).1 ∧
        Leads side L (PriceLevelPool.rebuildBest side L).1 := by
  rcases scanned_range side L L.count le_rfl with ⟨none, rest⟩ | ⟨found, price, rest⟩
  · left
    refine ⟨?_, fun i visible => rest i visible.1.1 visible⟩
    simp only [PriceLevelPool.rebuildBest, none]
  · right
    refine ⟨found, fun i visible => ?_⟩
    have behind := rest i visible.1.1 visible
    rwa [price] at behind

section Scans

open PriceLevelPool

/-- What a scan is for: it returns nothing exactly if no level is considered, and otherwise one that
no other ranks before. -/
def FindsBest (side : Side) (L : PriceLevelPool) (r : Nat) : Prop :=
  (r = nullIndex ↔ ∀ i, ¬ Visible L i) ∧ (r ≠ nullIndex → Visible L r ∧ Leads side L r)

section Sentinel

variable (side : Side) (L : PriceLevelPool)

theorem better_scanStart_iff {p : Int} (word : IsInt64 p) :
    better side p (scanStart side) ↔ p ≠ scanStart side := by
  unfold IsInt64 at word
  cases side <;> simp only [better, scanStart] <;> omega

theorem rebuildBest_sentinel (priced : ∀ i, Visible L i → L.prices i = scanStart side) :
    (rebuildBest side L).1 = nullIndex := by
  have stays : ∀ n ≤ L.count,
      (List.range n).foldl (scanRound side L) (nullIndex, scanStart side) =
        (nullIndex, scanStart side) := by
    intro n inside
    induction n with
    | zero => rfl
    | succ n ih =>
      rw [List.range_succ, List.foldl_append, ih (by omega)]
      refine if_neg fun taken => ?_
      obtain ⟨live, stock, ahead⟩ := taken
      rw [priced n ⟨⟨inside, live⟩, stock⟩, better_iff] at ahead
      exact lt_irrefl _ ahead
  exact congrArg Prod.fst (stays L.count le_rfl)

theorem rebuildBest_findsBest_iff (counted : L.count ≤ nullIndex)
    (words : ∀ i, IsInt64 (L.prices i)) :
    FindsBest side L (rebuildBest side L).1 ↔
      ((∃ i, Visible L i) → ∃ i, Visible L i ∧ L.prices i ≠ scanStart side) := by
  constructor
  · rintro ⟨right, -⟩ ⟨i, visible⟩
    by_contra priced
    push Not at priced
    exact right.1 (rebuildBest_sentinel side L priced) i visible
  · intro offered
    rcases rebuildBest_spec side L with ⟨none, passed⟩ | ⟨visible, leads⟩
    · have empty : ∀ i, ¬ Visible L i := by
        intro i visible
        obtain ⟨j, seen, apart⟩ := offered ⟨i, visible⟩
        exact passed j seen ((better_scanStart_iff side (words j)).2 apart)
      exact ⟨⟨fun _ => empty, fun _ => none⟩, fun found => absurd none found⟩
    · have found : (rebuildBest side L).1 ≠ nullIndex := (visible.1.1.trans_le counted).ne
      exact ⟨⟨fun none => absurd none found, fun empty => absurd visible (empty _)⟩,
        fun _ => ⟨visible, leads⟩⟩

end Sentinel

/-- For any pool: the scans find the best level, unless every level with quantity is priced at the
end of the range that they start from. -/
theorem scans_find_best_iff (L : PriceLevelPool) (counted : L.count ≤ nullIndex)
    (words : ∀ i, IsInt64 (L.prices i)) :
    (FindsBest .buy L (rebuildBestBid L).1 ↔
      ((∃ i, Visible L i) → ∃ i, Visible L i ∧ L.prices i ≠ int64Min)) ∧
    (FindsBest .sell L (rebuildBestAsk L).1 ↔
      ((∃ i, Visible L i) → ∃ i, Visible L i ∧ L.prices i ≠ int64Max)) :=
  ⟨rebuildBest_findsBest_iff .buy L counted words, rebuildBest_findsBest_iff .sell L counted words⟩

def twoLevels : PriceLevelPool :=
  { PriceLevelPool.init 2 with
    prices := fun i => if i = 0 then 100 else 105, totalQty := fun _ => 10,
    active := fun _ => true, count := 2 }

theorem twoLevels_found :
    ((rebuildBestBid twoLevels).1 = 1 ∧ FindsBest .buy twoLevels (rebuildBestBid twoLevels).1) ∧
      (rebuildBestAsk twoLevels).1 = 0 ∧ FindsBest .sell twoLevels (rebuildBestAsk twoLevels).1 := by
  have found := scans_find_best_iff twoLevels (by decide) fun i => by
    show IsInt64 (if i = 0 then 100 else 105)
    split_ifs <;> decide
  have visible : Visible twoLevels 0 := ⟨⟨by decide, rfl⟩, by decide⟩
  exact ⟨⟨by decide, found.1.2 fun _ => ⟨0, visible, by decide⟩⟩,
    by decide, found.2.2 fun _ => ⟨0, visible, by decide⟩⟩

def oneLevel (price : Int) : PriceLevelPool :=
  { PriceLevelPool.init 1 with
    prices := fun _ => price, totalQty := fun _ => 10, active := fun _ => true, count := 1 }

/-- A bid at the smallest price is not found, and neither is an ask at the largest. -/
theorem extreme_levels_missed :
    ¬ FindsBest .buy (oneLevel int64Min) (rebuildBestBid (oneLevel int64Min)).1 ∧
      ¬ FindsBest .sell (oneLevel int64Max) (rebuildBestAsk (oneLevel int64Max)).1 :=
  ⟨fun found => found.1.1 (by decide) 0 ⟨⟨by decide, rfl⟩, by decide⟩,
    fun found => found.1.1 (by decide) 0 ⟨⟨by decide, rfl⟩, by decide⟩⟩

end Scans

theorem findBest_snd (side : Side) (L : PriceLevelPool) :
    (L.findBest side).2 = { L with bestIdx := (L.findBest side).1 } := by
  unfold PriceLevelPool.findBest
  split_ifs <;> rfl

theorem findBest_again (side : Side) (L : PriceLevelPool) :
    ({ L with bestIdx := (L.findBest side).1 }.findBest side).1 = (L.findBest side).1 := by
  by_cases hit : L.bestIdx ≠ nullIndex ∧ L.active L.bestIdx = true ∧ 0 < L.totalQty L.bestIdx
  · have found : (L.findBest side).1 = L.bestIdx := by
      rw [PriceLevelPool.findBest, if_pos hit]
    rw [found, PriceLevelPool.findBest, if_pos hit]
  · have found : (L.findBest side).1 = (PriceLevelPool.rebuildBest side L).1 := by
      rw [PriceLevelPool.findBest, if_neg hit]
    rw [found, PriceLevelPool.findBest]
    split_ifs
    · rfl
    · rfl

theorem findBest_live (side : Side) (L : PriceLevelPool) :
    (L.findBest side).1 = nullIndex ∨
      L.active (L.findBest side).1 = true ∧ 0 < L.totalQty (L.findBest side).1 := by
  unfold PriceLevelPool.findBest
  split_ifs with hit
  · exact Or.inr hit.2
  · rcases rebuildBest_spec side L with ⟨none, -⟩ | ⟨found, -⟩
    · exact Or.inl none
    · exact Or.inr ⟨found.1.2, found.2⟩

theorem findBest_isBest (cached : Cached side L)
    (inside : ∀ i, Visible L i → better side (L.prices i) (scanStart side)) :
    IsBest side L (L.findBest side).1 := by
  unfold PriceLevelPool.findBest
  split_ifs with hit
  · rcases cached with none | ⟨active, leads⟩
    · exact absurd none hit.1
    · exact Or.inr ⟨⟨active, hit.2.2⟩, leads⟩
  · rcases rebuildBest_spec side L with ⟨none, rest⟩ | found
    · exact Or.inl ⟨none, fun i visible => rest i visible (inside i visible)⟩
    · exact Or.inr found

theorem IsBest.cached {r : Nat} (best : IsBest side L r) : Cached side { L with bestIdx := r } := by
  rcases best with ⟨none, -⟩ | ⟨visible, leads⟩
  · exact Or.inl none
  · exact Or.inr ⟨visible.1, leads⟩

/-- The map's entries point at allocated levels of their price, and there are
no more of them than levels. Nothing is said about distances. -/
structure Mapped (L : PriceLevelPool) : Prop where
  entries : Entries (fun p v => v < L.count ∧ L.prices v = p) L.priceMap
  sparse : (occupied L.priceMap).card ≤ L.count
  small : L.count ≤ maxPriceLevelsOb
  capacity : L.capacity = maxPriceLevelsOb

theorem mapped_init : Mapped (PriceLevelPool.init maxPriceLevelsOb) where
  entries := fun _ _ => Or.inl rfl
  sparse := by
    have none : occupied PriceHashMap.clear = ∅ := by
      unfold occupied
      exact Finset.filter_false_of_mem (fun _ _ => by simp [PriceHashMap.vacant, PriceHashMap.clear])
    exact (congrArg Finset.card none).le
  small := Nat.zero_le _
  capacity := rfl

theorem Mapped.lt_nullIndex (mapped : Mapped L) {i : Nat} (hi : i < L.count) : i < nullIndex := by
  have small := mapped.small
  unfold maxPriceLevelsOb at small
  unfold nullIndex
  omega

theorem Mapped.map_room (mapped : Mapped L) : (occupied L.priceMap).card + 2 < priceMapCapacity := by
  have sparse := mapped.sparse
  have small := mapped.small
  unfold maxPriceLevelsOb at small
  unfold priceMapCapacity
  omega

theorem Mapped.congr {L' : PriceLevelPool} (mapped : Mapped L) (map : L'.priceMap = L.priceMap)
    (count : L'.count = L.count) (prices : L'.prices = L.prices)
    (capacity : L'.capacity = L.capacity) : Mapped L' := by
  refine ⟨?_, ?_, ?_, ?_⟩
  · rw [map, count, prices]
    exact mapped.entries
  · rw [map, count]
    exact mapped.sparse
  · rw [count]
    exact mapped.small
  · rw [capacity, mapped.capacity]

def Missed (L : PriceLevelPool) (price : Int) : Prop :=
  ∀ v, L.priceMap.find price = some v → ¬ (v ≠ nullIndex ∧ L.active v = true)

inductive Located (L : PriceLevelPool) (price : Int) : Nat → PriceLevelPool → Prop
  | existing (i : Nat) (active : Active L i) (at_price : L.prices i = price) : Located L price i L
  | full (no_room : L.capacity ≤ L.count) (missed : Missed L price) : Located L price nullIndex L
  | created (m : PriceHashMap) (room : L.count < L.capacity)
      (mapped : Mapped { L.openLevel price with priceMap := m }) (missed : Missed L price)
      (inserted : L.priceMap.insert price L.count = some m) :
      Located L price L.count { L.openLevel price with priceMap := m }

theorem findOrCreate_located (mapped : Mapped L) (price : Int) :
    ∃ r L', L.findOrCreate price = some (r, L') ∧ Located L price r L' := by
  have room := mapped.map_room
  obtain ⟨existing, lookup, answer⟩ := find_returns L.priceMap price (by omega)
  by_cases found : existing ≠ nullIndex ∧ L.active existing = true
  · refine ⟨existing, L, by simp [PriceLevelPool.findOrCreate, lookup, found], ?_⟩
    rcases answer with none | ⟨s, hs, key, value⟩
    · exact absurd none found.1
    rcases mapped.entries s hs with none | ⟨range, at_price⟩
    · exact absurd (value.symm.trans none) found.1
    rw [value] at range at_price
    exact .existing existing ⟨range, found.2⟩ (at_price.trans key)
  have missed : Missed L price := by
    intro v hv
    rw [lookup] at hv
    rwa [← Option.some.inj hv]
  by_cases full : L.capacity ≤ L.count
  · exact ⟨nullIndex, L, by simp [PriceLevelPool.findOrCreate, lookup, found, full],
      .full full missed⟩
  · -- The old entries point below `count`, where opening a level writes nothing.
    have kept : Entries (fun p v => v < (L.openLevel price).count ∧
        (L.openLevel price).prices v = p) L.priceMap := by
      intro s hs
      rcases mapped.entries s hs with none | ⟨range, at_price⟩
      · exact Or.inl none
      · refine Or.inr ⟨Nat.lt_succ_of_lt range, ?_⟩
        rw [← at_price]
        exact Function.update_of_ne (Nat.ne_of_lt range) _ _
    obtain ⟨m, inserted, entries, growth⟩ := insert_returns kept price L.count
      ⟨Nat.lt_succ_self _, Function.update_self _ _ _⟩ (by omega)
    have sparse := mapped.sparse
    have capacity := mapped.capacity
    refine ⟨L.count, _, by simp [PriceLevelPool.findOrCreate, lookup, found, full, inserted],
      .created m (by omega) ⟨entries, ?_, ?_, capacity⟩ missed inserted⟩
    · exact growth.trans (Nat.succ_le_succ sparse)
    · rw [← capacity]
      exact Nat.succ_le_of_lt (Nat.lt_of_not_le full)

/-- The level after `deactivate`, given the map it leaves. -/
def closed (L : PriceLevelPool) (idx : Nat) (m : PriceHashMap) : PriceLevelPool :=
  { L with
    active := update L.active idx false
    priceMap := m
    bestIdx := if L.bestIdx = idx then nullIndex else L.bestIdx }

theorem deactivate_returns (mapped : Mapped L) (idx : Nat) :
    ∃ m, L.priceMap.remove (L.prices idx) = some m ∧
      L.deactivate idx = some (closed L idx m) ∧ Mapped (closed L idx m) := by
  obtain ⟨m, removed, entries, fewer⟩ :=
    remove_returns mapped.entries (L.prices idx) mapped.map_room
  exact ⟨m, removed, by simp [PriceLevelPool.deactivate, removed, closed],
    entries, fewer.trans mapped.sparse, mapped.small, mapped.capacity⟩

end HftGrading.Exchange.Book.LevelSearch
