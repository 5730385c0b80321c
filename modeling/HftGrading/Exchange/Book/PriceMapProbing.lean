/- module: HftGrading/Exchange/Book/PriceMapProbing
   source: exchange/include/exchange/orderbook.hpp
   digest: What probing guarantees on any half-empty price map, wrapped distances included. -/

import HftGrading.Exchange.Book.PriceMap

set_option autoImplicit false
set_option relaxedAutoImplicit false

namespace HftGrading.Exchange.Book.PriceMapProbing

open Lib.PartialExecution Lib.RobinHoodTable PriceMap

theorem mask_eq_mod (s : Nat) : s &&& priceMapMask = s % priceMapCapacity :=
  Nat.and_two_pow_sub_one_eq_mod s 13

theorem hash_lt (price : Int) : PriceHashMap.hash price < priceMapCapacity := by
  unfold PriceHashMap.hash
  rw [mask_eq_mod]
  exact Nat.mod_lt _ (by decide)

theorem mask_succ {s : Nat} (hs : s < priceMapCapacity) :
    (s + 1) &&& priceMapMask = step priceMapCapacity s := by
  rw [mask_eq_mod]
  unfold step priceMapCapacity at *
  split_ifs <;> omega

private theorem mask_add_four {s : Nat} (hs : s + 4 ≤ priceMapCapacity) :
    (s + 4) &&& priceMapMask = if s + 4 < priceMapCapacity then s + 4 else 0 := by
  rw [mask_eq_mod]
  unfold priceMapCapacity at *
  split_ifs <;> omega

theorem vacant_iff (m : PriceHashMap) (slot : Nat) :
    m.vacant slot = true ↔ m.distances slot = 0 ∧ m.keys slot = 0 := by
  simp [PriceHashMap.vacant]

section WideCompare

variable (keys : Nat → Int) (slot : Nat) (key : Int)

theorem avx2_none (h : PriceHashMap.avx2FindKeyI64 keys slot key = 0) :
    ∀ i < 4, keys (slot + i) ≠ key := by
  intro i hi same
  unfold PriceHashMap.avx2FindKeyI64 at h
  have cases : i = 0 ∨ i = 1 ∨ i = 2 ∨ i = 3 := by omega
  rcases cases with rfl | rfl | rfl | rfl <;> simp_all

theorem avx2_first (h : PriceHashMap.avx2FindKeyI64 keys slot key ≠ 0) :
    ∃ i < 4, PriceHashMap.avx2FirstMatchIndexI64
        (PriceHashMap.avx2FindKeyI64 keys slot key) = i ∧
      keys (slot + i) = key ∧ ∀ j < i, keys (slot + j) ≠ key := by
  unfold PriceHashMap.avx2FindKeyI64 at *
  by_cases h0 : keys slot = key
  · refine ⟨0, by omega, ?_, h0, by omega⟩
    simp only [h0, if_true]
    split_ifs <;> decide
  by_cases h1 : keys (slot + 1) = key
  · refine ⟨1, by omega, ?_, h1, ?_⟩
    · simp only [h0, h1, if_true, if_false]
      split_ifs <;> decide
    · intro j hj
      obtain rfl : j = 0 := by omega
      exact h0
  by_cases h2 : keys (slot + 2) = key
  · refine ⟨2, by omega, ?_, h2, ?_⟩
    · simp only [h0, h1, h2, if_true, if_false]
      split_ifs <;> decide
    · intro j hj
      obtain rfl | rfl : j = 0 ∨ j = 1 := by omega
      · exact h0
      · exact h1
  by_cases h3 : keys (slot + 3) = key
  · refine ⟨3, by omega, ?_, h3, ?_⟩
    · simp only [h0, h1, h2, h3, if_true, if_false]
      decide
    · intro j hj
      obtain rfl | rfl | rfl : j = 0 ∨ j = 1 ∨ j = 2 := by omega
      · exact h0
      · exact h1
      · exact h2
  · simp [h0, h1, h2, h3] at h

end WideCompare

def occupied (m : PriceHashMap) : Finset Nat :=
  (Finset.range priceMapCapacity).filter (fun s => m.vacant s = false)

theorem exists_vacant_ne (m : PriceHashMap) (x : Nat)
    (room : (occupied m).card + 1 < priceMapCapacity) :
    ∃ e < priceMapCapacity, e ≠ x ∧ m.vacant e = true := by
  by_contra none
  have covered : Finset.range priceMapCapacity ⊆ insert x (occupied m) := by
    intro s hs
    rw [Finset.mem_insert]
    by_cases e : s = x
    · exact Or.inl e
    · right
      simp only [occupied, Finset.mem_filter, hs, true_and]
      by_contra full
      exact none ⟨s, Finset.mem_range.mp hs, e, by simpa using full⟩
  have count := Finset.card_le_card covered
  have growth := Finset.card_insert_le x (occupied m)
  rw [Finset.card_range] at count
  omega

section Find

variable (m : PriceHashMap) (price : Int)

private theorem groupStops_false {slot dist : Nat} (h : m.groupStops slot dist = false) :
    ∀ i < 4, m.vacant (slot + i) = false ∧ dist + i ≤ m.distances (slot + i) := by
  intro i hi
  unfold PriceHashMap.groupStops at h
  have lane := List.any_eq_false.mp h i (List.mem_range.mpr hi)
  simpa using lane

/-- A lookup result is `NULL_INDEX` or the value of a slot with that key. -/
def Answer (r : Nat) : Prop :=
  r = nullIndex ∨ ∃ s < priceMapCapacity, m.keys s = price ∧ m.values s = r

private theorem wide_round {e : Nat} (he : e < priceMapCapacity) (free : m.vacant e = true)
    (s : Nat × Nat) (hs : s.1 < priceMapCapacity) :
    (∃ s', m.wideRound price s = some (.inl s') ∧ s'.1 < priceMapCapacity ∧
        offset priceMapCapacity s'.1 e < offset priceMapCapacity s.1 e) ∨
      ∃ r, m.wideRound price s = some (.inr r) ∧
        ((∃ v, r = .inl v ∧ Answer m price v) ∨ ∃ s', r = .inr s' ∧ s'.1 < priceMapCapacity) := by
  obtain ⟨slot, dist⟩ := s
  by_cases wide : slot + 4 ≤ priceMapCapacity
  swap
  · exact Or.inr ⟨.inr (slot, dist), by simp [PriceHashMap.wideRound, wide],
      Or.inr ⟨_, rfl, hs⟩⟩
  by_cases hit : PriceHashMap.avx2FindKeyI64 m.keys slot price = 0
  swap
  · obtain ⟨i, hi, index, key, -⟩ := avx2_first m.keys slot price hit
    refine Or.inr ⟨_, by simp [PriceHashMap.wideRound, wide, hit]; rfl,
      Or.inl ⟨_, rfl, Or.inr ⟨slot + i, by omega, key, by rw [index]⟩⟩⟩
  by_cases stop : m.groupStops slot dist = true
  · exact Or.inr ⟨.inl nullIndex, by simp [PriceHashMap.wideRound, wide, hit, stop],
      Or.inl ⟨_, rfl, Or.inl rfl⟩⟩
  · left
    have full := groupStops_false m (by simpa using stop)
    refine ⟨_, by simp [PriceHashMap.wideRound, wide, hit, stop]; rfl, ?_, ?_⟩
    · simp only [mask_add_four wide]
      split_ifs <;> omega
    · have outside : ∀ i < 4, e ≠ slot + i := by
        intro i hi same
        have := (full i hi).1
        rw [← same, free] at this
        cases this
      have o0 := outside 0 (by omega)
      have o1 := outside 1 (by omega)
      have o2 := outside 2 (by omega)
      have o3 := outside 3 (by omega)
      simp only [mask_add_four wide]
      unfold offset
      split_ifs <;> omega

private theorem scalar_round {e : Nat} (he : e < priceMapCapacity) (free : m.vacant e = true)
    (s : Nat × Nat) (hs : s.1 < priceMapCapacity) :
    (∃ s', m.scalarRound price s = some (.inl s') ∧ s'.1 < priceMapCapacity ∧
        offset priceMapCapacity s'.1 e < offset priceMapCapacity s.1 e) ∨
      ∃ r, m.scalarRound price s = some (.inr r) ∧ Answer m price r := by
  obtain ⟨slot, dist⟩ := s
  by_cases empty : m.vacant slot = true
  · exact Or.inr ⟨nullIndex, by simp [PriceHashMap.scalarRound, empty], Or.inl rfl⟩
  by_cases stop : m.distances slot < dist
  · exact Or.inr ⟨nullIndex, by simp [PriceHashMap.scalarRound, stop], Or.inl rfl⟩
  by_cases hit : m.keys slot = price
  · exact Or.inr ⟨m.values slot, by simp [PriceHashMap.scalarRound, empty, stop, hit],
      Or.inr ⟨slot, hs, hit, rfl⟩⟩
  · left
    refine ⟨_, by simp [PriceHashMap.scalarRound, empty, stop, hit]; rfl, ?_, ?_⟩
    · simp only [mask_succ hs]
      exact step_lt hs
    · have apart : slot ≠ e := by
        rintro rfl
        exact empty free
      have closer := offset_step_left hs he apart
      simp only [mask_succ hs] at closer ⊢
      omega

theorem find_returns_of_vacant {e : Nat} (he : e < priceMapCapacity) (free : m.vacant e = true) :
    ∃ r, m.find price = some r ∧ Answer m price r := by
  have near : ∀ s < priceMapCapacity, offset priceMapCapacity s e < PriceHashMap.probeFuel := by
    intro s hs
    have := offset_lt hs he
    unfold PriceHashMap.probeFuel
    omega
  obtain ⟨r, wide, post⟩ := loop_returns (m.wideRound price) (fun s => s.1 < priceMapCapacity)
    (fun s => offset priceMapCapacity s.1 e) _ (wide_round m price he free)
    PriceHashMap.probeFuel (PriceHashMap.hash price, 0) (hash_lt price) (near _ (hash_lt price))
  rcases post with ⟨v, rfl, answer⟩ | ⟨s, rfl, hs⟩
  · exact ⟨v, by simp [PriceHashMap.find, wide], answer⟩
  · obtain ⟨r, scalar, answer⟩ := loop_returns (m.scalarRound price)
      (fun s => s.1 < priceMapCapacity) (fun s => offset priceMapCapacity s.1 e) _
      (scalar_round m price he free) PriceHashMap.probeFuel s hs (near _ hs)
    exact ⟨r, by simp [PriceHashMap.find, wide, scalar], answer⟩

theorem find_returns (room : (occupied m).card + 1 < priceMapCapacity) :
    ∃ r, m.find price = some r ∧ Answer m price r := by
  obtain ⟨e, he, -, free⟩ := exists_vacant_ne m 0 room
  exact find_returns_of_vacant m price he free

end Find

def Entries (Good : Int → Nat → Prop) (m : PriceHashMap) : Prop :=
  ∀ s < priceMapCapacity, m.values s = nullIndex ∨ Good (m.keys s) (m.values s)

section Updates

variable {Good : Int → Nat → Prop} {m : PriceHashMap}

private theorem entries_put (entries : Entries Good m) {slot d v : Nat} {k : Int}
    (good : v = nullIndex ∨ Good k v) : Entries Good (m.put slot k v d) := by
  intro s hs
  by_cases e : s = slot
  · subst e
    simpa using good
  · rw [put_values_ne _ _ _ _ e, put_keys_ne _ _ _ _ e]
    exact entries s hs

private theorem occupied_put_subset (m : PriceHashMap) (slot : Nat) (k : Int) (v d : Nat) :
    occupied (m.put slot k v d) ⊆ insert slot (occupied m) := by
  intro s hs
  rw [Finset.mem_insert]
  by_cases e : s = slot
  · exact Or.inl e
  · right
    simp only [occupied, Finset.mem_filter] at hs ⊢
    refine ⟨hs.1, ?_⟩
    simpa [PriceHashMap.vacant, put_distances_ne _ _ _ _ e, put_keys_ne _ _ _ _ e] using hs.2

private theorem occupied_put_card {slot d v : Nat} {k : Int} (hslot : slot < priceMapCapacity)
    (full : m.vacant slot = false) :
    (occupied (m.put slot k v d)).card ≤ (occupied m).card := by
  have inside : slot ∈ occupied m := by simp [occupied, hslot, full]
  have growth := Finset.card_le_card (occupied_put_subset m slot k v d)
  rwa [Finset.insert_eq_self.mpr inside] at growth

private theorem vacant_put_ne {slot s d v : Nat} {k : Int} (apart : s ≠ slot) :
    PriceHashMap.vacant (m.put slot k v d) s = m.vacant s := by
  simp [PriceHashMap.vacant, put_distances_ne _ _ _ _ apart, put_keys_ne _ _ _ _ apart]

private structure Inserting (Good : Int → Nat → Prop) (n e : Nat) (i : PriceHashMap.Insertion) :
    Prop where
  slot_lt : i.slot < priceMapCapacity
  entries : Entries Good i.map
  carried : i.curVal = nullIndex ∨ Good i.curKey i.curVal
  free : i.map.vacant e = true
  count : (occupied i.map).card ≤ n

private theorem insert_round {n e : Nat} (he : e < priceMapCapacity)
    (i : PriceHashMap.Insertion) (inv : Inserting Good n e i) :
    (∃ i', PriceHashMap.insertRound i = some (.inl i') ∧ Inserting Good n e i' ∧
        offset priceMapCapacity i'.slot e < offset priceMapCapacity i.slot e) ∨
      ∃ m', PriceHashMap.insertRound i = some (.inr m') ∧
        Entries Good m' ∧ (occupied m').card ≤ n + 1 := by
  by_cases empty : i.map.vacant i.slot = true
  · refine Or.inr ⟨_, by simp [PriceHashMap.insertRound, empty]; rfl,
      entries_put inv.entries inv.carried, ?_⟩
    have growth := Finset.card_le_card
      (occupied_put_subset i.map i.slot i.curKey i.curVal i.dist)
    have bound := Finset.card_insert_le i.slot (occupied i.map)
    have count := inv.count
    omega
  have full : i.map.vacant i.slot = false := by simpa using empty
  have apart : i.slot ≠ e := by
    intro same
    exact empty (same ▸ inv.free)
  have closer := offset_step_left inv.slot_lt he apart
  have next := mask_succ inv.slot_lt
  have next_lt := step_lt inv.slot_lt
  left
  by_cases poor : i.map.distances i.slot < i.dist
  · refine ⟨_, by simp [PriceHashMap.insertRound, full, poor]; rfl, ⟨?_, ?_, ?_, ?_, ?_⟩, ?_⟩
    · rw [next]
      exact next_lt
    · exact entries_put inv.entries inv.carried
    · exact inv.entries _ inv.slot_lt
    · rw [vacant_put_ne apart.symm]
      exact inv.free
    · exact (occupied_put_card inv.slot_lt full).trans inv.count
    · simp only [next]
      omega
  · refine ⟨{ i with slot := (i.slot + 1) &&& priceMapMask, dist := (i.dist + 1) % 256 },
      by simp [PriceHashMap.insertRound, full, poor],
      ⟨?_, inv.entries, inv.carried, inv.free, inv.count⟩, ?_⟩
    · simp only [next]
      exact next_lt
    · simp only [next]
      omega

theorem insert_returns (entries : Entries Good m) (price : Int) (levelIdx : Nat)
    (good : Good price levelIdx) (room : (occupied m).card + 1 < priceMapCapacity) :
    ∃ m', m.insert price levelIdx = some m' ∧ Entries Good m' ∧
      (occupied m').card ≤ (occupied m).card + 1 := by
  obtain ⟨e, he, -, free⟩ := exists_vacant_ne m 0 room
  refine loop_returns PriceHashMap.insertRound (Inserting Good (occupied m).card e)
    (fun i => offset priceMapCapacity i.slot e) _ (insert_round he) PriceHashMap.probeFuel _
    ⟨hash_lt price, entries, Or.inr good, free, le_rfl⟩ ?_
  have := offset_lt (hash_lt price) he
  simp only [PriceHashMap.probeFuel]
  omega

private theorem seek_round (price : Int) {e : Nat} (he : e < priceMapCapacity)
    (free : m.vacant e = true) (slot : Nat) (hslot : slot < priceMapCapacity) :
    (∃ s', m.seekRound price slot = some (.inl s') ∧ s' < priceMapCapacity ∧
        offset priceMapCapacity s' e < offset priceMapCapacity slot e) ∨
      ∃ r, m.seekRound price slot = some (.inr r) ∧
        ∀ s, r = some s → s < priceMapCapacity ∧ m.keys s = price := by
  by_cases hit : m.keys slot = price
  · refine Or.inr ⟨some slot, by simp [PriceHashMap.seekRound, hit], ?_⟩
    rintro s ⟨⟩
    exact ⟨hslot, hit⟩
  by_cases empty : m.vacant slot = true
  · exact Or.inr ⟨none, by simp [PriceHashMap.seekRound, hit, empty], by simp⟩
  · have apart : slot ≠ e := by
      rintro rfl
      exact empty free
    have closer := offset_step_left hslot he apart
    refine Or.inl ⟨_, by simp [PriceHashMap.seekRound, hit, empty]; rfl, ?_, ?_⟩
    · rw [mask_succ hslot]
      exact step_lt hslot
    · rw [mask_succ hslot]
      omega

theorem seek_returns (price : Int) (room : (occupied m).card + 1 < priceMapCapacity) :
    ∃ r, loop (m.seekRound price) PriceHashMap.probeFuel (PriceHashMap.hash price) = some r ∧
      ∀ s, r = some s → s < priceMapCapacity ∧ m.keys s = price := by
  obtain ⟨e, he, -, free⟩ := exists_vacant_ne m 0 room
  refine loop_returns (m.seekRound price) (fun s => s < priceMapCapacity)
    (fun s => offset priceMapCapacity s e) _ (seek_round price he free) PriceHashMap.probeFuel _
    (hash_lt price) ?_
  have := offset_lt (hash_lt price) he
  unfold PriceHashMap.probeFuel
  omega

private def occupiedOff (m : PriceHashMap) (gap : Nat) : Finset Nat := (occupied m).erase gap

private structure Shifting (Good : Int → Nat → Prop) (n e : Nat) (s : PriceHashMap × Nat) :
    Prop where
  slot_lt : s.2 < priceMapCapacity
  entries : Entries Good s.1
  free : s.1.vacant e = true
  apart : s.2 ≠ e
  count : (occupiedOff s.1 s.2).card ≤ n

private theorem shift_round {n e : Nat} (he : e < priceMapCapacity) (s : PriceHashMap × Nat)
    (inv : Shifting Good n e s) :
    (∃ s', PriceHashMap.shiftRound s = some (.inl s') ∧ Shifting Good n e s' ∧
        offset priceMapCapacity s'.2 e < offset priceMapCapacity s.2 e) ∨
      ∃ m', PriceHashMap.shiftRound s = some (.inr m') ∧
        Entries Good m' ∧ (occupied m').card ≤ n := by
  obtain ⟨m, slot⟩ := s
  have slot_lt := inv.slot_lt
  have next := mask_succ slot_lt
  have next_lt := step_lt slot_lt
  simp only at slot_lt next next_lt
  have skip : step priceMapCapacity slot ≠ slot := by
    unfold step priceMapCapacity
    split_ifs <;> omega
  by_cases near : m.distances (step priceMapCapacity slot) ≤ 1
  · refine Or.inr ⟨_, by simp [PriceHashMap.shiftRound, next, near]; rfl,
      entries_put inv.entries (Or.inl rfl), ?_⟩
    refine le_trans (Finset.card_le_card ?_) inv.count
    intro x hx
    have apart : x ≠ slot := by
      rintro rfl
      simp [occupied, PriceHashMap.vacant] at hx
    have old := occupied_put_subset _ _ _ _ _ hx
    exact Finset.mem_erase.mpr ⟨apart, (Finset.mem_insert.mp old).resolve_left apart⟩
  · have apart : step priceMapCapacity slot ≠ e := by
      intro same
      have zero := ((vacant_iff m e).mp inv.free).1
      rw [same] at near
      omega
    have closer := offset_step_left slot_lt he inv.apart
    refine Or.inl ⟨_, by simp [PriceHashMap.shiftRound, next, near]; rfl,
      ⟨next_lt, ?_, ?_, apart, ?_⟩, ?_⟩
    · exact entries_put inv.entries (inv.entries _ next_lt)
    · simp only
      rw [vacant_put_ne inv.apart.symm]
      exact inv.free
    · -- The gap moves one slot on: the old gap fills as the next slot is given up.
      refine le_trans ?_ inv.count
      have full : m.vacant (step priceMapCapacity slot) = false := by
        simp [PriceHashMap.vacant]
        omega
      have given : step priceMapCapacity slot ∈ occupiedOff m slot := by
        simp [occupiedOff, occupied, skip, next_lt, full]
      have covered : occupiedOff (m.put slot (m.keys (step priceMapCapacity slot))
            (m.values (step priceMapCapacity slot))
            (m.distances (step priceMapCapacity slot) - 1)) (step priceMapCapacity slot) ⊆
          insert slot ((occupiedOff m slot).erase (step priceMapCapacity slot)) := by
        intro x hx
        obtain ⟨away, used⟩ := Finset.mem_erase.mp hx
        rcases Finset.mem_insert.mp (occupied_put_subset _ _ _ _ _ used) with rfl | old
        · exact Finset.mem_insert_self _ _
        · by_cases here : x = slot
          · exact Finset.mem_insert.mpr (Or.inl here)
          · exact Finset.mem_insert.mpr (Or.inr (Finset.mem_erase.mpr
              ⟨away, Finset.mem_erase.mpr ⟨here, old⟩⟩))
      have count := Finset.card_le_card covered
      have bound := Finset.card_insert_le slot
        ((occupiedOff m slot).erase (step priceMapCapacity slot))
      have less := Finset.card_erase_of_mem given
      have positive := Finset.card_pos.mpr ⟨_, given⟩
      simp only
      omega
    · simp only
      omega

theorem remove_returns (entries : Entries Good m) (price : Int)
    (room : (occupied m).card + 2 < priceMapCapacity) :
    ∃ m', m.remove price = some m' ∧ Entries Good m' ∧
      (occupied m').card ≤ (occupied m).card := by
  obtain ⟨r, seek, found⟩ := seek_returns (m := m) price (by omega)
  cases r with
  | none => exact ⟨m, by simp [PriceHashMap.remove, seek], entries, le_rfl⟩
  | some slot =>
    obtain ⟨slot_lt, -⟩ := found slot rfl
    obtain ⟨e, he, apart, free⟩ := exists_vacant_ne m slot (by omega)
    have start : Shifting Good (occupied m).card e (m, slot) :=
      ⟨slot_lt, entries, free, apart.symm, Finset.card_erase_le⟩
    have enough : offset priceMapCapacity slot e < PriceHashMap.shiftFuel := by
      have := offset_lt slot_lt he
      unfold PriceHashMap.shiftFuel priceMapCapacity at *
      omega
    obtain ⟨m', shift, post⟩ := loop_returns PriceHashMap.shiftRound
      (Shifting Good (occupied m).card e) (fun s => offset priceMapCapacity s.2 e) _
      (shift_round he) PriceHashMap.shiftFuel (m, slot) start enough
    exact ⟨m', by simp [PriceHashMap.remove, seek, shift], post⟩

end Updates

end HftGrading.Exchange.Book.PriceMapProbing
