/- module: HftGrading/Exchange/Book/PlainLookup
   source: exchange/include/exchange/orderbook.hpp, core/include/core/compiler_hints.hpp
   digest: The group-wise lookup answers as a search one slot at a time with unbounded distances. -/

import HftGrading.Exchange.Book.PriceMapContents

set_option autoImplicit false
set_option relaxedAutoImplicit false

namespace HftGrading.Exchange.Book.PlainLookup

open Lib.PartialExecution Lib.RobinHoodTable PriceMap PriceMapProbing PriceMapContents

def plainRound (m : PriceHashMap) (price : Int) : Nat × Nat → Option (Nat × Nat ⊕ Nat)
  | (slot, dist) =>
    if m.vacant slot then some (.inr nullIndex)
    else if m.distances slot < dist then some (.inr nullIndex)
    else if m.keys slot = price then some (.inr (m.values slot))
    else some (.inl ((slot + 1) % priceMapCapacity, dist + 1))

/-- The reference search: one slot at a time from the home of the key. -/
def plainFind (m : PriceHashMap) (price : Int) : Option Nat :=
  loop (plainRound m price) PriceHashMap.probeFuel (PriceHashMap.hash price, 0)

variable {m : PriceHashMap} {price : Int}

theorem plainRound_eq_scalarRound {s : Nat × Nat} (small : s.2 < 255) :
    plainRound m price s = m.scalarRound price s := by
  obtain ⟨slot, dist⟩ := s
  have unwrapped : (dist + 1) % 256 = dist + 1 := Nat.mod_eq_of_lt (Nat.succ_lt_succ small)
  simp only [plainRound, PriceHashMap.scalarRound, mask_eq_mod, unwrapped]

theorem plainFind_held (clustered : Clustered m) {v : Nat} (stored : Stores m price v) :
    plainFind m price = some v := by
  obtain ⟨s₀, hs₀, used, key, rfl⟩ := stored
  have small := offset_byte clustered hs₀ used key
  obtain ⟨r, returns, rfl⟩ := loop_returns (plainRound m price) (Approaching price s₀)
    (fun s => offset priceMapCapacity s.1 s₀) (fun r => r = m.values s₀)
    (by
      intro s approaching
      rw [plainRound_eq_scalarRound (by have := approaching.2; omega)]
      exact scalar_round_found clustered hs₀ used key s approaching)
    PriceHashMap.probeFuel (PriceHashMap.hash price, 0) ⟨hash_lt price, by simp, by simp⟩
    (Nat.lt_succ_of_lt (offset_lt (hash_lt price) hs₀))
  exact returns

private theorem plain_round {e : Nat} (he : e < priceMapCapacity) (free : m.vacant e = true)
    (s : Nat × Nat) (hs : s.1 < priceMapCapacity) :
    (∃ s', plainRound m price s = some (.inl s') ∧ s'.1 < priceMapCapacity ∧
        offset priceMapCapacity s'.1 e < offset priceMapCapacity s.1 e) ∨
      ∃ r, plainRound m price s = some (.inr r) ∧ Answer m price r := by
  obtain ⟨slot, dist⟩ := s
  simp only [plainRound]
  split_ifs with empty stop hit
  · exact Or.inr ⟨nullIndex, rfl, Or.inl rfl⟩
  · exact Or.inr ⟨nullIndex, rfl, Or.inl rfl⟩
  · exact Or.inr ⟨m.values slot, rfl, Or.inr ⟨slot, hs, hit, rfl⟩⟩
  · have apart : slot ≠ e := by
      rintro rfl
      exact empty free
    have closer := offset_step_left hs he apart
    have next : (slot + 1) % priceMapCapacity = step priceMapCapacity slot := by
      rw [← mask_eq_mod, mask_succ hs]
    refine Or.inl ⟨_, rfl, ?_, ?_⟩
    · exact Nat.mod_lt _ (by decide)
    · simp only [next] at closer ⊢
      omega

variable (price) in
theorem plainFind_returns {e : Nat} (he : e < priceMapCapacity) (free : m.vacant e = true) :
    ∃ r, plainFind m price = some r ∧ Answer m price r :=
  loop_returns (plainRound m price) (fun s => s.1 < priceMapCapacity)
    (fun s => offset priceMapCapacity s.1 e) _ (plain_round he free) PriceHashMap.probeFuel
    (PriceHashMap.hash price, 0) (hash_lt price)
    (Nat.lt_succ_of_lt (offset_lt (hash_lt price) he))

/-- On every gapless table with an unused slot the group-wise lookup returns, and
returns what the reference search returns. -/
theorem wide_lookup_is_plain (m : PriceHashMap) (clustered : Clustered m)
    (room : ∃ e < priceMapCapacity, m.distances e = 0) (price : Int) :
    ∃ r, m.find price = some r ∧ plainFind m price = some r := by
  obtain ⟨e, he, unused⟩ := room
  have free : m.vacant e = true := (vacant_iff m e).mpr ⟨unused, (clustered.blank e he unused).1⟩
  by_cases stored : ∃ v, Stores m price v
  · obtain ⟨v, held⟩ := stored
    exact ⟨v, clustered.find_held held, plainFind_held clustered held⟩
  · have absent : ∀ v, ¬ Stores m price v := fun v held => stored ⟨v, held⟩
    obtain ⟨r, found, answer⟩ := find_returns_of_vacant m price he free
    obtain ⟨r', plain, answer'⟩ := plainFind_returns price he free
    rw [clustered.answer_absent answer absent] at found
    rw [clustered.answer_absent answer' absent] at plain
    exact ⟨nullIndex, found, plain⟩

/-- A price that hashes to slot 0, as the price 0 does. -/
def rival : Int := -1018231460777725123

/-- The price 0 at home and its rival one slot on. -/
def displaced : PriceHashMap := (PriceHashMap.clear.put 0 0 7 1).put 1 rival 8 2

private theorem displaced_unused {s : Nat} (first : s ≠ 0) (second : s ≠ 1) :
    displaced.distances s = 0 :=
  (put_distances_ne _ _ _ _ second).trans (put_distances_ne _ _ _ _ first)

private theorem displaced_used {s : Nat} (used : displaced.distances s ≠ 0) : s = 0 ∨ s = 1 := by
  by_contra other
  exact used (displaced_unused (fun e => other (.inl e)) (fun e => other (.inr e)))

private theorem clustered_displaced : Clustered displaced where
  blank := by
    intro s _ unused
    have first : s ≠ 0 := by
      rintro rfl
      exact absurd unused (by decide)
    have second : s ≠ 1 := by
      rintro rfl
      exact absurd unused (by decide)
    exact ⟨(put_keys_ne _ _ _ _ second).trans (put_keys_ne _ _ _ _ first),
      (put_values_ne _ _ _ _ second).trans (put_values_ne _ _ _ _ first)⟩
  placed := by
    intro s _ used
    rcases displaced_used used with rfl | rfl <;> decide
  byte := by
    intro s _
    by_cases used : displaced.distances s = 0
    · rw [used]
      exact Nat.zero_le _
    · rcases displaced_used used with rfl | rfl <;> decide
  between := by
    intro s _ used x _ before
    rcases displaced_used used with rfl | rfl
    · have home : PriceHashMap.hash (displaced.keys 0) = 0 := by decide
      rw [home] at before
      exact absurd before (Nat.not_lt_zero _)
    · have home : PriceHashMap.hash (displaced.keys 1) = 0 := by decide
      rw [home] at before ⊢
      obtain rfl : x = 0 := by
        simp only [offset, Nat.zero_le, if_true] at before
        omega
      decide
  distinct := by
    intro s _ s' _ used used' same
    rcases displaced_used used with rfl | rfl <;> rcases displaced_used used' with rfl | rfl
    · rfl
    · exact absurd same (by decide)
    · exact absurd same (by decide)
    · rfl

theorem wide_lookup_is_plain_displaced : PriceHashMap.hash rival = PriceHashMap.hash 0 ∧
    ∃ r, displaced.find rival = some r ∧ plainFind displaced rival = some r :=
  ⟨by decide, wide_lookup_is_plain _ clustered_displaced ⟨2, by decide, by decide⟩ rival⟩

end HftGrading.Exchange.Book.PlainLookup
