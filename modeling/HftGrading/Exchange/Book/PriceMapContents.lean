/- module: HftGrading/Exchange/Book/PriceMapContents
   source: exchange/include/exchange/orderbook.hpp
   digest: While every distance fits its byte, the price map is a finite map; past that it loses keys. -/

import HftGrading.Exchange.Book.PriceMapProbing

set_option autoImplicit false
set_option relaxedAutoImplicit false

namespace HftGrading.Exchange.Book.PriceMapContents

open Lib.PartialExecution Lib.RobinHoodTable PriceMap PriceMapProbing

structure Sound (m : PriceHashMap) : Prop where
  shape : Shape priceMapCapacity PriceHashMap.hash 0 nullIndex m
  distinct : Distinct priceMapCapacity m
  byte : ∀ s < priceMapCapacity, m.distances s ≤ 255

abbrev Stores (m : PriceHashMap) (price : Int) (v : Nat) : Prop :=
  Holds priceMapCapacity m price v

variable {m : PriceHashMap}

private theorem ring_large : 1 < priceMapCapacity := by decide

theorem Sound.vacant_iff (sound : Sound m) {s : Nat} (hs : s < priceMapCapacity) :
    m.vacant s = true ↔ m.distances s = 0 := by
  rw [PriceMapProbing.vacant_iff]
  exact ⟨fun h => h.1, fun h => ⟨h, (sound.shape.blank s hs h).1⟩⟩

theorem sound_clear : Sound PriceHashMap.clear where
  shape := {
    blank := fun _ _ _ => ⟨rfl, rfl⟩
    placed := fun _ _ used => absurd rfl used
    ordered := fun _ _ => Nat.zero_le _ }
  distinct := fun _ _ _ _ used _ _ => absurd rfl used
  byte := fun _ _ => Nat.zero_le _

theorem stores_clear (p : Int) (v : Nat) : ¬ Stores PriceHashMap.clear p v := by
  rintro ⟨s, -, used, -⟩
  exact used rfl

theorem Sound.stores_unique (sound : Sound m) {p : Int} {v w : Nat} (hv : Stores m p v)
    (hw : Stores m p w) : v = w := by
  obtain ⟨s, hs, used, key, rfl⟩ := hv
  obtain ⟨s', hs', used', key', rfl⟩ := hw
  rw [sound.distinct s hs s' hs' used used' (key.trans key'.symm)]

theorem Sound.occupied_card_le (sound : Sound m) {S : Finset Int}
    (keys : ∀ p v, Stores m p v → p ∈ S) : (occupied m).card ≤ S.card := by
  have used : ∀ s ∈ occupied m, s < priceMapCapacity ∧ m.distances s ≠ 0 := by
    intro s hs
    obtain ⟨range, full⟩ := Finset.mem_filter.mp hs
    have hs' := Finset.mem_range.mp range
    refine ⟨hs', fun zero => ?_⟩
    rw [(sound.vacant_iff hs').mpr zero] at full
    cases full
  apply Finset.card_le_card_of_injOn m.keys
  · intro s hs
    obtain ⟨hs', full⟩ := used s hs
    exact keys _ _ ⟨s, hs', full, rfl, rfl⟩
  · intro s hs s' hs' same
    obtain ⟨lt, full⟩ := used s hs
    obtain ⟨lt', full'⟩ := used s' hs'
    exact sound.distinct s lt s' lt' full full' same

/-- What a lookup relies on: no gap between the home of a key and its slot. -/
structure Clustered (m : PriceHashMap) : Prop where
  blank : ∀ s < priceMapCapacity, m.distances s = 0 → m.keys s = 0 ∧ m.values s = nullIndex
  placed : ∀ s < priceMapCapacity, m.distances s ≠ 0 →
    offset priceMapCapacity (PriceHashMap.hash (m.keys s)) s + 1 = m.distances s
  byte : ∀ s < priceMapCapacity, m.distances s ≤ 255
  between : ∀ s < priceMapCapacity, m.distances s ≠ 0 → ∀ x < priceMapCapacity,
    offset priceMapCapacity (PriceHashMap.hash (m.keys s)) x <
      offset priceMapCapacity (PriceHashMap.hash (m.keys s)) s →
    offset priceMapCapacity (PriceHashMap.hash (m.keys s)) x < m.distances x
  distinct : Distinct priceMapCapacity m

theorem Sound.clustered (sound : Sound m) : Clustered m where
  blank := sound.shape.blank
  placed := sound.shape.placed
  byte := sound.byte
  between := fun _ hs used _ hx before => sound.shape.between hash_lt hs hx used before.le
  distinct := sound.distinct

private theorem lane_of_slot {h slot s₀ : Nat} (hh : h < priceMapCapacity)
    (hs₀ : s₀ < priceMapCapacity) (wide : slot + 4 ≤ priceMapCapacity)
    (within : offset priceMapCapacity h slot ≤ offset priceMapCapacity h s₀)
    (close : offset priceMapCapacity h s₀ < offset priceMapCapacity h slot + 4) :
    slot + (offset priceMapCapacity h s₀ - offset priceMapCapacity h slot) = s₀ := by
  have inside := offset_lt hh hs₀
  have lane := offset_add hh
    (show slot + (offset priceMapCapacity h s₀ - offset priceMapCapacity h slot) <
      priceMapCapacity by omega) (by omega)
  exact offset_inj hh (by omega) hs₀ (by omega)

section Lookup

variable (clustered : Clustered m) {price : Int} {s₀ : Nat}
include clustered

private theorem between_used (hs₀ : s₀ < priceMapCapacity) (used : m.distances s₀ ≠ 0)
    (key : m.keys s₀ = price) {x : Nat} (hx : x < priceMapCapacity)
    (within : offset priceMapCapacity (PriceHashMap.hash price) x ≤
      offset priceMapCapacity (PriceHashMap.hash price) s₀) :
    offset priceMapCapacity (PriceHashMap.hash price) x + 1 ≤ m.distances x := by
  subst key
  rcases within.lt_or_eq with before | same
  · exact clustered.between s₀ hs₀ used x hx before
  · rw [offset_inj (hash_lt _) hx hs₀ same, clustered.placed s₀ hs₀ used]

def Approaching (price : Int) (s₀ : Nat) (s : Nat × Nat) : Prop :=
  s.1 < priceMapCapacity ∧
    s.2 = offset priceMapCapacity (PriceHashMap.hash price) s.1 ∧
    offset priceMapCapacity (PriceHashMap.hash price) s.1 ≤
      offset priceMapCapacity (PriceHashMap.hash price) s₀

theorem offset_byte (hs₀ : s₀ < priceMapCapacity) (used : m.distances s₀ ≠ 0)
    (key : m.keys s₀ = price) :
    offset priceMapCapacity (PriceHashMap.hash price) s₀ ≤ 254 := by
  have place := clustered.placed s₀ hs₀ used
  have byte := clustered.byte s₀ hs₀
  rw [key] at place
  omega

section Lanes

variable (hs₀ : s₀ < priceMapCapacity) (used : m.distances s₀ ≠ 0) (key : m.keys s₀ = price)
  {slot : Nat} (wide : slot + 4 ≤ priceMapCapacity)
include hs₀ used key wide

omit clustered used key in
private theorem offset_lane {i : Nat} (hi : i < 4)
    (reach : offset priceMapCapacity (PriceHashMap.hash price) slot + i ≤
      offset priceMapCapacity (PriceHashMap.hash price) s₀) :
    offset priceMapCapacity (PriceHashMap.hash price) (slot + i) =
      offset priceMapCapacity (PriceHashMap.hash price) slot + i :=
  offset_add (hash_lt price) (by omega) (reach.trans_lt (offset_lt (hash_lt price) hs₀))

private theorem lane_used {i : Nat} (hi : i < 4)
    (reach : offset priceMapCapacity (PriceHashMap.hash price) slot + i ≤
      offset priceMapCapacity (PriceHashMap.hash price) s₀) :
    offset priceMapCapacity (PriceHashMap.hash price) slot + i + 1 ≤ m.distances (slot + i) := by
  have lane := offset_lane hs₀ wide hi reach
  have filled := between_used clustered hs₀ used key (x := slot + i) (by omega)
    (by rw [lane]; exact reach)
  rwa [lane] at filled

private theorem wideRound_hit
    (within : offset priceMapCapacity (PriceHashMap.hash price) slot ≤
      offset priceMapCapacity (PriceHashMap.hash price) s₀)
    (hit : PriceHashMap.avx2FindKeyI64 m.keys slot price ≠ 0) (dist : Nat) :
    m.wideRound price (slot, dist) = some (.inr (.inl (m.values s₀))) := by
  obtain ⟨i, hi, index, match_, first⟩ := avx2_first m.keys slot price hit
  have reach : offset priceMapCapacity (PriceHashMap.hash price) slot + i ≤
      offset priceMapCapacity (PriceHashMap.hash price) s₀ := by
    by_contra beyond
    exact first (offset priceMapCapacity (PriceHashMap.hash price) s₀ -
      offset priceMapCapacity (PriceHashMap.hash price) slot) (by omega)
      (by rw [lane_of_slot (hash_lt price) hs₀ wide within (by omega), key])
  have filled := lane_used clustered hs₀ used key wide hi reach
  have same := clustered.distinct (slot + i) (by omega) s₀ hs₀ (by omega) used
    (match_.trans key.symm)
  simp [PriceHashMap.wideRound, wide, hit, index, same]

private theorem groupStops_before
    (far : offset priceMapCapacity (PriceHashMap.hash price) slot + 4 ≤
      offset priceMapCapacity (PriceHashMap.hash price) s₀) :
    m.groupStops slot (offset priceMapCapacity (PriceHashMap.hash price) slot) = false := by
  unfold PriceHashMap.groupStops
  rw [List.any_eq_false]
  intro i member
  have filled := lane_used clustered hs₀ used key wide (List.mem_range.mp member)
    (by have := List.mem_range.mp member; omega)
  have busy : m.vacant (slot + i) = false := by
    simp [PriceHashMap.vacant]
    omega
  simp only [busy, Bool.false_or, decide_eq_true_eq]
  omega

end Lanes

private theorem wide_round_found (hs₀ : s₀ < priceMapCapacity) (used : m.distances s₀ ≠ 0)
    (key : m.keys s₀ = price) (s : Nat × Nat) (inv : Approaching price s₀ s) :
    (∃ s', m.wideRound price s = some (.inl s') ∧ Approaching price s₀ s' ∧
        offset priceMapCapacity s'.1 s₀ < offset priceMapCapacity s.1 s₀) ∨
      ∃ r, m.wideRound price s = some (.inr r) ∧
        (r = .inl (m.values s₀) ∨ ∃ s', r = .inr s' ∧ Approaching price s₀ s') := by
  obtain ⟨slot, dist⟩ := s
  obtain ⟨hslot, hdist, within⟩ := inv
  simp only at hslot hdist within
  have home := hash_lt price
  have inside := offset_lt home hs₀
  have small := offset_byte clustered hs₀ used key
  by_cases wide : slot + 4 ≤ priceMapCapacity
  swap
  · exact Or.inr ⟨.inr (slot, dist), by simp [PriceHashMap.wideRound, wide],
      Or.inr ⟨_, rfl, hslot, hdist, within⟩⟩
  by_cases hit : PriceHashMap.avx2FindKeyI64 m.keys slot price = 0
  swap
  · exact Or.inr ⟨_, wideRound_hit clustered hs₀ used key wide within hit dist, Or.inl rfl⟩
  have far : offset priceMapCapacity (PriceHashMap.hash price) slot + 4 ≤
      offset priceMapCapacity (PriceHashMap.hash price) s₀ := by
    by_contra close
    exact avx2_none m.keys slot price hit
      (offset priceMapCapacity (PriceHashMap.hash price) s₀ -
        offset priceMapCapacity (PriceHashMap.hash price) slot) (by omega)
      (by rw [lane_of_slot home hs₀ wide within (by omega), key])
  have go : m.groupStops slot dist = false := by
    rw [hdist]
    exact groupStops_before clustered hs₀ used key wide far
  have next_lt : (slot + 4) % priceMapCapacity < priceMapCapacity :=
    Nat.mod_lt _ (by omega)
  have further := offset_add_mod home hslot (far.trans_lt inside)
  have remaining := offset_add_offset home hslot hs₀ within
  have remaining' := offset_add_offset home next_lt hs₀ (further.trans_le far)
  left
  refine ⟨((slot + 4) &&& priceMapMask, (dist + 4) % 256),
    by simp [PriceHashMap.wideRound, wide, hit, go], ⟨?_, ?_, ?_⟩, ?_⟩ <;>
    simp only [mask_eq_mod]
  · exact next_lt
  · omega
  · exact further.trans_le far
  · omega

theorem scalar_round_found (hs₀ : s₀ < priceMapCapacity) (used : m.distances s₀ ≠ 0)
    (key : m.keys s₀ = price) (s : Nat × Nat) (inv : Approaching price s₀ s) :
    (∃ s', m.scalarRound price s = some (.inl s') ∧ Approaching price s₀ s' ∧
        offset priceMapCapacity s'.1 s₀ < offset priceMapCapacity s.1 s₀) ∨
      ∃ r, m.scalarRound price s = some (.inr r) ∧ r = m.values s₀ := by
  obtain ⟨slot, dist⟩ := s
  obtain ⟨hslot, hdist, within⟩ := inv
  simp only at hslot hdist within
  have home := hash_lt price
  have small := offset_byte clustered hs₀ used key
  have filled := between_used clustered hs₀ used key hslot within
  have busy : m.vacant slot = false := by
    simp [PriceHashMap.vacant]
    omega
  have go : ¬ m.distances slot < dist := by omega
  by_cases hit : m.keys slot = price
  · have same := clustered.distinct slot hslot s₀ hs₀ (by omega) used (hit.trans key.symm)
    exact Or.inr ⟨m.values slot, by simp [PriceHashMap.scalarRound, busy, go, hit], by rw [same]⟩
  · have apart : slot ≠ s₀ := by
      rintro rfl
      exact hit key
    obtain ⟨further, onward, closer⟩ := offset_toward home hslot hs₀ apart within
    left
    refine ⟨((slot + 1) &&& priceMapMask, (dist + 1) % 256),
      by simp [PriceHashMap.scalarRound, busy, go, hit], ⟨?_, ?_, ?_⟩, ?_⟩ <;>
      simp only [mask_succ hslot]
    · exact step_lt hslot
    · omega
    · omega
    · omega

theorem Clustered.find_held {v : Nat} (stored : Stores m price v) : m.find price = some v := by
  obtain ⟨s₀, hs₀, used, key, rfl⟩ := stored
  have near : ∀ s < priceMapCapacity, offset priceMapCapacity s s₀ < PriceHashMap.probeFuel := by
    intro s hs
    have := offset_lt hs hs₀
    unfold PriceHashMap.probeFuel
    omega
  obtain ⟨r, wide, post⟩ := loop_returns (m.wideRound price) (Approaching price s₀)
    (fun s => offset priceMapCapacity s.1 s₀) _ (wide_round_found clustered hs₀ used key)
    PriceHashMap.probeFuel (PriceHashMap.hash price, 0)
    ⟨hash_lt price, by simp, by simp⟩ (near _ (hash_lt price))
  rcases post with rfl | ⟨s, rfl, inv⟩
  · simp [PriceHashMap.find, wide]
  · obtain ⟨r, scalar, rfl⟩ := loop_returns (m.scalarRound price) (Approaching price s₀)
      (fun s => offset priceMapCapacity s.1 s₀) _ (scalar_round_found clustered hs₀ used key)
      PriceHashMap.probeFuel s inv (near _ inv.1)
    simp [PriceHashMap.find, wide, scalar]

theorem Clustered.answer_absent {r : Nat} (answer : Answer m price r)
    (absent : ∀ v, ¬ Stores m price v) : r = nullIndex := by
  rcases answer with rfl | ⟨s, hs, key, value⟩
  · rfl
  · have unused : m.distances s = 0 := by
      by_contra used
      exact absent _ ⟨s, hs, used, key, rfl⟩
    rw [← value, (clustered.blank s hs unused).2]

end Lookup

section SoundLookup

variable (sound : Sound m) {price : Int}
include sound

theorem find_stored {v : Nat} (stored : Stores m price v) : m.find price = some v :=
  sound.clustered.find_held stored

theorem find_absent (room : (occupied m).card + 1 < priceMapCapacity)
    (absent : ∀ v, ¬ Stores m price v) : m.find price = some nullIndex := by
  obtain ⟨r, found, answer⟩ := find_returns m price room
  rw [found, sound.clustered.answer_absent answer absent]

end SoundLookup

section Insert

variable {price : Int} {v : Nat} {S : Finset Int}

private structure Placing (m : PriceHashMap) (price : Int) (v : Nat) (e₁ e₂ : Nat)
    (i : PriceHashMap.Insertion) : Prop where
  carrying : Carrying priceMapCapacity PriceHashMap.hash 0 nullIndex i.map i.slot i.curKey i.dist
  byte : ∀ s < priceMapCapacity, i.map.distances s ≤ 255
  carried : i.dist ≤ 255
  free₁ : i.map.distances e₁ = 0
  free₂ : i.map.distances e₂ = 0
  contents : ∀ q w, (Stores i.map q w ∨ (q = i.curKey ∧ w = i.curVal)) ↔
    (Stores m q w ∨ (q = price ∧ w = v))

private theorem placing_round {e₁ e₂ : Nat}
    (arcs : ArcBounded priceMapCapacity 254 PriceHashMap.hash S)
    (he₁ : e₁ < priceMapCapacity) (he₂ : e₂ < priceMapCapacity) (apart : e₁ ≠ e₂)
    (keys : ∀ q w, (Stores m q w ∨ (q = price ∧ w = v)) → q ∈ S)
    (i : PriceHashMap.Insertion) (inv : Placing m price v e₁ e₂ i) :
    (∃ i', PriceHashMap.insertRound i = some (.inl i') ∧ Placing m price v e₁ e₂ i' ∧
        offset priceMapCapacity i'.slot e₁ < offset priceMapCapacity i.slot e₁) ∨
      ∃ m', PriceHashMap.insertRound i = some (.inr m') ∧ Sound m' ∧
        ∀ q w, Stores m' q w ↔ (Stores m q w ∨ (q = price ∧ w = v)) := by
  have slot_lt := inv.carrying.slot_lt
  have ring : (255 : Nat) < priceMapCapacity := by decide
  have small := inv.carried
  have positive := inv.carrying.place
  have written : ∀ s < priceMapCapacity,
      (i.map.put i.slot i.curKey i.curVal i.dist).distances s ≤ 255 :=
    put_distances_le i.map i.curKey i.curVal i.dist inv.byte small
  by_cases empty : i.map.distances i.slot = 0
  · have blank := inv.carrying.shape.blank i.slot slot_lt empty
    have vacant : i.map.vacant i.slot = true := (vacant_iff _ _).mpr ⟨empty, blank.1⟩
    obtain ⟨shape, distinct⟩ := inv.carrying.settle (v := i.curVal) ring_large empty
    refine Or.inr ⟨i.map.put i.slot i.curKey i.curVal i.dist,
      by simp [PriceHashMap.insertRound, vacant], ⟨shape, distinct, written⟩, fun q w => ?_⟩
    exact (holds_put_free slot_lt (by omega) empty).trans (inv.contents q w)
  have full : i.map.vacant i.slot = false := by
    simp [PriceHashMap.vacant, empty]
  have away : i.slot ≠ e₁ := by
    rintro rfl
    exact empty inv.free₁
  have closer := offset_step_left slot_lt he₁ away
  have next := mask_succ slot_lt
  left
  by_cases poor : i.map.distances i.slot < i.dist
  · have moved := inv.carrying.displace (v := i.curVal) ring_large (hash_lt _) empty
      (by omega) poor
    have free₁ := put_distances_free i.map i.curKey i.curVal i.dist empty inv.free₁
    have free₂ := put_distances_free i.map i.curKey i.curVal i.dist empty inv.free₂
    have contents : ∀ q w, (Stores (i.map.put i.slot i.curKey i.curVal i.dist) q w ∨
        (q = i.map.keys i.slot ∧ w = i.map.values i.slot)) ↔
        (Stores m q w ∨ (q = price ∧ w = v)) :=
      fun q w => (holds_put_used slot_lt (by omega) empty).trans (inv.contents q w)
    have bound : i.map.distances i.slot + 1 ≤ 255 :=
      moved.le_of_arcs hash_lt arcs he₁ he₂ apart free₁ free₂
        (fun q w kept => keys q w ((contents q w).mp kept))
    refine ⟨⟨i.map.put i.slot i.curKey i.curVal i.dist, step priceMapCapacity i.slot,
      i.map.keys i.slot, i.map.values i.slot, i.map.distances i.slot + 1⟩, ?_,
      ⟨moved, written, bound, free₁, free₂, contents⟩, ?_⟩
    · simp [PriceHashMap.insertRound, full, poor, next, Nat.mod_eq_of_lt (show
        i.map.distances i.slot + 1 < 256 by omega)]
    · simp only
      omega
  · have moved := inv.carrying.advance (hash_lt _) (by omega) (by omega)
    have bound : i.dist + 1 ≤ 255 :=
      moved.le_of_arcs hash_lt arcs he₁ he₂ apart inv.free₁ inv.free₂
        (fun q w kept => keys q w ((inv.contents q w).mp kept))
    refine ⟨{ i with slot := step priceMapCapacity i.slot, dist := i.dist + 1 }, ?_,
      ⟨moved, inv.byte, bound, inv.free₁, inv.free₂, inv.contents⟩, ?_⟩
    · simp [PriceHashMap.insertRound, full, poor, next, Nat.mod_eq_of_lt (show
        i.dist + 1 < 256 by omega)]
    · simp only
      omega

theorem insert_fresh (sound : Sound m) (room : (occupied m).card + 1 < priceMapCapacity)
    (fresh : ∀ w, ¬ Stores m price w)
    (arcs : ArcBounded priceMapCapacity 254 PriceHashMap.hash S)
    (keys : ∀ q w, (Stores m q w ∨ (q = price ∧ w = v)) → q ∈ S) :
    ∃ m', m.insert price v = some m' ∧ Sound m' ∧
      ∀ q w, Stores m' q w ↔ (Stores m q w ∨ (q = price ∧ w = v)) := by
  obtain ⟨e₂, he₂, -, vacant₂⟩ := exists_vacant_ne m 0 room
  obtain ⟨e₁, he₁, apart, vacant₁⟩ := exists_vacant_ne m e₂ room
  have carrying := Carrying.start sound.shape sound.distinct (hash_lt price)
    (fun s hs used key => fresh _ ⟨s, hs, used, key, rfl⟩)
  have start : Placing m price v e₁ e₂ ⟨m, PriceHashMap.hash price, price, v, 1⟩ :=
    ⟨carrying, sound.byte, (show 1 ≤ 255 by decide), (sound.vacant_iff he₁).mp vacant₁,
      (sound.vacant_iff he₂).mp vacant₂, fun _ _ => Iff.rfl⟩
  refine loop_returns PriceHashMap.insertRound (Placing m price v e₁ e₂)
    (fun i => offset priceMapCapacity i.slot e₁) _
    (placing_round arcs he₁ he₂ apart keys) PriceHashMap.probeFuel _ start ?_
  have := offset_lt (hash_lt price) he₁
  simp only [PriceHashMap.probeFuel]
  omega

end Insert

section Remove

variable {price : Int}

private theorem seek_finds (sound : Sound m) {x : Nat} (hx : x < priceMapCapacity)
    (used : m.distances x ≠ 0) (key : m.keys x = price) {r : Option Nat}
    (seek : loop (m.seekRound price) PriceHashMap.probeFuel (PriceHashMap.hash price) = some r) :
    r = some x := by
  have home := hash_lt price
  obtain ⟨r', seek', found⟩ := loop_returns (m.seekRound price)
    (fun slot => slot < priceMapCapacity ∧ offset priceMapCapacity (PriceHashMap.hash price) slot ≤
      offset priceMapCapacity (PriceHashMap.hash price) x)
    (fun slot => offset priceMapCapacity slot x) (fun r => r = some x) (by
      rintro slot ⟨hslot, within⟩
      have filled := between_used sound.clustered hx used key hslot within
      by_cases hit : m.keys slot = price
      · have same := sound.distinct slot hslot x hx (by omega) used (hit.trans key.symm)
        exact Or.inr ⟨some slot, by simp [PriceHashMap.seekRound, hit], by rw [same]⟩
      have busy : m.vacant slot = false := by
        simp [PriceHashMap.vacant]
        omega
      have apart : slot ≠ x := by
        rintro rfl
        exact hit key
      obtain ⟨-, onward, closer⟩ := offset_toward home hslot hx apart within
      refine Or.inl ⟨step priceMapCapacity slot, ?_, ⟨step_lt hslot, onward⟩, closer⟩
      simp [PriceHashMap.seekRound, hit, busy, mask_succ hslot])
    PriceHashMap.probeFuel (PriceHashMap.hash price) ⟨home, by simp⟩ (by
      have := offset_lt home hx
      unfold PriceHashMap.probeFuel
      omega)
  rw [seek] at seek'
  cases seek'
  exact found

private structure Closing (m : PriceHashMap) (s₀ e : Nat) (s : PriceHashMap × Nat) : Prop where
  gap : Gap priceMapCapacity PriceHashMap.hash 0 nullIndex s.1 s.2
  byte : ∀ x < priceMapCapacity, s.1.distances x ≤ 255
  free : s.1.distances e = 0
  apart : s.2 ≠ e
  contents : ∀ q w, HoldsOff priceMapCapacity s.1 s.2 q w ↔ HoldsOff priceMapCapacity m s₀ q w

private theorem closing_round {s₀ e : Nat} (he : e < priceMapCapacity) (s : PriceHashMap × Nat)
    (inv : Closing m s₀ e s) :
    (∃ s', PriceHashMap.shiftRound s = some (.inl s') ∧ Closing m s₀ e s' ∧
        offset priceMapCapacity s'.2 e < offset priceMapCapacity s.2 e) ∨
      ∃ m', PriceHashMap.shiftRound s = some (.inr m') ∧ Sound m' ∧
        ∀ q w, Stores m' q w ↔ HoldsOff priceMapCapacity m s₀ q w := by
  obtain ⟨t, slot⟩ := s
  obtain ⟨gap, byte, free, apart, contents⟩ := inv
  simp only at gap byte free apart contents
  have next := mask_succ gap.gap_lt
  by_cases near : t.distances (step priceMapCapacity slot) ≤ 1
  · obtain ⟨shape, distinct⟩ := gap.close ring_large near
    refine Or.inr ⟨t.put slot 0 nullIndex 0, by simp [PriceHashMap.shiftRound, next, near],
      ⟨shape, distinct, put_distances_le t 0 nullIndex 0 byte (Nat.zero_le _)⟩,
      fun q w => holds_clear.trans (contents q w)⟩
  · have closer := offset_step_left gap.gap_lt he apart
    have next_lt := step_lt gap.gap_lt
    refine Or.inl ⟨(t.put slot (t.keys (step priceMapCapacity slot))
      (t.values (step priceMapCapacity slot)) (t.distances (step priceMapCapacity slot) - 1),
      step priceMapCapacity slot), by simp [PriceHashMap.shiftRound, next, near],
      ⟨gap.shift ring_large hash_lt (by omega),
        put_distances_le t _ _ _ byte ((Nat.sub_le _ 1).trans (byte _ next_lt)),
        ?_, ?_, ?_⟩, ?_⟩
    · simp only
      rw [put_distances_ne _ _ _ _ apart.symm]
      exact free
    · simp only
      intro same
      rw [same, free] at near
      omega
    · intro q w
      exact (holdsOff_shift gap.gap_lt ring_large (by omega)).trans (contents q w)
    · simp only
      omega

theorem remove_key (sound : Sound m) (price : Int)
    (room : (occupied m).card + 2 < priceMapCapacity) :
    ∃ m', m.remove price = some m' ∧ Sound m' ∧
      ∀ q w, Stores m' q w ↔ (Stores m q w ∧ q ≠ price) := by
  obtain ⟨r, seek, found⟩ := seek_returns (m := m) price (by omega)
  cases r with
  | none =>
    refine ⟨m, by simp [PriceHashMap.remove, seek], sound, fun q w => ⟨?_, fun h => h.1⟩⟩
    rintro ⟨x, hx, used, rfl, rfl⟩
    refine ⟨⟨x, hx, used, rfl, rfl⟩, fun same => ?_⟩
    cases seek_finds sound hx used same seek
  | some s₀ =>
    obtain ⟨hs₀, key⟩ := found s₀ rfl
    obtain ⟨e, he, apart, vacant⟩ := exists_vacant_ne m s₀ (by omega)
    have gap : Gap priceMapCapacity PriceHashMap.hash 0 nullIndex m s₀ :=
      ⟨sound.shape, hs₀, fun s hs s' hs' _ _ => sound.distinct s hs s' hs'⟩
    obtain ⟨m', shift, sound', contents⟩ := loop_returns PriceHashMap.shiftRound
      (Closing m s₀ e) (fun s => offset priceMapCapacity s.2 e) _ (closing_round he)
      PriceHashMap.shiftFuel (m, s₀)
      ⟨gap, sound.byte, (sound.vacant_iff he).mp vacant, apart.symm, fun _ _ => Iff.rfl⟩ (by
        have := offset_lt hs₀ he
        simp only [PriceHashMap.shiftFuel]
        unfold priceMapCapacity at *
        omega)
    refine ⟨m', by simp [PriceHashMap.remove, seek, shift], sound', fun q w => ?_⟩
    rw [contents]
    constructor
    · rintro ⟨s, hs, off, used, rfl, rfl⟩
      -- For the key zero the search may end on an unused slot, but not when zero is stored.
      refine ⟨⟨s, hs, used, rfl, rfl⟩, fun same => off ?_⟩
      exact (Option.some.inj (seek_finds sound hs used same seek)).symm
    · rintro ⟨⟨s, hs, used, rfl, rfl⟩, other⟩
      refine ⟨s, hs, ?_, used, rfl, rfl⟩
      rintro rfl
      exact other key

end Remove

end HftGrading.Exchange.Book.PriceMapContents
