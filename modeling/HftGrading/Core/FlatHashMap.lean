/- module: HftGrading/Core/FlatHashMap
   source: core/include/core/flat_map.hpp
   digest: The Robin Hood map with byte-sized probe lengths: insertion and lookup on sound tables. -/

import HftGrading.Lib.PartialExecution
import HftGrading.Lib.RobinHoodTable
import Mathlib.Data.Nat.Bitwise

set_option autoImplicit false
set_option relaxedAutoImplicit false

namespace HftGrading.Core.FlatHashMap

open Lib.PartialExecution Lib.RobinHoodTable

universe u

/-- The bytes of a key, as `memcmp` and the hash see them. -/
abbrev Key (width : Nat) := Vector UInt8 width

def fnv1aHash (data : List UInt8) : UInt64 :=
  data.foldl (fun hash byte => (hash ^^^ byte.toUInt64) * 1099511628211) 14695981039346656037

variable {width : Nat} {V : Type u}

/-- The slots, with `psl` as the distance, and `size_`. -/
structure FlatMap (width : Nat) (V : Type u) where
  slots : Table (Key width) V
  size : Nat

def home (capacity : Nat) (key : Key width) : Nat :=
  (fnv1aHash key.toList).toNat &&& (capacity - 1)

def nextIdx (capacity idx : Nat) : Nat := (idx + 1) &&& (capacity - 1)

/-- Keys and values of the slots are left as they are. -/
def clear (m : FlatMap width V) : FlatMap width V :=
  ⟨{ m.slots with distances := fun _ => 0 }, 0⟩

structure Insertion (width : Nat) (V : Type u) where
  slots : Table (Key width) V
  idx : Nat
  key : Key width
  value : V
  psl : Nat

/-- One round of the loop of `insert`, which compares with the key it was called with. -/
def insertRound (capacity : Nat) (key : Key width) (value : V) (i : Insertion width V) :
    Option (Insertion width V ⊕ Table (Key width) V × Bool) :=
  let next := nextIdx capacity i.idx
  if i.slots.distances i.idx = 0 then
    some (.inr (i.slots.put i.idx i.key i.value i.psl, true))
  else if i.slots.keys i.idx = key then
    some (.inr ({ i.slots with values := Function.update i.slots.values i.idx value }, false))
  else if i.slots.distances i.idx < i.psl then
    some (.inl ⟨i.slots.put i.idx i.key i.value i.psl, next, i.slots.keys i.idx,
      i.slots.values i.idx, (i.slots.distances i.idx + 1) % 256⟩)
  else some (.inl { i with idx := next, psl := (i.psl + 1) % 256 })

def probeFuel (capacity : Nat) : Nat := capacity + 1

def insert (capacity : Nat) (m : FlatMap width V) (key : Key width) (value : V) :
    Option (FlatMap width V × Bool) :=
  (loop (insertRound capacity key value) (probeFuel capacity)
    ⟨m.slots, home capacity key, key, value, 1⟩).map fun r =>
      (⟨r.1, if r.2 then m.size + 1 else m.size⟩, r.2)

def findRound (capacity : Nat) (slots : Table (Key width) V) (key : Key width) :
    Nat × Nat → Option (Nat × Nat ⊕ Option V)
  | (idx, psl) =>
    if slots.distances idx = 0 ∨ slots.distances idx < psl then some (.inr none)
    else if slots.keys idx = key then some (.inr (some (slots.values idx)))
    else some (.inl (nextIdx capacity idx, (psl + 1) % 256))

/-- The outer option is a lookup that has not returned, the inner one the null pointer. -/
def find (capacity : Nat) (m : FlatMap width V) (key : Key width) : Option (Option V) :=
  loop (findRound capacity m.slots key) (probeFuel capacity) (home capacity key, 1)

section Ring

variable {capacity : Nat} (power : capacity.isPowerOfTwo)
include power

theorem and_mask (n : Nat) : n &&& (capacity - 1) = n % capacity := by
  obtain ⟨k, rfl⟩ := power
  exact Nat.and_two_pow_sub_one_eq_mod n k

theorem home_lt (key : Key width) : home capacity key < capacity := by
  unfold home
  rw [and_mask power]
  exact Nat.mod_lt _ (Nat.pos_of_isPowerOfTwo power)

theorem nextIdx_eq {idx : Nat} (inside : idx < capacity) :
    nextIdx capacity idx = step capacity idx := by
  unfold nextIdx step
  rw [and_mask power]
  split_ifs with last
  · exact Nat.mod_eq_of_lt last
  · rw [show idx + 1 = capacity by omega, Nat.mod_self]

end Ring

def Approaching (capacity : Nat) (key : Key width) (s₀ : Nat) (p : Nat × Nat) : Prop :=
  p.1 < capacity ∧ p.2 = offset capacity (home capacity key) p.1 + 1 ∧
    offset capacity (home capacity key) p.1 ≤ offset capacity (home capacity key) s₀

theorem approaching_start {capacity : Nat} (power : capacity.isPowerOfTwo) (key : Key width)
    (s₀ : Nat) : Approaching capacity key s₀ (home capacity key, 1) :=
  ⟨home_lt power key, by simp, by simp⟩

structure Sound (capacity : Nat) (k₀ : Key width) (v₀ : V) (t : Table (Key width) V) : Prop where
  shape : Shape capacity (home capacity) k₀ v₀ (t.blanked k₀ v₀)
  distinct : Distinct capacity t
  byte : ∀ s < capacity, t.distances s ≤ 255

section Tables

variable {capacity : Nat} {k₀ : Key width} {v₀ : V} {t : Table (Key width) V}

theorem sound_clear (m : FlatMap width V) : Sound capacity k₀ v₀ (clear m).slots where
  shape := {
    blank := fun _ _ free => blanked_blank free
    placed := fun _ _ used => absurd rfl used
    ordered := fun _ _ => Nat.zero_le _ }
  distinct := fun _ _ _ _ used _ _ => absurd rfl used
  byte := fun _ _ => Nat.zero_le _

def occupied (capacity : Nat) (t : Table (Key width) V) : Finset Nat :=
  (Finset.range capacity).filter fun s => t.distances s ≠ 0

theorem exists_free {A : Finset Nat} (covers : occupied capacity t ⊆ A) (few : A.card < capacity) :
    ∃ e < capacity, e ∉ A ∧ t.distances e = 0 := by
  have less : A.card < (Finset.range capacity).card := by rwa [Finset.card_range]
  obtain ⟨e, inside, outside⟩ := Finset.exists_mem_notMem_of_card_lt_card less
  refine ⟨e, Finset.mem_range.mp inside, outside, ?_⟩
  by_contra used
  exact outside (covers (Finset.mem_filter.mpr ⟨inside, used⟩))

theorem Sound.occupied_le (sound : Sound capacity k₀ v₀ t) {S : Finset (Key width)}
    (keys : ∀ q w, Holds capacity t q w → q ∈ S) : (occupied capacity t).card ≤ S.card := by
  have used : ∀ s ∈ occupied capacity t, s < capacity ∧ t.distances s ≠ 0 := by
    intro s member
    obtain ⟨inside, used⟩ := Finset.mem_filter.mp member
    exact ⟨Finset.mem_range.mp inside, used⟩
  refine Finset.card_le_card_of_injOn t.keys (fun s member => ?_) fun s member s' member' same => ?_
  · obtain ⟨inside, full⟩ := used s member
    exact keys _ _ ⟨s, inside, full, rfl, rfl⟩
  · obtain ⟨inside, full⟩ := used s member
    obtain ⟨inside', full'⟩ := used s' member'
    exact sound.distinct s inside s' inside' full full' same

variable (power : capacity.isPowerOfTwo) (sound : Sound capacity k₀ v₀ t)
include power sound

section Probing

variable {key : Key width} {s₀ : Nat} (inside : s₀ < capacity) (used : t.distances s₀ ≠ 0)
  (stored : t.keys s₀ = key)
include inside used stored

theorem Sound.between {x : Nat} (hx : x < capacity)
    (within : offset capacity (home capacity key) x ≤ offset capacity (home capacity key) s₀) :
    offset capacity (home capacity key) x + 1 ≤ t.distances x := by
  have same : (t.blanked k₀ v₀).keys s₀ = key := (blanked_keys used).trans stored
  have between := sound.shape.between (home_lt power) inside hx used
  rw [same] at between
  exact between within

theorem Sound.approaches {idx psl : Nat} (approaching : Approaching capacity key s₀ (idx, psl)) :
    t.distances idx ≠ 0 ∧ psl ≤ t.distances idx ∧ (t.keys idx = key ↔ idx = s₀) ∧
      (idx ≠ s₀ → Approaching capacity key s₀ (nextIdx capacity idx, (psl + 1) % 256) ∧
        offset capacity (nextIdx capacity idx) s₀ < offset capacity idx s₀) := by
  obtain ⟨hidx, hpsl, within⟩ := approaching
  simp only at hidx hpsl within
  have filled := sound.between power inside used stored hidx within
  have byte := sound.byte idx hidx
  refine ⟨by omega, by omega, ⟨fun hit => ?_, fun same => same ▸ stored⟩, fun apart => ?_⟩
  · exact sound.distinct idx hidx s₀ inside (by omega) used (hit.trans stored.symm)
  · obtain ⟨further, onward, closer⟩ :=
      offset_toward (home_lt power key) hidx inside apart within
    have next := sound.between power inside used stored (step_lt hidx) onward
    have byte' := sound.byte _ (step_lt hidx)
    rw [nextIdx_eq power hidx]
    exact ⟨⟨step_lt hidx, by simp only; omega, onward⟩, closer⟩

theorem Sound.loop_findRound :
    loop (findRound capacity t key) (probeFuel capacity) (home capacity key, 1) =
      some (some (t.values s₀)) := by
  obtain ⟨r, returns, rfl⟩ := loop_returns (findRound capacity t key) (Approaching capacity key s₀)
    (fun p => offset capacity p.1 s₀) (fun r => r = some (t.values s₀)) (by
      rintro ⟨idx, psl⟩ approaching
      obtain ⟨full, rich, hit, next⟩ := sound.approaches power inside used stored approaching
      by_cases same : idx = s₀
      · subst same
        refine Or.inr ⟨_, ?_, rfl⟩
        simp [findRound, full, Nat.not_lt.mpr rich, stored]
      · obtain ⟨approaching', closer⟩ := next same
        refine Or.inl ⟨_, ?_, approaching', closer⟩
        simp [findRound, full, Nat.not_lt.mpr rich, hit, same])
    (probeFuel capacity) (home capacity key, 1) (approaching_start power key s₀)
    (Nat.lt_succ_of_lt (offset_lt (home_lt power key) inside))
  exact returns

theorem Sound.loop_insertRound_stored (value : V) :
    loop (insertRound capacity key value) (probeFuel capacity)
        ⟨t, home capacity key, key, value, 1⟩ =
      some ({ t with values := Function.update t.values s₀ value }, false) := by
  obtain ⟨r, returns, rfl⟩ := loop_returns (insertRound capacity key value)
    (fun i => Approaching capacity key s₀ (i.idx, i.psl) ∧ i = ⟨t, i.idx, key, value, i.psl⟩)
    (fun i => offset capacity i.idx s₀)
    (fun r => r = ({ t with values := Function.update t.values s₀ value }, false)) (by
      rintro ⟨slots, idx, key', value', psl⟩ ⟨approaching, same⟩
      cases same
      obtain ⟨full, rich, hit, next⟩ := sound.approaches power inside used stored approaching
      by_cases same : idx = s₀
      · subst same
        refine Or.inr ⟨_, ?_, rfl⟩
        simp [insertRound, full, stored]
      · obtain ⟨approaching', closer⟩ := next same
        refine Or.inl ⟨⟨t, nextIdx capacity idx, key, value, (psl + 1) % 256⟩, ?_,
          ⟨approaching', rfl⟩, closer⟩
        simp [insertRound, full, Nat.not_lt.mpr rich, hit, same])
    (probeFuel capacity) ⟨t, home capacity key, key, value, 1⟩
    ⟨approaching_start power key s₀, rfl⟩
    (Nat.lt_succ_of_lt (offset_lt (home_lt power key) inside))
  exact returns

end Probing

omit power in
theorem Sound.revalue {key : Key width} {s₀ : Nat} (inside : s₀ < capacity)
    (used : t.distances s₀ ≠ 0) (stored : t.keys s₀ = key) (value : V) :
    Sound capacity k₀ v₀ { t with values := Function.update t.values s₀ value } ∧
      ∀ q w, Holds capacity { t with values := Function.update t.values s₀ value } q w ↔
        if q = key then w = value else Holds capacity t q w := by
  refine ⟨⟨⟨fun s _ free => blanked_blank free, sound.shape.placed, sound.shape.ordered⟩,
    sound.distinct, sound.byte⟩, fun q w => ?_⟩
  subst stored
  split_ifs with same
  · subst same
    constructor
    · rintro ⟨s, hs, full, hit, rfl⟩
      obtain rfl := sound.distinct s hs s₀ inside full used hit
      exact Function.update_self _ _ _
    · rintro rfl
      exact ⟨s₀, inside, used, rfl, Function.update_self _ _ _⟩
  · have other : ∀ s, t.keys s = q → s ≠ s₀ := by
      rintro s hit rfl
      exact same hit.symm
    constructor
    · rintro ⟨s, hs, full, hit, rfl⟩
      exact ⟨s, hs, full, hit, (Function.update_of_ne (other s hit) _ _).symm⟩
    · rintro ⟨s, hs, full, hit, rfl⟩
      exact ⟨s, hs, full, hit, Function.update_of_ne (other s hit) _ _⟩

omit sound in
theorem loop_findRound_absent {key : Key width} {e : Nat} (he : e < capacity)
    (free : t.distances e = 0) (absent : ∀ v, ¬ Holds capacity t key v) :
    loop (findRound capacity t key) (probeFuel capacity) (home capacity key, 1) = some none := by
  obtain ⟨r, returns, rfl⟩ := loop_returns (findRound capacity t key) (fun p => p.1 < capacity)
    (fun p => offset capacity p.1 e) (fun r => r = none) (by
      rintro ⟨idx, psl⟩ hidx
      simp only at hidx
      by_cases stop : t.distances idx = 0 ∨ t.distances idx < psl
      · exact Or.inr ⟨none, by simp [findRound, stop], rfl⟩
      · obtain ⟨full, -⟩ := not_or.mp stop
        have miss : t.keys idx ≠ key := fun hit => absent _ ⟨idx, hidx, full, hit, rfl⟩
        have apart : idx ≠ e := by
          rintro rfl
          exact full free
        have closer := offset_step_left hidx he apart
        refine Or.inl ⟨(nextIdx capacity idx, (psl + 1) % 256), ?_, ?_, ?_⟩
        · simp only [findRound, if_neg stop, if_neg miss]
        · simp only [nextIdx_eq power hidx]
          exact step_lt hidx
        · simp only [nextIdx_eq power hidx]
          omega)
    (probeFuel capacity) (home capacity key, 1) (home_lt power key)
    (Nat.lt_succ_of_lt (offset_lt (home_lt power key) he))
  exact returns

end Tables

section Fresh

variable {capacity : Nat} {k₀ key : Key width} {v₀ value : V} {t : Table (Key width) V}

/-- An insertion of an absent key in flight: nothing is lost or gained, and the key itself lies
behind the index on the way to the unused slot `e₁`. -/
structure Placing (capacity : Nat) (k₀ : Key width) (v₀ : V) (t : Table (Key width) V)
    (key : Key width) (value : V) (e₁ e₂ : Nat) (i : Insertion width V) : Prop where
  carrying : Carrying capacity (home capacity) k₀ v₀ (i.slots.blanked k₀ v₀) i.idx i.key i.psl
  byte : ∀ s < capacity, i.slots.distances s ≤ 255
  carried : i.psl ≤ 255
  free₁ : i.slots.distances e₁ = 0
  free₂ : i.slots.distances e₂ = 0
  contents : ∀ q w, (Holds capacity i.slots q w ∨ (q = i.key ∧ w = i.value)) ↔
    (Holds capacity t q w ∨ (q = key ∧ w = value))
  passed : ∀ s < capacity, i.slots.distances s ≠ 0 → i.slots.keys s = key →
    offset capacity i.idx e₁ < offset capacity s e₁

variable (power : capacity.isPowerOfTwo) {S : Finset (Key width)}
  (arcs : ArcBounded capacity 254 (home capacity) S) {e₁ e₂ : Nat} (he₁ : e₁ < capacity)
  (he₂ : e₂ < capacity) (apart : e₁ ≠ e₂)
include power arcs he₁ he₂ apart

theorem carried_byte {slot D : Nat} {k : Key width} {w : V}
    (carrying : Carrying capacity (home capacity) k₀ v₀ (t.blanked k₀ v₀) slot k D)
    (free₁ : t.distances e₁ = 0) (free₂ : t.distances e₂ = 0)
    (keys : ∀ q u, (Holds capacity t q u ∨ (q = k ∧ u = w)) → q ∈ S) : D ≤ 255 :=
  carrying.le_of_arcs (home_lt power) arcs he₁ he₂ apart free₁ free₂ fun q u held =>
    keys q u (held.imp_left holds_blanked.mp)

omit power arcs he₂ apart in
theorem Placing.nears {i : Insertion width V} (inv : Placing capacity k₀ v₀ t key value e₁ e₂ i)
    (full : i.slots.distances i.idx ≠ 0) :
    offset capacity (step capacity i.idx) e₁ + 1 = offset capacity i.idx e₁ ∧ i.psl < capacity := by
  have hidx := inv.carrying.slot_lt
  have away : e₁ ≠ i.idx := by
    rintro rfl
    exact full inv.free₁
  have near := inv.carrying.le_offset he₁ away inv.free₁
  exact ⟨offset_step_left hidx he₁ away.symm, near.trans_lt (offset_lt he₁ hidx)⟩

theorem Placing.displaces
    (keys : ∀ q w, (Holds capacity t q w ∨ (q = key ∧ w = value)) → q ∈ S)
    {i : Insertion width V} (inv : Placing capacity k₀ v₀ t key value e₁ e₂ i)
    (full : i.slots.distances i.idx ≠ 0) (poor : i.slots.distances i.idx < i.psl) :
    Placing capacity k₀ v₀ t key value e₁ e₂ ⟨i.slots.put i.idx i.key i.value i.psl,
        nextIdx capacity i.idx, i.slots.keys i.idx, i.slots.values i.idx,
        (i.slots.distances i.idx + 1) % 256⟩ ∧
      offset capacity (nextIdx capacity i.idx) e₁ < offset capacity i.idx e₁ := by
  have hidx := inv.carrying.slot_lt
  have positive : i.psl ≠ 0 := by omega
  obtain ⟨closer, ring⟩ := inv.nears he₁ full
  have moved := inv.carrying.displace (v := i.value) (by omega) (home_lt power _) full
    (by rw [blanked_distances]; omega) poor
  rw [← blanked_put positive, blanked_keys full, blanked_distances] at moved
  have free₁ := put_distances_free i.slots i.key i.value i.psl full inv.free₁
  have free₂ := put_distances_free i.slots i.key i.value i.psl full inv.free₂
  have contents : ∀ q w, (Holds capacity (i.slots.put i.idx i.key i.value i.psl) q w ∨
      (q = i.slots.keys i.idx ∧ w = i.slots.values i.idx)) ↔
      (Holds capacity t q w ∨ (q = key ∧ w = value)) :=
    fun q w => (holds_put_used hidx positive full).trans (inv.contents q w)
  have bound : i.slots.distances i.idx + 1 ≤ 255 :=
    carried_byte power arcs he₁ he₂ apart moved free₁ free₂
      fun q w kept => keys q w ((contents q w).mp kept)
  rw [nextIdx_eq power hidx, Nat.mod_eq_of_lt (by omega)]
  refine ⟨⟨moved, put_distances_le i.slots i.key i.value i.psl inv.byte inv.carried, bound, free₁,
    free₂, contents, fun s hs used hit => ?_⟩, by omega⟩
  simp only
  by_cases here : s = i.idx
  · subst here
    omega
  · rw [put_distances_ne _ _ _ _ here] at used
    rw [put_keys_ne _ _ _ _ here] at hit
    have before := inv.passed s hs used hit
    omega

theorem Placing.passes
    (keys : ∀ q w, (Holds capacity t q w ∨ (q = key ∧ w = value)) → q ∈ S)
    {i : Insertion width V} (inv : Placing capacity k₀ v₀ t key value e₁ e₂ i)
    (full : i.slots.distances i.idx ≠ 0) (rich : i.psl ≤ i.slots.distances i.idx) :
    Placing capacity k₀ v₀ t key value e₁ e₂
        { i with idx := nextIdx capacity i.idx, psl := (i.psl + 1) % 256 } ∧
      offset capacity (nextIdx capacity i.idx) e₁ < offset capacity i.idx e₁ := by
  have hidx := inv.carrying.slot_lt
  obtain ⟨closer, ring⟩ := inv.nears he₁ full
  have moved := inv.carrying.advance (home_lt power _) (by omega) rich
  have bound : i.psl + 1 ≤ 255 := carried_byte power arcs he₁ he₂ apart moved inv.free₁ inv.free₂
    fun q w kept => keys q w ((inv.contents q w).mp kept)
  rw [nextIdx_eq power hidx, Nat.mod_eq_of_lt (by omega)]
  refine ⟨⟨moved, inv.byte, bound, inv.free₁, inv.free₂, inv.contents, fun s hs used hit => ?_⟩,
    by omega⟩
  have before := inv.passed s hs used hit
  simp only
  omega

omit power arcs in
theorem Placing.settles {i : Insertion width V} (inv : Placing capacity k₀ v₀ t key value e₁ e₂ i)
    (free : i.slots.distances i.idx = 0) :
    Sound capacity k₀ v₀ (i.slots.put i.idx i.key i.value i.psl) ∧
      ∀ q w, Holds capacity (i.slots.put i.idx i.key i.value i.psl) q w ↔
        (Holds capacity t q w ∨ (q = key ∧ w = value)) := by
  have hidx := inv.carrying.slot_lt
  have place := inv.carrying.place
  have positive : i.psl ≠ 0 := by omega
  obtain ⟨shape, distinct⟩ := inv.carrying.settle (v := i.value) (by omega) free
  rw [← blanked_put positive] at shape distinct
  refine ⟨⟨shape, distinct_blanked.mp distinct,
    put_distances_le i.slots i.key i.value i.psl inv.byte inv.carried⟩, fun q w => ?_⟩
  exact (holds_put_free hidx positive free).trans (inv.contents q w)

theorem Sound.loop_insertRound_fresh (sound : Sound capacity k₀ v₀ t)
    (free₁ : t.distances e₁ = 0) (free₂ : t.distances e₂ = 0)
    (fresh : ∀ w, ¬ Holds capacity t key w)
    (keys : ∀ q w, (Holds capacity t q w ∨ (q = key ∧ w = value)) → q ∈ S) :
    ∃ t', loop (insertRound capacity key value) (probeFuel capacity)
        ⟨t, home capacity key, key, value, 1⟩ = some (t', true) ∧ Sound capacity k₀ v₀ t' ∧
      ∀ q w, Holds capacity t' q w ↔ (Holds capacity t q w ∨ (q = key ∧ w = value)) := by
  have absent : ∀ s < capacity, t.distances s ≠ 0 → t.keys s ≠ key :=
    fun s hs used hit => fresh _ ⟨s, hs, used, hit, rfl⟩
  have carrying := Carrying.start sound.shape (distinct_blanked.mpr sound.distinct)
    (home_lt power key) fun s hs used => by
      rw [blanked_distances] at used
      rw [blanked_keys used]
      exact absent s hs used
  obtain ⟨r, returns, new, sound', contents⟩ := loop_returns (insertRound capacity key value)
    (Placing capacity k₀ v₀ t key value e₁ e₂) (fun i => offset capacity i.idx e₁)
    (fun r => r.2 = true ∧ Sound capacity k₀ v₀ r.1 ∧
      ∀ q w, Holds capacity r.1 q w ↔ (Holds capacity t q w ∨ (q = key ∧ w = value))) (by
      intro i inv
      by_cases free : i.slots.distances i.idx = 0
      · exact Or.inr ⟨(i.slots.put i.idx i.key i.value i.psl, true),
          by simp only [insertRound, if_pos free], rfl, inv.settles he₁ he₂ apart free⟩
      -- the key itself lies behind, so the comparison with it fails
      have miss : i.slots.keys i.idx ≠ key :=
        fun hit => absurd (inv.passed _ inv.carrying.slot_lt free hit) (Nat.lt_irrefl _)
      left
      by_cases poor : i.slots.distances i.idx < i.psl
      · exact ⟨_, by simp only [insertRound, if_neg free, if_neg miss, if_pos poor],
          inv.displaces power arcs he₁ he₂ apart keys free poor⟩
      · exact ⟨_, by simp only [insertRound, if_neg free, if_neg miss, if_neg poor],
          inv.passes power arcs he₁ he₂ apart keys free (Nat.not_lt.mp poor)⟩)
    (probeFuel capacity) ⟨t, home capacity key, key, value, 1⟩
    ⟨carrying, sound.byte, (show 1 ≤ 255 by decide), free₁, free₂, fun _ _ => Iff.rfl,
      fun s hs used hit => absurd hit (absent s hs used)⟩
    (Nat.lt_succ_of_lt (offset_lt (home_lt power key) he₁))
  obtain ⟨t', b⟩ := r
  cases new
  exact ⟨t', returns, sound', contents⟩

end Fresh

end HftGrading.Core.FlatHashMap
