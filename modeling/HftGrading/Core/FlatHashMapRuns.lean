/- module: HftGrading/Core/FlatHashMapRuns
   source: core/include/core/flat_map.hpp
   digest: Sequences of insertions against a finite map, and the keys that overflow a probe length. -/

import HftGrading.Core.FlatHashMap

set_option autoImplicit false
set_option relaxedAutoImplicit false

namespace HftGrading.Core.FlatHashMapRuns

open Lib.PartialExecution Lib.RobinHoodTable FlatHashMap

universe u

variable {width : Nat} {V : Type u}

structure Insertions (width : Nat) (V : Type u) where
  map : FlatMap width V
  outcomes : List Bool

def Insertions.insert (capacity : Nat) (s : Insertions width V) (entry : Key width × V) :
    Option (Insertions width V) :=
  (FlatHashMap.insert capacity s.map entry.1 entry.2).map fun r => ⟨r.1, s.outcomes ++ [r.2]⟩

def lastValue (entries : List (Key width × V)) : Key width → Option V :=
  entries.foldl (fun f entry => Function.update f entry.1 (some entry.2)) fun _ => none

def keysOf (entries : List (Key width × V)) : Finset (Key width) :=
  (entries.map Prod.fst).toFinset

def firstInsertions (seen : Finset (Key width)) : List (Key width × V) → List Bool
  | [] => []
  | entry :: entries =>
    decide (entry.1 ∉ seen) :: firstInsertions (Insert.insert entry.1 seen) entries

/-- Every lookup returns the last value of its key, the insertions have returned true exactly for
new keys, and the size is the number of keys. -/
structure ActsAsMap (capacity : Nat) (entries : List (Key width × V)) (s : Insertions width V) :
    Prop where
  find : ∀ key, FlatHashMap.find capacity s.map key = some (lastValue entries key)
  outcomes : s.outcomes = firstInsertions ∅ entries
  size : s.map.size = (keysOf entries).card

section History

variable (entries : List (Key width × V)) (entry : Key width × V)

@[simp] theorem lastValue_concat :
    lastValue (entries ++ [entry]) =
      Function.update (lastValue entries) entry.1 (some entry.2) := by
  simp [lastValue]

@[simp] theorem keysOf_concat :
    keysOf (entries ++ [entry]) = Insert.insert entry.1 (keysOf entries) := by
  ext key
  simp [keysOf]

theorem firstInsertions_concat (seen : Finset (Key width)) :
    firstInsertions seen (entries ++ [entry]) =
      firstInsertions seen entries ++ [decide (entry.1 ∉ seen ∪ keysOf entries)] := by
  induction entries generalizing seen with
  | nil => simp [firstInsertions, keysOf]
  | cons first entries ih =>
    have same : entry.1 ∉ Insert.insert first.1 seen ∪ keysOf entries ↔
        entry.1 ∉ seen ∪ keysOf (first :: entries) := by
      simp only [keysOf, List.map_cons, List.toFinset_cons, Finset.insert_union,
        Finset.union_insert]
    simp only [List.cons_append, firstInsertions, ih, decide_eq_decide.mpr same]

theorem mem_keysOf (key : Key width) :
    key ∈ keysOf entries ↔ ∃ v, lastValue entries key = some v := by
  induction entries using List.reverseRecOn with
  | nil => simp [keysOf, lastValue]
  | append_singleton entries entry ih =>
    rw [keysOf_concat, lastValue_concat, Finset.mem_insert, ih]
    by_cases same : key = entry.1
    · subst same
      simp
    · simp [same]

end History

structure Mirrors (capacity : Nat) (k₀ : Key width) (v₀ : V) (entries : List (Key width × V))
    (s : Insertions width V) : Prop where
  sound : Sound capacity k₀ v₀ s.map.slots
  values : ∀ key v, Holds capacity s.map.slots key v ↔ lastValue entries key = some v
  outcomes : s.outcomes = firstInsertions ∅ entries
  size : s.map.size = (keysOf entries).card

section Steps

variable {capacity : Nat} {k₀ : Key width} {v₀ : V} {entries : List (Key width × V)}
  {s : Insertions width V} (mirrors : Mirrors capacity k₀ v₀ entries s)
include mirrors

theorem Mirrors.mem_keys {key : Key width} {v : V} (held : Holds capacity s.map.slots key v) :
    key ∈ keysOf entries :=
  (mem_keysOf entries key).mpr ⟨v, (mirrors.values key v).mp held⟩

theorem Mirrors.occupied_le : (occupied capacity s.map.slots).card ≤ (keysOf entries).card :=
  mirrors.sound.occupied_le fun _ _ held => mirrors.mem_keys held

variable (power : capacity.isPowerOfTwo)
include power

theorem Mirrors.find (few : (keysOf entries).card < capacity) (key : Key width) :
    FlatHashMap.find capacity s.map key = some (lastValue entries key) := by
  cases last : lastValue entries key with
  | some v =>
    obtain ⟨s₀, inside, used, stored, rfl⟩ := (mirrors.values key v).mpr last
    exact mirrors.sound.loop_findRound power inside used stored
  | none =>
    have covers : occupied capacity s.map.slots ⊆ occupied capacity s.map.slots := subset_rfl
    obtain ⟨e, inside, -, free⟩ := exists_free covers (mirrors.occupied_le.trans_lt few)
    refine loop_findRound_absent power inside free fun v held => ?_
    rw [mirrors.values, last] at held
    cases held

theorem Mirrors.insert_stored {key : Key width} (value : V) (known : key ∈ keysOf entries) :
    ∃ s', s.insert capacity (key, value) = some s' ∧
      Mirrors capacity k₀ v₀ (entries ++ [(key, value)]) s' := by
  obtain ⟨v, last⟩ := (mem_keysOf entries key).mp known
  obtain ⟨s₀, inside, used, stored, -⟩ := (mirrors.values key v).mpr last
  have returns := mirrors.sound.loop_insertRound_stored power inside used stored value
  obtain ⟨sound, contents⟩ := mirrors.sound.revalue inside used stored value
  refine ⟨⟨⟨_, s.map.size⟩, s.outcomes ++ [false]⟩, ?_, sound, fun q w => ?_, ?_, ?_⟩
  · simp [Insertions.insert, FlatHashMap.insert, returns]
  · simp only [contents, lastValue_concat]
    split_ifs with same
    · subst same
      simp [eq_comm]
    · rw [Function.update_of_ne same, mirrors.values]
  · simp [firstInsertions_concat, mirrors.outcomes, known]
  · simp [mirrors.size, Finset.insert_eq_self.mpr known]

theorem Mirrors.insert_fresh {key : Key width} (value : V) (unknown : key ∉ keysOf entries)
    (few : (keysOf (entries ++ [(key, value)])).card < capacity)
    (arcs : ArcBounded capacity 254 (home capacity) (keysOf (entries ++ [(key, value)]))) :
    ∃ s', s.insert capacity (key, value) = some s' ∧
      Mirrors capacity k₀ v₀ (entries ++ [(key, value)]) s' := by
  have count := mirrors.occupied_le
  simp only [keysOf_concat] at few arcs
  have grown := Finset.card_insert_of_notMem unknown
  have covers : occupied capacity s.map.slots ⊆ occupied capacity s.map.slots := subset_rfl
  obtain ⟨e₂, he₂, -, free₂⟩ := exists_free covers (by omega)
  obtain ⟨e₁, he₁, apart, free₁⟩ := exists_free (covers.trans (Finset.subset_insert e₂ _))
    ((Finset.card_insert_le _ _).trans_lt (by omega))
  have fresh : ∀ w, ¬ Holds capacity s.map.slots key w := fun w held => unknown (mirrors.mem_keys held)
  have keys : ∀ q w, (Holds capacity s.map.slots q w ∨ (q = key ∧ w = value)) →
      q ∈ Insert.insert key (keysOf entries) := by
    rintro q w (held | ⟨rfl, -⟩)
    · exact Finset.mem_insert_of_mem (mirrors.mem_keys held)
    · exact Finset.mem_insert_self _ _
  obtain ⟨t', returns, sound, contents⟩ := mirrors.sound.loop_insertRound_fresh power arcs he₁ he₂
    (fun same => apart (same ▸ Finset.mem_insert_self _ _)) free₁ free₂ fresh keys
  refine ⟨⟨⟨t', s.map.size + 1⟩, s.outcomes ++ [true]⟩, ?_, sound, fun q w => ?_, ?_, ?_⟩
  · simp [Insertions.insert, FlatHashMap.insert, returns]
  · simp only [contents, lastValue_concat]
    by_cases same : q = key
    · subst same
      simp [fresh, eq_comm]
    · simp [same, mirrors.values]
  · simp [firstInsertions_concat, mirrors.outcomes, unknown]
  · simp [mirrors.size, grown]

end Steps

theorem keysOf_subset {first entries : List (Key width × V)} (initial : first <+: entries) :
    keysOf first ⊆ keysOf entries := by
  intro key member
  rw [keysOf, List.mem_toFinset] at member ⊢
  exact (initial.map Prod.fst).subset member

/-- With fewer distinct keys than slots, and no arc of the ring crowded by more than 254 of
their homes, the map is a map. -/
theorem flat_map_is_map (capacity : Nat) (power : capacity.isPowerOfTwo) (m : FlatMap width V)
    (entries : List (Key width × V)) (few : (keysOf entries).card < capacity)
    (arcs : ArcBounded capacity 254 (home capacity) (keysOf entries)) :
    ∃ s, run (Insertions.insert capacity) ⟨clear m, []⟩ entries = some s ∧
      ActsAsMap capacity entries s := by
  have start : Mirrors capacity (m.slots.keys 0) (m.slots.values 0) [] ⟨clear m, []⟩ := by
    refine ⟨sound_clear m, fun key v => ?_, rfl, rfl⟩
    simp only [lastValue, List.foldl_nil, reduceCtorEq, iff_false]
    rintro ⟨s, -, used, -⟩
    exact used rfl
  have initial : ∀ h as : List (Key width × V),
      (keysOf (h ++ as)).card < capacity ∧
        ArcBounded capacity 254 (home capacity) (keysOf (h ++ as)) →
      (keysOf h).card < capacity ∧ ArcBounded capacity 254 (home capacity) (keysOf h) := by
    intro h as hist
    have fewer := keysOf_subset (List.prefix_append h as)
    exact ⟨(Finset.card_le_card fewer).trans_lt hist.1, hist.2.mono fewer⟩
  obtain ⟨s, returns, mirrors⟩ := run_returns_history (Insertions.insert capacity)
    (fun _ _ => True)
    (fun h => (keysOf h).card < capacity ∧ ArcBounded capacity 254 (home capacity) (keysOf h))
    (Mirrors capacity (m.slots.keys 0) (m.slots.values 0)) initial
    (fun h s entry mirrors _ hist => by
      by_cases known : entry.1 ∈ keysOf h
      · exact mirrors.insert_stored power entry.2 known
      · exact mirrors.insert_fresh power entry.2 known hist.1 hist.2)
    [] entries ⟨clear m, []⟩ start ⟨few, arcs⟩ (obeys_of_forall (fun _ _ => trivial) _ _)
  exact ⟨s, returns, mirrors.find power few, mirrors.outcomes, mirrors.size⟩

def zeroMap : FlatMap 4 Nat := ⟨⟨fun _ => Vector.replicate 4 0, fun _ => 0, fun _ => 0⟩, 0⟩

def fewEntries : List (Key 4 × Nat) :=
  [(Vector.replicate 4 1, 7), (Vector.replicate 4 2, 8), (Vector.replicate 4 1, 9)]

theorem fewEntries_map :
    ∃ s, run (Insertions.insert 4) ⟨clear zeroMap, []⟩ fewEntries = some s ∧
      ActsAsMap 4 fewEntries s :=
  flat_map_is_map 4 ⟨2, rfl⟩ zeroMap fewEntries (by decide) (arcBounded_of_card (by decide))

def absorb (hash : UInt64) (byte : UInt8) : UInt64 :=
  (hash ^^^ byte.toUInt64) * 1099511628211

/-- The `j`-th of a family of keys that all hash to slot 0 of 512: the third byte makes the ninth
bit of the hash zero, the fourth cancels the other eight. -/
def collider (j : Nat) : Key 4 :=
  let hash := fnv1aHash [UInt8.ofNat j, 0]
  let third := UInt8.ofNat (((List.range 256).find? fun x =>
    (absorb hash (UInt8.ofNat x)).toNat / 256 % 2 == 0).getD 0)
  ⟨#[UInt8.ofNat j, 0, third, (absorb hash third).toUInt8], rfl⟩

theorem home_collider {j : Nat} (small : j < 256) : home 512 (collider j) = 0 := by
  have all : ∀ j < 256, home 512 (collider j) = 0 := by decide +kernel
  exact all j small

theorem collider_inj {i j : Nat} (hi : i < 256) (hj : j < 256) (same : collider i = collider j) :
    i = j := by
  have byte : UInt8.ofNat i = UInt8.ofNat j := congrArg (fun key => key.toList.headD 0) same
  have equal := congrArg UInt8.toNat byte
  rwa [UInt8.toNat_ofNat', UInt8.toNat_ofNat', Nat.mod_eq_of_lt hi, Nat.mod_eq_of_lt hj] at equal

def collisions (n : Nat) : List (Key 4 × Nat) := (List.range n).map fun j => (collider j, j)

/-- The slots after `n` colliding insertions, as long as their probe lengths fit. -/
def cluster (n : Nat) : Table (Key 4) Nat where
  keys s := if s < n then collider s else Vector.replicate 4 0
  values s := if s < n then s else 0
  distances s := if s < n then s + 1 else 0

theorem cluster_put (n : Nat) : (cluster n).put n (collider n) n (n + 1) = cluster (n + 1) :=
  put_next collider (fun s => s) (fun s => s + 1) (Vector.replicate 4 0) 0 n

theorem loop_collider {n : Nat} (small : n < 256) :
    loop (insertRound 512 (collider n) n) (probeFuel 512)
        ⟨cluster n, home 512 (collider n), collider n, n, 1⟩ =
      some ((cluster n).put n (collider n) n ((n + 1) % 256), true) := by
  obtain ⟨r, returns, rfl⟩ := loop_returns (insertRound 512 (collider n) n)
    (fun i => ∃ idx ≤ n, i = ⟨cluster n, idx, collider n, n, (idx + 1) % 256⟩)
    (fun i => n - i.idx) (fun r => r = ((cluster n).put n (collider n) n ((n + 1) % 256), true)) (by
      rintro i ⟨idx, le, rfl⟩
      rcases le.eq_or_lt with last | inside
      · subst last
        refine Or.inr ⟨_, ?_, rfl⟩
        simp [insertRound, cluster]
      · have next : nextIdx 512 idx = idx + 1 := by
          rw [nextIdx, and_mask ⟨9, rfl⟩, Nat.mod_eq_of_lt (by omega)]
        have miss : collider idx ≠ collider n :=
          fun same => inside.ne (collider_inj (by omega) small same)
        refine Or.inl ⟨⟨cluster n, idx + 1, collider n, n, (idx + 1 + 1) % 256⟩, ?_,
          ⟨idx + 1, inside, rfl⟩, by simp only; omega⟩
        simp [insertRound, cluster, inside, next, miss, Nat.mod_eq_of_lt (show idx + 1 < 256 by omega)])
    (probeFuel 512) ⟨cluster n, home 512 (collider n), collider n, n, 1⟩
    ⟨0, Nat.zero_le n, by simp [home_collider small]⟩ (by unfold probeFuel; omega)
  exact returns

theorem collisions_succ (n : Nat) : collisions (n + 1) = collisions n ++ [(collider n, n)] := by
  simp [collisions, List.range_succ]

theorem run_collisions_succ {n : Nat} (small : n < 256)
    (before : run (Insertions.insert 512) ⟨clear zeroMap, []⟩ (collisions n) =
      some ⟨⟨cluster n, n⟩, List.replicate n true⟩) :
    run (Insertions.insert 512) ⟨clear zeroMap, []⟩ (collisions (n + 1)) =
      some ⟨⟨(cluster n).put n (collider n) n ((n + 1) % 256), n + 1⟩,
        List.replicate (n + 1) true⟩ := by
  rw [collisions_succ, run_append, before, Option.bind_some]
  simp [run, Insertions.insert, FlatHashMap.insert, loop_collider small, List.replicate_succ']

theorem run_collisions {n : Nat} (small : n < 256) :
    run (Insertions.insert 512) ⟨clear zeroMap, []⟩ (collisions n) =
      some ⟨⟨cluster n, n⟩, List.replicate n true⟩ := by
  induction n with
  | zero => rfl
  | succ n ih =>
    rw [run_collisions_succ (by omega) (ih (by omega)), Nat.mod_eq_of_lt small, cluster_put]

/-- The probe length of the 256th colliding key wraps to zero, the mark of an empty slot. -/
theorem flat_map_loses_256th_collider :
    (keysOf (collisions 256)).card < 512 ∧
      ∃ s, run (Insertions.insert 512) ⟨clear zeroMap, []⟩ (collisions 256) = some s ∧
        FlatHashMap.find 512 s.map (collider 255) = some none ∧
        ¬ ActsAsMap 512 (collisions 256) s := by
  have few : (keysOf (collisions 256)).card ≤ 256 := by
    have count := List.toFinset_card_le ((collisions 256).map Prod.fst)
    rwa [List.length_map, collisions, List.length_map, List.length_range] at count
  have lost : FlatHashMap.find 512 ⟨(cluster 255).put 255 (collider 255) 255 0, 256⟩
      (collider 255) = some none := by decide +kernel
  refine ⟨by omega, _, run_collisions_succ (by decide) (run_collisions (by decide)), lost,
    fun acts => ?_⟩
  have answer := acts.find (collider 255)
  rw [collisions_succ, lastValue_concat, Function.update_self] at answer
  cases lost.symm.trans answer

end HftGrading.Core.FlatHashMapRuns
