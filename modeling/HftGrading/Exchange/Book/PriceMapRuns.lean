/- module: HftGrading/Exchange/Book/PriceMapRuns
   source: exchange/include/exchange/orderbook.hpp
   digest: Whole runs of the price map against a finite map, and the run that overflows a distance byte. -/

import HftGrading.Exchange.Book.PriceMapContents
import HftGrading.Exchange.WireProtocol
import Mathlib.Tactic.Ring

set_option autoImplicit false
set_option relaxedAutoImplicit false

namespace HftGrading.Exchange.Book.PriceMapRuns

open Lib.PartialExecution Lib.RobinHoodTable PriceMap PriceMapProbing PriceMapContents
open WireProtocol (wrap64 wrap64_emod)

inductive MapOp
  | insert (price : Int) (v : Nat)
  | remove (price : Int)
  deriving DecidableEq

def MapOp.apply (m : PriceHashMap) : MapOp → Option PriceHashMap
  | .insert price v => m.insert price v
  | .remove price => m.remove price

def lastValue (h : List MapOp) : Int → Option Nat :=
  h.foldl (fun f op => match op with
    | .insert price v => Function.update f price (some v)
    | .remove price => Function.update f price none) (fun _ => none)

def present (h : List MapOp) : Finset Int :=
  h.foldl (fun S op => match op with
    | .insert price _ => insert price S
    | .remove price => S.erase price) ∅

/-- Insertions are of absent keys and the map never holds more than
`MAX_PRICE_LEVELS_OB` keys. -/
structure Legal (ops : List MapOp) : Prop where
  fresh : ∀ h price v, h ++ [.insert price v] <+: ops → price ∉ present h
  bounded : ∀ h, h <+: ops → (present h).card ≤ maxPriceLevelsOb

/-- The run returns, and then every lookup returns what a finite map would. -/
def ActsAsMap (ops : List MapOp) : Prop :=
  ∃ m, run MapOp.apply PriceHashMap.clear ops = some m ∧
    ∀ price, m.find price = some ((lastValue ops price).getD nullIndex)

@[simp] theorem present_snoc_insert (h : List MapOp) (price : Int) (v : Nat) :
    present (h ++ [.insert price v]) = insert price (present h) := by
  simp [present]

@[simp] theorem present_snoc_remove (h : List MapOp) (price : Int) :
    present (h ++ [.remove price]) = (present h).erase price := by
  simp [present]

@[simp] theorem lastValue_snoc_insert (h : List MapOp) (price : Int) (v : Nat) :
    lastValue (h ++ [.insert price v]) = Function.update (lastValue h) price (some v) := by
  simp [lastValue]

@[simp] theorem lastValue_snoc_remove (h : List MapOp) (price : Int) :
    lastValue (h ++ [.remove price]) = Function.update (lastValue h) price none := by
  simp [lastValue]

private structure Mirrors (h : List MapOp) (m : PriceHashMap) : Prop where
  sound : Sound m
  values : ∀ p v, Stores m p v ↔ lastValue h p = some v
  keys : ∀ p, p ∈ present h ↔ ∃ v, lastValue h p = some v

private theorem Mirrors.occupied_le {h : List MapOp} {m : PriceHashMap} (inv : Mirrors h m) :
    (occupied m).card ≤ (present h).card :=
  inv.sound.occupied_card_le (fun p v stored => (inv.keys p).mpr ⟨v, (inv.values p v).mp stored⟩)

private theorem mirrors_step (h : List MapOp) (m : PriceHashMap) (op : MapOp) (inv : Mirrors h m)
    (legal : Legal (h ++ [op]))
    (arcs : ArcBounded priceMapCapacity 254 PriceHashMap.hash (present (h ++ [op]))) :
    ∃ m', MapOp.apply m op = some m' ∧ Mirrors (h ++ [op]) m' := by
  have few := legal.bounded h (List.prefix_append h [op])
  have room : (occupied m).card + 2 < priceMapCapacity := by
    have := inv.occupied_le
    unfold maxPriceLevelsOb at few
    unfold priceMapCapacity
    omega
  cases op with
  | insert price v =>
    have absent : price ∉ present h := legal.fresh h price v (List.prefix_refl _)
    have fresh : ∀ w, ¬ Stores m price w := fun w stored =>
      absent ((inv.keys price).mpr ⟨w, (inv.values price w).mp stored⟩)
    rw [present_snoc_insert] at arcs
    obtain ⟨m', move, sound, contents⟩ := insert_fresh (v := v) inv.sound (by omega) fresh arcs (by
      rintro q w (stored | ⟨rfl, -⟩)
      · exact Finset.mem_insert_of_mem ((inv.keys q).mpr ⟨w, (inv.values q w).mp stored⟩)
      · exact Finset.mem_insert_self _ _)
    refine ⟨m', move, sound, ?_, ?_⟩
    · intro p w
      rw [contents, inv.values, lastValue_snoc_insert]
      by_cases same : p = price
      · subst same
        have none : lastValue h p ≠ some w := fun hp => fresh w ((inv.values p w).mpr hp)
        simp [none, eq_comm]
      · simp [same]
    · intro p
      rw [present_snoc_insert, lastValue_snoc_insert, Finset.mem_insert, inv.keys]
      by_cases same : p = price
      · subst same
        simp
      · simp [same]
  | remove price =>
    obtain ⟨m', move, sound, contents⟩ := remove_key inv.sound price room
    refine ⟨m', move, sound, ?_, ?_⟩
    · intro p w
      rw [contents, inv.values, lastValue_snoc_remove]
      by_cases same : p = price
      · subst same
        simp
      · simp [same]
    · intro p
      rw [present_snoc_remove, lastValue_snoc_remove, Finset.mem_erase, inv.keys]
      by_cases same : p = price
      · subst same
        simp
      · simp [same]

private theorem Mirrors.find {h : List MapOp} {m : PriceHashMap} (inv : Mirrors h m)
    (few : (present h).card ≤ maxPriceLevelsOb) (price : Int) :
    m.find price = some ((lastValue h price).getD nullIndex) := by
  cases last : lastValue h price with
  | some v => exact find_stored inv.sound ((inv.values price v).mpr last)
  | none =>
    apply find_absent inv.sound
    · have := inv.occupied_le
      unfold maxPriceLevelsOb at few
      unfold priceMapCapacity
      omega
    · intro v stored
      rw [inv.values, last] at stored
      cases stored

private theorem legal_initial (h as : List MapOp) (legal : Legal (h ++ as)) : Legal h where
  fresh l price v pre := legal.fresh l price v (pre.trans (List.prefix_append h as))
  bounded l pre := legal.bounded l (pre.trans (List.prefix_append h as))

/-- On every legal run whose key sets never crowd an arc of the hash ring, the
price map is a finite map. -/
theorem price_map_acts_as_map (ops : List MapOp) (legal : Legal ops)
    (arcs : ∀ h, h <+: ops →
      ArcBounded priceMapCapacity 254 PriceHashMap.hash (present h)) :
    ActsAsMap ops := by
  have start : Mirrors [] PriceHashMap.clear :=
    ⟨sound_clear, fun p v => by simp [lastValue, stores_clear], fun p => by
      simp [present, lastValue]⟩
  obtain ⟨m, moves, inv⟩ := run_returns_history MapOp.apply (fun _ _ => True)
    (fun h => Legal h ∧ ∀ l, l <+: h →
      ArcBounded priceMapCapacity 254 PriceHashMap.hash (present l)) Mirrors
    (fun h as hist => ⟨legal_initial h as hist.1,
      fun l pre => hist.2 l (pre.trans (List.prefix_append h as))⟩)
    (fun h m op inv _ hist => mirrors_step h m op inv hist.1 (hist.2 _ (List.prefix_refl _)))
    [] ops PriceHashMap.clear start ⟨legal, arcs⟩ (obeys_of_forall (fun _ _ => trivial) _ _)
  exact ⟨m, moves, inv.find (legal.bounded ops (List.prefix_refl ops))⟩

/-- The `j`-th of a family of prices that all hash to slot zero: multiples of
the inverse of the golden-ratio multiplier, read as signed words. -/
def collider (j : Nat) : Int := wrap64 ((0xF1DE83E19937733D * (j + 1) : Nat) : Int)

theorem price_map_acts_as_map_colliders :
    (PriceHashMap.hash 0 = PriceHashMap.hash (collider 0) ∧
        PriceHashMap.hash (collider 0) = PriceHashMap.hash (collider 1)) ∧
      ActsAsMap [.insert 0 7, .insert (collider 0) 8, .insert (collider 1) 9,
        .remove (collider 0)] := by
  have few : ∀ h, h <+: [.insert 0 7, .insert (collider 0) 8, .insert (collider 1) 9,
      .remove (collider 0)] → (present h).card ≤ 3 := by
    intro h pre
    have initial := (List.mem_inits _ _).mpr pre
    simp only [List.inits, List.map_cons, List.map_nil, List.mem_cons, List.not_mem_nil,
      or_false] at initial
    rcases initial with rfl | rfl | rfl | rfl | rfl <;> decide
  refine ⟨by decide, price_map_acts_as_map _ ⟨?_, fun h pre => (few h pre).trans (by decide)⟩
    fun h pre => arcBounded_of_card ((few h pre).trans (by decide))⟩
  rintro h price v ⟨rest, split⟩
  -- The insertion is the first, the second or the third operation.
  rcases h with _ | ⟨a, _ | ⟨b, _ | ⟨c, _ | ⟨d, h⟩⟩⟩⟩ <;>
    simp only [List.nil_append, List.cons_append, List.cons.injEq, MapOp.insert.injEq,
      reduceCtorEq, false_and, and_false, List.append_eq_nil_iff] at split
  · simp [present]
  · obtain ⟨rfl, ⟨rfl, -⟩, -⟩ := split
    decide
  · obtain ⟨rfl, rfl, ⟨rfl, -⟩, -⟩ := split
    decide

def collisionOps (n : Nat) : List MapOp := (List.range n).map (fun j => .insert (collider j) j)

/-- The table after `n` colliding insertions, as long as nothing is displaced. -/
def cluster (n : Nat) : PriceHashMap where
  keys s := if s < n then collider s else 0
  values s := if s < n then s else nullIndex
  distances s := if s < n then (s + 1) % 256 else 0

private theorem inverse_scaled {a b M : Nat} (inverse : a * b % M = 1 % M) (x : Nat) :
    (a * x) % M * b % M = x % M := by
  rw [Nat.mod_mul_mod, show a * x * b = a * b * x by ring, Nat.mul_mod, inverse, ← Nat.mul_mod,
    Nat.one_mul]

private theorem collider_scaled (j : Nat) :
    ((collider j % 2 ^ 64).toNat * 0x9E3779B97F4A7C15) % 2 ^ 64 = (j + 1) % 2 ^ 64 := by
  have word : (collider j % 2 ^ 64).toNat = 0xF1DE83E19937733D * (j + 1) % 2 ^ 64 := by
    have modulus : (2 : Int) ^ 64 = ((2 ^ 64 : Nat) : Int) := by norm_num
    unfold collider
    rw [wrap64_emod, modulus, ← Int.natCast_emod, Int.toNat_natCast]
  rw [word]
  exact inverse_scaled (by decide) _

private theorem hash_collider {j : Nat} (hj : j + 1 < 2 ^ 51) :
    PriceHashMap.hash (collider j) = 0 := by
  unfold PriceHashMap.hash
  rw [collider_scaled, mask_eq_mod, Nat.shiftRight_eq_div_pow,
    Nat.mod_eq_of_lt (show j + 1 < 2 ^ 64 by omega), Nat.div_eq_of_lt hj]
  rfl

private theorem collider_ne_zero {j : Nat} (hj : j + 1 < 2 ^ 51) : collider j ≠ 0 := by
  intro zero
  have scaled := collider_scaled j
  rw [zero, Nat.mod_eq_of_lt (show j + 1 < 2 ^ 64 by omega)] at scaled
  simp at scaled

private theorem collider_inj {i j : Nat} (hi : i + 1 < 2 ^ 51) (hj : j + 1 < 2 ^ 51)
    (same : collider i = collider j) : i = j := by
  have si := collider_scaled i
  have sj := collider_scaled j
  rw [same, sj, Nat.mod_eq_of_lt (show j + 1 < 2 ^ 64 by omega),
    Nat.mod_eq_of_lt (show i + 1 < 2 ^ 64 by omega)] at si
  omega

private theorem cluster_full {n s : Nat} (hn : n < 2 ^ 50) (hs : s < n) :
    (cluster n).vacant s = false := by
  have key := collider_ne_zero (j := s) (by omega)
  simp [PriceHashMap.vacant, cluster, hs, key]

private theorem cluster_put (n : Nat) :
    (cluster n).put n (collider n) n ((n + 1) % 256) = cluster (n + 1) :=
  put_next collider (fun s => s) (fun s => (s + 1) % 256) 0 nullIndex n

private theorem insert_cluster {n : Nat} (hn : n + 1 < priceMapCapacity) :
    (cluster n).insert (collider n) n = some (cluster (n + 1)) := by
  have small : n + 1 < 2 ^ 50 := by
    unfold priceMapCapacity at hn
    omega
  obtain ⟨m, done, rfl⟩ := loop_returns PriceHashMap.insertRound
    (fun i => i.slot ≤ n ∧ i = ⟨cluster n, i.slot, collider n, n, (i.slot + 1) % 256⟩)
    (fun i => n - i.slot) (fun m => m = cluster (n + 1)) (by
      rintro i ⟨le, shape⟩
      generalize i.slot = slot at *
      subst shape
      by_cases last : slot = n
      · subst last
        refine Or.inr ⟨_, ?_, (cluster_put slot)⟩
        simp [PriceHashMap.insertRound, PriceHashMap.vacant, cluster]
      · have inside : slot < n := by omega
        have next : (slot + 1) &&& priceMapMask = slot + 1 := by
          rw [mask_eq_mod, Nat.mod_eq_of_lt (by omega)]
        have equal : (cluster n).distances slot = (slot + 1) % 256 := by simp [cluster, inside]
        refine Or.inl ⟨⟨cluster n, slot + 1, collider n, n, (slot + 1 + 1) % 256⟩, ?_,
          ⟨by simp only; omega, rfl⟩, by simp only; omega⟩
        simp [PriceHashMap.insertRound, cluster_full (by omega) inside, next, equal])
    PriceHashMap.probeFuel ⟨cluster n, PriceHashMap.hash (collider n), collider n, n, 1⟩
    ⟨by simp [hash_collider (show n + 1 < 2 ^ 51 by omega)],
      by simp [hash_collider (show n + 1 < 2 ^ 51 by omega)]⟩
    (by unfold PriceHashMap.probeFuel; omega)
  exact done

private theorem collisionOps_succ (n : Nat) :
    collisionOps (n + 1) = collisionOps n ++ [.insert (collider n) n] := by
  simp [collisionOps, List.range_succ]

private theorem apply_collider {n : Nat} (hn : n + 1 < priceMapCapacity) :
    MapOp.apply (cluster n) (.insert (collider n) n) = some (cluster (n + 1)) := by
  unfold MapOp.apply
  exact insert_cluster hn

private theorem run_collisions {n : Nat} (hn : n < priceMapCapacity) :
    run MapOp.apply PriceHashMap.clear (collisionOps n) = some (cluster n) := by
  induction n with
  | zero => simp [collisionOps, run, cluster, PriceHashMap.clear]
  | succ n ih =>
    rw [collisionOps_succ, run_append, ih (by omega), Option.bind_some]
    unfold run
    rw [apply_collider hn]
    rfl

private theorem present_collisions (n : Nat) :
    present (collisionOps n) = (Finset.range n).image collider := by
  induction n with
  | zero => rfl
  | succ n ih =>
    rw [collisionOps_succ, present_snoc_insert, ih, Finset.range_add_one, Finset.image_insert]

private theorem collisions_prefix {n : Nat} {h : List MapOp} (pre : h <+: collisionOps n) :
    ∃ k ≤ n, h = collisionOps k := by
  induction n with
  | zero => exact ⟨0, le_rfl, List.prefix_nil.mp pre⟩
  | succ n ih =>
    rw [collisionOps_succ, List.prefix_concat_iff] at pre
    rcases pre with rfl | pre
    · exact ⟨n + 1, le_rfl, (collisionOps_succ n).symm⟩
    · obtain ⟨k, hk, rfl⟩ := ih pre
      exact ⟨k, by omega, rfl⟩

private theorem legal_collisions {n : Nat} (hn : n ≤ maxPriceLevelsOb) : Legal (collisionOps n) where
  fresh h price v pre := by
    obtain ⟨k, hk, same⟩ := collisions_prefix pre
    cases k with
    | zero => simp [collisionOps] at same
    | succ k =>
      rw [collisionOps_succ] at same
      obtain ⟨rfl, last⟩ := List.append_inj' same (by simp)
      have same_price : price = collider k := (MapOp.insert.inj (List.cons.inj last).1).1
      rw [same_price, present_collisions, Finset.mem_image]
      rintro ⟨i, hi, equal⟩
      have lt := Finset.mem_range.mp hi
      unfold maxPriceLevelsOb at hn
      have := collider_inj (by omega) (by omega) equal
      omega
  bounded h pre := by
    obtain ⟨k, hk, rfl⟩ := collisions_prefix pre
    rw [present_collisions]
    exact Finset.card_image_le.trans (by rw [Finset.card_range]; omega)

/-- With 257 prices on one home slot the 256th distance is stored as zero, and
the lookup of the 257th price stops there. -/
theorem price_map_loses_257th_collider :
    Legal (collisionOps 257) ∧ ¬ ActsAsMap (collisionOps 257) := by
  refine ⟨legal_collisions (by decide), ?_⟩
  rintro ⟨m, moves, answers⟩
  rw [run_collisions (by decide)] at moves
  cases moves
  have lost : (cluster 257).find (collider 256) = some nullIndex := by decide +kernel
  have last : lastValue (collisionOps 257) (collider 256) = some 256 := by
    rw [collisionOps_succ, lastValue_snoc_insert]
    simp
  have answer := answers (collider 256)
  rw [lost, last] at answer
  simp [nullIndex] at answer

end HftGrading.Exchange.Book.PriceMapRuns
