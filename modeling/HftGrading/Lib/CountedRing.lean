/- module: HftGrading/Lib/CountedRing
   scope: library
   digest: Rings whose ends are counters: the cells between two positions as a list. -/

import Mathlib.Data.BitVec

set_option autoImplicit false
set_option relaxedAutoImplicit false

namespace HftGrading.Lib.CountedRing

open Function (update)

universe u v

variable {I : Type u} {α : Type v}

/-- Positions less than `size` apart have different cells. -/
def Apart (slot : Nat → I) (size : Nat) : Prop := ∀ j k, j < k → k < j + size → slot j ≠ slot k

theorem apart_mod (size : Nat) : Apart (· % size) size := by
  intro j k less near same
  have equal : (k - j) % size = 0 := Nat.sub_mod_eq_zero_of_mod_eq same.symm
  rw [Nat.mod_eq_of_lt (by omega)] at equal
  omega

theorem apart_ofNat (w : Nat) : Apart (BitVec.ofNat w) (2 ^ w) := by
  intro j k less near same
  have equal := congrArg BitVec.toNat same
  rw [BitVec.toNat_ofNat, BitVec.toNat_ofNat] at equal
  exact apart_mod (2 ^ w) j k less near equal

theorem toNat_and_mask {w : Nat} {size : BitVec w} (masked : size &&& (size - 1) = 0)
    (some : size ≠ 0) (n : Nat) :
    (BitVec.ofNat w n &&& (size - 1)).toNat = n % size.toNat := by
  have positive : size.toNat ≠ 0 := fun zero => some (BitVec.toNat_inj.mp zero)
  have less : (size - 1).toNat = size.toNat - 1 := by
    have bound := size.isLt
    have one : (1 : BitVec w).toNat = 1 % 2 ^ w := BitVec.toNat_ofNat 1 w
    rw [BitVec.toNat_sub, one, Nat.mod_eq_of_lt (by omega : 1 < 2 ^ w)]
    rw [show 2 ^ w - 1 + size.toNat = size.toNat - 1 + 2 ^ w by omega, Nat.add_mod_right,
      Nat.mod_eq_of_lt (by omega)]
  have power : size.toNat.isPowerOfTwo := by
    rw [← Nat.and_sub_one_eq_zero_iff_isPowerOfTwo positive, ← less, ← BitVec.toNat_and, masked]
    exact BitVec.toNat_ofNat 0 w
  obtain ⟨k, exponent⟩ := power
  have small : k < w := by
    rw [← Nat.pow_lt_pow_iff_right (a := 2) (by omega), ← exponent]
    exact size.isLt
  rw [BitVec.toNat_and, less, exponent, BitVec.toNat_ofNat, Nat.and_two_pow_sub_one_eq_mod,
    Nat.mod_mod_of_dvd _ (Nat.pow_dvd_pow 2 small.le)]

theorem toNat_and_not_add {w : Nat} (x mask : BitVec w) :
    (x &&& ~~~mask).toNat + (x &&& mask).toNat = x.toNat := by
  have disjoint : (x &&& ~~~mask) &&& (x &&& mask) = 0#w := by
    ext i inside
    cases bit : mask[i] <;> simp [bit]
  rw [← BitVec.toNat_add_of_and_eq_zero disjoint, BitVec.add_eq_or_of_and_eq_zero _ _ disjoint]
  congr 1
  ext i inside
  cases bit : mask[i] <;> simp [bit]

theorem toNat_and_not_mask {w : Nat} {size : BitVec w} (masked : size &&& (size - 1) = 0)
    (some : size ≠ 0) (n : Nat) :
    (BitVec.ofNat w n &&& ~~~(size - 1)).toNat = n % 2 ^ w - n % size.toNat := by
  have parts := toNat_and_not_add (BitVec.ofNat w n) (size - 1)
  rw [toNat_and_mask masked some, BitVec.toNat_ofNat] at parts
  omega

/-- What the cells hold for the positions from `head` up to `tail`. -/
def window (slot : Nat → I) (cell : I → α) (head tail : Nat) : List α :=
  (List.range' head (tail - head)).map fun k => cell (slot k)

section Windows

variable {slot : Nat → I} {cell : I → α} {head tail : Nat}

theorem length_window : (window slot cell head tail).length = tail - head := by
  simp only [window, List.length_map, List.length_range']

theorem window_self : window slot cell head head = [] := by
  simp only [window, Nat.sub_self, List.range'_zero, List.map_nil]

theorem getElem?_window (j : Nat) (inside : head + j < tail) :
    (window slot cell head tail)[j]? = some (cell (slot (head + j))) := by
  have less : j < tail - head := by omega
  simp [window, less]

theorem window_pop (some : head < tail) :
    window slot cell head tail = cell (slot head) :: window slot cell (head + 1) tail := by
  unfold window
  obtain ⟨rest, len⟩ : ∃ rest, tail - head = rest + 1 := ⟨tail - head - 1, by omega⟩
  have len' : tail - (head + 1) = rest := by omega
  rw [len, len', List.range'_succ, List.map_cons]

theorem window_drop (k : Nat) :
    window slot cell (head + k) tail = (window slot cell head tail).drop k := by
  induction k generalizing head with
  | zero => rfl
  | succ k ih =>
    by_cases some : head < tail
    · rw [window_pop some, List.drop_succ_cons, ← ih, Nat.add_right_comm, Nat.add_assoc]
    · have nothing : window slot cell head tail = [] := by
        rw [← List.length_eq_zero_iff, length_window]
        omega
      rw [nothing, List.drop_nil, ← List.length_eq_zero_iff, length_window]
      omega

theorem window_push [DecidableEq I] {size : Nat} (apart : Apart slot size) (order : head ≤ tail)
    (room : tail - head < size) (x : α) :
    window slot (update cell (slot tail) x) head (tail + 1) = window slot cell head tail ++ [x] := by
  have len : tail + 1 - head = tail - head + 1 := by omega
  have old : ∀ k ∈ List.range' head (tail - head),
      update cell (slot tail) x (slot k) = cell (slot k) := by
    intro k listed
    rw [List.mem_range'_1] at listed
    exact Function.update_of_ne (apart k tail (by omega) (by omega)) _ _
  unfold window
  rw [len, List.range'_1_concat, List.map_append, List.map_congr_left old, List.map_singleton,
    Nat.add_sub_cancel' order, Function.update_self]

end Windows

section Stores

variable [DecidableEq I] {slot : Nat → I} {cell : I → α} {head tail : Nat}

/-- Writes in a row, from position `tail` on. -/
def store (slot : Nat → I) (cell : I → α) (tail : Nat) : List α → I → α
  | [] => cell
  | x :: xs => store slot (update cell (slot tail) x) (tail + 1) xs

theorem store_append (xs ys : List α) : store slot cell tail (xs ++ ys) =
    store slot (store slot cell tail xs) (tail + xs.length) ys := by
  induction xs generalizing cell tail with
  | nil => rfl
  | cons x xs ih =>
    have next : tail + (xs.length + 1) = tail + 1 + xs.length := by omega
    rw [List.cons_append, store, store, ih, List.length_cons, next]

theorem store_congr {tail' : Nat} (same : ∀ k, slot (tail + k) = slot (tail' + k)) (xs : List α) :
    store slot cell tail xs = store slot cell tail' xs := by
  induction xs generalizing cell tail tail' with
  | nil => rfl
  | cons x xs ih =>
    have next : ∀ k, slot (tail + 1 + k) = slot (tail' + 1 + k) := by
      intro k
      rw [Nat.add_assoc, Nat.add_assoc, same]
    rw [store, store, ih next, show slot tail = slot tail' from same 0]

theorem window_store {size : Nat} (apart : Apart slot size) (order : head ≤ tail) (xs : List α)
    (room : tail + xs.length ≤ head + size) :
    window slot (store slot cell tail xs) head (tail + xs.length) =
      window slot cell head tail ++ xs := by
  induction xs generalizing cell tail with
  | nil => exact (List.append_nil _).symm
  | cons x xs ih =>
    rw [List.length_cons] at room ⊢
    have next : tail + (xs.length + 1) = tail + 1 + xs.length := by omega
    rw [next, store, ih (by omega) (by omega), window_push apart order (by omega),
      List.append_assoc, List.singleton_append]

end Stores

end HftGrading.Lib.CountedRing
