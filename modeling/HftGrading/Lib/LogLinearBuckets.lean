/- module: HftGrading/Lib/LogLinearBuckets
   scope: library
   digest: Buckets of doubling width, 2^m to each power of two, as a Galois connection. -/

import Mathlib.Data.Nat.Log
import Mathlib.Order.GaloisConnection.Basic
import Mathlib.Tactic.Ring

set_option autoImplicit false
set_option relaxedAutoImplicit false

namespace HftGrading.Lib.LogLinearBuckets

/-- The bucket of a value: values below `2^(m+1)` have their own, and every further power of two
is cut into `2^m` buckets. -/
def bucketIndex (m v : Nat) : Nat :=
  if v < 2 ^ (m + 1) then v
  else 2 ^ m * (Nat.log 2 v - m + 1) + (v / 2 ^ (Nat.log 2 v - m) - 2 ^ m)

def bucketStart (m i : Nat) : Nat :=
  if i < 2 ^ (m + 1) then i else (i % 2 ^ m + 2 ^ m) * 2 ^ (i / 2 ^ m - 1)

section Starts

variable (m : Nat)

theorem bucketStart_add {q r : Nat} (small : r < 2 ^ m) :
    bucketStart m (2 ^ m * (q + 1) + r) = (r + 2 ^ m) * 2 ^ q := by
  have place : (2 ^ m * (q + 1) + r) % 2 ^ m = r := by
    rw [Nat.mul_add_mod, Nat.mod_eq_of_lt small]
  have power : (2 ^ m * (q + 1) + r) / 2 ^ m = q + 1 := by
    rw [Nat.mul_add_div (Nat.two_pow_pos m), Nat.div_eq_of_lt small, Nat.add_zero]
  rw [bucketStart, place, power, Nat.add_sub_cancel]
  split_ifs with first
  · -- the linear part and the first power of two have the same width
    obtain rfl : q = 0 := by
      by_contra later
      have two : 2 ^ m * 2 ≤ 2 ^ m * (q + 1) := Nat.mul_le_mul_left _ (by omega)
      rw [pow_succ] at first
      omega
    ring
  · rfl

theorem bucketStart_of_lt {i : Nat} (small : i < 2 ^ (m + 1)) : bucketStart m i = i :=
  if_pos small

theorem bucketStart_succ (i : Nat) :
    bucketStart m (i + 1) = bucketStart m i + 2 ^ (i / 2 ^ m - 1) := by
  have positive := Nat.two_pow_pos m
  rcases Nat.lt_or_ge i (2 ^ m) with first | later
  · have here : i < 2 ^ (m + 1) := by rw [pow_succ]; omega
    have next : i + 1 < 2 ^ (m + 1) := by rw [pow_succ]; omega
    rw [bucketStart_of_lt m here, bucketStart_of_lt m next, Nat.div_eq_of_lt first, Nat.zero_sub,
      pow_zero]
  · obtain ⟨q, power⟩ : ∃ q, i / 2 ^ m = q + 1 :=
      ⟨i / 2 ^ m - 1, (Nat.sub_add_cancel ((Nat.one_le_div_iff positive).mpr later)).symm⟩
    have place : i % 2 ^ m < 2 ^ m := Nat.mod_lt _ positive
    have split : i = 2 ^ m * (q + 1) + i % 2 ^ m := by rw [← power, Nat.div_add_mod]
    rw [power, Nat.add_sub_cancel]
    generalize i % 2 ^ m = r at place split
    subst split
    rw [bucketStart_add m place]
    rcases Nat.lt_or_ge (r + 1) (2 ^ m) with inside | last
    · rw [Nat.add_assoc, bucketStart_add m inside]
      ring
    · have wraps : 2 ^ m * (q + 1) + r + 1 = 2 ^ m * (q + 1 + 1) + 0 := by
        rw [Nat.mul_succ _ (q + 1)]
        omega
      have full : r + 2 ^ m + 1 = 2 ^ m * 2 := by omega
      rw [wraps, bucketStart_add m positive, Nat.zero_add, ← Nat.add_one_mul, full]
      ring

theorem bucketStart_strictMono : StrictMono (bucketStart m) := by
  refine strictMono_nat_of_lt_succ fun i => ?_
  rw [bucketStart_succ]
  exact Nat.lt_add_of_pos_right (Nat.two_pow_pos _)

end Starts

section Indices

variable (m v : Nat)

theorem bucketIndex_of_lt {v : Nat} (small : v < 2 ^ (m + 1)) : bucketIndex m v = v :=
  if_pos small

theorem bucketIndex_of_le {v : Nat} (large : 2 ^ (m + 1) ≤ v) :
    ∃ r < 2 ^ m, v / 2 ^ (Nat.log 2 v - m) = r + 2 ^ m ∧
      bucketIndex m v = 2 ^ m * (Nat.log 2 v - m + 1) + r := by
  have power : m + 1 ≤ Nat.log 2 v := Nat.le_log_of_pow_le Nat.one_lt_two large
  have below : 2 ^ m * 2 ^ (Nat.log 2 v - m) ≤ v := by
    rw [← pow_add, Nat.add_sub_cancel' (Nat.le_of_succ_le power)]
    exact Nat.pow_log_le_self 2 (by have := Nat.two_pow_pos (m + 1); omega)
  have above : v < 2 ^ (m + 1) * 2 ^ (Nat.log 2 v - m) := by
    rw [← pow_add, show m + 1 + (Nat.log 2 v - m) = Nat.log 2 v + 1 by omega]
    exact Nat.lt_pow_succ_log_self Nat.one_lt_two v
  have low := (Nat.le_div_iff_mul_le (Nat.two_pow_pos (Nat.log 2 v - m))).mpr below
  have high := (Nat.div_lt_iff_lt_mul (Nat.two_pow_pos (Nat.log 2 v - m))).mpr above
  rw [pow_succ] at high
  refine ⟨v / 2 ^ (Nat.log 2 v - m) - 2 ^ m, by omega, by omega, ?_⟩
  rw [bucketIndex, if_neg (Nat.not_lt.mpr large)]

theorem log_sub_eq_zero {v : Nat} (small : v < 2 ^ (m + 1)) : Nat.log 2 v - m = 0 :=
  Nat.sub_eq_zero_of_le (Nat.lt_succ_iff.mp (Nat.log_lt_of_lt_pow' (Nat.succ_ne_zero m) small))

theorem bucketStart_bucketIndex :
    bucketStart m (bucketIndex m v) =
      v / 2 ^ (Nat.log 2 v - m) * 2 ^ (Nat.log 2 v - m) := by
  rcases Nat.lt_or_ge v (2 ^ (m + 1)) with small | large
  · rw [bucketIndex_of_lt m small, bucketStart_of_lt m small, log_sub_eq_zero m small, pow_zero,
      Nat.div_one, Nat.mul_one]
  · obtain ⟨r, place, quotient, index⟩ := bucketIndex_of_le m large
    rw [index, bucketStart_add m place, quotient]

theorem bucketIndex_div : bucketIndex m v / 2 ^ m - 1 = Nat.log 2 v - m := by
  rcases Nat.lt_or_ge v (2 ^ (m + 1)) with small | large
  · have quotient : v / 2 ^ m < 2 := by
      rwa [Nat.div_lt_iff_lt_mul (Nat.two_pow_pos m), Nat.mul_comm, ← pow_succ]
    rw [bucketIndex_of_lt m small, log_sub_eq_zero m small]
    omega
  · obtain ⟨r, place, -, index⟩ := bucketIndex_of_le m large
    rw [index, Nat.mul_add_div (Nat.two_pow_pos m), Nat.div_eq_of_lt place]
    rfl

theorem bucketStart_le : bucketStart m (bucketIndex m v) ≤ v := by
  rw [bucketStart_bucketIndex]
  exact Nat.div_mul_le_self _ _

theorem lt_bucketStart_succ : v < bucketStart m (bucketIndex m v + 1) := by
  rw [bucketStart_succ, bucketStart_bucketIndex, bucketIndex_div, ← Nat.add_one_mul]
  exact Nat.lt_mul_of_div_lt (Nat.lt_succ_self _) (Nat.two_pow_pos _)

theorem gc_bucket : GaloisConnection (bucketStart m) (bucketIndex m) := by
  intro i v
  constructor
  · intro below
    have before := below.trans_lt (lt_bucketStart_succ m v)
    exact Nat.lt_succ_iff.mp ((bucketStart_strictMono m).lt_iff_lt.mp before)
  · intro before
    exact ((bucketStart_strictMono m).monotone before).trans (bucketStart_le m v)

theorem bucketIndex_lt_iff (q : Nat) : bucketIndex m v < 2 ^ m * (q + 1) ↔ v < 2 ^ (m + q) := by
  have start := bucketStart_add m (q := q) (Nat.two_pow_pos m)
  rw [Nat.add_zero, Nat.zero_add, ← pow_add] at start
  rw [← Nat.not_le, ← (gc_bucket m).le_iff_le, start, Nat.not_le]

theorem bucket_spread {v : Nat} (large : 2 ^ (m + 1) ≤ v) :
    2 ^ m * (v - bucketStart m (bucketIndex m v) + 1) ≤ bucketStart m (bucketIndex m v) := by
  obtain ⟨r, -, quotient, -⟩ := bucketIndex_of_le m large
  have rest : v - bucketStart m (bucketIndex m v) = v % 2 ^ (Nat.log 2 v - m) := by
    have split := Nat.div_add_mod' v (2 ^ (Nat.log 2 v - m))
    rw [bucketStart_bucketIndex]
    omega
  have few := Nat.mod_lt v (Nat.two_pow_pos (Nat.log 2 v - m))
  rw [rest, bucketStart_bucketIndex, quotient]
  calc 2 ^ m * (v % 2 ^ (Nat.log 2 v - m) + 1)
      ≤ 2 ^ m * 2 ^ (Nat.log 2 v - m) := Nat.mul_le_mul_left _ few
    _ ≤ (r + 2 ^ m) * 2 ^ (Nat.log 2 v - m) := Nat.mul_le_mul_right _ (Nat.le_add_left _ _)

end Indices

end HftGrading.Lib.LogLinearBuckets
