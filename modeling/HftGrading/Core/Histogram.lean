/- module: HftGrading/Core/Histogram
   source: core/include/core/hdr_histogram.hpp, core/src/hdr_histogram.cpp
   digest: The layout of the latency histogram and the precision with which a value is kept. -/

import Mathlib.Tactic.IntervalCases
import HftGrading.Lib.LogLinearBuckets
import HftGrading.Lib.PartialExecution

set_option autoImplicit false
set_option relaxedAutoImplicit false

namespace HftGrading.Core.Histogram

open HftGrading.Lib.LogLinearBuckets HftGrading.Lib.PartialExecution

structure HdrHistConfig where
  lowestTrackable : Nat := 1
  highestTrackable : Nat := 10000000000
  significantFigures : Nat := 2

structure HdrHistogram where
  counts : Nat → Nat := fun _ => 0
  totalCount : Nat := 0
  minValue : Nat := 2 ^ 64 - 1
  maxValue : Nat := 0
  totalSum : Nat := 0
  lowestTrackable : Nat := 1
  highestTrackable : Nat := 10000000000
  subBucketHalfCountMagnitude : Nat := 0
  subBucketHalfCount : Nat := 0
  subBucketCount : Nat := 0
  unitMagnitude : Nat := 0
  bucketCount : Nat := 0
  countsLen : Nat := 0

def maxBuckets : Nat := 4096

/-- The part of `init` that reads the significant figures, with `pow` and `log2` exact. -/
def halfCountMagnitude (significantFigures : Nat) : Nat :=
  let largestValueWithSingleUnitResolution := 2 * 10 ^ significantFigures
  let subBucketCountMagnitude := Nat.clog 2 largestValueWithSingleUnitResolution
  if subBucketCountMagnitude > 1 then subBucketCountMagnitude - 1 else 0

/-- One round of the loop of `init` that counts the bucket levels. -/
def levelRound (highestTrackable : Nat) : Nat × Nat → Option ((Nat × Nat) ⊕ Nat)
  | (smallestUntrackable, bucketCount) =>
    if smallestUntrackable ≤ highestTrackable then
      if smallestUntrackable > (2 ^ 64 - 1) / 2 then some (.inr bucketCount)
      else some (.inl (smallestUntrackable <<< 1 % 2 ^ 64, bucketCount + 1))
    else some (.inr bucketCount)

namespace HdrHistogram

def reset (h : HdrHistogram) : HdrHistogram :=
  { h with
    counts := fun i => if i < h.countsLen then 0 else h.counts i
    totalCount := 0
    minValue := 2 ^ 64 - 1
    maxValue := 0
    totalSum := 0 }

/-- `init`; `none` while its loop has not been left after `fuel` rounds. -/
def init (fuel : Nat) (h : HdrHistogram) (config : HdrHistConfig) : Option HdrHistogram :=
  let magnitude := halfCountMagnitude config.significantFigures
  let subBucketCount := 1 <<< (magnitude + 1)
  let subBucketHalfCount := subBucketCount / 2
  let unitMagnitude := Nat.log 2 config.lowestTrackable
  let smallestUntrackable := subBucketCount <<< unitMagnitude % 2 ^ 64
  (loop (levelRound config.highestTrackable) fuel (smallestUntrackable, 1)).map fun bucketCount =>
    reset { h with
      lowestTrackable := config.lowestTrackable
      highestTrackable := config.highestTrackable
      subBucketHalfCountMagnitude := magnitude
      subBucketCount := subBucketCount
      subBucketHalfCount := subBucketHalfCount
      unitMagnitude := unitMagnitude
      bucketCount := bucketCount
      countsLen := min ((bucketCount + 1) * subBucketHalfCount) maxBuckets }

def valueToIndex (h : HdrHistogram) (value : Nat) : Nat :=
  if value < h.subBucketCount <<< h.unitMagnitude % 2 ^ 64 then
    value >>> h.unitMagnitude
  else
    let leading := 63 - Nat.log 2 value
    let bucketIdx := 63 - leading - h.subBucketHalfCountMagnitude - h.unitMagnitude
    let subIdx := value >>> (bucketIdx + h.unitMagnitude) - h.subBucketHalfCount
    let idx := h.subBucketHalfCount * (bucketIdx + 1) + subIdx
    min idx (h.countsLen - 1)

def indexToValue (h : HdrHistogram) (index : Nat) : Nat :=
  if index < h.subBucketCount then index <<< h.unitMagnitude % 2 ^ 64
  else
    let bucketIdx := index / h.subBucketHalfCount - 1
    let subIdx := index % h.subBucketHalfCount + h.subBucketHalfCount
    subIdx <<< (bucketIdx + h.unitMagnitude) % 2 ^ 64

end HdrHistogram

/-- What `init` leaves in the fields that say where a value is counted. -/
structure Laid (m u levels : Nat) (h : HdrHistogram) : Prop where
  magnitude : h.subBucketHalfCountMagnitude = m
  half : h.subBucketHalfCount = 2 ^ m
  count : h.subBucketCount = 2 ^ (m + 1)
  unit : h.unitMagnitude = u
  len : h.countsLen = min ((levels + 1) * 2 ^ m) maxBuckets
  fits : m + 1 + u < 64

section Init

theorem levelRound_pow {highest k n : Nat} (word : k < 64) (bounded : highest < 2 ^ 63) :
    (levelRound highest (2 ^ k, n) = some (.inl (2 ^ (k + 1), n + 1)) ∧ k + 1 < 64) ∨
      (levelRound highest (2 ^ k, n) = some (.inr n) ∧ highest < 2 ^ k) := by
  rcases Nat.lt_or_ge highest (2 ^ k) with above | below
  · exact .inr ⟨if_neg (Nat.not_le.mpr above), above⟩
  · have small : k < 63 := (Nat.pow_lt_pow_iff_right Nat.one_lt_two).mp (below.trans_lt bounded)
    have half : 2 ^ k ≤ 2 ^ 62 := Nat.pow_le_pow_right Nat.two_pos (by omega)
    refine .inl ⟨?_, by omega⟩
    rw [levelRound, if_pos below, if_neg (by omega), Nat.shiftLeft_eq, pow_one, ← pow_succ,
      Nat.mod_eq_of_lt (by rw [pow_succ]; omega)]

structure AtLevel (base : Nat) (s : Nat × Nat) : Prop where
  power : s.1 = 2 ^ (base + s.2)
  word : base + s.2 < 64

theorem AtLevel.round {highest base : Nat} (bounded : highest < 2 ^ 63) (s : Nat × Nat)
    (at_level : AtLevel base s) :
    (∃ s', levelRound highest s = some (.inl s') ∧ AtLevel base s' ∧
        64 - (base + s'.2) < 64 - (base + s.2)) ∨
      ∃ levels, levelRound highest s = some (.inr levels) ∧ highest < 2 ^ (base + levels) := by
  obtain ⟨smallest, n⟩ := s
  obtain ⟨power, small⟩ := at_level
  obtain rfl : smallest = 2 ^ (base + n) := power
  rcases levelRound_pow small bounded with ⟨next, word⟩ | ⟨leave, above⟩
  · exact .inl ⟨_, next, ⟨rfl, word⟩, Nat.sub_lt_sub_left small (Nat.lt_succ_self _)⟩
  · exact .inr ⟨n, leave, above⟩

theorem loop_levelRound_zero (highest fuel n : Nat) :
    loop (levelRound highest) fuel (0, n) = none := by
  induction fuel generalizing n with
  | zero => rfl
  | succ fuel ih => exact ih (n + 1)

variable {config : HdrHistConfig} (bounded : config.highestTrackable < 2 ^ 63)

theorem firstLevel_eq (m u : Nat) : 1 <<< (m + 1) <<< u = 2 ^ (m + u + 1) := by
  rw [Nat.shiftLeft_eq, Nat.one_shiftLeft, ← pow_add]
  congr 1
  omega

include bounded

theorem init_returns (h : HdrHistogram)
    (fits : halfCountMagnitude config.significantFigures + 1 +
      Nat.log 2 config.lowestTrackable < 64) : ∃ fuel h', h.init fuel config = some h' := by
  generalize magnitude : halfCountMagnitude config.significantFigures = m at fits
  generalize unit : Nat.log 2 config.lowestTrackable = u at fits
  have word : m + u + 1 < 64 := by omega
  obtain ⟨levels, returns, -⟩ := loop_returns _ (AtLevel (m + u)) _ _ (AtLevel.round bounded) 64
    (2 ^ (m + u + 1), 1) ⟨rfl, word⟩ (by dsimp only; omega)
  refine ⟨64, ?_⟩
  simp only [HdrHistogram.init, magnitude, unit, firstLevel_eq,
    Nat.mod_eq_of_lt (Nat.pow_lt_pow_right Nat.one_lt_two word), returns, Option.map_some]
  exact ⟨_, rfl⟩

theorem init_laid {h h' : HdrHistogram} {fuel : Nat} (returns : h.init fuel config = some h') :
    ∃ levels, Laid (halfCountMagnitude config.significantFigures)
        (Nat.log 2 config.lowestTrackable) levels h' ∧
      config.highestTrackable < 2 ^ (halfCountMagnitude config.significantFigures +
        Nat.log 2 config.lowestTrackable + levels) := by
  generalize magnitude : halfCountMagnitude config.significantFigures = m
  generalize unit : Nat.log 2 config.lowestTrackable = u
  simp only [HdrHistogram.init, magnitude, unit, firstLevel_eq] at returns
  obtain ⟨levels, levelled, rfl⟩ := Option.map_eq_some_iff.mp returns
  rcases Nat.lt_or_ge (m + u + 1) 64 with word | wraps
  · rw [Nat.mod_eq_of_lt (Nat.pow_lt_pow_right Nat.one_lt_two word)] at levelled
    have enough := loop_returned _ (AtLevel (m + u)) _ _ (AtLevel.round bounded)
      ⟨rfl, word⟩ levelled
    refine ⟨levels, ⟨rfl, ?_, Nat.one_shiftLeft _, rfl, ?_, by omega⟩, enough⟩
    · simp only [HdrHistogram.reset, Nat.one_shiftLeft, pow_succ, Nat.mul_div_cancel _ Nat.two_pos]
    · simp only [HdrHistogram.reset, Nat.one_shiftLeft, pow_succ, Nat.mul_div_cancel _ Nat.two_pos]
  · -- the shift loses every bit, and the loop never ends
    rw [Nat.mod_eq_zero_of_dvd (pow_dvd_pow 2 wraps), loop_levelRound_zero] at levelled
    cases levelled

end Init

section Layout

variable {m u levels : Nat} {h : HdrHistogram} (laid : Laid m u levels h) {v : Nat}
include laid

/-- `value_to_index` finds the bucket of the value in units, and holds it below the length only
past the linear part. -/
theorem Laid.valueToIndex_eq (word : v < 2 ^ 64) :
    h.valueToIndex v =
      if v < 2 ^ (m + 1 + u) then bucketIndex m (v / 2 ^ u)
      else min (bucketIndex m (v / 2 ^ u)) (h.countsLen - 1) := by
  have first : 2 ^ (m + 1) * 2 ^ u % 2 ^ 64 = 2 ^ (m + 1 + u) := by
    rw [← pow_add, Nat.mod_eq_of_lt (Nat.pow_lt_pow_right Nat.one_lt_two laid.fits)]
  have units : v < 2 ^ (m + 1 + u) ↔ v / 2 ^ u < 2 ^ (m + 1) := by
    rw [Nat.div_lt_iff_lt_mul (Nat.two_pow_pos u), ← pow_add]
  simp only [HdrHistogram.valueToIndex, laid.magnitude, laid.half, laid.count, laid.unit,
    Nat.shiftLeft_eq, Nat.shiftRight_eq_div_pow, first, units]
  split_ifs with small
  · rw [bucketIndex_of_lt m small]
  · have log_word : Nat.log 2 v ≤ 63 := Nat.lt_succ_iff.mp (Nat.log_lt_of_lt_pow' (by decide) word)
    have level : 63 - (63 - Nat.log 2 v) - m - u = Nat.log 2 (v / 2 ^ u) - m := by
      rw [Nat.log_div_base_pow]
      omega
    rw [level, bucketIndex, if_neg small, Nat.add_comm (Nat.log 2 (v / 2 ^ u) - m) u, pow_add,
      Nat.div_div_eq_div_mul]

theorem Laid.indexToValue_eq (i : Nat) : h.indexToValue i = bucketStart m i * 2 ^ u % 2 ^ 64 := by
  simp only [HdrHistogram.indexToValue, laid.half, laid.count, laid.unit, Nat.shiftLeft_eq,
    bucketStart, pow_add, ← Nat.mul_assoc]
  split_ifs <;> rfl

theorem Laid.bucketIndex_lt_countsLen (inside : v < 2 ^ (m + u + levels))
    (kept : bucketIndex m (v / 2 ^ u) < maxBuckets) :
    bucketIndex m (v / 2 ^ u) < h.countsLen := by
  rw [laid.len, lt_min_iff, Nat.mul_comm, bucketIndex_lt_iff,
    Nat.div_lt_iff_lt_mul (Nat.two_pow_pos u), ← pow_add, Nat.add_right_comm]
  exact ⟨inside, kept⟩

theorem Laid.valueToIndex_of_lt (word : v < 2 ^ 64) (inside : v < 2 ^ (m + u + levels))
    (kept : bucketIndex m (v / 2 ^ u) < maxBuckets) :
    h.valueToIndex v = bucketIndex m (v / 2 ^ u) := by
  have below := laid.bucketIndex_lt_countsLen inside kept
  rw [laid.valueToIndex_eq word, min_eq_left (by omega), ite_self]

theorem Laid.indexToValue_of_le {i : Nat} (word : v < 2 ^ 64)
    (below : bucketStart m i ≤ v / 2 ^ u) : h.indexToValue i = bucketStart m i * 2 ^ u := by
  have value : bucketStart m i * 2 ^ u ≤ v :=
    (Nat.mul_le_mul_right _ below).trans (Nat.div_mul_le_self _ _)
  rw [laid.indexToValue_eq, Nat.mod_eq_of_lt (by omega)]

end Layout

/-- The value is counted, at a representative not above it and as near as the configuration asks. -/
def Tracks (config : HdrHistConfig) (h : HdrHistogram) (v : Nat) : Prop :=
  h.valueToIndex v < h.countsLen ∧ h.indexToValue (h.valueToIndex v) ≤ v ∧
    (v : ℚ) - h.indexToValue (h.valueToIndex v) <
      max (config.lowestTrackable : ℚ) (v / 10 ^ config.significantFigures)

section Precision

theorem near_iff {x v : Nat} (below : x ≤ v) (lowest figures : Nat) :
    (v : ℚ) - x < max (lowest : ℚ) (v / 10 ^ figures) ↔
      v - x < lowest ∨ 10 ^ figures * (v - x) < v := by
  rw [lt_max_iff, lt_div_iff₀ (by positivity), ← Nat.cast_sub below, mul_comm]
  norm_cast

variable {config : HdrHistConfig} {m u levels : Nat} {h : HdrHistogram} (laid : Laid m u levels h)
  {v : Nat} (word : v < 2 ^ 64) (inside : v < 2 ^ (m + u + levels))
include laid word inside

theorem Laid.tracks_of_lt (unit : 2 ^ u ≤ config.lowestTrackable)
    (figures : 10 ^ config.significantFigures ≤ 2 ^ m)
    (kept : bucketIndex m (v / 2 ^ u) < maxBuckets) : Tracks config h v := by
  have start := bucketStart_le m (v / 2 ^ u)
  have whole := Nat.div_mul_le_self v (2 ^ u)
  have below := (Nat.mul_le_mul_right (2 ^ u) start).trans whole
  rw [Tracks, laid.valueToIndex_of_lt word inside kept, laid.indexToValue_of_le word start]
  refine ⟨laid.bucketIndex_lt_countsLen inside kept, below, (near_iff below _ _).mpr ?_⟩
  have past := Nat.lt_mul_of_div_lt (Nat.lt_succ_self (v / 2 ^ u)) (Nat.two_pow_pos u)
  rcases Nat.lt_or_ge (v / 2 ^ u) (2 ^ (m + 1)) with small | large
  · left
    rw [bucketIndex_of_lt m small, bucketStart_of_lt m small]
    rw [Nat.succ_mul] at past
    omega
  · right
    have spread := bucket_spread m large
    generalize bucketStart m (bucketIndex m (v / 2 ^ u)) = x at start below spread
    have distance : v - x * 2 ^ u < (v / 2 ^ u - x + 1) * 2 ^ u := by
      rw [← Nat.sub_add_comm start, Nat.sub_mul]
      exact Nat.sub_lt_sub_right below past
    calc 10 ^ config.significantFigures * (v - x * 2 ^ u)
        ≤ 2 ^ m * (v - x * 2 ^ u) := Nat.mul_le_mul_right _ figures
      _ < 2 ^ m * ((v / 2 ^ u - x + 1) * 2 ^ u) :=
          Nat.mul_lt_mul_of_pos_left distance (Nat.two_pow_pos m)
      _ = 2 ^ m * (v / 2 ^ u - x + 1) * 2 ^ u := (Nat.mul_assoc _ _ _).symm
      _ ≤ x * 2 ^ u := Nat.mul_le_mul_right _ spread
      _ ≤ v := below

theorem Laid.tracks_iff_of_le (past : maxBuckets ≤ bucketIndex m (v / 2 ^ u)) :
    Tracks config h v ↔ 2 ^ (m + 1 + u) ≤ v ∧
      (v - bucketStart m (maxBuckets - 1) * 2 ^ u < config.lowestTrackable ∨
        10 ^ config.significantFigures * (v - bucketStart m (maxBuckets - 1) * 2 ^ u) < v) := by
  have len : h.countsLen = maxBuckets := by
    have room := (bucketIndex_lt_iff m (v / 2 ^ u) levels).mpr (by
      rwa [Nat.div_lt_iff_lt_mul (Nat.two_pow_pos u), ← pow_add, Nat.add_right_comm])
    rw [laid.len, Nat.mul_comm, min_eq_right (past.trans room.le)]
  have start : bucketStart m (maxBuckets - 1) ≤ v / 2 ^ u :=
    (gc_bucket m).le_iff_le.mpr ((Nat.sub_le _ _).trans past)
  have below := (Nat.mul_le_mul_right (2 ^ u) start).trans (Nat.div_mul_le_self v (2 ^ u))
  rw [Tracks, laid.valueToIndex_eq word, len]
  split_ifs with small
  · have lost : ¬ bucketIndex m (v / 2 ^ u) < maxBuckets := Nat.not_lt.mpr past
    have linear : ¬ 2 ^ (m + 1 + u) ≤ v := Nat.not_le.mpr small
    simp only [lost, linear, false_and]
  · rw [min_eq_right ((Nat.sub_le _ _).trans past), laid.indexToValue_of_le word start,
      near_iff below]
    have last : maxBuckets - 1 < maxBuckets := by decide
    simp only [last, below, Nat.not_lt.mp small, true_and]

theorem Laid.tracks_iff (unit : 2 ^ u ≤ config.lowestTrackable)
    (figures : 10 ^ config.significantFigures ≤ 2 ^ m) :
    Tracks config h v ↔ v < bucketStart m maxBuckets * 2 ^ u ∨ 2 ^ (m + 1) * 2 ^ u ≤ v ∧
      (v - bucketStart m (maxBuckets - 1) * 2 ^ u < config.lowestTrackable ∨
        10 ^ config.significantFigures * (v - bucketStart m (maxBuckets - 1) * 2 ^ u) < v) := by
  have room : bucketIndex m (v / 2 ^ u) < maxBuckets ↔ v < bucketStart m maxBuckets * 2 ^ u := by
    rw [← Nat.not_le, ← (gc_bucket m).le_iff_le, Nat.not_le,
      Nat.div_lt_iff_lt_mul (Nat.two_pow_pos u)]
  rcases Nat.lt_or_ge (bucketIndex m (v / 2 ^ u)) maxBuckets with kept | past
  · exact iff_of_true (laid.tracks_of_lt word inside unit figures kept) (.inl (room.mp kept))
  · have beyond := mt room.mpr (Nat.not_lt.mpr past)
    rw [laid.tracks_iff_of_le word inside past, or_iff_right beyond, pow_add 2 (m + 1) u]

end Precision

/-- The values that a configuration keeps with its own precision. -/
def Precise (config : HdrHistConfig) (v : Nat) : Prop :=
  let unit := 2 ^ Nat.log 2 config.lowestTrackable
  match config.significantFigures with
  | 1 => unit ≤ 2 ^ 58
  | 2 => unit ≤ 2 ^ 55 ∧ 99 * v < 100 * (255 * 2 ^ 30) * unit
  | 3 => unit ≤ 2 ^ 52 ∧ 999 * v < 1000 * 8188 * unit
  | 4 => unit ≤ 2 ^ 48 ∧ v < 4096 * unit
  | 5 => unit ≤ 2 ^ 45 ∧ v < 4096 * unit
  | _ => False

theorem init_tracks_iff (h : HdrHistogram) {config : HdrHistConfig} {v m u : Nat}
    (magnitude : halfCountMagnitude config.significantFigures = m)
    (log : Nat.log 2 config.lowestTrackable = u)
    (positive : 1 ≤ config.lowestTrackable) (bounded : config.highestTrackable < 2 ^ 62)
    (high : v ≤ config.highestTrackable) (figures : 10 ^ config.significantFigures ≤ 2 ^ m) :
    (∃ fuel h', h.init fuel config = some h' ∧ Tracks config h' v) ↔
      m + 1 + u < 64 ∧ (v < bucketStart m maxBuckets * 2 ^ u ∨ 2 ^ (m + 1) * 2 ^ u ≤ v ∧
        (v - bucketStart m (maxBuckets - 1) * 2 ^ u < config.lowestTrackable ∨
          10 ^ config.significantFigures * (v - bucketStart m (maxBuckets - 1) * 2 ^ u) < v)) := by
  have unit : 2 ^ u ≤ config.lowestTrackable := by
    rw [← log]
    exact Nat.pow_log_le_self 2 (by omega)
  have word : config.highestTrackable < 2 ^ 63 := by omega
  have tracks_iff : ∀ {fuel h'}, h.init fuel config = some h' → m + 1 + u < 64 ∧
      (Tracks config h' v ↔ _) := fun returns => by
    obtain ⟨levels, laid, enough⟩ := init_laid word returns
    rw [magnitude, log] at laid enough
    exact ⟨laid.fits, laid.tracks_iff (by omega) (high.trans_lt enough) unit figures⟩
  constructor
  · rintro ⟨fuel, h', returns, tracks⟩
    obtain ⟨fits, same⟩ := tracks_iff returns
    exact ⟨fits, same.mp tracks⟩
  · rintro ⟨fits, near⟩
    subst magnitude log
    obtain ⟨fuel, h', returns⟩ := init_returns word h fits
    exact ⟨fuel, h', returns, (tracks_iff returns).2.mpr near⟩

theorem layout_values :
    (halfCountMagnitude 1 = 4 ∧ halfCountMagnitude 2 = 7 ∧ halfCountMagnitude 3 = 10 ∧
      halfCountMagnitude 4 = 14 ∧ halfCountMagnitude 5 = 17) ∧
    (bucketStart 7 (maxBuckets - 1) = 255 * 2 ^ 30 ∧ bucketStart 10 (maxBuckets - 1) = 8188 ∧
      bucketStart 14 (maxBuckets - 1) = 4095 ∧ bucketStart 17 (maxBuckets - 1) = 4095) ∧
    bucketStart 4 maxBuckets = 2 ^ 259 ∧ bucketStart 7 maxBuckets = 256 * 2 ^ 30 ∧
      bucketStart 10 maxBuckets = 8192 ∧ bucketStart 14 maxBuckets = 4096 ∧
      bucketStart 17 maxBuckets = 4096 := by
  decide +kernel

theorem pow_ten_le {digits : Nat} (least : 1 ≤ digits) (most : digits ≤ 5) :
    10 ^ digits ≤ 2 ^ halfCountMagnitude digits := by
  obtain ⟨magnitudes, -⟩ := layout_values
  interval_cases digits <;> simp only [magnitudes] <;> decide

theorem histogram_precise_iff (h : HdrHistogram) (config : HdrHistConfig) (v : Nat)
    (positive : 1 ≤ config.lowestTrackable)
    (figures : 1 ≤ config.significantFigures ∧ config.significantFigures ≤ 5)
    (bounded : config.highestTrackable < 2 ^ 62) (low : config.lowestTrackable ≤ v)
    (high : v ≤ config.highestTrackable) :
    (∃ fuel h', h.init fuel config = some h' ∧ Tracks config h' v) ↔ Precise config v := by
  rw [init_tracks_iff h rfl rfl positive bounded high (pow_ten_le figures.1 figures.2)]
  obtain ⟨lowest, highest, digits⟩ := config
  obtain ⟨magnitudes, lasts, ends⟩ := layout_values
  obtain ⟨least, most⟩ := figures
  dsimp only at positive bounded low high least most ⊢
  have above : lowest < 2 * 2 ^ Nat.log 2 lowest := by
    rw [← pow_succ']
    exact Nat.lt_pow_succ_log_self Nat.one_lt_two lowest
  have one := Nat.two_pow_pos (Nat.log 2 lowest)
  have units : ∀ k, 2 ^ Nat.log 2 lowest ≤ 2 ^ k ↔ Nat.log 2 lowest ≤ k :=
    fun k => Nat.pow_le_pow_iff_right Nat.one_lt_two
  interval_cases digits <;> simp only [Precise, units, magnitudes, lasts, ends] <;> omega

theorem default_precise :
    Precise {} 10000000000 ∧
      ∃ fuel h', HdrHistogram.init fuel {} {} = some h' ∧ Tracks {} h' 10000000000 := by
  have precise : Precise {} 10000000000 := by
    refine ⟨?_, ?_⟩ <;> decide +kernel
  exact ⟨precise, (histogram_precise_iff {} {} 10000000000 (by decide) (by decide) (by decide)
    (by decide) (by decide)).mpr precise⟩

/-- The range and the figures of the telemetry chapter, 1 ns to 1 s with three: 10 us is counted
as 8188 ns. With five figures 5 us is not counted. -/
theorem documented_figures_lost :
    (∃ h, HdrHistogram.init 64 {} ⟨1, 1000000000, 3⟩ = some h ∧ h.valueToIndex 10000 = 4095 ∧
      h.indexToValue 4095 = 8188 ∧ ¬ Tracks ⟨1, 1000000000, 3⟩ h 10000) ∧
    ∃ h, HdrHistogram.init 64 {} ⟨1, 1000000000, 5⟩ = some h ∧ h.valueToIndex 5000 = 5000 ∧
      h.countsLen = 4096 ∧ ¬ Tracks ⟨1, 1000000000, 5⟩ h 5000 := by
  have three : (HdrHistogram.init 64 {} ⟨1, 1000000000, 3⟩).map
      (fun h => (h.valueToIndex 10000, h.indexToValue 4095)) = some (4095, 8188) := by
    decide +kernel
  have five : (HdrHistogram.init 64 {} ⟨1, 1000000000, 5⟩).map
      (fun h => (h.valueToIndex 5000, h.countsLen)) = some (5000, 4096) := by
    decide +kernel
  obtain ⟨h₃, returns₃, same₃⟩ := Option.map_eq_some_iff.mp three
  obtain ⟨h₅, returns₅, same₅⟩ := Option.map_eq_some_iff.mp five
  obtain ⟨index₃, value₃⟩ := Prod.mk.inj same₃
  obtain ⟨index₅, len₅⟩ := Prod.mk.inj same₅
  refine ⟨⟨h₃, returns₃, index₃, value₃, fun tracks => ?_⟩,
    ⟨h₅, returns₅, index₅, len₅, fun tracks => ?_⟩⟩
  · rw [Tracks, index₃, value₃] at tracks
    norm_num at tracks
  · rw [Tracks, index₅, len₅] at tracks
    exact absurd tracks.1 (by decide)

end HftGrading.Core.Histogram
