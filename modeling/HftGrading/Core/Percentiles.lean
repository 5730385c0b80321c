/- module: HftGrading/Core/Percentiles
   source: core/include/core/hdr_histogram.hpp, core/src/hdr_histogram.cpp
   digest: The counts of a histogram, and its percentiles as order statistics of the values. -/

import HftGrading.Core.Histogram
import HftGrading.Lib.OrderStatistics
import Mathlib.Algebra.Order.BigOperators.Group.Finset

set_option autoImplicit false
set_option relaxedAutoImplicit false

namespace HftGrading.Core.Histogram

open HftGrading.Lib.LogLinearBuckets HftGrading.Lib.OrderStatistics

structure Percentiles where
  p50 : Nat := 0
  p90 : Nat := 0
  p99 : Nat := 0
  p999 : Nat := 0
  min : Nat := 0
  max : Nat := 0
  totalCount : Nat := 0

/-- The locals of the loop of `get_percentiles`: a percentile is `none` until it is got. -/
structure Marks where
  cumulative : Nat := 0
  p50 : Option Nat := none
  p90 : Option Nat := none
  p99 : Option Nat := none
  p999 : Option Nat := none

/-- `if (!got && cumulative >= target) { p = val; got = true; }` -/
def mark (target cumulative val : Nat) (p : Option Nat) : Option Nat :=
  if p.isNone ∧ cumulative ≥ target then some val else p

namespace HdrHistogram

def recordWithCount (h : HdrHistogram) (value count : Nat) : HdrHistogram :=
  let idx := h.valueToIndex value
  if idx < h.countsLen then
    { h with
      counts := Function.update h.counts idx ((h.counts idx + count) % 2 ^ 64)
      totalCount := (h.totalCount + count) % 2 ^ 64
      totalSum := (h.totalSum + value * count) % 2 ^ 64
      minValue := if value < h.minValue then value else h.minValue
      maxValue := if value > h.maxValue then value else h.maxValue }
  else h

def record (h : HdrHistogram) (value : Nat) : HdrHistogram := h.recordWithCount value 1

def percentileWalk (h : HdrHistogram) (target : Nat) : Nat → Nat → Nat → Nat
  | 0, _, _ => h.maxValue
  | left + 1, i, cumulative =>
    let cumulative := (cumulative + h.counts i) % 2 ^ 64
    if cumulative ≥ target then h.indexToValue i
    else h.percentileWalk target left (i + 1) cumulative

/-- `percentile` for the rank that its argument comes to. -/
def percentile (h : HdrHistogram) (target : Nat) : Nat :=
  if h.totalCount = 0 then 0 else h.percentileWalk target h.countsLen 0 0

def marksWalk (h : HdrHistogram) (t50 t90 t99 t999 : Nat) : Nat → Nat → Marks → Marks
  | 0, _, s => s
  | left + 1, i, s =>
    let cumulative := (s.cumulative + h.counts i) % 2 ^ 64
    let val := h.indexToValue i
    let s : Marks :=
      { cumulative
        p50 := mark t50 cumulative val s.p50
        p90 := mark t90 cumulative val s.p90
        p99 := mark t99 cumulative val s.p99
        p999 := mark t999 cumulative val s.p999 }
    if s.p999.isSome then s else h.marksWalk t50 t90 t99 t999 left (i + 1) s

/-- `get_percentiles` for the ranks that its shares of the total come to. -/
def getPercentiles (h : HdrHistogram) (t50 t90 t99 t999 : Nat) : Percentiles :=
  if h.totalCount = 0 then {}
  else
    let s := h.marksWalk t50 t90 t99 t999 h.countsLen 0 {}
    { p50 := s.p50.getD 0
      p90 := s.p90.getD 0
      p99 := s.p99.getD 0
      p999 := s.p999.getD 0
      min := h.minValue
      max := h.maxValue
      totalCount := h.totalCount }

end HdrHistogram

section Walks

variable (h : HdrHistogram)

def below (i : Nat) : Nat := ∑ j ∈ Finset.range i, h.counts j

structure Reaches (target k : Nat) : Prop where
  inside : k < h.countsLen
  reached : ∀ i < h.countsLen, target ≤ below h (i + 1) ↔ k ≤ i

@[simp] theorem below_zero : below h 0 = 0 := Finset.sum_range_zero _

variable {h}

theorem Reaches.mono {target target' k k' : Nat} (reaches : Reaches h target k)
    (reaches' : Reaches h target' k') (le : target ≤ target') : k ≤ k' :=
  (reaches.reached k' reaches'.inside).mp
    (le.trans ((reaches'.reached k' reaches'.inside).mpr le_rfl))

variable (few : below h h.countsLen < 2 ^ 64)
include few

theorem below_succ {i : Nat} (inside : i < h.countsLen) :
    (below h i + h.counts i) % 2 ^ 64 = below h (i + 1) := by
  have more : below h (i + 1) ≤ below h h.countsLen :=
    Finset.sum_le_sum_of_subset (Finset.range_subset_range.mpr inside)
  rw [below, ← Finset.sum_range_succ]
  exact Nat.mod_eq_of_lt (more.trans_lt few)

theorem Reaches.percentileWalk_eq {target k : Nat} (reaches : Reaches h target k) {left i : Nat}
    (whole : i + left = h.countsLen) (before : i ≤ k) :
    h.percentileWalk target left i (below h i) = h.indexToValue k := by
  induction left generalizing i with
  | zero => exact absurd reaches.inside (by omega)
  | succ left ih =>
    have inside : i < h.countsLen := by omega
    rw [HdrHistogram.percentileWalk, below_succ few inside]
    rcases Nat.eq_or_lt_of_le before with rfl | later
    · rw [if_pos ((reaches.reached _ inside).mpr le_rfl)]
    · rw [if_neg (mt (reaches.reached i inside).mp (Nat.not_le.mpr later))]
      exact ih (by omega) later

theorem Reaches.percentile_eq {target k : Nat} (reaches : Reaches h target k)
    (counted : h.totalCount ≠ 0) : h.percentile target = h.indexToValue k := by
  rw [HdrHistogram.percentile, if_neg counted,
    ← reaches.percentileWalk_eq few (Nat.zero_add _) (Nat.zero_le k), below_zero]

/-- A percentile of index `k` when the loop has come to index `i`. -/
def got (h : HdrHistogram) (k i : Nat) : Option Nat :=
  if k < i then some (h.indexToValue k) else none

omit few in
@[simp] theorem got_zero (k : Nat) : got h k 0 = none := if_neg (Nat.not_lt_zero k)

omit few in
theorem Reaches.mark_got {target k : Nat} (reaches : Reaches h target k) {i : Nat}
    (inside : i < h.countsLen) :
    mark target (below h (i + 1)) (h.indexToValue i) (got h k i) = got h k (i + 1) := by
  have reached := reaches.reached i inside
  rcases Nat.lt_trichotomy k i with earlier | rfl | later
  · simp [mark, got, earlier, Nat.lt_succ_of_lt earlier]
  · simp [mark, got, reached]
  · have waits : ¬ k < i + 1 := by omega
    simp [mark, got, reached, Nat.not_lt.mpr later.le, Nat.not_le.mpr later, waits]

section Marks

variable {t50 t90 t99 t999 k50 k90 k99 k999 : Nat} (r50 : Reaches h t50 k50)
  (r90 : Reaches h t90 k90) (r99 : Reaches h t99 k99) (r999 : Reaches h t999 k999)
include r50 r90 r99 r999

theorem marksWalk_eq {left i : Nat} (whole : i + left = h.countsLen) (before : i ≤ k999) :
    h.marksWalk t50 t90 t99 t999 left i
        ⟨below h i, got h k50 i, got h k90 i, got h k99 i, got h k999 i⟩ =
      ⟨below h (k999 + 1), got h k50 (k999 + 1), got h k90 (k999 + 1), got h k99 (k999 + 1),
        got h k999 (k999 + 1)⟩ := by
  induction left generalizing i with
  | zero => exact absurd r999.inside (by omega)
  | succ left ih =>
    have inside : i < h.countsLen := by omega
    simp only [HdrHistogram.marksWalk, below_succ few inside, r50.mark_got inside,
      r90.mark_got inside, r99.mark_got inside, r999.mark_got inside]
    rcases Nat.eq_or_lt_of_le before with rfl | later
    · simp [got]
    · have waits : ¬ k999 < i + 1 := by omega
      rw [if_neg (by simp [got, waits])]
      exact ih (by omega) later

theorem getPercentiles_eq (counted : h.totalCount ≠ 0) (le50 : k50 ≤ k999) (le90 : k90 ≤ k999)
    (le99 : k99 ≤ k999) :
    h.getPercentiles t50 t90 t99 t999 =
      { p50 := h.percentile t50
        p90 := h.percentile t90
        p99 := h.percentile t99
        p999 := h.percentile t999
        min := h.minValue
        max := h.maxValue
        totalCount := h.totalCount } := by
  have found : ∀ {k : Nat}, k ≤ k999 → (got h k (k999 + 1)).getD 0 = h.indexToValue k :=
    fun before => by rw [got, if_pos (Nat.lt_succ_of_le before), Option.getD_some]
  have walk := marksWalk_eq few r50 r90 r99 r999 (Nat.zero_add _) (Nat.zero_le _)
  simp only [below_zero, got_zero] at walk
  rw [HdrHistogram.getPercentiles, if_neg counted, walk, r50.percentile_eq few counted,
    r90.percentile_eq few counted, r99.percentile_eq few counted, r999.percentile_eq few counted]
  simp only [found le50, found le90, found le99, found le_rfl]

end Marks

end Walks

/-- The values of the calls of `record_with_count`, each as often as it counts. -/
def recorded (entries : List (Nat × Nat)) : List Nat :=
  entries.flatMap fun entry => List.replicate entry.2 entry.1

def recordAll (h : HdrHistogram) (entries : List (Nat × Nat)) : HdrHistogram :=
  entries.foldl (fun h entry => h.recordWithCount entry.1 entry.2) h

structure Kept (m u levels v : Nat) : Prop where
  word : v < 2 ^ 64
  inside : v < 2 ^ (m + u + levels)
  room : bucketIndex m (v / 2 ^ u) < maxBuckets

structure Counted (m u levels : Nat) (entries : List (Nat × Nat)) (h : HdrHistogram) : Prop where
  laid : Laid m u levels h
  counts : ∀ i < h.countsLen,
    h.counts i = (recorded entries).countP (fun v => bucketIndex m (v / 2 ^ u) = i)
  total : h.totalCount = (recorded entries).length
  most : ∀ v ∈ recorded entries, v ≤ h.maxValue

theorem recorded_concat (entries : List (Nat × Nat)) (entry : Nat × Nat) :
    recorded (entries ++ [entry]) = recorded entries ++ List.replicate entry.2 entry.1 := by
  simp [recorded]

section Records

variable {m u levels : Nat} {h : HdrHistogram} {entries : List (Nat × Nat)}

theorem Counted.record (counted : Counted m u levels entries h) {entry : Nat × Nat}
    (kept : Kept m u levels entry.1) (few : (recorded (entries ++ [entry])).length < 2 ^ 64) :
    Counted m u levels (entries ++ [entry]) (h.recordWithCount entry.1 entry.2) := by
  have idx := counted.laid.valueToIndex_of_lt kept.word kept.inside kept.room
  have inside := counted.laid.bucketIndex_lt_countsLen kept.inside kept.room
  rw [recorded_concat, List.length_append, List.length_replicate] at few
  rw [HdrHistogram.recordWithCount, idx, if_pos inside]
  refine ⟨⟨counted.laid.magnitude, counted.laid.half, counted.laid.count, counted.laid.unit,
    counted.laid.len, counted.laid.fits⟩, fun i within => ?_, ?_, fun v member => ?_⟩
  · rw [recorded_concat, List.countP_append, List.countP_replicate, ← counted.counts i within]
    have atMost : h.counts i ≤ (recorded entries).length := by
      rw [counted.counts i within]
      exact List.countP_le_length
    by_cases here : i = bucketIndex m (entry.1 / 2 ^ u)
    · subst here
      simp only [Function.update_self, decide_true, if_true]
      exact Nat.mod_eq_of_lt (by omega)
    · simp [Function.update_of_ne here, Ne.symm here]
  · rw [recorded_concat, List.length_append, List.length_replicate, ← counted.total]
    exact Nat.mod_eq_of_lt (counted.total ▸ few)
  · rw [recorded_concat, List.mem_append] at member
    dsimp only
    rcases member with earlier | now
    · have bound := counted.most v earlier
      split_ifs <;> omega
    · obtain rfl := List.eq_of_mem_replicate now
      split_ifs <;> omega

theorem Counted.recordAll (start : Counted m u levels [] h)
    (kept : ∀ entry ∈ entries, Kept m u levels entry.1)
    (few : (recorded entries).length < 2 ^ 64) :
    Counted m u levels entries (Histogram.recordAll h entries) := by
  induction entries using List.reverseRecOn with
  | nil => exact start
  | append_singleton entries entry ih =>
    have fewer : (recorded entries).length < 2 ^ 64 := by
      rw [recorded_concat, List.length_append] at few
      omega
    rw [Histogram.recordAll, List.foldl_concat]
    exact (ih (fun e member => kept e (List.mem_append_left _ member)) fewer).record
      (kept entry (by simp)) few

variable (counted : Counted m u levels entries h)
  (kept : ∀ entry ∈ entries, Kept m u levels entry.1)
include counted

theorem Counted.below_eq {i : Nat} (inside : i ≤ h.countsLen) :
    below h i = (recorded entries).countP (fun v => bucketIndex m (v / 2 ^ u) < i) := by
  rw [below, ← sum_countP (recorded entries) (fun v => bucketIndex m (v / 2 ^ u))]
  exact Finset.sum_congr rfl fun j member =>
    counted.counts j ((Finset.mem_range.mp member).trans_le inside)

include kept

omit counted in
theorem kept_of_mem {v : Nat} (member : v ∈ recorded entries) : Kept m u levels v := by
  obtain ⟨entry, called, copy⟩ := List.mem_flatMap.mp member
  rw [List.eq_of_mem_replicate copy]
  exact kept entry called

theorem Counted.below_countsLen : below h h.countsLen = (recorded entries).length := by
  rw [counted.below_eq le_rfl, List.countP_eq_length]
  intro v member
  have known := kept_of_mem kept member
  exact decide_eq_true (counted.laid.bucketIndex_lt_countsLen known.inside known.room)

theorem Counted.reaches {r : Nat} (first : 1 ≤ r) (last : r ≤ (recorded entries).length) :
    ∃ v, Kept m u levels v ∧ v ≤ h.maxValue ∧ smallest (recorded entries) r = some v ∧
      Reaches h r (bucketIndex m (v / 2 ^ u)) := by
  have mono : Monotone fun v => bucketIndex m (v / 2 ^ u) := fun v w le =>
    (gc_bucket m).monotone_u (Nat.div_le_div_right le)
  obtain ⟨v, member, smallest, rank⟩ := exists_smallest (recorded entries) mono first last
  have known := kept_of_mem kept member
  refine ⟨v, known, counted.most v member, smallest,
    counted.laid.bucketIndex_lt_countsLen known.inside known.room, fun i inside => ?_⟩
  rw [counted.below_eq (Nat.succ_le_of_lt inside), rank]
  simp only [Nat.lt_succ_iff]

variable (few : (recorded entries).length < 2 ^ 64)
include few

theorem Counted.below_lt : below h h.countsLen < 2 ^ 64 := by
  rwa [counted.below_countsLen kept]

theorem Counted.percentile_eq {r : Nat} (first : 1 ≤ r) (last : r ≤ (recorded entries).length) :
    ∃ v, v ≤ h.maxValue ∧ smallest (recorded entries) r = some v ∧
      Reaches h r (bucketIndex m (v / 2 ^ u)) ∧
      h.percentile r = bucketStart m (bucketIndex m (v / 2 ^ u)) * 2 ^ u := by
  obtain ⟨v, known, most, smallest, reaches⟩ := counted.reaches kept first last
  have some_counted : h.totalCount ≠ 0 := by
    rw [counted.total]
    omega
  refine ⟨v, most, smallest, reaches, ?_⟩
  rw [reaches.percentile_eq (counted.below_lt kept few) some_counted,
    counted.laid.indexToValue_of_le known.word (bucketStart_le m (v / 2 ^ u))]

theorem Counted.percentile_mono {r r' : Nat} (first : 1 ≤ r) (le : r ≤ r')
    (last : r' ≤ (recorded entries).length) : h.percentile r ≤ h.percentile r' := by
  obtain ⟨v, -, -, reaches, value⟩ := counted.percentile_eq kept few first (le.trans last)
  obtain ⟨v', -, -, reaches', value'⟩ := counted.percentile_eq kept few (first.trans le) last
  rw [value, value']
  exact Nat.mul_le_mul_right _ ((bucketStart_strictMono m).monotone (reaches.mono reaches' le))

theorem Counted.getPercentiles_eq {t50 t90 t99 t999 : Nat} (first : 1 ≤ t50) (le50 : t50 ≤ t90)
    (le90 : t90 ≤ t99) (le99 : t99 ≤ t999) (last : t999 ≤ (recorded entries).length) :
    h.getPercentiles t50 t90 t99 t999 =
      ⟨h.percentile t50, h.percentile t90, h.percentile t99, h.percentile t999, h.minValue,
        h.maxValue, h.totalCount⟩ := by
  have some_counted : h.totalCount ≠ 0 := by
    rw [counted.total]
    omega
  obtain ⟨v50, -, -, -, r50⟩ := counted.reaches kept first (by omega)
  obtain ⟨v90, -, -, -, r90⟩ := counted.reaches kept (r := t90) (by omega) (by omega)
  obtain ⟨v99, -, -, -, r99⟩ := counted.reaches kept (r := t99) (by omega) (by omega)
  obtain ⟨v999, -, -, -, r999⟩ := counted.reaches kept (r := t999) (by omega) last
  exact Histogram.getPercentiles_eq (counted.below_lt kept few) r50 r90 r99 r999 some_counted
    (r50.mono r999 (by omega)) (r90.mono r999 (by omega)) (r99.mono r999 le99)

end Records

/-- The percentiles of a histogram are the order statistics of the values, to the width of a
bucket. -/
structure RanksWalked (entries : List (Nat × Nat)) (h : HdrHistogram) : Prop where
  sum : ∑ i ∈ Finset.range h.countsLen, h.counts i = h.totalCount
  total : h.totalCount = (recorded entries).length
  near : ∀ r, 1 ≤ r → r ≤ (recorded entries).length →
    ∃ v, smallest (recorded entries) r = some v ∧ h.percentile r ≤ v ∧
      (v : ℚ) - h.percentile r < max 1 ((h.percentile r : ℚ) / 128) ∧ h.percentile r ≤ h.maxValue
  monotone : ∀ r r', 1 ≤ r → r ≤ r' → r' ≤ (recorded entries).length →
    h.percentile r ≤ h.percentile r'
  together : ∀ t50 t90 t99 t999, 1 ≤ t50 → t50 ≤ t90 → t90 ≤ t99 → t99 ≤ t999 →
    t999 ≤ (recorded entries).length →
    h.getPercentiles t50 t90 t99 t999 =
      ⟨h.percentile t50, h.percentile t90, h.percentile t99, h.percentile t999, h.minValue,
        h.maxValue, h.totalCount⟩

theorem init_counted {config : HdrHistConfig} {m u levels fuel : Nat} {h h' : HdrHistogram}
    (laid : Laid m u levels h') (returns : h.init fuel config = some h') :
    Counted m u levels [] h' := by
  obtain ⟨bucketCount, -, rfl⟩ := Option.map_eq_some_iff.mp returns
  exact ⟨laid, fun i inside => if_pos inside, rfl, fun v member => absurd member List.not_mem_nil⟩

theorem default_kept {levels v : Nat} (enough : 10000000000 < 2 ^ (7 + 0 + levels))
    (bounded : v ≤ 10000000000) : Kept 7 0 levels v := by
  refine ⟨by omega, bounded.trans_lt enough, ?_⟩
  rw [pow_zero, Nat.div_one]
  exact (bucketIndex_lt_iff 7 v 31).mpr (by omega)

theorem default_near (v : Nat) :
    (v : ℚ) - bucketStart 7 (bucketIndex 7 v) <
      max 1 ((bucketStart 7 (bucketIndex 7 v) : ℚ) / 128) := by
  rw [lt_max_iff]
  rcases Nat.lt_or_ge v (2 ^ (7 + 1)) with small | large
  · left
    rw [bucketIndex_of_lt 7 small, bucketStart_of_lt 7 small, sub_self]
    exact one_pos
  · right
    have spread := bucket_spread 7 large
    have start := bucketStart_le 7 v
    rw [lt_div_iff₀ (by norm_num), ← Nat.cast_sub start]
    exact_mod_cast (by omega : (v - bucketStart 7 (bucketIndex 7 v)) * 128 < _)

theorem percentiles_are_order_statistics (h : HdrHistogram) (entries : List (Nat × Nat))
    (values : ∀ entry ∈ entries, entry.1 ≤ 10000000000)
    (few : (recorded entries).length < 2 ^ 64) :
    ∃ fuel h', h.init fuel {} = some h' ∧ RanksWalked entries (recordAll h' entries) := by
  have bounded : ({} : HdrHistConfig).highestTrackable < 2 ^ 63 := by decide
  have magnitude : halfCountMagnitude ({} : HdrHistConfig).significantFigures = 7 :=
    layout_values.1.2.1
  have unit : Nat.log 2 ({} : HdrHistConfig).lowestTrackable = 0 := Nat.log_one_right 2
  obtain ⟨fuel, h', returns⟩ := init_returns bounded h (by rw [magnitude, unit]; decide)
  obtain ⟨levels, laid, enough⟩ := init_laid bounded returns
  rw [magnitude, unit] at laid enough
  have kept : ∀ entry ∈ entries, Kept 7 0 levels entry.1 := fun entry member =>
    default_kept enough (values entry member)
  have counted := (init_counted laid returns).recordAll kept few
  refine ⟨fuel, h', returns, ?_, counted.total, fun r first last => ?_, ?_, ?_⟩
  · exact (counted.below_countsLen kept).trans counted.total.symm
  · obtain ⟨v, most, smallest, -, value⟩ := counted.percentile_eq kept few first last
    rw [pow_zero, Nat.div_one, Nat.mul_one] at value
    rw [value]
    exact ⟨v, smallest, bucketStart_le 7 v, default_near v, (bucketStart_le 7 v).trans most⟩
  · exact fun r r' first le last => counted.percentile_mono kept few first le last
  · exact fun t50 t90 t99 t999 first le50 le90 le99 last =>
      counted.getPercentiles_eq kept few first le50 le90 le99 last

theorem small_percentiles :
    ∃ fuel h', HdrHistogram.init fuel {} {} = some h' ∧
      RanksWalked [(700, 2), (3, 1), (1000000, 5)]
        (recordAll h' [(700, 2), (3, 1), (1000000, 5)]) :=
  percentiles_are_order_statistics {} _ (by decide) (by decide)

theorem recorded_three (a b c n : Nat) :
    recorded [(a, n), (b, n), (c, n)] =
      List.replicate n a ++ (List.replicate n b ++ List.replicate n c) := by
  rw [recorded, List.flatMap_cons, List.flatMap_cons, List.flatMap_cons, List.flatMap_nil,
    List.append_nil]

theorem smallest_three {a b c n : Nat} (ab : a ≤ b) (bc : b ≤ c) (positive : 0 < n) :
    smallest (recorded [(a, n), (b, n), (c, n)]) (n + 1) = some b := by
  have sorted : (List.replicate n a ++ (List.replicate n b ++ List.replicate n c)).Pairwise
      (fun x y => decide (x ≤ y) = true) := by
    simp only [List.pairwise_append, List.pairwise_replicate, List.mem_append, List.mem_replicate,
      decide_eq_true_eq]
    refine ⟨.inr le_rfl, ⟨.inr le_rfl, .inr le_rfl, ?_⟩, ?_⟩ <;> omega
  rw [recorded_three, smallest, List.mergeSort_of_pairwise sorted, Nat.add_sub_cancel,
    List.getElem?_append_right (List.length_replicate.le), List.length_replicate, Nat.sub_self,
    List.getElem?_append_left (by rwa [List.length_replicate]), List.getElem?_replicate,
    if_pos positive]

/-- Three values, each counted `2^63` times: the first of the sevens is reported as nine, and the
total has wrapped. -/
theorem wrapped_counts_misplace_rank :
    (recorded [(5, 2 ^ 63), (7, 2 ^ 63), (9, 2 ^ 63)]).length = 3 * 2 ^ 63 ∧
    smallest (recorded [(5, 2 ^ 63), (7, 2 ^ 63), (9, 2 ^ 63)]) (2 ^ 63 + 1) = some 7 ∧
    (HdrHistogram.init 64 {} {}).map (fun h =>
      let h := recordAll h [(5, 2 ^ 63), (7, 2 ^ 63), (9, 2 ^ 63)]
      (h.percentile (2 ^ 63 + 1), h.totalCount)) = some (9, 2 ^ 63) := by
  refine ⟨?_, smallest_three (by decide) (by decide) (Nat.two_pow_pos 63), by decide +kernel⟩
  rw [recorded_three, List.length_append, List.length_append, List.length_replicate,
    List.length_replicate, List.length_replicate]
  omega

end HftGrading.Core.Histogram
