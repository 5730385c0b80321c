/- module: HftGrading/Core/Arena
   source: core/src/arena.cpp, core/include/core/arena.hpp, core/include/core/types.hpp
   digest: The bump allocator in wrapping 64-bit arithmetic, and when its blocks are disjoint. -/

import HftGrading.Core.RingBuffer
import Mathlib.Data.List.Pairwise
import Mathlib.Data.Nat.Prime.Basic

set_option autoImplicit false
set_option relaxedAutoImplicit false

namespace HftGrading.Core.Arena

open RingBuffer (isPowerOf2)
open Lib.CountedRing (toNat_and_mask toNat_and_not_mask)
open Lib.PartialExecution

def cacheLineSize : UInt64 := 64

def alignUp (value alignment : UInt64) : UInt64 := (value + alignment - 1) &&& ~~~(alignment - 1)

structure HugePageArena where
  base : UInt64
  size : UInt64
  offset : UInt64
  deriving DecidableEq, Repr

structure Request where
  bytes : UInt64
  alignment : UInt64
  power : isPowerOf2 alignment = true
  deriving DecidableEq

/-- The alignment that `allocate_raw` works with. -/
def Request.effective (r : Request) : UInt64 :=
  if r.alignment < cacheLineSize then cacheLineSize else r.alignment

def allocateRaw (arena : HugePageArena) (r : Request) : Option UInt64 × HugePageArena :=
  let alignedOffset := alignUp arena.offset r.effective
  if alignedOffset + r.bytes > arena.size then (none, arena)
  else (some (arena.base + alignedOffset), { arena with offset := alignedOffset + r.bytes })

structure Event where
  before : HugePageArena
  request : Request
  result : Option UInt64
  after : HugePageArena

structure Run where
  arena : HugePageArena
  events : List Event

def Run.step (run : Run) (r : Request) : Run :=
  let (result, after) := allocateRaw run.arena r
  ⟨after, run.events ++ [⟨run.arena, r, result, after⟩]⟩

def Event.Covers (e : Event) (x : Nat) : Prop :=
  ∃ p, e.result = some p ∧ p.toNat ≤ x ∧ x < p.toNat + e.request.bytes.toNat

def Satisfiable (arena : HugePageArena) (r : Request) : Prop :=
  ∃ o, arena.offset.toNat ≤ o ∧ o + r.bytes.toNat ≤ arena.size.toNat ∧
    r.effective.toNat ∣ arena.base.toNat + o

/-- The blocks are aligned as requested, inside the arena and disjoint; a call that cannot be
satisfied returns null and leaves the arena as it is. -/
structure Disciplined (events : List Event) : Prop where
  aligned : ∀ e ∈ events, ∀ p, e.result = some p → e.request.alignment.toNat ∣ p.toNat
  inside : ∀ e ∈ events, ∀ x, e.Covers x →
    e.before.base.toNat ≤ x ∧ x < e.before.base.toNat + e.before.size.toNat
  disjoint : events.Pairwise fun e f => ∀ x, e.Covers x → ¬ f.Covers x
  unsatisfied : ∀ e ∈ events, ¬ Satisfiable e.before e.request →
    e.result = none ∧ e.after = e.before

def roundUp (n a : Nat) : Nat := (n + a - 1) / a * a

def needed (arena : HugePageArena) (r : Request) : Nat :=
  roundUp arena.offset.toNat r.effective.toNat + r.bytes.toNat

/-- The block fits without wrapping and its alignment is one of the base, or its end exceeds the
size even after wrapping. -/
def Exact (arena : HugePageArena) (r : Request) : Prop :=
  needed arena r ≤ arena.size.toNat ∧ r.alignment.toNat ∣ arena.base.toNat ∨
    arena.size.toNat < needed arena r % 2 ^ 64

section Rounding

variable {n a : Nat} (positive : 0 < a)
include positive

theorem le_roundUp (n : Nat) : n ≤ roundUp n a := by
  have split := Nat.div_add_mod' (n + a - 1) a
  have rest := Nat.mod_lt (n + a - 1) positive
  unfold roundUp
  omega

theorem roundUp_le {m : Nat} (later : n ≤ m) (multiple : a ∣ m) : roundUp n a ≤ m := by
  obtain ⟨q, rfl⟩ := multiple
  have below : (n + a - 1) / a < q + 1 := by
    rw [Nat.div_lt_iff_lt_mul positive]
    have next : (q + 1) * a = a * q + a := by rw [Nat.add_mul, Nat.one_mul, Nat.mul_comm]
    omega
  rw [Nat.mul_comm]
  exact Nat.mul_le_mul_right a (Nat.lt_succ_iff.mp below)

end Rounding

theorem dvd_roundUp (n a : Nat) : a ∣ roundUp n a := Nat.dvd_mul_left a _

section Words

variable {a : UInt64} (power : isPowerOf2 a = true)
include power

theorem isPowerOf2_spec : a &&& (a - 1) = 0 ∧ 0 < a.toNat := by
  rw [isPowerOf2, Bool.and_eq_true, beq_iff_eq, decide_eq_true_eq] at power
  exact ⟨power.2, UInt64.lt_iff_toNat_lt.mp power.1⟩

theorem toNat_dvd_two_pow : a.toNat ∣ 2 ^ 64 := by
  obtain ⟨masked, positive⟩ := isPowerOf2_spec power
  have some : a.toBitVec ≠ 0 := fun zero => positive.ne' (congrArg BitVec.toNat zero)
  -- the word of 2^64 is zero, and so is its remainder
  have word := toNat_and_mask (congrArg UInt64.toBitVec masked) some (2 ^ 64)
  rw [show BitVec.ofNat 64 (2 ^ 64) = 0#64 from rfl, BitVec.zero_and] at word
  exact Nat.dvd_of_mod_eq_zero word.symm

theorem toNat_alignUp (value : UInt64) :
    (alignUp value a).toNat = roundUp value.toNat a.toNat % 2 ^ 64 := by
  obtain ⟨masked, positive⟩ := isPowerOf2_spec power
  have some : a.toBitVec ≠ 0 := fun zero => positive.ne' (congrArg BitVec.toNat zero)
  have sum : value + a - 1 = UInt64.ofNat (value.toNat + a.toNat - 1) := by
    apply UInt64.toNat_inj.mp
    rw [UInt64.toNat_sub, UInt64.toNat_add, UInt64.toNat_ofNat', UInt64.toNat_one]
    omega
  have cleared := toNat_and_not_mask (congrArg UInt64.toBitVec masked) some
    (value.toNat + a.toNat - 1)
  rw [roundUp, alignUp, sum]
  generalize value.toNat + a.toNat - 1 = y at cleared ⊢
  have inner : y % 2 ^ 64 % a.toNat = y % a.toNat := Nat.mod_mod_of_dvd y (toNat_dvd_two_pow power)
  have small : y % a.toNat ≤ y % 2 ^ 64 := inner ▸ Nat.mod_le _ _
  have rounded : y / a.toNat * a.toNat = (y % 2 ^ 64 - y % a.toNat) + 2 ^ 64 * (y / 2 ^ 64) := by
    have split := Nat.div_add_mod y (2 ^ 64)
    have split' := Nat.div_add_mod' y a.toNat
    omega
  rw [rounded, Nat.add_mul_mod_self_left, Nat.mod_eq_of_lt (by omega)]
  exact cleared

theorem toNat_eq_two_pow : ∃ k, a.toNat = 2 ^ k := by
  obtain ⟨k, -, exponent⟩ := (Nat.dvd_prime_pow Nat.prime_two).mp (toNat_dvd_two_pow power)
  exact ⟨k, exponent⟩

end Words

section Calls

variable {arena : HugePageArena} {r : Request}

theorem Request.effective_power (r : Request) : isPowerOf2 r.effective = true := by
  unfold Request.effective
  split_ifs with small
  · rfl
  · exact r.power

theorem Request.effective_pos (r : Request) : 0 < r.effective.toNat :=
  (isPowerOf2_spec r.effective_power).2

theorem Request.dvd_effective (r : Request) : r.alignment.toNat ∣ r.effective.toNat := by
  unfold Request.effective
  split_ifs with small
  · obtain ⟨k, exponent⟩ := toNat_eq_two_pow r.power
    have less : r.alignment.toNat < 2 ^ 6 := UInt64.lt_iff_toNat_lt.mp small
    rw [exponent] at less ⊢
    exact Nat.pow_dvd_pow 2 ((Nat.pow_lt_pow_iff_right Nat.one_lt_two).mp less).le
  · exact dvd_rfl

theorem Request.effective_dvd (r : Request) {base : Nat} (page : 4096 ∣ base)
    (aligned : r.alignment.toNat ∣ base) : r.effective.toNat ∣ base := by
  unfold Request.effective
  split_ifs with small
  · exact Dvd.dvd.trans (by decide) page
  · exact aligned

theorem allocateRaw_eq (arena : HugePageArena) (r : Request) :
    allocateRaw arena r =
      if arena.size.toNat < needed arena r % 2 ^ 64 then (none, arena)
      else (some (arena.base + .ofNat (roundUp arena.offset.toNat r.effective.toNat)),
        { arena with offset := .ofNat (needed arena r) }) := by
  have start : alignUp arena.offset r.effective =
      .ofNat (roundUp arena.offset.toNat r.effective.toNat) := by
    apply UInt64.toNat_inj.mp
    rw [toNat_alignUp r.effective_power, UInt64.toNat_ofNat']
  have finish : alignUp arena.offset r.effective + r.bytes = .ofNat (needed arena r) := by
    rw [start, needed, UInt64.ofNat_add, UInt64.ofNat_toNat]
  have test : UInt64.ofNat (needed arena r) > arena.size ↔
      arena.size.toNat < needed arena r % 2 ^ 64 := by
    rw [gt_iff_lt, UInt64.lt_iff_toNat_lt, UInt64.toNat_ofNat']
  simp only [allocateRaw, finish, test]
  rw [start]

theorem aligned_iff (arena : HugePageArena) (r : Request) :
    r.alignment.toNat ∣
        (arena.base + .ofNat (roundUp arena.offset.toNat r.effective.toNat)).toNat ↔
      r.alignment.toNat ∣ arena.base.toNat := by
  have start : r.alignment.toNat ∣ roundUp arena.offset.toNat r.effective.toNat :=
    r.dvd_effective.trans (dvd_roundUp _ _)
  rw [UInt64.toNat_add, UInt64.toNat_ofNat', Nat.add_mod_mod,
    (Nat.dvd_mod_iff (toNat_dvd_two_pow r.power)), Nat.dvd_add_left start]

theorem needed_le_of_satisfiable (aligned : r.effective.toNat ∣ arena.base.toNat)
    (satisfiable : Satisfiable arena r) : needed arena r ≤ arena.size.toNat := by
  obtain ⟨o, later, inside, multiple⟩ := satisfiable
  have least := roundUp_le r.effective_pos later ((Nat.dvd_add_right aligned).mp multiple)
  unfold needed
  omega

end Calls

/-- The region is mapped at a page boundary inside the address space, and the bump pointer is
inside it. -/
structure Mapped (arena : HugePageArena) : Prop where
  page : 4096 ∣ arena.base.toNat
  fits : arena.base.toNat + arena.size.toNat ≤ 2 ^ 64
  bumped : arena.offset.toNat ≤ arena.size.toNat

structure Sound (run : Run) : Prop where
  mapped : Mapped run.arena
  below : ∀ e ∈ run.events, ∀ x, e.Covers x →
    x < run.arena.base.toNat + run.arena.offset.toNat
  disciplined : Disciplined run.events

theorem sound_start {arena : HugePageArena} (mapped : Mapped arena) : Sound ⟨arena, []⟩ := by
  refine ⟨mapped, fun e member => ?_, ⟨fun e member => ?_, fun e member => ?_, .nil,
    fun e member => ?_⟩⟩
  all_goals exact absurd member List.not_mem_nil

section Steps

variable {run : Run} {r : Request}

theorem Disciplined.append {events : List Event} {e : Event} (disciplined : Disciplined events)
    (aligned : ∀ p, e.result = some p → e.request.alignment.toNat ∣ p.toNat)
    (inside : ∀ x, e.Covers x →
      e.before.base.toNat ≤ x ∧ x < e.before.base.toNat + e.before.size.toNat)
    (disjoint : ∀ f ∈ events, ∀ x, f.Covers x → ¬ e.Covers x)
    (unsatisfied : ¬ Satisfiable e.before e.request → e.result = none ∧ e.after = e.before) :
    Disciplined (events ++ [e]) := by
  have split : ∀ f ∈ events ++ [e], f ∈ events ∨ f = e := by simp
  constructor
  · intro f member
    rcases split f member with old | rfl
    · exact disciplined.aligned f old
    · exact aligned
  · intro f member
    rcases split f member with old | rfl
    · exact disciplined.inside f old
    · exact inside
  · rw [List.pairwise_append]
    refine ⟨disciplined.disjoint, List.pairwise_singleton _ _, fun f old g new => ?_⟩
    rw [List.mem_singleton.mp new]
    exact disjoint f old
  · intro f member
    rcases split f member with old | rfl
    · exact disciplined.unsatisfied f old
    · exact unsatisfied

theorem Sound.refuses (sound : Sound run) :
    Sound ⟨run.arena, run.events ++ [⟨run.arena, r, none, run.arena⟩]⟩ := by
  have nothing : ∀ x, ¬ Event.Covers ⟨run.arena, r, none, run.arena⟩ x := by
    rintro x ⟨p, result, -⟩
    cases result
  refine ⟨sound.mapped, fun e member x covers => ?_, sound.disciplined.append (fun p result => ?_)
    (fun x covers => absurd covers (nothing x)) (fun f _ x _ => nothing x) fun _ => ⟨rfl, rfl⟩⟩
  · rcases List.mem_append.mp member with old | new
    · exact sound.below e old x covers
    · rw [List.mem_singleton.mp new] at covers
      exact absurd covers (nothing x)
  · cases result

theorem covered {arena after : HugePageArena} (mapped : Mapped arena)
    (fits : needed arena r ≤ arena.size.toNat) {x : Nat}
    (covers : Event.Covers ⟨arena, r,
      some (arena.base + .ofNat (roundUp arena.offset.toNat r.effective.toNat)), after⟩ x) :
    arena.base.toNat + arena.offset.toNat ≤ x ∧ x < arena.base.toNat + needed arena r := by
  obtain ⟨p, result, low, high⟩ := covers
  cases result
  have later := le_roundUp r.effective_pos arena.offset.toNat
  have whole := mapped.fits
  simp only [UInt64.toNat_add, UInt64.toNat_ofNat', Nat.add_mod_mod] at low high
  unfold needed at fits ⊢
  -- an address in the block is below the end of the region, so nothing wraps
  rw [Nat.mod_eq_of_lt (by omega)] at low high
  omega

theorem Sound.grants (sound : Sound run) (fits : needed run.arena r ≤ run.arena.size.toNat)
    (aligned : r.alignment.toNat ∣ run.arena.base.toNat) :
    Sound ⟨{ run.arena with offset := .ofNat (needed run.arena r) }, run.events ++ [⟨run.arena, r,
      some (run.arena.base + .ofNat (roundUp run.arena.offset.toNat r.effective.toNat)),
      { run.arena with offset := .ofNat (needed run.arena r) }⟩]⟩ := by
  have later := le_roundUp r.effective_pos run.arena.offset.toNat
  have bound := run.arena.size.toNat_lt
  have bumped : (UInt64.ofNat (needed run.arena r)).toNat = needed run.arena r := by
    rw [UInt64.toNat_ofNat', Nat.mod_eq_of_lt (by omega)]
  have grows : run.arena.offset.toNat ≤ needed run.arena r := by
    unfold needed
    omega
  refine ⟨⟨sound.mapped.page, sound.mapped.fits, bumped.le.trans fits⟩,
    fun e member x covers => ?_, ?_⟩
  · simp only [bumped]
    rcases List.mem_append.mp member with old | new
    · have before := sound.below e old x covers
      omega
    · rw [List.mem_singleton.mp new] at covers
      exact (covered sound.mapped fits covers).2
  · refine sound.disciplined.append (fun p result => ?_) (fun x covers => ?_)
      (fun f old x before covers => ?_) fun unsatisfiable => ?_
    · cases result
      exact (aligned_iff run.arena r).mpr aligned
    · obtain ⟨low, high⟩ := covered sound.mapped fits covers
      exact ⟨Nat.le_of_add_right_le low, Nat.lt_of_lt_of_le high (Nat.add_le_add_left fits _)⟩
    · have under := sound.below f old x before
      obtain ⟨low, -⟩ := covered sound.mapped fits covers
      omega
    · exact absurd ⟨_, later, fits, Nat.dvd_add (r.effective_dvd sound.mapped.page aligned)
        (dvd_roundUp _ _)⟩ unsatisfiable

theorem Sound.step (sound : Sound run) (exact : Exact run.arena r) : Sound (run.step r) := by
  unfold Run.step
  rw [allocateRaw_eq]
  split_ifs with exceeds
  · exact sound.refuses
  · obtain ⟨fits, aligned⟩ := exact.resolve_right exceeds
    exact sound.grants fits aligned

theorem Sound.exact (sound : Sound run) (disciplined : Disciplined (run.step r).events) :
    Exact run.arena r := by
  by_cases exceeds : run.arena.size.toNat < needed run.arena r % 2 ^ 64
  · exact Or.inr exceeds
  · unfold Run.step at disciplined
    rw [allocateRaw_eq, if_neg exceeds] at disciplined
    have last := List.mem_append_right run.events (List.mem_singleton_self (Event.mk run.arena r
      (some (run.arena.base + .ofNat (roundUp run.arena.offset.toNat r.effective.toNat)))
      { run.arena with offset := .ofNat (needed run.arena r) }))
    have aligned := (aligned_iff run.arena r).mp (disciplined.aligned _ last _ rfl)
    refine Or.inl ⟨?_, aligned⟩
    have satisfiable : Satisfiable run.arena r := by
      by_contra unsatisfiable
      cases (disciplined.unsatisfied _ last unsatisfiable).1
    exact needed_le_of_satisfiable (r.effective_dvd sound.mapped.page aligned) satisfiable

end Steps

/-- The calls keep the discipline exactly if each of them fits without wrapping and asks for an
alignment of the base, or exceeds the size even after wrapping. -/
theorem arena_disciplined_iff (arena : HugePageArena) (mapped : Mapped arena)
    (requests : List Request) :
    (∀ first, first <+: requests → Disciplined (first.foldl Run.step ⟨arena, []⟩).events) ↔
      Obeys (always Run.step) (fun run r => Exact run.arena r) ⟨arena, []⟩ requests := by
  have keep : ∀ run r run', Sound run → Exact run.arena r → always Run.step run r = some run' →
      Sound run' := by
    intro run r run' sound exact move
    cases move
    exact sound.step exact
  have needs : ∀ run r, Sound run →
      (∀ run', always Run.step run r = some run' → Disciplined run'.events) → Exact run.arena r :=
    fun run r sound kept => sound.exact (kept _ rfl)
  rw [← forall_reached_iff_obeys (fun _ sound => sound.disciplined) keep needs requests _
    (sound_start mapped)]
  simp only [run_always, Option.some.injEq, forall_eq']

def onePage : HugePageArena := ⟨139637976727552, 2097152, 0⟩

theorem onePage_mapped : Mapped onePage := ⟨by decide, by decide, by decide⟩

def modest : List Request :=
  [⟨100, 8, by decide⟩, ⟨4096, 4096, by decide⟩, ⟨2097152, 64, by decide⟩, ⟨2088960, 1, by decide⟩]

theorem modest_disciplined :
    (modest.foldl Run.step ⟨onePage, []⟩).events.map Event.result =
        [some 139637976727552, some 139637976731648, none, some 139637976735744] ∧
      ∀ first, first <+: modest → Disciplined (first.foldl Run.step ⟨onePage, []⟩).events :=
  ⟨by decide, (arena_disciplined_iff onePage onePage_mapped modest).mpr
    ⟨Or.inl (by decide), fun _ first => by
      cases first
      refine ⟨Or.inl (by decide), fun _ second => ?_⟩
      cases second
      refine ⟨Or.inr (by decide), fun _ third => ?_⟩
      cases third
      exact ⟨Or.inl (by decide), fun _ _ => trivial⟩⟩⟩

def wrapping : List Request :=
  [⟨64, 64, by decide⟩, ⟨18446744073709551552, 64, by decide⟩, ⟨64, 64, by decide⟩]

def oddPage : HugePageArena := ⟨139637976731648, 2097152, 0⟩

theorem wrapping_blocks_overlap :
    Mapped onePage ∧ (wrapping.foldl Run.step ⟨onePage, []⟩).events.map Event.result =
        [some 139637976727552, some 139637976727616, some 139637976727552] ∧
      ¬ Disciplined (wrapping.foldl Run.step ⟨onePage, []⟩).events ∧
      Mapped oddPage ∧
      ¬ Disciplined (Run.step ⟨oddPage, []⟩ ⟨64, 8192, by decide⟩).events := by
  refine ⟨onePage_mapped, by decide, fun disciplined => ?_, ⟨by decide, by decide, by decide⟩,
    fun disciplined => ?_⟩
  · -- the first and the third block start at the base
    have third : Event.mk ⟨139637976727552, 2097152, 0⟩ ⟨64, 64, by decide⟩ (some 139637976727552)
        ⟨139637976727552, 2097152, 64⟩ ∈ (wrapping.foldl Run.step ⟨onePage, []⟩).events.tail :=
      List.mem_cons_of_mem _ (List.mem_cons_self ..)
    exact List.rel_of_pairwise_cons disciplined.disjoint third 139637976727552
      ⟨_, rfl, by decide, by decide⟩ ⟨_, rfl, by decide, by decide⟩
  · have aligned := disciplined.aligned _ (List.mem_cons_self ..) _ rfl
    exact absurd aligned (by decide)

end HftGrading.Core.Arena
