/- module: HftGrading/Fpga/Sequencer/RoundRobin
   source: fpga/rtl/sequencer_core.sv
   digest: The rotating priority: how far it is from a waiting port, and how many beats pass before that port's. -/

import HftGrading.Lib.RobinHoodTable
import HftGrading.Fpga.Sequencer.TotalOrder

set_option autoImplicit false
set_option relaxedAutoImplicit false

namespace HftGrading.Fpga.Sequencer.RoundRobin

open HftGrading.Lib.RobinHoodTable (step offset step_lt offset_lt offset_add_mod offset_add_offset
  offset_step_left offset_inj)
open SequencerCore
open TotalOrder (filter_accepts crowded)

variable {n ow : Nat} [NeZero n]

def reached (is : List (Inputs n ow)) : Regs n ow := is.foldl Regs.cycle reset

def acceptances : Regs n ow → List (Inputs n ow) → List (Fin n)
  | _, [] => []
  | r, i :: is => (List.finRange n).filter (accepts r i) ++ acceptances (r.cycle i) is

theorem arbitrate_nearest {priority : BitVec (portWidth n)} {valid : Fin n → Bool} {p : Fin n}
    (inside : priority.toNat < n) (waiting : valid p = true) :
    ∃ q : Fin n, valid q = true ∧ arbitrate priority valid = ⟨true, BitVec.ofNat _ q.val⟩ ∧
      offset n priority.toNat q.val ≤ offset n priority.toNat p.val := by
  have at_offset : ∀ k < n, offset n priority.toNat (Fin.ofNat n (priority.toNat + k)).val = k := by
    intro k below
    have same := offset_add_mod inside inside (j := k) (by simpa using below)
    simpa using same
  -- The first pass of the loop comes by every port, each at its offset.
  have there : Fin.ofNat n (priority.toNat + offset n priority.toNat p.val) = p :=
    Fin.ext (offset_inj inside (Fin.isLt _) p.isLt (at_offset _ (offset_lt inside p.isLt)))
  obtain ⟨k, found⟩ : ∃ k, ((List.range n).find? fun k =>
      valid (Fin.ofNat n (priority.toNat + k))) = some k := by
    refine Option.isSome_iff_exists.mp (List.find?_isSome.mpr ?_)
    exact ⟨_, List.mem_range.mpr (offset_lt inside p.isLt), there.symm ▸ waiting⟩
  obtain ⟨here, listed, earlier⟩ := List.find?_range_eq_some.mp found
  refine ⟨Fin.ofNat n (priority.toNat + k), here, ?_, ?_⟩
  · have first : (visits n priority).find? valid = some (Fin.ofNat n (priority.toNat + k)) := by
      rw [visits, List.find?_append, List.find?_map, Function.comp_def, found]
      rfl
    rw [arbitrate, foldl_visit, first]
    rfl
  · rw [at_offset k (List.mem_range.mp listed)]
    by_contra behind
    have missed := earlier _ (Nat.lt_of_not_le behind)
    rw [there, waiting] at missed
    cases missed

theorem nextPriority_granted {r : Regs n ow} {i : Inputs n ow} {q : Fin n} (int : n < 2 ^ 31)
    (granted : grant r i = ⟨true, BitVec.ofNat _ q.val⟩) :
    (nextPriority r i).toNat = step n q.val := by
  have number := toNat_port q
  have fits : n ≤ 2 ^ portWidth n := Nat.le_pow_clog Nat.one_lt_two n
  have small := q.isLt
  have port32 : ((BitVec.ofNat (portWidth n) q.val).setWidth 32).toNat = q.val := by
    rw [BitVec.toNat_setWidth, number]
    exact Nat.mod_eq_of_lt (by omega)
  have last32 : ((BitVec.ofNat (portWidth n) n).setWidth 32 - 1).toNat =
      (4294967295 + n % 2 ^ portWidth n) % 4294967296 := by
    have part := Nat.mod_le n (2 ^ portWidth n)
    have whole : n % 2 ^ portWidth n % 2 ^ 32 = n % 2 ^ portWidth n := Nat.mod_eq_of_lt (by omega)
    rw [BitVec.toNat_sub, BitVec.toNat_setWidth, BitVec.toNat_ofNat, whole]
    rfl
  have succ : (BitVec.ofNat (portWidth n) q.val + 1).toNat = (q.val + 1) % 2 ^ portWidth n := by
    rw [BitVec.toNat_add, number, ← Nat.add_mod_mod q.val 1]
    rfl
  rw [nextPriority, granted]
  simp only [← BitVec.toNat_inj, port32, last32]
  unfold step
  by_cases power : n = 2 ^ portWidth n
  · rw [← power, Nat.mod_self, if_neg (by omega), succ, ← power]
    split_ifs with inner
    · exact Nat.mod_eq_of_lt inner
    · rw [show q.val + 1 = n by omega, Nat.mod_self]
  · rw [Nat.mod_eq_of_lt (by omega : n < 2 ^ portWidth n)]
    by_cases final : q.val + 1 < n
    · rw [if_neg (by omega), if_pos final, succ, Nat.mod_eq_of_lt (by omega)]
    · rw [if_pos (by omega), if_neg final]
      rfl

section Rounds

variable {r : Regs n ow} {i : Inputs n ow} {p : Fin n}

theorem cycle_turns (int : n < 2 ^ 31) :
    (∃ q, sequences r i = true ∧ granted r i = q ∧
        grant r i = ⟨true, BitVec.ofNat _ q.val⟩ ∧ (r.cycle i).rrPriority.toNat = step n q.val) ∨
      (sequences r i = false ∧ (r.cycle i).rrPriority = r.rrPriority) := by
  cases passes : sequences r i with
  | false => exact .inr ⟨rfl, by simp only [Regs.cycle, passes, Bool.false_eq_true, if_false]⟩
  | true =>
    have valid : (grant r i).valid = true := (Bool.and_eq_true_iff.mp passes).1
    rcases arbitrate_spec r.rrPriority (fun p => (i.port p).valid) with ⟨none, -⟩ | ⟨q, -, here⟩
    · exact absurd valid (by rw [grant, none]; decide)
    · have number : granted r i = q := by
        rw [granted, show grant r i = _ from here]
        exact Fin.ext ((congrArg (· % n) (toNat_port q)).trans (Nat.mod_eq_of_lt q.isLt))
      refine .inl ⟨q, rfl, number, here, ?_⟩
      simp only [Regs.cycle, passes, if_true]
      exact nextPriority_granted int here

theorem priority_lt_cycle (int : n < 2 ^ 31) (inside : r.rrPriority.toNat < n) :
    (r.cycle i).rrPriority.toNat < n := by
  rcases cycle_turns (r := r) (i := i) int with ⟨q, -, -, -, next⟩ | ⟨-, same⟩
  · rw [next]
    exact step_lt q.isLt
  · rwa [same]

theorem priority_lt_reached (int : n < 2 ^ 31) (is : List (Inputs n ow)) :
    (reached is).rrPriority.toNat < n := by
  induction is using List.reverseRecOn with
  | nil =>
    show (0 : BitVec (portWidth n)).toNat < n
    exact Nat.pos_of_neZero n
  | append_singleton is i ih =>
    rw [reached, List.foldl_append]
    exact priority_lt_cycle int ih

theorem offset_cycle_lt (int : n < 2 ^ 31) (inside : r.rrPriority.toNat < n)
    (waiting : (i.port p).valid = true) (passes : sequences r i = true) (other : granted r i ≠ p) :
    offset n (r.cycle i).rrPriority.toNat p.val < offset n r.rrPriority.toNat p.val := by
  rcases cycle_turns (r := r) (i := i) int with ⟨q, -, number, here, next⟩ | ⟨quiet, -⟩
  swap
  · exact absurd passes (by rw [quiet]; decide)
  obtain ⟨q', -, here', near⟩ : ∃ q' : Fin n, (i.port q').valid = true ∧
      grant r i = ⟨true, BitVec.ofNat _ q'.val⟩ ∧
        offset n r.rrPriority.toNat q'.val ≤ offset n r.rrPriority.toNat p.val :=
    arbitrate_nearest inside waiting
  have same : q' = q := port_injective (congrArg Grant.port (here'.symm.trans here))
  rw [same] at near
  have apart : q.val ≠ p.val := fun equal => other (number.trans (Fin.ext equal))
  have whole := offset_add_offset inside q.isLt p.isLt near
  have behind := offset_step_left q.isLt p.isLt apart
  rw [next]
  omega

theorem waits_le_offset (int : n < 2 ^ 31) {is : List (Inputs n ow)} {r : Regs n ow}
    (inside : r.rrPriority.toNat < n) (waiting : ∀ i ∈ is, (i.port p).valid = true) :
    ((acceptances r is).takeWhile (· != p)).length ≤ offset n r.rrPriority.toNat p.val := by
  induction is generalizing r with
  | nil => exact Nat.zero_le _
  | cons i is ih =>
    have now := waiting i (List.mem_cons_self ..)
    have later := ih (priority_lt_cycle (i := i) int inside)
      (fun j listed => waiting j (List.mem_cons_of_mem _ listed))
    rw [acceptances, filter_accepts]
    cases passes : sequences r i with
    | false =>
      have still : (r.cycle i).rrPriority = r.rrPriority := by
        simp only [Regs.cycle, passes, Bool.false_eq_true, if_false]
      rw [still] at later
      exact later
    | true =>
      rw [if_pos rfl, List.singleton_append]
      by_cases own : granted r i = p
      · rw [List.takeWhile_cons_of_neg (by simp [own])]
        exact Nat.zero_le _
      · have closer := offset_cycle_lt int inside now passes own
        rw [List.takeWhile_cons_of_pos (by simp [own]), List.length_cons]
        omega

end Rounds

/-- For any number of ports that the parameter can hold, in every state reached from reset: while
a port presents a beat, fewer beats of others pass before it than there are ports. -/
theorem round_robin_is_fair {n ow : Nat} [NeZero n] (int : n < 2 ^ 31) (past is : List (Inputs n ow))
    (p : Fin n) (waiting : ∀ i ∈ is, (i.port p).valid = true) :
    ((acceptances (reached past) is).takeWhile (· != p)).length ≤ n - 1 := by
  have inside := priority_lt_reached int past
  have bound := waits_le_offset int inside waiting
  have ring := offset_lt inside p.isLt
  omega

theorem round_robin_is_fair_three_ports :
    (acceptances (reached [crowded true, crowded true]) [crowded false, crowded true, crowded true,
        crowded true]).takeWhile (· != 1) = [2, 0] ∧
      ((acceptances (reached [crowded true, crowded true]) [crowded false, crowded true, crowded true,
        crowded true]).takeWhile (· != 1)).length ≤ 3 - 1 :=
  ⟨by decide +kernel, round_robin_is_fair (by decide) _ _ 1 (by decide)⟩

end HftGrading.Fpga.Sequencer.RoundRobin
