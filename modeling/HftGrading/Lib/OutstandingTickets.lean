/- module: HftGrading/Lib/OutstandingTickets
   scope: library
   digest: Owners with at most one ticket each, and the queue of all tickets that are out. -/

import Mathlib.Data.List.Nodup
import Mathlib.Data.List.Range
import Mathlib.Data.List.Perm.Basic

set_option autoImplicit false
set_option relaxedAutoImplicit false

namespace HftGrading.Lib.OutstandingTickets

open Function (update)
open scoped List

universe u v

section Updates

variable {ι : Type u} {τ : Type v} [DecidableEq ι]

theorem filterMap_update_perm {l : List ι} (distinct : l.Nodup) {j : ι} (listed : j ∈ l)
    (f : ι → Option τ) (o : Option τ) :
    l.filterMap (update f j o) ~ o.toList ++ (l.erase j).filterMap f := by
  have others : (l.erase j).filterMap (update f j o) = (l.erase j).filterMap f := by
    apply List.filterMap_congr
    intro i rest
    exact Function.update_of_ne (distinct.mem_erase_iff.mp rest).1 _ _
  have moved := (List.perm_cons_erase listed).filterMap (update f j o)
  rw [List.filterMap_cons, Function.update_self, others] at moved
  cases o with
  | none => exact moved
  | some t => exact moved

theorem length_filterMap_update {l : List ι} (distinct : l.Nodup) {j : ι} (listed : j ∈ l)
    (f : ι → Option τ) (o : Option τ) :
    (l.filterMap (update f j o)).length + (f j).toList.length =
      (l.filterMap f).length + o.toList.length := by
  have new := (filterMap_update_perm distinct listed f o).length_eq
  have old := (filterMap_update_perm distinct listed f (f j)).length_eq
  rw [Function.update_eq_self] at old
  rw [new, old, List.length_append, List.length_append]
  omega

theorem filterMap_update_some {l : List ι} (distinct : l.Nodup) {j : ι} (listed : j ∈ l)
    {f : ι → Option τ} (free : f j = none) (t : τ) :
    l.filterMap (update f j (some t)) ~ t :: l.filterMap f := by
  have old := filterMap_update_perm distinct listed f (f j)
  rw [Function.update_eq_self, free] at old
  exact (filterMap_update_perm distinct listed f (some t)).trans (old.symm.cons t)

theorem filterMap_update_none {l : List ι} (distinct : l.Nodup) {j : ι} (listed : j ∈ l)
    {f : ι → Option τ} {t : τ} (has : f j = some t) :
    l.filterMap f ~ t :: l.filterMap (update f j none) := by
  have old := filterMap_update_perm distinct listed f (f j)
  rw [Function.update_eq_self, has] at old
  exact old.trans ((filterMap_update_perm distinct listed f none).symm.cons t)

end Updates

section Custody

variable {τ : Type v} {n : Nat} {slot : Nat → Option τ} {issued returned : List τ} {j : Nat} {t : τ}

def Custody (n : Nat) (slot : Nat → Option τ) (issued returned : List τ) : Prop :=
  (List.range n).filterMap slot ++ returned ~ issued

theorem custody_nothing (free : ∀ i, i < n → slot i = none) : Custody n slot [] [] := by
  rw [Custody, List.filterMap_eq_nil_iff.mpr fun i listed => free i (List.mem_range.mp listed)]
  exact List.Perm.nil

theorem Custody.issue (custody : Custody n slot issued returned) (below : j < n)
    (free : slot j = none) (t : τ) :
    Custody n (update slot j (some t)) (issued ++ [t]) returned :=
  calc (List.range n).filterMap (update slot j (some t)) ++ returned
      ~ t :: (List.range n).filterMap slot ++ returned :=
        (filterMap_update_some List.nodup_range (List.mem_range.mpr below) free t).append_right _
    _ ~ t :: issued := List.Perm.cons t custody
    _ ~ issued ++ [t] := (List.perm_append_singleton t issued).symm

theorem Custody.giveBack (custody : Custody n slot issued returned) (below : j < n)
    (has : slot j = some t) : Custody n (update slot j none) issued (returned ++ [t]) := by
  have split := filterMap_update_none List.nodup_range (List.mem_range.mpr below) has
  calc (List.range n).filterMap (update slot j none) ++ (returned ++ [t])
      ~ t :: ((List.range n).filterMap (update slot j none) ++ returned) := by
        rw [← List.append_assoc]
        exact List.perm_append_singleton t _
    _ ~ (List.range n).filterMap slot ++ returned := (split.symm.append_right returned)
    _ ~ issued := custody

theorem Custody.out (custody : Custody n slot issued returned) (distinct : issued.Nodup)
    (below : j < n) (has : slot j = some t) : t ∈ issued ∧ t ∉ returned := by
  have held : t ∈ (List.range n).filterMap slot :=
    List.mem_filterMap.mpr ⟨j, List.mem_range.mpr below, has⟩
  refine ⟨custody.subset (List.mem_append_left _ held), fun back => ?_⟩
  have apart := (List.nodup_append.mp (custody.nodup_iff.mpr distinct)).2.2
  exact apart t held t back rfl

end Custody

variable {τ : Type v}

/-- Every owner below `n` has at most one ticket, its own, and the queue holds them all. -/
structure Covers (key : τ → Nat) (n : Nat) (due : Nat → Option τ) (queue : List τ) : Prop where
  perm : queue ~ (List.range n).filterMap due
  own : ∀ i t, i < n → due i = some t → key t = i

namespace Covers

variable {key : τ → Nat} {n : Nat} {due : Nat → Option τ} {queue : List τ}

theorem nothing (free : ∀ i, i < n → due i = none) : Covers key n due [] where
  perm := by
    rw [List.filterMap_eq_nil_iff.mpr fun i listed => free i (List.mem_range.mp listed)]
  own := by
    intro i t owner has
    rw [free i owner] at has
    cases has

theorem issue (covers : Covers key n due queue) {j : Nat} (below : j < n) (free : due j = none)
    {t : τ} (mine : key t = j) : Covers key n (update due j (some t)) (queue ++ [t]) where
  perm := by
    have new := filterMap_update_some List.nodup_range (List.mem_range.mpr below) free t
    calc queue ++ [t] ~ t :: queue := List.perm_append_singleton t queue
      _ ~ t :: (List.range n).filterMap due := covers.perm.cons t
      _ ~ (List.range n).filterMap (update due j (some t)) := new.symm
  own := by
    intro i s owner has
    by_cases same : i = j
    · rw [same, Function.update_self] at has
      cases has
      rw [mine, same]
    · rw [Function.update_of_ne same] at has
      exact covers.own i s owner has

theorem front {t : τ} (covers : Covers key n due (t :: queue)) :
    key t < n ∧ due (key t) = some t := by
  have listed : t ∈ (List.range n).filterMap due := covers.perm.subset (List.mem_cons_self ..)
  obtain ⟨i, below, has⟩ := List.mem_filterMap.mp listed
  rw [covers.own i t (List.mem_range.mp below) has]
  exact ⟨List.mem_range.mp below, has⟩

theorem settle {t : τ} (covers : Covers key n due (t :: queue)) :
    Covers key n (update due (key t) none) queue where
  perm := by
    obtain ⟨owner, has⟩ := covers.front
    have rest := filterMap_update_none List.nodup_range (List.mem_range.mpr owner) has
    exact (covers.perm.trans rest).cons_inv
  own := by
    intro i s owner has
    by_cases same : i = key t
    · rw [same, Function.update_self] at has
      cases has
    · rw [Function.update_of_ne same] at has
      exact covers.own i s owner has

theorem count (covers : Covers key n due queue) {i : Nat} (owner : i < n) :
    queue.countP (fun t => key t == i) = (due i).toList.length := by
  have split := filterMap_update_perm List.nodup_range (List.mem_range.mpr owner) due (due i)
  rw [Function.update_eq_self] at split
  have others : (((List.range n).erase i).filterMap due).countP (fun t => key t == i) = 0 := by
    rw [List.countP_eq_zero]
    intro t listed same
    obtain ⟨j, rest, has⟩ := List.mem_filterMap.mp listed
    rw [beq_iff_eq, covers.own j t (List.mem_range.mp (List.mem_of_mem_erase rest)) has] at same
    exact (List.nodup_range.mem_erase_iff.mp rest).1 same
  have mine : (due i).toList.countP (fun t => key t == i) = (due i).toList.length := by
    rw [List.countP_eq_length]
    intro t listed
    rw [beq_iff_eq]
    exact covers.own i t owner (Option.mem_toList.mp listed)
  rw [(covers.perm.trans split).countP_eq, List.countP_append, others, mine, Nat.add_zero]

end Covers

end HftGrading.Lib.OutstandingTickets
