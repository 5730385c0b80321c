/- module: HftGrading/Lib/IntrusiveList
   scope: library
   digest: Doubly linked lists threaded through two link fields: walking, appending and unlinking. -/

import Mathlib.Data.List.Nodup

set_option autoImplicit false
set_option relaxedAutoImplicit false

namespace HftGrading.Lib.IntrusiveList

universe u

variable {ι : Type u}

/-- The links of `l` agree in both directions: the first cell points back to
`before`, the last one on to `after`. -/
def Linked (next prev : ι → ι) (before : ι) : List ι → ι → Prop
  | [], _ => True
  | i :: l, after => prev i = before ∧ next i = l.headD after ∧ Linked next prev i l after

/-- Follow `next` from a cell for at most `n` cells. -/
def walk [DecidableEq ι] (next : ι → ι) (null : ι) : Nat → ι → List ι
  | 0, _ => []
  | n + 1, i => if i = null then [] else i :: walk next null n (next i)

theorem headD_append (l₁ l₂ : List ι) (after : ι) :
    (l₁ ++ l₂).headD after = l₁.headD (l₂.headD after) := by
  cases l₁ <;> rfl

theorem getLastD_append (l₁ l₂ : List ι) (before : ι) :
    (l₁ ++ l₂).getLastD before = l₂.getLastD (l₁.getLastD before) := by
  induction l₁ generalizing before with
  | nil => rfl
  | cons i l ih => rw [List.cons_append, List.getLastD_cons, List.getLastD_cons, ih]

theorem getLastD_mem {l : List ι} (nonempty : l ≠ []) (before : ι) : l.getLastD before ∈ l := by
  cases l with
  | nil => exact absurd rfl nonempty
  | cons i l =>
    rw [List.getLastD_cons]
    exact List.getLastD_mem_cons

section Linked

variable {next prev next' prev' : ι → ι} {before after : ι} {l l₁ l₂ : List ι}

theorem Linked.congr (linked : Linked next prev before l after)
    (same_next : ∀ i ∈ l, next' i = next i) (same_prev : ∀ i ∈ l, prev' i = prev i) :
    Linked next' prev' before l after := by
  induction l generalizing before with
  | nil => trivial
  | cons i l ih =>
    obtain ⟨back, forth, rest⟩ := linked
    refine ⟨?_, ?_, ih rest ?_ ?_⟩
    · rw [same_prev i (by simp), back]
    · rw [same_next i (by simp), forth]
    · exact fun j hj => same_next j (List.mem_cons_of_mem i hj)
    · exact fun j hj => same_prev j (List.mem_cons_of_mem i hj)

theorem linked_append : Linked next prev before (l₁ ++ l₂) after ↔
    Linked next prev before l₁ (l₂.headD after) ∧
      Linked next prev (l₁.getLastD before) l₂ after := by
  induction l₁ generalizing before with
  | nil => simp [Linked]
  | cons i l ih =>
    simp only [List.cons_append, Linked, headD_append, List.getLastD_cons, ih, and_assoc]

theorem Linked.exit {exit : ι} (linked : Linked next prev before l after) (nodup : l.Nodup)
    (same_prev : ∀ i ∈ l, prev' i = prev i)
    (last : ∀ i ∈ l, i = l.getLastD before → next' i = exit)
    (other : ∀ i ∈ l, i ≠ l.getLastD before → next' i = next i) :
    Linked next' prev' before l exit := by
  induction l generalizing before with
  | nil => trivial
  | cons i l ih =>
    obtain ⟨back, forth, rest⟩ := linked
    obtain ⟨fresh, nodup⟩ := List.nodup_cons.mp nodup
    rw [List.getLastD_cons] at last other
    refine ⟨?_, ?_, ih rest nodup ?_ ?_ ?_⟩
    · rw [same_prev i (by simp), back]
    · cases l with
      | nil => exact last i (by simp) rfl
      | cons j l =>
        have inner : i ≠ (j :: l).getLastD i := by
          intro same
          apply fresh
          rw [same]
          exact getLastD_mem (by simp) i
        rw [other i (by simp) inner, forth]
        rfl
    · exact fun j hj => same_prev j (List.mem_cons_of_mem i hj)
    · exact fun j hj => last j (List.mem_cons_of_mem i hj)
    · exact fun j hj => other j (List.mem_cons_of_mem i hj)

theorem Linked.entry {entry : ι} (linked : Linked next prev before l after) (nodup : l.Nodup)
    (same_next : ∀ i ∈ l, next' i = next i)
    (first : ∀ i ∈ l, i = l.headD after → prev' i = entry)
    (other : ∀ i ∈ l, i ≠ l.headD after → prev' i = prev i) :
    Linked next' prev' entry l after := by
  cases l with
  | nil => trivial
  | cons i l =>
    obtain ⟨-, forth, rest⟩ := linked
    refine ⟨first i (by simp) rfl, ?_, rest.congr ?_ ?_⟩
    · rw [same_next i (by simp), forth]
    · exact fun j hj => same_next j (List.mem_cons_of_mem i hj)
    · intro j hj
      apply other j (List.mem_cons_of_mem i hj)
      rintro rfl
      exact (List.nodup_cons.mp nodup).1 hj

theorem Linked.append {x null : ι} (linked : Linked next prev null l null) (nodup : l.Nodup)
    (same_prev : ∀ i ∈ l, prev' i = prev i)
    (last : ∀ i ∈ l, i = l.getLastD null → next' i = x)
    (other : ∀ i ∈ l, i ≠ l.getLastD null → next' i = next i)
    (back : prev' x = l.getLastD null) (forth : next' x = null) :
    Linked next' prev' null (l ++ [x]) null :=
  linked_append.mpr ⟨linked.exit nodup same_prev last other, back, forth, trivial⟩

theorem Linked.prev_eq {x : ι} (linked : Linked next prev before (l₁ ++ x :: l₂) after) :
    prev x = l₁.getLastD before :=
  (linked_append.mp linked).2.1

theorem Linked.next_eq {x : ι} (linked : Linked next prev before (l₁ ++ x :: l₂) after) :
    next x = l₂.headD after :=
  (linked_append.mp linked).2.2.1

theorem Linked.ends (linked : Linked next prev before l after) (nonempty : l ≠ []) (d : ι) :
    prev (l.headD d) = before ∧ next (l.getLastD d) = after := by
  cases l with
  | nil => exact absurd rfl nonempty
  | cons i l =>
    refine ⟨linked.1, ?_⟩
    rw [List.getLastD_cons]
    induction l generalizing before i with
    | nil => exact linked.2.1
    | cons j l ih =>
      rw [List.getLastD_cons]
      exact ih j linked.2.2 (by simp)

theorem Linked.unlink {x null : ι} (linked : Linked next prev null (l₁ ++ x :: l₂) null)
    (nodup : (l₁ ++ x :: l₂).Nodup) (real : ∀ i ∈ l₁ ++ l₂, i ≠ null)
    (left : ∀ i ∈ l₁ ++ l₂, i = prev x → next' i = next x)
    (other_next : ∀ i ∈ l₁ ++ l₂, i ≠ prev x → next' i = next i)
    (right : ∀ i ∈ l₁ ++ l₂, i = next x → prev' i = prev x)
    (other_prev : ∀ i ∈ l₁ ++ l₂, i ≠ next x → prev' i = prev i) :
    Linked next' prev' null (l₁ ++ l₂) null := by
  rw [linked.prev_eq] at left other_next right
  rw [linked.next_eq] at left right other_prev
  obtain ⟨front, -, -, back⟩ := linked_append.mp linked
  obtain ⟨nodup₁, nodup₂, apart⟩ := List.nodup_append.mp nodup
  have nodup₂ := (List.nodup_cons.mp nodup₂).2
  have apart : ∀ i ∈ l₁, ∀ j ∈ l₂, i ≠ j := fun i hi j hj =>
    apart i hi j (List.mem_cons_of_mem x hj)
  have mem₁ : ∀ i ∈ l₁, i ∈ l₁ ++ l₂ := fun i hi => List.mem_append_left l₂ hi
  have mem₂ : ∀ i ∈ l₂, i ∈ l₁ ++ l₂ := fun i hi => List.mem_append_right l₁ hi
  -- The neighbour on either side is the end of its own segment, or no cell at all.
  have off_front : ∀ i ∈ l₂, i ≠ l₁.getLastD null := by
    intro i hi same
    cases l₁ with
    | nil => exact real i (mem₂ i hi) same
    | cons j l => exact apart _ (getLastD_mem (by simp) null) i hi same.symm
  have off_back : ∀ i ∈ l₁, i ≠ l₂.headD null := by
    intro i hi same
    cases l₂ with
    | nil => exact real i (mem₁ i hi) same
    | cons j l => exact apart i hi j (by simp) same
  refine linked_append.mpr ⟨front.exit nodup₁ ?_ ?_ ?_, back.entry nodup₂ ?_ ?_ ?_⟩
  · exact fun i hi => other_prev i (mem₁ i hi) (off_back i hi)
  · exact fun i hi => left i (mem₁ i hi)
  · exact fun i hi => other_next i (mem₁ i hi)
  · exact fun i hi => other_next i (mem₂ i hi) (off_front i hi)
  · exact fun i hi => right i (mem₂ i hi)
  · exact fun i hi => other_prev i (mem₂ i hi)

theorem Linked.prev_next {i : ι} (linked : Linked next prev before l after) (hi : i ∈ l)
    (inner : next i ≠ after) : next i ∈ l ∧ prev (next i) = i := by
  obtain ⟨l₁, l₂, rfl⟩ := List.append_of_mem hi
  have forth := linked.next_eq
  cases l₂ with
  | nil => exact absurd forth inner
  | cons j l₂ =>
    simp only [List.headD_cons] at forth
    obtain ⟨-, -, -, back, -⟩ := linked_append.mp linked
    exact ⟨by simp [forth], by rw [forth, back]⟩

theorem Linked.walk_eq [DecidableEq ι] (linked : Linked next prev before l after)
    (real : ∀ i ∈ l, i ≠ after) : walk next after l.length (l.headD after) = l := by
  induction l generalizing before with
  | nil => rfl
  | cons i l ih =>
    obtain ⟨-, forth, rest⟩ := linked
    simp only [List.length_cons, walk, List.headD_cons, if_neg (real i (by simp))]
    rw [forth, ih rest (fun j hj => real j (List.mem_cons_of_mem i hj))]

end Linked

end HftGrading.Lib.IntrusiveList
