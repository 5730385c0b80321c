/- module: HftGrading/Lib/ProbeWindow
   scope: library
   digest: Tables probed along a window of slots, with an empty key and a value for deleted entries. -/

import Mathlib.Logic.Function.Basic
import Mathlib.Tactic.SplitIfs

set_option autoImplicit false
set_option relaxedAutoImplicit false

namespace HftGrading.Lib.ProbeWindow

open Function (update)

universe u v

structure Cells (K : Type u) (V : Type v) where
  keys : Nat → K
  vals : Nat → V

variable {K : Type u} {V : Type v}

def Cells.write (t : Cells K V) (s : Nat) (k : K) (v : V) : Cells K V :=
  ⟨update t.keys s k, update t.vals s v⟩

@[simp] theorem Cells.write_keys (t : Cells K V) (s : Nat) (k : K) (v : V) (a : Nat) :
    (t.write s k v).keys a = if a = s then k else t.keys a :=
  Function.update_apply _ _ _ _

@[simp] theorem Cells.write_vals (t : Cells K V) (s : Nat) (k : K) (v : V) (a : Nat) :
    (t.write s k v).vals a = if a = s then v else t.vals a :=
  Function.update_apply _ _ _ _

section Operations

variable [DecidableEq K] [DecidableEq V] (empty : K) (gone : V)

/-- Write into the first slot of the window that is empty or deleted, if any. -/
def insert (t : Cells K V) (k : K) (v : V) : List Nat → Cells K V
  | [] => t
  | s :: rest =>
    if t.keys s = empty ∨ t.vals s = gone then t.write s k v
    else insert t k v rest

def lookup (t : Cells K V) (k : K) : List Nat → V
  | [] => gone
  | s :: rest =>
    if t.keys s = k ∧ t.vals s ≠ gone then t.vals s
    else if t.keys s = empty then gone
    else lookup t k rest

def remove (t : Cells K V) (k : K) : List Nat → Cells K V
  | [] => t
  | s :: rest =>
    if t.keys s = k then { t with vals := update t.vals s gone }
    else if t.keys s = empty then t
    else remove t k rest

end Operations

def Reaches (empty : K) (t : Cells K V) (k : K) (v : V) : List Nat → Prop
  | [] => False
  | s :: rest =>
    (t.keys s = k ∧ t.vals s = v) ∨
      (t.keys s ≠ empty ∧ t.keys s ≠ k ∧ Reaches empty t k v rest)

variable {empty : K} {gone : V} {t : Cells K V} {k k' : K} {v v' : V} {w w' : List Nat}

theorem Reaches.key_mem (reaches : Reaches empty t k v w) : ∃ s ∈ w, t.keys s = k := by
  induction w with
  | nil => exact reaches.elim
  | cons s rest ih =>
    rcases reaches with ⟨key, -⟩ | ⟨-, -, further⟩
    · exact ⟨s, List.mem_cons_self, key⟩
    · obtain ⟨s', hs', key⟩ := ih further
      exact ⟨s', List.mem_cons_of_mem s hs', key⟩

variable [DecidableEq K]

theorem remove_keys (w : List Nat) : (remove empty gone t k w).keys = t.keys := by
  induction w with
  | nil => rfl
  | cons s rest ih =>
    rw [remove]
    split_ifs
    · rfl
    · rfl
    · exact ih

theorem remove_vals (w : List Nat) {s : Nat} (other : t.keys s ≠ k) :
    (remove empty gone t k w).vals s = t.vals s := by
  induction w with
  | nil => rfl
  | cons a rest ih =>
    rw [remove]
    split_ifs with key
    · have apart : s ≠ a := by
        rintro rfl
        exact other key
      exact Function.update_of_ne apart _ _
    · rfl
    · exact ih

theorem remove_vals_or (w : List Nat) (s : Nat) :
    (remove empty gone t k w).vals s = t.vals s ∨ (remove empty gone t k w).vals s = gone := by
  induction w with
  | nil => exact Or.inl rfl
  | cons a rest ih =>
    rw [remove]
    split_ifs
    · by_cases here : s = a
      · subst here
        exact Or.inr (Function.update_self _ _ _)
      · exact Or.inl (Function.update_of_ne here _ _)
    · exact Or.inl rfl
    · exact ih

theorem remove_keeps (w : List Nat) (other : k' ≠ k) (reaches : Reaches empty t k' v' w') :
    Reaches empty (remove empty gone t k w) k' v' w' := by
  induction w' with
  | nil => exact reaches.elim
  | cons s rest ih =>
    rcases reaches with ⟨key, val⟩ | ⟨hold, apart, further⟩
    · refine Or.inl ⟨by rwa [remove_keys], ?_⟩
      rwa [remove_vals w (key ▸ other)]
    · exact Or.inr ⟨by rwa [remove_keys], by rwa [remove_keys], ih further⟩

variable [DecidableEq V]

theorem lookup_of_reaches (live : v ≠ gone) (reaches : Reaches empty t k v w) :
    lookup empty gone t k w = v := by
  induction w with
  | nil => exact reaches.elim
  | cons s rest ih =>
    rcases reaches with ⟨key, val⟩ | ⟨filled, other, further⟩
    · rw [lookup, if_pos ⟨key, val ▸ live⟩, val]
    · rw [lookup, if_neg (fun h => other h.1), if_neg filled]
      exact ih further

theorem lookup_found (live : lookup empty gone t k w ≠ gone) :
    ∃ s ∈ w, t.keys s = k ∧ t.vals s = lookup empty gone t k w := by
  induction w with
  | nil => exact absurd rfl live
  | cons s rest ih =>
    rw [lookup] at live ⊢
    split_ifs at live ⊢ with here
    · exact ⟨s, List.mem_cons_self, here.1, rfl⟩
    · exact absurd rfl live
    · obtain ⟨s', member, found⟩ := ih live
      exact ⟨s', List.mem_cons_of_mem s member, found⟩

theorem insert_eq (w : List Nat) : insert empty gone t k v w = t ∨
    ∃ s ∈ w, (t.keys s = empty ∨ t.vals s = gone) ∧
      insert empty gone t k v w = t.write s k v := by
  induction w with
  | nil => exact Or.inl rfl
  | cons s rest ih =>
    rw [insert]
    split_ifs with free
    · exact Or.inr ⟨s, List.mem_cons_self, free, rfl⟩
    · rcases ih with same | ⟨s', hs', free', written⟩
      · exact Or.inl same
      · exact Or.inr ⟨s', List.mem_cons_of_mem s hs', free', written⟩

theorem insert_cell (w : List Nat) (s : Nat) :
    ((insert empty gone t k v w).keys s = t.keys s ∧
        (insert empty gone t k v w).vals s = t.vals s) ∨
      ((insert empty gone t k v w).keys s = k ∧ (insert empty gone t k v w).vals s = v) := by
  rcases (insert_eq w : insert empty gone t k v w = t ∨ _) with same | ⟨s', -, -, written⟩
  · exact Or.inl (by rw [same]; exact ⟨rfl, rfl⟩)
  · rw [written, Cells.write_keys, Cells.write_vals]
    split_ifs
    · exact Or.inr ⟨rfl, rfl⟩
    · exact Or.inl ⟨rfl, rfl⟩

theorem insert_reaches (fresh : ∀ s, t.keys s ≠ k)
    (room : ∃ s ∈ w, t.keys s = empty ∨ t.vals s = gone) :
    Reaches empty (insert empty gone t k v w) k v w := by
  -- The slots passed over are filled and hold other keys; the write goes elsewhere.
  induction w with
  | nil =>
    obtain ⟨s, hs, -⟩ := room
    cases hs
  | cons s rest ih =>
    by_cases free : t.keys s = empty ∨ t.vals s = gone
    · rw [insert, if_pos free]
      exact Or.inl (by simp)
    · have further : ∃ s' ∈ rest, t.keys s' = empty ∨ t.vals s' = gone := by
        obtain ⟨s', hs', free'⟩ := room
        rcases List.mem_cons.mp hs' with rfl | hs'
        · exact absurd free' free
        · exact ⟨s', hs', free'⟩
      rw [insert, if_neg free]
      have kept : (insert empty gone t k v rest).keys s = t.keys s := by
        rcases (insert_eq rest : insert empty gone t k v rest = t ∨ _) with same | ⟨s', -, free', written⟩
        · rw [same]
        · have other : s ≠ s' := by
            rintro rfl
            exact free free'
          rw [written, Cells.write_keys, if_neg other]
      refine Or.inr ⟨?_, ?_, ih further⟩
      · rw [kept]
        exact fun h => free (Or.inl h)
      · rw [kept]
        exact fresh s

theorem insert_keeps (w : List Nat) (filled : k ≠ empty) (filled' : k' ≠ empty) (live : v' ≠ gone)
    (other : k' ≠ k) (reaches : Reaches empty t k' v' w') :
    Reaches empty (insert empty gone t k v w) k' v' w' := by
  rcases (insert_eq w : insert empty gone t k v w = t ∨ _) with same | ⟨s, -, free, written⟩
  · rwa [same]
  rw [written]
  induction w' with
  | nil => exact reaches.elim
  | cons a rest ih =>
    rw [Reaches, Cells.write_keys, Cells.write_vals]
    split_ifs with e
    · subst e
      rcases reaches with ⟨key, val⟩ | ⟨-, -, further⟩
      · -- The slot written was no live entry of another key.
        exfalso
        rcases free with none | none
        · exact filled' (key.symm.trans none)
        · exact live (val.symm.trans none)
      · exact Or.inr ⟨filled, other.symm, ih further⟩
    · rcases reaches with here | ⟨hold, apart, further⟩
      · exact Or.inl here
      · exact Or.inr ⟨hold, apart, ih further⟩

end HftGrading.Lib.ProbeWindow
