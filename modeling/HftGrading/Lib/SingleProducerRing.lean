/- module: HftGrading/Lib/SingleProducerRing
   scope: library
   digest: A ring shared by one writer and one reader that act on snapshots of each other. -/

import HftGrading.Lib.CountedRing
import HftGrading.Lib.PartialExecution

set_option autoImplicit false
set_option relaxedAutoImplicit false

namespace HftGrading.Lib.SingleProducerRing

open Function (update)
open CountedRing PartialExecution

universe u v

/-- `pushed` and `popped` are the values published and released so far. The writer has filled
the cells of `written` behind the published positions and may go up to `limit`; the reader has
copied `taken` behind the released positions and may go up to `seen`. -/
structure Ring (I : Type u) (α : Type v) where
  cell : I → α
  pushed : List α
  popped : List α
  written : List α
  limit : Nat
  taken : List α
  seen : Nat

inductive Move (α : Type v)
  | observeReader
  | write (x : α)
  | publish
  | observeWriter
  | read
  | release

variable {I : Type u} {α : Type v}

def Ring.empty (cell : I → α) : Ring I α := ⟨cell, [], [], [], 0, [], 0⟩

section Machine

variable [DecidableEq I] (slot : Nat → I) (size : Nat)

def move (ring : Ring I α) : Move α → Option (Ring I α)
  | .observeReader => some { ring with limit := ring.popped.length + size }
  | .write x =>
    if ring.pushed.length + ring.written.length < ring.limit then
      some { ring with
        cell := update ring.cell (slot (ring.pushed.length + ring.written.length)) x
        written := ring.written ++ [x] }
    else none
  | .publish => some { ring with pushed := ring.pushed ++ ring.written, written := [] }
  | .observeWriter => some { ring with seen := ring.pushed.length }
  | .read =>
    if ring.popped.length + ring.taken.length < ring.seen then
      some { ring with
        taken := ring.taken ++ [ring.cell (slot (ring.popped.length + ring.taken.length))] }
    else none
  | .release => some { ring with popped := ring.popped ++ ring.taken, taken := [] }

end Machine

structure Sound (slot : Nat → I) (size : Nat) (ring : Ring I α) : Prop where
  room : ring.limit ≤ ring.popped.length + size
  filled : ring.pushed.length + ring.written.length ≤ ring.limit
  known : ring.seen ≤ ring.pushed.length
  copied : ring.popped.length + ring.taken.length ≤ ring.seen
  order : ring.popped ++ ring.taken <+: ring.pushed
  cells : window slot ring.cell ring.popped.length (ring.pushed.length + ring.written.length) =
    (ring.pushed ++ ring.written).drop ring.popped.length

theorem sound_empty (slot : Nat → I) (size : Nat) (cell : I → α) :
    Sound slot size (Ring.empty cell) where
  room := Nat.zero_le _
  filled := Nat.le_refl _
  known := Nat.le_refl _
  copied := Nat.le_refl _
  order := List.nil_prefix
  cells := window_self

namespace Sound

variable {slot : Nat → I} {size : Nat} {ring : Ring I α}

theorem cell_eq (sound : Sound slot size ring) {p : Nat} (unread : ring.popped.length ≤ p)
    (present : p < ring.pushed.length + ring.written.length) :
    (ring.pushed ++ ring.written)[p]? = some (ring.cell (slot p)) := by
  have same : ring.popped.length + (p - ring.popped.length) = p := by omega
  have held : (window slot ring.cell ring.popped.length
      (ring.pushed.length + ring.written.length))[p - ring.popped.length]? =
        some (ring.cell (slot (ring.popped.length + (p - ring.popped.length)))) :=
    getElem?_window _ (by omega)
  rwa [sound.cells, List.getElem?_drop, same] at held

theorem cell_pushed (sound : Sound slot size ring) {p : Nat} (unread : ring.popped.length ≤ p)
    (published : p < ring.pushed.length) : ring.pushed[p]? = some (ring.cell (slot p)) := by
  have held := sound.cell_eq unread (by omega)
  rwa [List.getElem?_append_left published] at held

theorem window_unread (sound : Sound slot size ring) :
    window slot ring.cell ring.popped.length ring.pushed.length =
      ring.pushed.drop ring.popped.length := by
  apply List.ext_getElem?
  intro j
  by_cases inside : ring.popped.length + j < ring.pushed.length
  · rw [getElem?_window j inside, List.getElem?_drop,
      sound.cell_pushed (Nat.le_add_right _ j) inside]
  · rw [List.getElem?_eq_none, List.getElem?_eq_none]
    · rw [List.length_drop]
      omega
    · rw [length_window]
      omega

theorem next_write_free (sound : Sound slot size ring) (apart : Apart slot size)
    (more : ring.pushed.length + ring.written.length < ring.limit) {p : Nat}
    (unread : ring.popped.length ≤ p) (published : p < ring.pushed.length) :
    slot p ≠ slot (ring.pushed.length + ring.written.length) := by
  have room := sound.room
  exact apart _ _ (by omega) (by omega)

theorem popped_le (sound : Sound slot size ring) :
    ring.popped.length ≤ ring.pushed.length := by
  have known := sound.known
  have copied := sound.copied
  omega

theorem unread_le (sound : Sound slot size ring) :
    ring.pushed.length - ring.popped.length ≤ size := by
  have room := sound.room
  have filled := sound.filled
  omega

theorem publish (sound : Sound slot size ring) :
    Sound slot size { ring with pushed := ring.pushed ++ ring.written, written := [] } where
  room := sound.room
  filled := by
    rw [List.length_append]
    exact sound.filled
  known := by
    rw [List.length_append]
    exact Nat.le_add_right_of_le sound.known
  copied := sound.copied
  order := sound.order.trans (List.prefix_append _ _)
  cells := by
    rw [List.length_append, List.append_nil, List.length_nil, Nat.add_zero]
    exact sound.cells

theorem read (sound : Sound slot size ring)
    (more : ring.popped.length + ring.taken.length < ring.seen) :
    Sound slot size { ring with
      taken := ring.taken ++ [ring.cell (slot (ring.popped.length + ring.taken.length))] } where
  room := sound.room
  filled := sound.filled
  known := sound.known
  copied := by
    rw [List.length_append, List.length_singleton]
    exact more
  order := by
    have known := sound.known
    have next := sound.cell_pushed (Nat.le_add_right _ ring.taken.length) (by omega)
    obtain ⟨rest, whole⟩ := sound.order
    have here : (ring.popped ++ ring.taken).length = ring.popped.length + ring.taken.length :=
      List.length_append
    rw [← whole, ← here, List.getElem?_append_right (Nat.le_refl _), Nat.sub_self] at next
    cases rest with
    | nil => cases next
    | cons y rest =>
      cases next
      rw [here] at whole
      exact ⟨rest, by rw [← whole]; simp⟩
  cells := sound.cells

theorem release (sound : Sound slot size ring) :
    Sound slot size { ring with popped := ring.popped ++ ring.taken, taken := [] } where
  room := by
    rw [List.length_append, Nat.add_right_comm]
    exact Nat.le_add_right_of_le sound.room
  filled := sound.filled
  known := sound.known
  copied := by
    rw [List.length_append]
    exact sound.copied
  order := by
    rw [List.append_nil]
    exact sound.order
  cells := by
    rw [List.length_append, window_drop, sound.cells, List.drop_drop]

variable [DecidableEq I]

theorem write (sound : Sound slot size ring) (apart : Apart slot size) (x : α)
    (more : ring.pushed.length + ring.written.length < ring.limit) :
    Sound slot size { ring with
      cell := update ring.cell (slot (ring.pushed.length + ring.written.length)) x
      written := ring.written ++ [x] } where
  room := sound.room
  filled := by
    rw [List.length_append, List.length_singleton]
    exact more
  known := sound.known
  copied := sound.copied
  order := sound.order
  cells := by
    have room := sound.room
    have behind := sound.popped_le
    have present : ring.popped.length ≤ (ring.pushed ++ ring.written).length := by
      rw [List.length_append]
      omega
    have grown : window slot
        (update ring.cell (slot (ring.pushed.length + ring.written.length)) x) ring.popped.length
        (ring.pushed.length + ring.written.length + 1) =
          window slot ring.cell ring.popped.length
            (ring.pushed.length + ring.written.length) ++ [x] :=
      window_push apart (by omega) (by omega) x
    rw [sound.cells, ← List.drop_append_of_le_length present, List.append_assoc] at grown
    rw [List.length_append, List.length_singleton, ← Nat.add_assoc]
    exact grown

theorem move (sound : Sound slot size ring) (apart : Apart slot size) {step : Move α}
    {next : Ring I α} (moves : SingleProducerRing.move slot size ring step = some next) :
    Sound slot size next := by
  cases step with
  | observeReader =>
    cases moves
    exact { sound with room := Nat.le_refl _, filled := sound.filled.trans sound.room }
  | write x =>
    simp only [SingleProducerRing.move, Option.ite_none_right_eq_some] at moves
    obtain ⟨more, made⟩ := moves
    cases made
    exact sound.write apart x more
  | publish =>
    cases moves
    exact sound.publish
  | observeWriter =>
    cases moves
    exact { sound with known := Nat.le_refl _, copied := sound.copied.trans sound.known }
  | read =>
    simp only [SingleProducerRing.move, Option.ite_none_right_eq_some] at moves
    obtain ⟨more, made⟩ := moves
    cases made
    exact sound.read more
  | release =>
    cases moves
    exact sound.release

theorem run (sound : Sound slot size ring) (apart : Apart slot size) {steps : List (Move α)}
    {last : Ring I α}
    (runs : PartialExecution.run (SingleProducerRing.move slot size) ring steps = some last) :
    Sound slot size last :=
  run_keeps (fun _ _ _ inv _ moves => inv.move apart moves) sound
    (obeys_of_forall (fun _ _ => trivial) ring steps) runs

end Sound

end HftGrading.Lib.SingleProducerRing
