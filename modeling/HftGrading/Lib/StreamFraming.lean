/- module: HftGrading/Lib/StreamFraming
   scope: library
   digest: Streams cut into messages whose first element announces the length, and into blocks of one length. -/

import Mathlib.Algebra.Order.BigOperators.Group.List
import Mathlib.Algebra.Order.Group.Nat
import Mathlib.Algebra.Ring.Nat

set_option autoImplicit false
set_option relaxedAutoImplicit false

namespace HftGrading.Lib.StreamFraming

universe u

variable {α : Type u}

theorem eq_of_sum_le {β : Type u} {part bound : β → Nat} {row : List β}
    (within : ∀ x ∈ row, part x ≤ bound x) (total : (row.map bound).sum ≤ (row.map part).sum) :
    ∀ x ∈ row, part x = bound x := by
  induction row with
  | nil => exact fun x none => absurd none List.not_mem_nil
  | cons y row ih =>
    have within' : ∀ x ∈ row, part x ≤ bound x :=
      fun x later => within x (List.mem_cons_of_mem _ later)
    have rest := List.sum_le_sum within'
    have here := within y (List.mem_cons_self ..)
    simp only [List.map_cons, List.sum_cons] at total
    intro x listed
    rcases List.mem_cons.mp listed with rfl | later
    · omega
    · exact ih within' (by omega) x later

section Announced

variable (size : α → Nat)

def cut : Nat → List α → List (List α)
  | 0, _ => []
  | _ + 1, [] => []
  | fuel + 1, x :: xs =>
    if size x = 0 ∨ xs.length + 1 < size x then []
    else (x :: xs).take (size x) :: cut fuel ((x :: xs).drop (size x))

def frames (stream : List α) : List (List α) := cut size stream.length stream

def Framed (message : List α) : Prop := ∃ x xs, message = x :: xs ∧ message.length = size x

variable {size}

theorem cut_eq_frames {fuel : Nat} {stream : List α} (enough : stream.length ≤ fuel) :
    cut size fuel stream = frames size stream := by
  suffices same : ∀ (fuel fuel' : Nat) (stream : List α), stream.length ≤ fuel →
      stream.length ≤ fuel' → cut size fuel stream = cut size fuel' stream from
    same fuel stream.length stream enough (Nat.le_refl _)
  intro fuel
  induction fuel with
  | zero =>
    intro fuel' stream enough _
    obtain rfl := List.length_eq_zero_iff.mp (Nat.le_zero.mp enough)
    cases fuel' <;> rfl
  | succ fuel ih =>
    intro fuel' stream enough enough'
    cases stream with
    | nil => cases fuel' <;> rfl
    | cons x xs =>
      cases fuel' with
      | zero => simp at enough'
      | succ fuel' =>
        simp only [List.length_cons] at enough enough'
        simp only [cut]
        split
        · rfl
        · rw [ih fuel' _ (by rw [List.length_drop, List.length_cons]; omega)
            (by rw [List.length_drop, List.length_cons]; omega)]

theorem frames_cons {x : α} {xs : List α} (some : size x ≠ 0) (whole : size x ≤ xs.length + 1) :
    frames size (x :: xs) =
      (x :: xs).take (size x) :: frames size ((x :: xs).drop (size x)) := by
  have go : ¬ (size x = 0 ∨ xs.length + 1 < size x) := by omega
  have fewer : ((x :: xs).drop (size x)).length ≤ xs.length := by
    rw [List.length_drop, List.length_cons]
    omega
  rw [frames, List.length_cons, cut, if_neg go, cut_eq_frames fewer]

theorem frames_append {message : List α} (framed : Framed size message) (rest : List α) :
    frames size (message ++ rest) = message :: frames size rest := by
  obtain ⟨x, xs, rfl, len⟩ := framed
  rw [List.length_cons] at len
  rw [List.cons_append, frames_cons (by omega) (by rw [List.length_append]; omega),
    ← List.cons_append, ← len, List.take_left' (by simp), List.drop_left' (by simp)]

theorem frames_append_of_whole {x : α} {xs : List α} (some : size x ≠ 0)
    (whole : size x ≤ xs.length + 1) (later : List α) :
    frames size ((x :: xs) ++ later) =
      (x :: xs).take (size x) :: frames size ((x :: xs).drop (size x) ++ later) := by
  have fits : size x ≤ (x :: xs).length := whole
  rw [List.cons_append, frames_cons some (by rw [List.length_append]; omega), ← List.cons_append,
    List.take_append_of_le_length fits, List.drop_append_of_le_length fits]

theorem frames_eq_nil_iff {x : α} {xs : List α} :
    frames size (x :: xs) = [] ↔ size x = 0 ∨ xs.length + 1 < size x := by
  constructor
  · intro none
    by_contra more
    rw [not_or, Nat.not_lt] at more
    rw [frames_cons more.1 more.2] at none
    cases none
  · intro stop
    rw [frames, List.length_cons, cut, if_pos stop]

theorem frames_flatten {messages : List (List α)} (framed : ∀ m ∈ messages, Framed size m) :
    frames size messages.flatten = messages := by
  induction messages with
  | nil => rfl
  | cons m ms ih =>
    rw [List.flatten_cons, frames_append (framed m (List.mem_cons_self ..)),
      ih fun m' later => framed m' (List.mem_cons_of_mem _ later)]

theorem length_flatten_cut_le (fuel : Nat) (stream : List α) :
    (cut size fuel stream).flatten.length ≤ stream.length := by
  induction fuel generalizing stream with
  | zero => exact Nat.zero_le _
  | succ fuel ih =>
    cases stream with
    | nil => exact Nat.zero_le _
    | cons x xs =>
      simp only [cut]
      split
      · exact Nat.zero_le _
      · have rest := ih ((x :: xs).drop (size x))
        rw [List.flatten_cons, List.length_append, List.length_take]
        rw [List.length_drop] at rest
        omega

theorem length_flatten_frames_le (size : α → Nat) (stream : List α) :
    (frames size stream).flatten.length ≤ stream.length :=
  length_flatten_cut_le _ _

end Announced

section Blocks

variable {k : Nat}

/-- The whole blocks of `k` elements at the front of a stream. -/
def blocks (k : Nat) : List α → List (List α) := frames fun _ => k

theorem blocks_of_short {stream : List α} (short : stream.length < k) : blocks k stream = [] := by
  cases stream with
  | nil => rfl
  | cons x xs => exact if_pos (Or.inr short)

theorem blocks_of_whole (pos : 0 < k) {stream : List α} (whole : k ≤ stream.length) :
    blocks k stream = stream.take k :: blocks k (stream.drop k) := by
  cases stream with
  | nil =>
    rw [List.length_nil] at whole
    omega
  | cons x xs =>
    have some : k ≠ 0 := by omega
    exact frames_cons some whole

theorem blocks_induction (pos : 0 < k) {motive : List α → Prop}
    (short : ∀ stream : List α, stream.length < k → motive stream)
    (whole : ∀ stream : List α, k ≤ stream.length → motive (stream.drop k) → motive stream)
    (stream : List α) : motive stream := by
  induction len : stream.length using Nat.strongRecOn generalizing stream with
  | ind n ih =>
    by_cases less : stream.length < k
    · exact short stream less
    · refine whole stream (by omega) (ih (n - k) (by omega) _ ?_)
      rw [List.length_drop, len]

theorem length_blocks (pos : 0 < k) (stream : List α) :
    (blocks k stream).length = stream.length / k := by
  induction stream using blocks_induction pos with
  | short stream less => rw [blocks_of_short less, Nat.div_eq_of_lt less, List.length_nil]
  | whole stream enough ih =>
    rw [blocks_of_whole pos enough, List.length_cons, ih, List.length_drop,
      Nat.div_eq_sub_div pos enough]

theorem blocks_append (pos : 0 < k) {first : List α} (aligned : k ∣ first.length)
    (second : List α) : blocks k (first ++ second) = blocks k first ++ blocks k second := by
  induction first using blocks_induction pos with
  | short first less =>
    obtain rfl := List.length_eq_zero_iff.mp (Nat.eq_zero_of_dvd_of_lt aligned less)
    rfl
  | whole first enough ih =>
    have aligned' : k ∣ (first.drop k).length := by
      rw [List.length_drop]
      exact Nat.dvd_sub aligned (Nat.dvd_refl k)
    have enough' : k ≤ (first ++ second).length := by
      rw [List.length_append]
      omega
    rw [blocks_of_whole pos enough', blocks_of_whole pos enough,
      List.take_append_of_le_length enough, List.drop_append_of_le_length enough, ih aligned',
      List.cons_append]

theorem blocks_flatten_of_aligned (pos : 0 < k) {chunks : List (List α)}
    (aligned : ∀ chunk ∈ chunks, k ∣ chunk.length) :
    blocks k chunks.flatten = chunks.flatMap (blocks k) := by
  induction chunks with
  | nil => rfl
  | cons chunk chunks ih =>
    rw [List.flatten_cons, blocks_append pos (aligned chunk (List.mem_cons_self ..)),
      ih fun c later => aligned c (List.mem_cons_of_mem _ later), List.flatMap_cons]

theorem blocks_flatten (pos : 0 < k) {messages : List (List α)}
    (whole : ∀ m ∈ messages, m.length = k) : blocks k messages.flatten = messages := by
  refine frames_flatten fun m listed => ?_
  have len := whole m listed
  cases m with
  | nil => exact absurd len (by simp; omega)
  | cons x xs => exact ⟨x, xs, rfl, len⟩

theorem forall₂_blocks (pos : 0 < k) {R : List α → List α → Prop}
    (len : ∀ s s', R s s' → s.length = s'.length)
    (front : ∀ s s', R s s' → R (s.take k) (s'.take k))
    (back : ∀ s s', R s s' → R (s.drop k) (s'.drop k)) {s s' : List α} (related : R s s') :
    List.Forall₂ R (blocks k s) (blocks k s') := by
  induction s using blocks_induction pos generalizing s' with
  | short s less =>
    have less' : s'.length < k := len s s' related ▸ less
    rw [blocks_of_short less, blocks_of_short less']
    exact List.Forall₂.nil
  | whole s enough ih =>
    have enough' : k ≤ s'.length := len s s' related ▸ enough
    rw [blocks_of_whole pos enough, blocks_of_whole pos enough']
    exact List.Forall₂.cons (front s s' related) (ih (back s s' related))

end Blocks

end HftGrading.Lib.StreamFraming
