/- module: HftGrading/Core/RingBuffer
   source: core/include/core/ring_buffer.hpp, core/include/core/types.hpp
   digest: The shared ring of one producer and one consumer, one memory access at a time. -/

import HftGrading.Lib.SingleProducerRing
import Mathlib.Data.UInt

set_option autoImplicit false
set_option relaxedAutoImplicit false

namespace HftGrading.Core.RingBuffer

open Function (update)
open Lib.CountedRing Lib.PartialExecution Lib.SingleProducerRing

universe v

variable {α : Type v}

def isPowerOf2 (n : UInt64) : Bool := decide (n > 0) && (n &&& (n - 1)) == 0

/-- `position & MASK`, the index of a position in `data_`. -/
def slot (capacity position : UInt64) : UInt64 := position &&& (capacity - 1)

structure SPSCRingBuffer (α : Type v) where
  writePos : UInt64
  readPos : UInt64
  data : UInt64 → α

def SPSCRingBuffer.size (ring : SPSCRingBuffer α) : UInt64 := ring.writePos - ring.readPos

/-- The elements from the read position up to the write position. -/
def SPSCRingBuffer.unread (capacity : UInt64) (ring : SPSCRingBuffer α) : List α :=
  (List.range ring.size.toNat).map fun k => ring.data (slot capacity (ring.readPos + .ofNat k))

inductive PushCall (α : Type v)
  | tryPush (item : α)
  | tryPushBatch (items : List α)
  deriving DecidableEq, Repr

inductive PopCall
  | tryPop
  | tryPopBatch (maxCount : Nat)
  deriving DecidableEq, Repr

/-- Where the producer is: between calls, with the number of elements the last one pushed; after
the load of its own index; or copying `todo` behind the `done` elements, to store the index
once none is left. -/
inductive Producer (α : Type v)
  | returned (count : Nat)
  | loaded (call : PushCall α) (w : UInt64)
  | writing (w : UInt64) (done todo : List α)
  deriving DecidableEq, Repr

/-- Where the consumer is: between calls, with the elements the last one popped; after the load
of its own index; or with `left` elements to copy behind `items` before the index store. -/
inductive Consumer (α : Type v)
  | returned (items : List α)
  | loaded (call : PopCall) (r : UInt64)
  | reading (r : UInt64) (items : List α) (left : Nat)
  deriving DecidableEq, Repr

/-- The rest of `try_push` after its two loads. -/
def tryPush (capacity w r : UInt64) (item : α) : Producer α :=
  if w - r ≥ capacity then .returned 0 else .writing w [] [item]

/-- The rest of `try_push_batch` after its two loads. -/
def tryPushBatch (capacity w r : UInt64) (items : List α) : Producer α :=
  let available := capacity - (w - r)
  let toPush := if items.length < available.toNat then items.length else available.toNat
  .writing w [] (items.take toPush)

/-- The rest of `try_pop` after its two loads. -/
def tryPop (r w : UInt64) : Consumer α := if r ≥ w then .returned [] else .reading r [] 1

/-- The rest of `try_pop_batch` after its two loads. -/
def tryPopBatch (r w : UInt64) (maxCount : Nat) : Consumer α :=
  let available := w - r
  let toPop := if maxCount < available.toNat then maxCount else available.toNat
  .reading r [] toPop

def PushCall.afterLoads (capacity w r : UInt64) : PushCall α → Producer α
  | .tryPush item => RingBuffer.tryPush capacity w r item
  | .tryPushBatch items => RingBuffer.tryPushBatch capacity w r items

def PopCall.afterLoads (r w : UInt64) : PopCall → Consumer α
  | .tryPop => RingBuffer.tryPop r w
  | .tryPopBatch maxCount => RingBuffer.tryPopBatch r w maxCount

/-- The ring with its two threads, and all elements pushed and popped so far: those whose index
store has been made. -/
structure System (α : Type v) where
  ring : SPSCRingBuffer α
  producer : Producer α
  consumer : Consumer α
  pushed : List α
  popped : List α

/-- A thread enters a call with the load of its own index, or takes the next step of its call. -/
inductive Action (α : Type v)
  | push (call : PushCall α)
  | produce
  | pop (call : PopCall)
  | consume
  deriving DecidableEq, Repr

def System.init (data : UInt64 → α) : System α := ⟨⟨0, 0, data⟩, .returned 0, .returned [], [], []⟩

def produce (capacity : UInt64) (s : System α) : Option (System α) :=
  match s.producer with
  | .returned _ => none
  | .loaded call w => some { s with producer := call.afterLoads capacity w s.ring.readPos }
  | .writing w done (x :: todo) =>
    some { s with
      ring.data := update s.ring.data (slot capacity (w + .ofNat done.length)) x
      producer := .writing w (done ++ [x]) todo }
  | .writing w done [] =>
    some { s with
      ring.writePos := w + .ofNat done.length
      producer := .returned done.length
      pushed := s.pushed ++ done }

def consume (capacity : UInt64) (s : System α) : Option (System α) :=
  match s.consumer with
  | .returned _ => none
  | .loaded call r => some { s with consumer := call.afterLoads r s.ring.writePos }
  | .reading r items (left + 1) =>
    some { s with
      consumer :=
        .reading r (items ++ [s.ring.data (slot capacity (r + .ofNat items.length))]) left }
  | .reading r items 0 =>
    some { s with
      ring.readPos := r + .ofNat items.length
      consumer := .returned items
      popped := s.popped ++ items }

def step (capacity : UInt64) (s : System α) : Action α → Option (System α)
  | .push call =>
    match s.producer with
    | .returned _ => some { s with producer := .loaded call s.ring.writePos }
    | _ => none
  | .produce => produce capacity s
  | .pop call =>
    match s.consumer with
    | .returned _ => some { s with consumer := .loaded call s.ring.readPos }
    | _ => none
  | .consume => consume capacity s

def System.writes (capacity : UInt64) (s : System α) : Option UInt64 :=
  match s.producer with
  | .writing w done (_ :: _) => some (slot capacity (w + .ofNat done.length))
  | _ => none

def System.reads (capacity : UInt64) (s : System α) : Option UInt64 :=
  match s.consumer with
  | .reading r items (_ + 1) => some (slot capacity (r + .ofNat items.length))
  | _ => none

/-- The elements copied by a pop that has not returned. -/
def Consumer.items : Consumer α → List α
  | .reading _ items _ => items
  | _ => []

section Indices

variable {capacity : UInt64}

theorem toNat_ofNat_sub {head tail : Nat} (order : head ≤ tail) (near : tail - head < 2 ^ 64) :
    (UInt64.ofNat tail - UInt64.ofNat head).toNat = tail - head := by
  rw [UInt64.toNat_sub, UInt64.toNat_ofNat', UInt64.toNat_ofNat']
  omega

theorem toNat_slot (masked : capacity &&& (capacity - 1) = 0) (some : capacity ≠ 0) (n : Nat) :
    (slot capacity (.ofNat n)).toNat = n % capacity.toNat :=
  toNat_and_mask (congrArg UInt64.toBitVec masked) (mt UInt64.toBitVec_inj.mp some) n

theorem apart_slot (masked : capacity &&& (capacity - 1) = 0) :
    Apart (fun n => slot capacity (.ofNat n)) capacity.toNat := by
  intro j k less near same
  by_cases some : capacity = 0
  · rw [some] at near
    exact absurd near (by simpa using less.le)
  · have equal := congrArg UInt64.toNat same
    simp only [toNat_slot masked some] at equal
    exact apart_mod capacity.toNat j k less near equal

end Indices

section Refinement

variable {capacity : UInt64} {s s' : System α} {ring : Ring UInt64 α}

def Producer.View (producer : Producer α) (writePos : UInt64) (ring : Ring UInt64 α) : Prop :=
  match producer with
  | .returned _ => ring.written = []
  | .loaded _ w => w = writePos ∧ ring.written = []
  | .writing w done todo => w = writePos ∧ ring.written = done ∧
      ring.pushed.length + done.length + todo.length ≤ ring.limit

def Consumer.View (consumer : Consumer α) (readPos : UInt64) (ring : Ring UInt64 α) : Prop :=
  match consumer with
  | .returned _ => ring.taken = []
  | .loaded _ r => r = readPos ∧ ring.taken = []
  | .reading r items left => r = readPos ∧ ring.taken = items ∧
      ring.popped.length + items.length + left ≤ ring.seen

/-- The code's ring stands for an abstract one: its indices are the counts modulo `2 ^ 64`. -/
structure Refines (s : System α) (ring : Ring UInt64 α) : Prop where
  data : s.ring.data = ring.cell
  pushed : s.pushed = ring.pushed
  popped : s.popped = ring.popped
  writePos : s.ring.writePos = .ofNat ring.pushed.length
  readPos : s.ring.readPos = .ofNat ring.popped.length
  producer : s.producer.View s.ring.writePos ring
  consumer : s.consumer.View s.ring.readPos ring

theorem refines_init (data : UInt64 → α) : Refines (System.init data) (Ring.empty data) :=
  ⟨rfl, rfl, rfl, rfl, rfl, rfl, rfl⟩

abbrev abstractMove (capacity : UInt64) : Ring UInt64 α → Move α → Option (Ring UInt64 α) :=
  move (fun n => slot capacity (.ofNat n)) capacity.toNat

abbrev SoundRing (capacity : UInt64) (ring : Ring UInt64 α) : Prop :=
  Sound (fun n => slot capacity (.ofNat n)) capacity.toNat ring

theorem Refines.toNat_size (refines : Refines s ring) (sound : SoundRing capacity ring) :
    s.ring.size.toNat = ring.pushed.length - ring.popped.length := by
  have near := sound.unread_le
  have bound := capacity.toNat_lt
  rw [SPSCRingBuffer.size, refines.writePos, refines.readPos,
    toNat_ofNat_sub sound.popped_le (by omega)]

theorem push_view (refines : Refines s ring) (sound : SoundRing capacity ring)
    (idle : ring.written = []) (call : PushCall α) :
    (call.afterLoads capacity s.ring.writePos s.ring.readPos).View s.ring.writePos
      { ring with limit := ring.popped.length + capacity.toNat } := by
  have size := refines.toNat_size sound
  have near := sound.unread_le
  have behind := sound.popped_le
  cases call with
  | tryPush item =>
    simp only [PushCall.afterLoads, tryPush]
    split_ifs with full
    · exact idle
    · refine ⟨rfl, idle, ?_⟩
      have less : s.ring.size.toNat < capacity.toNat := by
        rw [ge_iff_le, UInt64.le_iff_toNat_le] at full
        exact Nat.lt_of_not_le full
      simp only [List.length_nil, List.length_singleton]
      omega
  | tryPushBatch items =>
    have available : (capacity - s.ring.size).toNat =
        capacity.toNat - (ring.pushed.length - ring.popped.length) := by
      rw [UInt64.toNat_sub_of_le _ _ (UInt64.le_iff_toNat_le.mpr (by omega)), size]
    refine ⟨rfl, idle, ?_⟩
    rw [List.length_take, List.length_nil]
    change ring.pushed.length + 0 + min (ite (items.length < (capacity - s.ring.size).toNat)
      items.length (capacity - s.ring.size).toNat) items.length ≤
        ring.popped.length + capacity.toNat
    rw [available]
    split_ifs <;> omega

theorem pop_view (refines : Refines s ring) (sound : SoundRing capacity ring)
    (idle : ring.taken = []) (call : PopCall) :
    (call.afterLoads s.ring.readPos s.ring.writePos : Consumer α).View s.ring.readPos
      { ring with seen := ring.pushed.length } := by
  have size := refines.toNat_size sound
  have behind := sound.popped_le
  cases call with
  | tryPop =>
    simp only [PopCall.afterLoads, tryPop]
    split_ifs with empty
    · exact idle
    · refine ⟨rfl, idle, ?_⟩
      have differ : ring.popped.length ≠ ring.pushed.length := by
        intro same
        rw [refines.writePos, refines.readPos, same] at empty
        exact empty (UInt64.le_refl _)
      simp only [List.length_nil]
      omega
  | tryPopBatch maxCount =>
    refine ⟨rfl, idle, ?_⟩
    change ring.popped.length + 0 +
      ite (maxCount < s.ring.size.toNat) maxCount s.ring.size.toNat ≤ ring.pushed.length
    rw [size]
    split_ifs <;> omega

def Follows (capacity : UInt64) (ring : Ring UInt64 α) (s' : System α) : Prop :=
  ∃ path ring', run (abstractMove capacity) ring path = some ring' ∧ Refines s' ring'

theorem follows_move {ring' : Ring UInt64 α} (next : Move α)
    (moves : abstractMove capacity ring next = some ring') (refines : Refines s' ring') :
    Follows capacity ring s' :=
  ⟨[next], ring', by simp only [run, moves, Option.bind_some], refines⟩

theorem produce_simulates (refines : Refines s ring) (sound : SoundRing capacity ring)
    (moves : produce capacity s = some s') : Follows capacity ring s' := by
  have view := refines.producer
  unfold produce at moves
  split at moves
  · cases moves
  · next call w here =>
      cases moves
      rw [here] at view
      obtain ⟨rfl, idle⟩ := view
      exact follows_move .observeReader rfl
        { refines with producer := push_view refines sound idle call }
  · next w done x todo here =>
      cases moves
      rw [here] at view
      obtain ⟨rfl, rfl, room⟩ := view
      rw [List.length_cons] at room
      have more : ring.pushed.length + ring.written.length < ring.limit := by omega
      refine follows_move (.write x) (if_pos more)
        { refines with data := ?_, producer := ⟨rfl, rfl, ?_⟩ }
      · rw [refines.data, refines.writePos, ← UInt64.ofNat_add]
      · simp only [List.length_append, List.length_singleton]
        omega
  · next w done here =>
      cases moves
      rw [here] at view
      obtain ⟨rfl, rfl, room⟩ := view
      refine follows_move .publish rfl
        { refines with pushed := ?_, writePos := ?_, producer := rfl }
      · rw [refines.pushed]
      · rw [refines.writePos, List.length_append, UInt64.ofNat_add]

theorem consume_simulates (refines : Refines s ring) (sound : SoundRing capacity ring)
    (moves : consume capacity s = some s') : Follows capacity ring s' := by
  have view := refines.consumer
  unfold consume at moves
  split at moves
  · cases moves
  · next call r here =>
      cases moves
      rw [here] at view
      obtain ⟨rfl, idle⟩ := view
      exact follows_move .observeWriter rfl
        { refines with consumer := pop_view refines sound idle call }
  · next r items left here =>
      cases moves
      rw [here] at view
      obtain ⟨rfl, rfl, published⟩ := view
      have more : ring.popped.length + ring.taken.length < ring.seen := by omega
      refine follows_move .read (if_pos more) { refines with consumer := ⟨rfl, ?_, ?_⟩ }
      · rw [refines.data, refines.readPos, ← UInt64.ofNat_add]
      · simp only [List.length_append, List.length_singleton]
        omega
  · next r items here =>
      cases moves
      rw [here] at view
      obtain ⟨rfl, rfl, published⟩ := view
      refine follows_move .release rfl
        { refines with popped := ?_, readPos := ?_, consumer := rfl }
      · rw [refines.popped]
      · rw [refines.readPos, List.length_append, UInt64.ofNat_add]

theorem step_simulates (refines : Refines s ring) (sound : SoundRing capacity ring)
    {action : Action α} (moves : step capacity s action = some s') :
    Follows capacity ring s' := by
  cases action with
  | push call =>
    have view := refines.producer
    simp only [step] at moves
    split at moves
    · next count here =>
        cases moves
        rw [here] at view
        exact ⟨[], ring, rfl, { refines with producer := ⟨rfl, view⟩ }⟩
    · cases moves
  | produce => exact produce_simulates refines sound moves
  | pop call =>
    have view := refines.consumer
    simp only [step] at moves
    split at moves
    · next items here =>
        cases moves
        rw [here] at view
        exact ⟨[], ring, rfl, { refines with consumer := ⟨rfl, view⟩ }⟩
    · cases moves
  | consume => exact consume_simulates refines sound moves

end Refinement

section Runs

variable {capacity : UInt64} {s s' : System α}

def Consistent (capacity : UInt64) (s : System α) : Prop :=
  ∃ ring, SoundRing capacity ring ∧ Refines s ring

theorem consistent_init (capacity : UInt64) (data : UInt64 → α) :
    Consistent capacity (System.init data) :=
  ⟨Ring.empty data, sound_empty _ _ data, refines_init data⟩

theorem Consistent.step (consistent : Consistent capacity s)
    (masked : capacity &&& (capacity - 1) = 0) {action : Action α}
    (moves : RingBuffer.step capacity s action = some s') : Consistent capacity s' := by
  obtain ⟨ring, sound, refines⟩ := consistent
  obtain ⟨path, ring', runs, refines'⟩ := step_simulates refines sound moves
  exact ⟨ring', sound.run (apart_slot masked) runs, refines'⟩

theorem consistent_reached (masked : capacity &&& (capacity - 1) = 0) (data : UInt64 → α)
    {schedule : List (Action α)} (reached : run (step capacity) (System.init data) schedule = some s) :
    Consistent capacity s :=
  run_keeps (fun _ _ _ inv _ moves => inv.step masked moves) (consistent_init capacity data)
    (obeys_of_forall (fun _ _ => trivial) _ schedule) reached

namespace Consistent

theorem popped_unread (consistent : Consistent capacity s) :
    s.popped ++ s.ring.unread capacity = s.pushed := by
  obtain ⟨ring, sound, refines⟩ := consistent
  obtain ⟨rest, whole⟩ := sound.order
  have unread : s.ring.unread capacity = ring.pushed.drop ring.popped.length := by
    rw [← sound.window_unread, SPSCRingBuffer.unread, window, refines.toNat_size sound,
      List.range'_eq_map_range, List.map_map, refines.data, refines.readPos]
    apply List.map_congr_left
    intro k _
    simp only [Function.comp_apply, UInt64.ofNat_add]
  rw [unread, refines.pushed, refines.popped, ← whole, List.append_assoc, List.drop_left]

theorem length_unread_le (consistent : Consistent capacity s) :
    (s.ring.unread capacity).length ≤ capacity.toNat := by
  obtain ⟨ring, sound, refines⟩ := consistent
  rw [SPSCRingBuffer.unread, List.length_map, List.length_range, refines.toNat_size sound]
  exact sound.unread_le

theorem popped_items (consistent : Consistent capacity s) :
    s.popped ++ s.consumer.items <+: s.pushed := by
  obtain ⟨ring, sound, refines⟩ := consistent
  have order := sound.order
  have view := refines.consumer
  rw [refines.popped, refines.pushed]
  cases here : s.consumer with
  | returned items =>
    rw [here] at view
    rwa [show ring.taken = [] from view] at order
  | loaded call r =>
    rw [here] at view
    rwa [view.2] at order
  | reading r items left =>
    rw [here] at view
    rwa [view.2.1] at order

theorem writes_free (consistent : Consistent capacity s)
    (masked : capacity &&& (capacity - 1) = 0) {i : UInt64} (writes : s.writes capacity = some i)
    {p : Nat} (unread : s.popped.length ≤ p) (published : p < s.pushed.length) :
    slot capacity (.ofNat p) ≠ i := by
  obtain ⟨ring, sound, refines⟩ := consistent
  have view := refines.producer
  rw [refines.popped] at unread
  rw [refines.pushed] at published
  unfold System.writes at writes
  split at writes
  · next w done x todo here =>
      rw [here] at view
      obtain ⟨rfl, rfl, room⟩ := view
      rw [List.length_cons] at room
      have free := sound.next_write_free (apart_slot masked) (by omega) unread published
      cases writes
      rwa [refines.writePos, ← UInt64.ofNat_add]
  · cases writes

theorem reads_published (consistent : Consistent capacity s) {i : UInt64}
    (reads : s.reads capacity = some i) :
    i = slot capacity (.ofNat (s.popped.length + s.consumer.items.length)) ∧
      s.pushed[s.popped.length + s.consumer.items.length]? = some (s.ring.data i) := by
  obtain ⟨ring, sound, refines⟩ := consistent
  have view := refines.consumer
  have known := sound.known
  unfold System.reads at reads
  split at reads
  · next r items left here =>
      rw [here] at view
      obtain ⟨rfl, rfl, published⟩ := view
      have held := sound.cell_pushed (Nat.le_add_right _ ring.taken.length) (by omega)
      cases reads
      rw [here, Consumer.items, refines.popped, refines.pushed, refines.data, refines.readPos,
        ← UInt64.ofNat_add]
      exact ⟨rfl, held⟩
  · cases reads

end Consistent

end Runs

section Calls

variable {capacity : UInt64} {s s' : System α}

inductive Pushing (item : α) : Producer α → Prop
  | loaded (w : UInt64) : Pushing item (.loaded (.tryPush item) w)
  | writing (w : UInt64) : Pushing item (.writing w [] [item])
  | written (w : UInt64) : Pushing item (.writing w [item] [])

inductive Popping : Consumer α → Prop
  | loaded (r : UInt64) : Popping (.loaded .tryPop r)
  | reading (r : UInt64) : Popping (.reading r [] 1)
  | copied (r : UInt64) (item : α) : Popping (.reading r [item] 0)

theorem step_push {call : PushCall α} (moves : step capacity s (.push call) = some s') :
    s' = { s with producer := .loaded call s.ring.writePos } := by
  simp only [step] at moves
  split at moves
  · cases moves
    rfl
  · cases moves

theorem step_pop {call : PopCall} (moves : step capacity s (.pop call) = some s') :
    s' = { s with consumer := .loaded call s.ring.readPos } := by
  simp only [step] at moves
  split at moves
  · cases moves
    rfl
  · cases moves

theorem tryPush_cases (capacity w r : UInt64) (item : α) :
    tryPush capacity w r item = .returned 0 ∨ tryPush capacity w r item = .writing w [] [item] := by
  unfold tryPush
  split_ifs
  · exact .inl rfl
  · exact .inr rfl

theorem tryPop_cases (r w : UInt64) :
    (tryPop r w : Consumer α) = .returned [] ∨ (tryPop r w : Consumer α) = .reading r [] 1 := by
  unfold tryPop
  split_ifs
  · exact .inl rfl
  · exact .inr rfl

namespace Consistent

variable (before : Consistent capacity s) (after : Consistent capacity s')
include before after

theorem unread_pushed (same : s'.popped = s.popped) {items : List α}
    (grown : s'.pushed = s.pushed ++ items) :
    s'.ring.unread capacity = s.ring.unread capacity ++ items := by
  have whole := after.popped_unread
  rw [same, grown, ← before.popped_unread, List.append_assoc] at whole
  exact List.append_cancel_left whole

theorem unread_popped (same : s'.pushed = s.pushed) {items : List α}
    (grown : s'.popped = s.popped ++ items) :
    s.ring.unread capacity = items ++ s'.ring.unread capacity := by
  have whole := after.popped_unread
  rw [same, grown, ← before.popped_unread, List.append_assoc] at whole
  exact (List.append_cancel_left whole).symm

theorem unread_same (popped : s'.popped = s.popped) (pushed : s'.pushed = s.pushed) :
    s'.ring.unread capacity = s.ring.unread capacity := by
  have whole := after.popped_unread
  rw [popped, pushed, ← before.popped_unread] at whole
  exact List.append_cancel_left whole

end Consistent

theorem produce_pushing (consistent : Consistent capacity s)
    (masked : capacity &&& (capacity - 1) = 0) {item : α} (pushing : Pushing item s.producer)
    (moves : step capacity s .produce = some s') :
    s'.consumer = s.consumer ∧
      (Pushing item s'.producer ∧ s'.ring.unread capacity = s.ring.unread capacity ∨
        s'.producer = .returned 0 ∧ s'.ring.unread capacity = s.ring.unread capacity ∨
        s'.producer = .returned 1 ∧
          s'.ring.unread capacity = s.ring.unread capacity ++ [item]) := by
  have after := consistent.step masked moves
  simp only [step, produce] at moves
  cases here : s.producer with
  | returned count =>
    rw [here] at moves
    cases moves
  | loaded call w =>
    rw [here] at moves pushing
    cases pushing
    cases moves
    have same := consistent.unread_same after rfl rfl
    rcases tryPush_cases capacity w s.ring.readPos item with full | room
    · exact ⟨rfl, .inr (.inl ⟨full, same⟩)⟩
    · refine ⟨rfl, .inl ⟨?_, same⟩⟩
      simp only [PushCall.afterLoads, room]
      exact .writing w
  | writing w done todo =>
    rw [here] at moves pushing
    cases pushing with
    | writing =>
      cases moves
      exact ⟨rfl, .inl ⟨.written w, consistent.unread_same after rfl rfl⟩⟩
    | written =>
      cases moves
      exact ⟨rfl, .inr (.inr ⟨rfl, consistent.unread_pushed after rfl rfl⟩)⟩

theorem consume_popping (consistent : Consistent capacity s)
    (masked : capacity &&& (capacity - 1) = 0) (popping : Popping s.consumer)
    (moves : step capacity s .consume = some s') :
    s'.producer = s.producer ∧
      (Popping s'.consumer ∧ s'.ring.unread capacity = s.ring.unread capacity ∨
        s'.consumer = .returned [] ∧ s'.ring.unread capacity = s.ring.unread capacity ∨
        ∃ item, s'.consumer = .returned [item] ∧
          s.ring.unread capacity = item :: s'.ring.unread capacity) := by
  have after := consistent.step masked moves
  simp only [step, consume] at moves
  cases here : s.consumer with
  | returned items =>
    rw [here] at moves
    cases moves
  | loaded call r =>
    rw [here] at moves popping
    cases popping
    cases moves
    have same := consistent.unread_same after rfl rfl
    rcases tryPop_cases r s.ring.writePos with empty | some
    · exact ⟨rfl, .inr (.inl ⟨empty, same⟩)⟩
    · refine ⟨rfl, .inl ⟨?_, same⟩⟩
      simp only [PopCall.afterLoads, some]
      exact .reading r
  | reading r items left =>
    rw [here] at moves popping
    cases popping with
    | reading =>
      cases moves
      exact ⟨rfl, .inl ⟨.copied r _, consistent.unread_same after rfl rfl⟩⟩
    | copied _ item =>
      cases moves
      exact ⟨rfl, .inr (.inr ⟨item, rfl, consistent.unread_popped after rfl rfl⟩)⟩

end Calls

/-- For every interleaving of the two threads, at every moment: the elements popped, and those
the pop under way has copied, are the oldest pushed ones; the elements between the indices are
the other pushed ones and fit the capacity; the producer's next write leaves their slots alone
and the consumer's next read is of a pushed element. -/
theorem ring_buffer_is_fifo (capacity : UInt64) (power : isPowerOf2 capacity = true)
    (data : UInt64 → α) (schedule : List (Action α)) (s : System α)
    (reached : run (step capacity) (System.init data) schedule = some s) :
    s.popped ++ s.consumer.items <+: s.pushed ∧
      s.popped ++ s.ring.unread capacity = s.pushed ∧
      (s.ring.unread capacity).length ≤ capacity.toNat ∧
      (∀ i, s.writes capacity = some i → ∀ p, s.popped.length ≤ p → p < s.pushed.length →
        slot capacity (.ofNat p) ≠ i) ∧
      ∀ i, s.reads capacity = some i →
        i = slot capacity (.ofNat (s.popped.length + s.consumer.items.length)) ∧
          s.pushed[s.popped.length + s.consumer.items.length]? = some (s.ring.data i) := by
  have masked : capacity &&& (capacity - 1) = 0 := by
    rw [isPowerOf2, Bool.and_eq_true, beq_iff_eq] at power
    exact power.2
  have consistent := consistent_reached masked data reached
  exact ⟨consistent.popped_items, consistent.popped_unread, consistent.length_unread_le,
    fun i writes p unread published => consistent.writes_free masked writes unread published,
    fun i reads => consistent.reads_published reads⟩

def refilling : List (Action Nat) :=
  [.push (.tryPushBatch [5, 6, 7]), .produce, .produce, .pop .tryPop, .produce, .produce, .consume,
    .consume, .consume, .push (.tryPush 8), .produce, .pop (.tryPopBatch 4), .consume]

theorem ring_buffer_is_fifo_refilling :
    ∃ s, run (step 2) (System.init fun _ => 0) refilling = some s ∧ isPowerOf2 2 = true ∧
      s.popped = [5] ∧ s.pushed = [5, 6] ∧ s.writes 2 = some 0 ∧ s.reads 2 = some 1 ∧
      s.popped ++ s.consumer.items <+: s.pushed ∧
      s.popped ++ s.ring.unread 2 = s.pushed ∧ (s.ring.unread 2).length ≤ (2 : UInt64).toNat ∧
      (∀ i, s.writes 2 = some i → ∀ p, s.popped.length ≤ p → p < s.pushed.length →
        slot 2 (.ofNat p) ≠ i) ∧
      ∀ i, s.reads 2 = some i →
        i = slot 2 (.ofNat (s.popped.length + s.consumer.items.length)) ∧
          s.pushed[s.popped.length + s.consumer.items.length]? = some (s.ring.data i) :=
  ⟨_, rfl, by decide, rfl, rfl, rfl, rfl,
    ring_buffer_is_fifo 2 (by decide) (fun _ => 0) refilling _ rfl⟩

end HftGrading.Core.RingBuffer
