/- module: HftGrading/Sandbox/ResponseFraming
   source: sandbox/include/sandbox/sandbox_bridge.hpp
   digest: Popped responses are the messages the contestant wrote exactly when every recv ends between two messages. -/

import HftGrading.Sandbox.BridgeState
import Mathlib.Algebra.BigOperators.Ring.List

set_option autoImplicit false
set_option relaxedAutoImplicit false

namespace HftGrading.Sandbox.ResponseFraming

open HftGrading.Lib.CountedRing HftGrading.Lib.StreamFraming HftGrading.Lib.PartialExecution
open WireBytes BridgeState

def outstanding (b : Bridge) : List ContestantResponse :=
  window (· % responseRingSize) b.responses b.respHead b.respTail

/-- A message of the contestant without its time stamps. -/
def contents (block : List Byte) : ContestantResponse := (ContestantResponse.ofBytes block).untimed

/-- The response ring holds what is outstanding after the operation. -/
def Roomy (l : Link) (op : Op) : Prop :=
  (l.step op).bridge.respTail - (l.step op).bridge.respHead ≤ responseRingSize

instance (l : Link) (op : Op) : Decidable (Roomy l op) :=
  inferInstanceAs (Decidable (_ ≤ responseRingSize))

section Ring

variable {b : Bridge}

theorem outstanding_takeResponses (recvTsc : Nat) (row : List (List Byte))
    (order : b.respHead ≤ b.respTail)
    (room : b.respTail + row.length - b.respHead ≤ responseRingSize) :
    (outstanding (row.foldl (Bridge.takeResponse · recvTsc) b)).map ContestantResponse.untimed =
      (outstanding b).map ContestantResponse.untimed ++ row.map contents := by
  induction row generalizing b with
  | nil => simp only [List.foldl_nil, List.map_nil, List.append_nil]
  | cons block row ih =>
    obtain ⟨resp, same, stores⟩ := b.takeResponse_stores recvTsc block
    have head : (b.takeResponse recvTsc block).respHead = b.respHead := by rw [stores]
    have tail : (b.takeResponse recvTsc block).respTail = b.respTail + 1 := by rw [stores]
    have pushed : outstanding (b.takeResponse recvTsc block) = outstanding b ++ [resp] := by
      rw [List.length_cons] at room
      rw [outstanding, stores]
      exact window_push (apart_mod _) order (by omega) resp
    rw [List.length_cons] at room
    rw [List.foldl_cons, ih (by omega) (by omega), pushed, List.map_append, List.map_cons,
      List.map_nil, same, List.append_assoc]
    rfl

theorem outstanding_sendOrder (s : Sending) :
    outstanding (b.sendOrder s).1 = outstanding b ∧
      (b.sendOrder s).1.respHead = b.respHead ∧ (b.sendOrder s).1.respTail = b.respTail := by
  unfold Bridge.sendOrder
  split
  · cases s.result <;> exact ⟨rfl, rfl, rfl⟩
  · exact ⟨rfl, rfl, rfl⟩

theorem outstanding_popLatency :
    outstanding b.popLatency.2 = outstanding b ∧
      b.popLatency.2.respHead = b.respHead ∧ b.popLatency.2.respTail = b.respTail := by
  unfold Bridge.popLatency
  split <;> exact ⟨rfl, rfl, rfl⟩

theorem outstanding_popResponse (order : b.respHead ≤ b.respTail) :
    b.popResponse.1.toList ++ outstanding b.popResponse.2 = outstanding b ∧
      b.popResponse.2.respHead ≤ b.popResponse.2.respTail := by
  unfold Bridge.popResponse
  split
  case isTrue none => exact ⟨rfl, order⟩
  case isFalse more =>
    rw [Nat.not_le] at more
    have popped : outstanding b = b.responses (b.respHead % responseRingSize) ::
        outstanding { b with respHead := b.respHead + 1 } := window_pop more
    exact ⟨popped.symm, more⟩

end Ring

/-- The chunks so far and what is still to come make up the stream; what was popped or is
outstanding are the blocks of the chunks. -/
structure Framing (stream : List Byte) (l : Link) : Prop where
  connected : l.bridge.connected
  order : l.bridge.respHead ≤ l.bridge.respTail
  stream : l.chunks.flatten ++ l.inbound = stream
  stored : (l.returned ++ outstanding l.bridge).map ContestantResponse.untimed =
    (l.chunks.flatMap (blocks responseSize)).map contents

section Steps

variable {stream : List Byte} {l : Link}

theorem framing_recv (framing : Framing stream l) (r : Read) (roomy : Roomy l (.recv r)) :
    Framing stream (l.recv r) := by
  have connected := framing.connected
  have counts := l.bridge.takeChunk_counts r.tsc (l.chunk r)
  obtain ⟨still, head, tail, -⟩ := counts
  have room : l.bridge.respTail + (blocks responseSize (l.chunk r)).length - l.bridge.respHead ≤
      responseRingSize := by
    have within := roomy
    simp only [Roomy, Link.step, Link.recv, if_pos connected, Link.become, head, tail] at within
    rwa [length_blocks (by decide)]
  have stored := outstanding_takeResponses r.tsc (blocks responseSize (l.chunk r)) framing.order room
  unfold Link.recv
  rw [if_pos connected]
  refine ⟨still.trans connected, ?_, ?_, ?_⟩
  · show (l.bridge.takeChunk r.tsc (l.chunk r)).respHead ≤
      (l.bridge.takeChunk r.tsc (l.chunk r)).respTail
    rw [head, tail]
    exact framing.order.trans (Nat.le_add_right _ _)
  · show (l.chunks ++ [l.chunk r]).flatten ++ l.inbound.drop (min r.bytes recvBufferSize) = stream
    rw [List.flatten_append, List.flatten_singleton, List.append_assoc, Link.chunk,
      List.take_append_drop, framing.stream]
  · show (l.returned ++ outstanding (l.bridge.takeChunk r.tsc (l.chunk r))).map _ =
      ((l.chunks ++ [l.chunk r]).flatMap (blocks responseSize)).map contents
    rw [List.flatMap_append, List.flatMap_singleton, List.map_append, List.map_append,
      ← framing.stored, List.map_append, List.append_assoc, Bridge.takeChunk, stored]

theorem framing_step (framing : Framing stream l) (op : Op) (roomy : Roomy l op) :
    Framing stream (l.step op) := by
  have connected : (l.step op).bridge.connected :=
    (l.connected_step op).trans framing.connected
  cases op with
  | send s =>
    obtain ⟨same, head, tail⟩ := outstanding_sendOrder (b := l.bridge) s
    have order := framing.order
    have stored := framing.stored
    rw [← same] at stored
    rw [← head, ← tail] at order
    simp only [Link.step, Link.send, if_pos framing.connected] at connected ⊢
    exact ⟨connected, order, framing.stream, stored⟩
  | recv r => exact framing_recv framing r roomy
  | popResponse =>
    obtain ⟨same, order⟩ := outstanding_popResponse framing.order
    have stored := framing.stored
    rw [← same, ← List.append_assoc] at stored
    exact ⟨connected, order, framing.stream, stored⟩
  | popLatency =>
    obtain ⟨same, head, tail⟩ := outstanding_popLatency (b := l.bridge)
    have order := framing.order
    have stored := framing.stored
    rw [← same] at stored
    rw [← head, ← tail] at order
    exact ⟨connected, order, framing.stream, stored⟩

end Steps

theorem framing_start (responses : Nat → ContestantResponse) (latencies : Nat → OrderLatency)
    (stream : List Byte) : Framing stream (Link.start (Bridge.accepted responses latencies) stream) :=
  ⟨rfl, Nat.le_refl 0, rfl, rfl⟩

theorem blocks_of_chunks_iff {messages chunks : List (List Byte)}
    (whole : ∀ m ∈ messages, m.length = responseSize) (same : chunks.flatten = messages.flatten) :
    (chunks.flatMap (blocks responseSize)).map contents = messages.map contents ↔
      ∀ chunk ∈ chunks, responseSize ∣ chunk.length := by
  constructor
  · intro equal
    have count := congrArg List.length equal
    rw [List.length_map, List.length_map, List.length_flatMap] at count
    simp only [length_blocks (show 0 < responseSize by decide)] at count
    have bytes := congrArg List.length same
    rw [List.length_flatten, List.length_flatten, List.map_congr_left whole, List.map_const',
      List.sum_replicate_nat, ← count, Nat.mul_comm, ← List.sum_map_mul_left] at bytes
    have full := eq_of_sum_le (fun c _ => Nat.mul_div_le c.length responseSize) bytes.le
    exact fun c listed => ⟨c.length / responseSize, (full c listed).symm⟩
  · intro aligned
    rw [← blocks_flatten_of_aligned (by decide) aligned, same, blocks_flatten (by decide) whole]

/-- Once the stream is received and the ring drained, the popped responses are the messages the
contestant wrote if and only if every `recv` ended between two of them. -/
theorem returns_messages_iff_aligned (responses : Nat → ContestantResponse)
    (latencies : Nat → OrderLatency) (messages : List (List Byte))
    (whole : ∀ m ∈ messages, m.length = responseSize) (ops : List Op) (last : Link)
    (ran : ops.foldl Link.step (Link.start (Bridge.accepted responses latencies) messages.flatten) =
      last)
    (roomy : Obeys (always Link.step) Roomy
      (Link.start (Bridge.accepted responses latencies) messages.flatten) ops)
    (received : last.inbound = []) (drained : last.bridge.respTail ≤ last.bridge.respHead) :
    last.returned.map ContestantResponse.untimed = messages.map contents ↔
      ∀ chunk ∈ last.chunks, responseSize ∣ chunk.length := by
  have framing : Framing messages.flatten last := by
    rw [← ran]
    exact foldl_keeps (fun l op (kept : Framing _ l) room => framing_step kept op room)
      (framing_start responses latencies _) roomy
  have none : outstanding last.bridge = [] := by
    rw [← List.length_eq_zero_iff, outstanding, length_window, Nat.sub_eq_zero_of_le drained]
  have stored := framing.stored
  rw [none, List.append_nil] at stored
  have stream := framing.stream
  rw [received, List.append_nil] at stream
  rw [stored]
  exact blocks_of_chunks_iff whole stream

def sampleResponse (id : Byte) : List Byte := id :: List.replicate 63 0

def samplePortions (first second : Nat) : List Op :=
  [.recv ⟨first, 10⟩, .recv ⟨second, 11⟩, .popResponse, .popResponse]

def sampleRun (first second : Nat) : Link :=
  (samplePortions first second).foldl Link.step
    (Link.start Bridge.sample [sampleResponse 1, sampleResponse 2].flatten)

theorem returns_messages_iff_aligned_two_chunks :
    (sampleRun 64 64).returned.map ContestantResponse.untimed =
      [contents (sampleResponse 1), contents (sampleResponse 2)] :=
  (returns_messages_iff_aligned (fun _ => default) (fun _ => default)
    [sampleResponse 1, sampleResponse 2] (by decide) (samplePortions 64 64) (sampleRun 64 64) rfl
    (obeys_of_test (fun _ _ => of_decide_eq_true) _ _ (by decide +kernel)) (by decide +kernel)
    (by decide +kernel)).mpr (by decide +kernel)

/-- A cut inside the first message: the half block is dropped, and the next chunk is read from the
middle of the message on. -/
theorem cut_message_is_misread :
    Obeys (always Link.step) Roomy
        (Link.start Bridge.sample [sampleResponse 1, sampleResponse 2].flatten) (samplePortions 32 96) ∧
      (sampleRun 32 96).inbound = [] ∧
      (sampleRun 32 96).bridge.respTail ≤ (sampleRun 32 96).bridge.respHead ∧
      (sampleRun 32 96).returned.map ContestantResponse.orderId = [0] ∧
      [sampleResponse 1, sampleResponse 2].map (fun m => (contents m).orderId) = [1, 2] :=
  ⟨obeys_of_test (fun _ _ => of_decide_eq_true) _ _ (by decide +kernel), by decide +kernel,
    by decide +kernel, by decide +kernel, by decide +kernel⟩

end HftGrading.Sandbox.ResponseFraming
