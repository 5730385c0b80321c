/- module: HftGrading/Sandbox/ShadowFeed
   source: orchestrator/include/orchestrator/contest_runner.hpp, sandbox/include/sandbox/sandbox_bridge.hpp
   digest: The two consumers of the blast loop, shadow book and contestant, see one stream exactly when every write is complete. -/

import HftGrading.Sandbox.BridgeState

set_option autoImplicit false
set_option relaxedAutoImplicit false

namespace HftGrading.Sandbox.ShadowFeed

open Lib.StreamFraming
open WireBytes BridgeState

/-- The match loop: the link to the contestant, and the messages handed to the shadow book. -/
structure Feed where
  link : Link
  seen : List (List Byte)

/-- What the blast loop hands to the shadow book for one order: an `OrderEntry` to
`process_order`, a `CancelRequest` to `process_cancel`. -/
def shadowed (order : BlastOrder) : List (List Byte) :=
  match order.type with
  | .orderEntry => [order.data.take MsgType.orderEntry.size]
  | .cancelRequest => [order.data.take MsgType.cancelRequest.size]
  | _ => []

namespace Feed

/-- The blast loop ignores what `send_order` returns and feeds the shadow book in any case. -/
def step (f : Feed) (op : Op) : Feed where
  link := f.link.step op
  seen := match op with
    | .send s => f.seen ++ shadowed s.order
    | _ => f.seen

def start (bridge : Bridge) (inbound : List Byte) : Feed := ⟨Link.start bridge inbound, []⟩

end Feed

/-- The messages a contestant can read from the start of its stream. -/
def readable (f : Feed) : List (List Byte) := frames msgSize f.link.outbound

def Complete (s : Sending) : Prop := s.result = .wrote s.order.size

instance (s : Sending) : Decidable (Complete s) :=
  inferInstanceAs (Decidable (s.result = .wrote s.order.size))

def sends : List Op → List Sending :=
  List.filterMap fun op =>
    match op with
    | .send s => some s
    | _ => none

theorem shadowed_eq (order : BlastOrder) : shadowed order = [order.message] := by
  unfold shadowed BlastOrder.message
  rcases order.kind with entry | cancel
  · rw [order.sized, entry]
  · rw [order.sized, cancel]

section Writes

variable (s : Sending)

theorem length_delivered_le : s.delivered.length ≤ s.order.size := by
  unfold Sending.delivered
  split
  case h_1 n wrote =>
    rw [List.length_take]
    exact (Nat.min_le_left _ _).trans (s.fits n wrote)
  case h_2 => exact Nat.zero_le _

theorem delivered_of_complete (complete : Complete s) : s.delivered = s.order.message := by
  unfold Sending.delivered
  rw [show s.result = .wrote s.order.size from complete]
  rfl

variable {s}

theorem complete_of_length (full : s.delivered.length = s.order.size) : Complete s := by
  unfold Sending.delivered at full
  split at full
  case h_1 n wrote =>
    have fits := s.fits n wrote
    rw [List.length_take] at full
    have all : n = s.order.size := by omega
    rw [Complete, wrote, all]
  case h_2 => exact absurd full.symm s.order.size_pos.ne'

end Writes

theorem feed_run (ops : List Op) (f : Feed) (connected : f.link.bridge.connected) :
    (ops.foldl Feed.step f).link.outbound =
        f.link.outbound ++ (sends ops).flatMap Sending.delivered ∧
      (ops.foldl Feed.step f).seen = f.seen ++ (sends ops).map fun s => s.order.message := by
  induction ops generalizing f with
  | nil => exact ⟨(List.append_nil _).symm, (List.append_nil _).symm⟩
  | cons op ops ih =>
    have connected' : (f.step op).link.bridge.connected := by
      rw [show (f.step op).link = f.link.step op from rfl, Link.connected_step, connected]
    obtain ⟨outbound, seen⟩ := ih (f.step op) connected'
    rw [List.foldl_cons, outbound, seen]
    cases op with
    | send s =>
      have here : (f.step (.send s)).link.outbound = f.link.outbound ++ s.delivered := by
        simp only [Feed.step, Link.step, Link.send, if_pos connected]
      have fed : (f.step (.send s)).seen = f.seen ++ [s.order.message] := by
        rw [← shadowed_eq]
        rfl
      rw [here, fed, List.append_assoc, List.append_assoc]
      exact ⟨rfl, rfl⟩
    | recv r =>
      have here : (f.step (.recv r)).link.outbound = f.link.outbound := by
        simp only [Feed.step, Link.step, Link.recv, if_pos connected, Link.become]
      rw [here]
      exact ⟨rfl, rfl⟩
    | popResponse => exact ⟨rfl, rfl⟩
    | popLatency => exact ⟨rfl, rfl⟩

theorem frames_deliveries_iff (row : List Sending) :
    (row.map fun s => s.order.message) = frames msgSize (row.flatMap Sending.delivered) ↔
      ∀ s ∈ row, Complete s := by
  constructor
  · intro same
    have fed : (row.map fun s => s.order.message).flatten.length =
        (row.map fun s => s.order.size).sum := by
      rw [List.length_flatten, List.map_map]
      congr 1
      exact List.map_congr_left fun s _ => s.order.length_message
    have whole := length_flatten_frames_le msgSize (row.flatMap Sending.delivered)
    rw [← same, fed, List.length_flatMap] at whole
    have full := eq_of_sum_le (fun s _ => length_delivered_le s) whole
    exact fun s listed => complete_of_length (full s listed)
  · intro complete
    have stream : row.flatMap Sending.delivered = (row.map fun s => s.order.message).flatten := by
      rw [List.flatMap_def]
      congr 1
      exact List.map_congr_left fun s listed => delivered_of_complete s (complete s listed)
    rw [stream, frames_flatten]
    intro m listed
    obtain ⟨s, -, rfl⟩ := List.mem_map.mp listed
    exact s.order.framed_message

/-- Whatever else the host does in between, the shadow book processes the messages the contestant
can read if and only if no send was dropped, failed or cut short. -/
theorem shadow_sees_stream_iff_complete (responses : Nat → ContestantResponse)
    (latencies : Nat → OrderLatency) (inbound : List Byte) (ops : List Op) :
    (ops.foldl Feed.step (Feed.start (Bridge.accepted responses latencies) inbound)).seen =
        readable (ops.foldl Feed.step (Feed.start (Bridge.accepted responses latencies) inbound)) ↔
      ∀ s ∈ sends ops, Complete s := by
  obtain ⟨outbound, seen⟩ :=
    feed_run ops (Feed.start (Bridge.accepted responses latencies) inbound) rfl
  rw [readable, outbound, seen]
  exact frames_deliveries_iff (sends ops)

/-- A `CANCEL_REQUEST`, with what an earlier order left behind it. -/
def sampleCancel (id : Byte) : BlastOrder where
  data := [11, 0, 0, 0, id, 0, 0, 0] ++ List.replicate 24 0 ++ List.replicate 32 7
  size := 32
  type := .cancelRequest
  whole := rfl
  kind := Or.inr rfl
  sized := rfl
  tagged := rfl

def sampleFeed (row : List Sending) : Feed :=
  (row.map Op.send).foldl Feed.step (Feed.start Bridge.sample [])

theorem shadow_sees_stream_iff_complete_entry_and_cancel :
    (sampleFeed [wroteOf (sampleEntry 1) 5 64 (by decide),
        wroteOf (sampleCancel 1) 6 32 (by decide)]).seen =
      readable (sampleFeed [wroteOf (sampleEntry 1) 5 64 (by decide),
        wroteOf (sampleCancel 1) 6 32 (by decide)]) :=
  (shadow_sees_stream_iff_complete (fun _ => default) (fun _ => default) []
    [.send (wroteOf (sampleEntry 1) 5 64 (by decide)),
      .send (wroteOf (sampleCancel 1) 6 32 (by decide))]).mpr (by decide)

/-- An order refused with `EAGAIN` reaches the shadow book only; after a write of 48 bytes the
contestant reads one message made of two orders. -/
theorem dropped_and_short_sends_part_streams :
    (sampleFeed [refused (sampleEntry 1) 5, wroteOf (sampleEntry 2) 6 64 (by decide)]).seen =
        [(sampleEntry 1).message, (sampleEntry 2).message] ∧
      readable (sampleFeed [refused (sampleEntry 1) 5,
        wroteOf (sampleEntry 2) 6 64 (by decide)]) = [(sampleEntry 2).message] ∧
      (sampleFeed [wroteOf (sampleEntry 1) 5 48 (by decide),
        wroteOf (sampleEntry 2) 6 64 (by decide)]).seen =
        [(sampleEntry 1).message, (sampleEntry 2).message] ∧
      readable (sampleFeed [wroteOf (sampleEntry 1) 5 48 (by decide),
        wroteOf (sampleEntry 2) 6 64 (by decide)]) =
        [(sampleEntry 1).message.take 48 ++ (sampleEntry 2).message.take 16] := by
  decide +kernel

end HftGrading.Sandbox.ShadowFeed
