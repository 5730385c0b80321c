/- module: HftGrading/Sandbox/ThroughputFraction
   source: sandbox/include/sandbox/sandbox_bridge.hpp, orchestrator/include/orchestrator/contest_runner.hpp
   digest: The throughput is a fraction just while there are no more responses than orders. -/

import HftGrading.Sandbox.BridgeState
import Mathlib.Algebra.Order.Field.Basic
import Mathlib.Algebra.Order.Field.Rat

set_option autoImplicit false
set_option relaxedAutoImplicit false

namespace HftGrading.Sandbox.ThroughputFraction

open Lib.StreamFraming WireBytes BridgeState

def throughputScore (stats : BridgeStats) : ℚ :=
  if 0 < stats.ordersSent then (stats.responsesRecv : ℚ) / stats.ordersSent else 0

/-- No more responses than orders, and a throughput component between 0 and 1. -/
def IsFraction (stats : BridgeStats) : Prop :=
  stats.responsesRecv ≤ stats.ordersSent ∧ 0 ≤ throughputScore stats ∧ throughputScore stats ≤ 1

/-- The ids of the orders whose `send` the kernel took. -/
def asked : List Op → List Nat
  | [] => []
  | .send s :: ops =>
    match s.result with
    | .wrote _ => s.order.clientOrderId :: asked ops
    | _ => asked ops
  | _ :: ops => asked ops

/-- The order ids in the whole responses that the reads cut out of what the contestant writes. -/
def answered : List Byte → List Op → List Nat
  | _, [] => []
  | inbound, .recv r :: ops =>
    (blocks responseSize (inbound.take (min r.bytes recvBufferSize))).map
        (fun block => (ContestantResponse.ofBytes block).orderId) ++
      answered (inbound.drop (min r.bytes recvBufferSize)) ops
  | inbound, _ :: ops => answered inbound ops

theorem isFraction_iff (stats : BridgeStats) :
    IsFraction stats ↔ stats.responsesRecv ≤ stats.ordersSent := by
  refine ⟨fun fraction => fraction.1, fun fewer => ⟨fewer, ?_⟩⟩
  unfold throughputScore
  split
  case isTrue some =>
    have positive : (0 : ℚ) < stats.ordersSent := Nat.cast_pos.mpr some
    have less : (stats.responsesRecv : ℚ) ≤ stats.ordersSent := Nat.cast_le.mpr fewer
    exact ⟨div_nonneg (Nat.cast_nonneg _) positive.le, (div_le_one positive).mpr less⟩
  case isFalse => exact ⟨le_refl 0, zero_le_one⟩

section Counters

variable {b : Bridge}

theorem stats_popResponse : b.popResponse.2.stats = b.stats := by
  unfold Bridge.popResponse
  split <;> rfl

theorem stats_popLatency : b.popLatency.2.stats = b.stats := by
  unfold Bridge.popLatency
  split <;> rfl

end Counters

/-- Both counters of a connected bridge are lengths of lists of the trace. -/
theorem counters_run (ops : List Op) (l : Link) (connected : l.bridge.connected = true) :
    (ops.foldl Link.step l).bridge.stats.ordersSent =
        l.bridge.stats.ordersSent + (asked ops).length ∧
      (ops.foldl Link.step l).bridge.stats.responsesRecv =
        l.bridge.stats.responsesRecv + (answered l.inbound ops).length := by
  induction ops generalizing l with
  | nil => exact ⟨rfl, rfl⟩
  | cons op ops ih =>
    obtain ⟨sent, received⟩ := ih (l.step op) ((l.connected_step op).trans connected)
    rw [List.foldl_cons, sent, received]
    cases op with
    | send s =>
      simp only [Link.step, Link.send, connected, if_true, Link.become, Bridge.sendOrder, asked,
        answered]
      cases s.result with
      | again => exact ⟨rfl, rfl⟩
      | error => exact ⟨rfl, rfl⟩
      | wrote n => exact ⟨by simp only [List.length_cons]; omega, rfl⟩
    | recv r =>
      obtain ⟨-, -, -, stats⟩ := l.bridge.takeChunk_counts r.tsc (l.chunk r)
      simp only [Link.step, Link.recv, connected, if_true, Link.become, asked, answered, stats]
      rw [List.length_append, List.length_map, length_blocks (by decide), Link.chunk]
      exact ⟨trivial, Nat.add_assoc _ _ _⟩
    | popResponse =>
      simp only [Link.step, Link.popResponse, stats_popResponse, asked, answered, and_self]
    | popLatency =>
      simp only [Link.step, Link.popLatency, stats_popLatency, asked, answered, and_self]

/-- The throughput component is a fraction in every state of a run if and only if at no point of
the trace there are more responses than orders; so it is when every response names an order sent
before it and no order is answered twice. -/
theorem fraction_iff_solicited (responses : Nat → ContestantResponse)
    (latencies : Nat → OrderLatency) (inbound : List Byte) (ops : List Op) :
    ((∀ first, first <+: ops →
        IsFraction (first.foldl Link.step
          (Link.start (Bridge.accepted responses latencies) inbound)).bridge.stats) ↔
      ∀ first, first <+: ops → (answered inbound first).length ≤ (asked first).length) ∧
    ((∀ first, first <+: ops → (answered inbound first).Subperm (asked first)) →
      ∀ first, first <+: ops →
        IsFraction (first.foldl Link.step
          (Link.start (Bridge.accepted responses latencies) inbound)).bridge.stats) := by
  have counted : ∀ first : List Op, IsFraction (first.foldl Link.step
      (Link.start (Bridge.accepted responses latencies) inbound)).bridge.stats ↔
        (answered inbound first).length ≤ (asked first).length := by
    intro first
    obtain ⟨sent, received⟩ := counters_run first
      (Link.start (Bridge.accepted responses latencies) inbound) rfl
    rw [isFraction_iff, sent, received]
    simp only [Link.start, Bridge.accepted, Nat.zero_add]
  refine ⟨?_, fun own first begins => ?_⟩
  · exact forall_congr' fun first => imp_congr_right fun _ => counted first
  · exact (counted first).mpr (own first begins).length_le

def sampleFill : List Byte := [5, 0, 0, 0, 3] ++ List.replicate 59 0

def sent (id : Byte) (tsc : Nat) : Op := .send (wroteOf (sampleEntry id) tsc 64 le_rfl)

/-- Two orders, an answer to the second, an answer to the first. -/
def answeredTwo : List Op :=
  [sent 5 100, sent 6 110, .recv ⟨64, 200⟩, .popResponse, .recv ⟨64, 210⟩]

theorem answeredTwo_fraction :
    asked answeredTwo = [5, 6] ∧
      answered ([6] ++ List.replicate 63 0 ++ sampleFill) answeredTwo = [6, 5] ∧
      ∀ first, first <+: answeredTwo →
        IsFraction (first.foldl Link.step (Link.start Bridge.sample
          ([6] ++ List.replicate 63 0 ++ sampleFill))).bridge.stats := by
  refine ⟨by decide +kernel, by decide +kernel, ?_⟩
  refine (fraction_iff_solicited (fun _ => default) (fun _ => default)
    ([6] ++ List.replicate 63 0 ++ sampleFill) answeredTwo).2 ?_
  have each : ∀ first ∈ answeredTwo.inits,
      (answered ([6] ++ List.replicate 63 0 ++ sampleFill) first).Subperm (asked first) := by
    decide +kernel
  exact fun first begins => each first ((List.mem_inits _ _).mpr begins)

/-- Two fills for one order are two responses for one order: the component is 2. -/
theorem two_fills_score_two :
    (sampleOps.foldl Link.step
        (Link.start Bridge.sample (sampleFill ++ sampleFill))).bridge.stats.responsesRecv = 2 ∧
      (sampleOps.foldl Link.step
        (Link.start Bridge.sample (sampleFill ++ sampleFill))).bridge.stats.ordersSent = 1 ∧
      throughputScore (sampleOps.foldl Link.step
        (Link.start Bridge.sample (sampleFill ++ sampleFill))).bridge.stats = 2 := by
  decide +kernel

end HftGrading.Sandbox.ThroughputFraction
