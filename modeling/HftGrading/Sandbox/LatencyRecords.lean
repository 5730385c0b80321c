/- module: HftGrading/Sandbox/LatencyRecords
   source: sandbox/include/sandbox/sandbox_bridge.hpp
   digest: Two runs that differ in the contestant's time stamps: while every response answers a pending order, the latency records are the same. -/

import HftGrading.Sandbox.BridgeState

set_option autoImplicit false
set_option relaxedAutoImplicit false

namespace HftGrading.Sandbox.LatencyRecords

open Function (update)
open HftGrading.Lib.CountedRing HftGrading.Lib.StreamFraming HftGrading.Lib.PartialExecution
open WireBytes BridgeState

/-- An offset of the stream at which a response has its `recv_tsc` or `send_tsc`. -/
def Stamp (offset : Nat) : Prop := 24 ≤ offset % responseSize ∧ offset % responseSize < 40

instance (offset : Nat) : Decidable (Stamp offset) := inferInstanceAs (Decidable (_ ∧ _))

/-- Streams, read from an offset on, that differ in time stamps only. -/
def AgreeFrom (offset : Nat) (s s' : List Byte) : Prop :=
  s.length = s'.length ∧ ∀ i, ¬ Stamp (offset + i) → s[i]? = s'[i]?

section Streams

variable {offset : Nat} {s s' : List Byte}

theorem AgreeFrom.take (agree : AgreeFrom offset s s') (n : Nat) :
    AgreeFrom offset (s.take n) (s'.take n) := by
  refine ⟨by rw [List.length_take, List.length_take, agree.1], fun i other => ?_⟩
  rw [List.getElem?_take, List.getElem?_take, agree.2 i other]

theorem AgreeFrom.drop (agree : AgreeFrom offset s s') (n : Nat) :
    AgreeFrom (offset + n) (s.drop n) (s'.drop n) := by
  refine ⟨by rw [List.length_drop, List.length_drop, agree.1], fun i other => ?_⟩
  rw [Nat.add_assoc] at other
  rw [List.getElem?_drop, List.getElem?_drop, agree.2 (n + i) other]

theorem stamp_add_iff (aligned : responseSize ∣ offset) (i : Nat) :
    Stamp (offset + i) ↔ Stamp (0 + i) := by
  obtain ⟨k, rfl⟩ := aligned
  rw [Stamp, Stamp, Nat.mul_add_mod, Nat.zero_add]

theorem AgreeFrom.shift (agree : AgreeFrom offset s s') (aligned : responseSize ∣ offset) :
    AgreeFrom 0 s s' :=
  ⟨agree.1, fun i other => agree.2 i fun stamp => other ((stamp_add_iff aligned i).mp stamp)⟩

theorem AgreeFrom.orderId_eq (agree : AgreeFrom 0 s s') :
    (ContestantResponse.ofBytes s).orderId = (ContestantResponse.ofBytes s').orderId := by
  suffices front : s.take 4 = s'.take 4 from congrArg littleEndian front
  refine List.ext_getElem? fun i => ?_
  rw [List.getElem?_take, List.getElem?_take]
  split
  · refine agree.2 i fun stamp => ?_
    have low : 24 ≤ (0 + i) % 64 := stamp.1
    omega
  · rfl

theorem AgreeFrom.blocks (agree : AgreeFrom 0 s s') :
    List.Forall₂ (AgreeFrom 0) (blocks responseSize s) (blocks responseSize s') :=
  forall₂_blocks (by decide) (fun _ _ related => related.1)
    (fun _ _ related => related.take responseSize)
    (fun _ _ related => (related.drop responseSize).shift (by decide)) agree

end Streams

def Shares (b b' : Bridge) : Prop := ∃ responses, b' = { b with responses := responses }

def Known (b : Bridge) (block : List Byte) : Prop :=
  (b.findPending (ContestantResponse.ofBytes block).orderId).isSome

instance (b : Bridge) (block : List Byte) : Decidable (Known b block) :=
  inferInstanceAs (Decidable (_ = true))

section Bridges

variable {b b' : Bridge}

theorem keepResponse_shares (shares : Shares b b') (recvTsc : Nat)
    {resp resp' : ContestantResponse} (id : resp.orderId = resp'.orderId)
    (sent : resp.sendTsc = resp'.sendTsc) :
    Shares (b.keepResponse recvTsc resp) (b'.keepResponse recvTsc resp') := by
  obtain ⟨responses, rfl⟩ := shares
  refine ⟨update responses (b.respTail % responseRingSize) resp', ?_⟩
  unfold Bridge.keepResponse
  rw [id, sent]
  split
  · rfl
  · rfl

theorem takeResponse_shares (shares : Shares b b') (recvTsc : Nat) {block block' : List Byte}
    (agree : AgreeFrom 0 block block') (known : Known b block) :
    Shares (b.takeResponse recvTsc block) (b'.takeResponse recvTsc block') := by
  obtain ⟨responses, rfl⟩ := shares
  obtain ⟨i, found⟩ := Option.isSome_iff_exists.mp known
  have found' : ({ b with responses := responses } : Bridge).findPending
      (ContestantResponse.ofBytes block').orderId = some i := by
    rw [← agree.orderId_eq, ← found]
    simp only [Bridge.findPending]
  unfold Bridge.takeResponse Bridge.matchPending
  simp only [found, found']
  exact keepResponse_shares ⟨responses, rfl⟩ recvTsc agree.orderId_eq rfl

theorem takeResponses_shares (shares : Shares b b') (recvTsc : Nat) {row row' : List (List Byte)}
    (agree : List.Forall₂ (AgreeFrom 0) row row')
    (known : Obeys (always (Bridge.takeResponse · recvTsc)) Known b row) :
    Shares (row.foldl (Bridge.takeResponse · recvTsc) b)
      (row'.foldl (Bridge.takeResponse · recvTsc) b') := by
  induction agree generalizing b b' with
  | nil => exact shares
  | @cons block block' row row' here _ ih =>
    obtain ⟨now, later⟩ := known
    rw [List.foldl_cons, List.foldl_cons]
    exact ih (takeResponse_shares shares recvTsc here now) (later _ rfl)

theorem sendOrder_shares (shares : Shares b b') (s : Sending) :
    Shares (b.sendOrder s).1 (b'.sendOrder s).1 := by
  obtain ⟨responses, rfl⟩ := shares
  unfold Bridge.sendOrder
  dsimp only
  split
  · cases s.result <;> exact ⟨responses, rfl⟩
  · exact ⟨responses, rfl⟩

theorem popResponse_shares (shares : Shares b b') : Shares b.popResponse.2 b'.popResponse.2 := by
  obtain ⟨responses, rfl⟩ := shares
  unfold Bridge.popResponse
  dsimp only
  split <;> exact ⟨responses, rfl⟩

theorem popLatency_shares (shares : Shares b b') :
    Shares b.popLatency.2 b'.popLatency.2 ∧ b.popLatency.1 = b'.popLatency.1 := by
  obtain ⟨responses, rfl⟩ := shares
  unfold Bridge.popLatency
  dsimp only
  split <;> exact ⟨⟨responses, rfl⟩, rfl⟩

end Bridges

/-- A `recv` that brings whole responses starts between two of them, and each of them answers an
order that is pending when it is read. -/
def Attested (l : Link) : Op → Prop
  | .recv r => responseSize ≤ (l.chunk r).length →
      responseSize ∣ l.chunks.flatten.length ∧
        Obeys (always (Bridge.takeResponse · r.tsc)) Known l.bridge
          (blocks responseSize (l.chunk r))
  | _ => True

structure Alike (l l' : Link) : Prop where
  bridge : Shares l.bridge l'.bridge
  inbound : AgreeFrom l.chunks.flatten.length l.inbound l'.inbound
  recorded : l.recorded = l'.recorded
  reported : l.reported = l'.reported

section Steps

variable {l l' : Link}

theorem Alike.become_recorded (alike : Alike l l') {next next' : Bridge}
    (shares : Shares next next') : (l.become next).recorded = (l'.become next').recorded := by
  obtain ⟨responses, rfl⟩ := shares
  obtain ⟨before, same⟩ := alike.bridge
  rw [Link.become, Link.become, same]
  dsimp only
  rw [alike.recorded]

theorem Alike.connected_eq (alike : Alike l l') : l'.bridge.connected = l.bridge.connected := by
  obtain ⟨responses, same⟩ := alike.bridge
  rw [same]

theorem alike_recv (alike : Alike l l') (r : Read) (attested : Attested l (.recv r)) :
    Alike (l.recv r) (l'.recv r) := by
  have chunks : AgreeFrom l.chunks.flatten.length (l.chunk r) (l'.chunk r) := alike.inbound.take _
  have taken : Shares (l.bridge.takeChunk r.tsc (l.chunk r))
      (l'.bridge.takeChunk r.tsc (l'.chunk r)) := by
    unfold Bridge.takeChunk
    by_cases whole : responseSize ≤ (l.chunk r).length
    · obtain ⟨aligned, known⟩ := attested whole
      exact takeResponses_shares alike.bridge r.tsc (chunks.shift aligned).blocks known
    · rw [Nat.not_le] at whole
      rw [blocks_of_short whole, blocks_of_short (chunks.1 ▸ whole)]
      exact alike.bridge
  have rest : AgreeFrom (l.chunks ++ [l.chunk r]).flatten.length
      (l.inbound.drop (min r.bytes recvBufferSize))
      (l'.inbound.drop (min r.bytes recvBufferSize)) := by
    have dropped := alike.inbound.drop (min r.bytes recvBufferSize)
    rw [List.flatten_append, List.flatten_singleton, List.length_append, Link.chunk,
      List.length_take]
    by_cases enough : min r.bytes recvBufferSize ≤ l.inbound.length
    · rwa [Nat.min_eq_left enough]
    · -- Past the end of the stream nothing is left that could differ.
      rw [List.drop_eq_nil_of_le (by omega)] at dropped ⊢
      rw [List.drop_eq_nil_of_le (by rw [← alike.inbound.1]; omega)]
      exact ⟨rfl, fun _ _ => rfl⟩
  unfold Link.recv
  rw [alike.connected_eq]
  split
  · exact ⟨taken, rest, alike.become_recorded taken, alike.reported⟩
  · exact alike

theorem alike_step (alike : Alike l l') (op : Op) (attested : Attested l op) :
    Alike (l.step op) (l'.step op) := by
  cases op with
  | send s =>
    have sent := sendOrder_shares alike.bridge s
    simp only [Link.step, Link.send]
    rw [alike.connected_eq]
    split
    · exact ⟨sent, alike.inbound, alike.become_recorded sent, alike.reported⟩
    · exact ⟨sent, alike.inbound, alike.become_recorded sent, alike.reported⟩
  | recv r => exact alike_recv alike r attested
  | popResponse =>
    exact ⟨popResponse_shares alike.bridge, alike.inbound, alike.recorded, alike.reported⟩
  | popLatency =>
    obtain ⟨shares, same⟩ := popLatency_shares alike.bridge
    refine ⟨shares, alike.inbound, alike.recorded, ?_⟩
    simp only [Link.step, Link.popLatency, alike.reported, same]

theorem alike_run (alike : Alike l l') (ops : List Op)
    (attested : Obeys (always Link.step) Attested l ops) :
    Alike (ops.foldl Link.step l) (ops.foldl Link.step l') := by
  induction ops generalizing l l' with
  | nil => exact alike
  | cons op ops ih => exact ih (alike_step alike op attested.1) (attested.2 _ rfl)

end Steps

/-- While every response read answers a pending order, the records do not depend on the time
stamps the contestant writes. -/
theorem attested_runs_record_alike (responses : Nat → ContestantResponse)
    (latencies : Nat → OrderLatency) (stream stream' : List Byte)
    (agree : AgreeFrom 0 stream stream') (ops : List Op)
    (attested : Obeys (always Link.step) Attested
      (Link.start (Bridge.accepted responses latencies) stream) ops) :
    (ops.foldl Link.step (Link.start (Bridge.accepted responses latencies) stream)).recorded =
        (ops.foldl Link.step (Link.start (Bridge.accepted responses latencies) stream')).recorded ∧
      (ops.foldl Link.step (Link.start (Bridge.accepted responses latencies) stream)).reported =
        (ops.foldl Link.step
          (Link.start (Bridge.accepted responses latencies) stream')).reported := by
  have begun : Alike (Link.start (Bridge.accepted responses latencies) stream)
      (Link.start (Bridge.accepted responses latencies) stream') :=
    ⟨⟨responses, rfl⟩, agree, rfl, rfl⟩
  have ended := alike_run begun ops attested
  exact ⟨ended.recorded, ended.reported⟩

/-- A response to order 5 with a one-byte `send_tsc` of the contestant's choice. -/
def sampleStamped (sent : Byte) : List Byte :=
  5 :: List.replicate 31 0 ++ sent :: List.replicate 31 0

def attestedTest (l : Link) : Op → Bool
  | .recv r => !decide (responseSize ≤ (l.chunk r).length) ||
      (decide (responseSize ∣ l.chunks.flatten.length) &&
        obeysTest (always (Bridge.takeResponse · r.tsc)) (fun b block => decide (Known b block))
          l.bridge (blocks responseSize (l.chunk r)))
  | _ => true

theorem attested_of_test (l : Link) (op : Op) (passed : attestedTest l op = true) :
    Attested l op := by
  cases op with
  | recv r =>
    intro whole
    simp only [attestedTest, whole, decide_true, Bool.not_true, Bool.false_or,
      Bool.and_eq_true, decide_eq_true_eq] at passed
    exact ⟨passed.1, obeys_of_test (fun _ _ => of_decide_eq_true) _ _ passed.2⟩
  | send s => trivial
  | popResponse => trivial
  | popLatency => trivial

theorem agreeFrom_of_test {offset : Nat} {s s' : List Byte} (len : s.length = s'.length)
    (passed : ∀ i < s.length, ¬ Stamp (offset + i) → s[i]? = s'[i]?) : AgreeFrom offset s s' := by
  refine ⟨len, fun i other => ?_⟩
  by_cases inside : i < s.length
  · exact passed i inside other
  · rw [List.getElem?_eq_none (by omega), List.getElem?_eq_none (by omega)]

theorem attested_runs_record_alike_one_response :
    (sampleOps.foldl Link.step (Link.start Bridge.sample (sampleStamped 0))).recorded =
        (sampleOps.foldl Link.step (Link.start Bridge.sample (sampleStamped 199))).recorded ∧
      (sampleOps.foldl Link.step (Link.start Bridge.sample (sampleStamped 0))).reported =
        (sampleOps.foldl Link.step (Link.start Bridge.sample (sampleStamped 199))).reported :=
  attested_runs_record_alike (fun _ => default) (fun _ => default) (sampleStamped 0)
    (sampleStamped 199) (agreeFrom_of_test (by decide +kernel) (by decide +kernel)) sampleOps
    (obeys_of_test attested_of_test _ _ (by decide +kernel))

/-- The second response to an order finds no pending entry: a `send_tsc` the contestant wrote
itself is then recorded as the time of sending. -/
theorem second_response_times_itself :
    AgreeFrom 0 (sampleStamped 0 ++ sampleStamped 0) (sampleStamped 0 ++ sampleStamped 199) ∧
      (sampleOps.foldl Link.step
        (Link.start Bridge.sample (sampleStamped 0 ++ sampleStamped 0))).recorded =
        [⟨5, 100, 200, 100, false⟩] ∧
      (sampleOps.foldl Link.step
        (Link.start Bridge.sample (sampleStamped 0 ++ sampleStamped 199))).recorded =
        [⟨5, 100, 200, 100, false⟩, ⟨5, 199, 200, 1, false⟩] :=
  ⟨agreeFrom_of_test (by decide +kernel) (by decide +kernel), by decide +kernel, by decide +kernel⟩

end HftGrading.Sandbox.LatencyRecords
