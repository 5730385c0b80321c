/- module: HftGrading/Exchange/Gateway/ReceiveLoop
   source: exchange/src/exchange_local.cpp, exchange/include/exchange/gateway.hpp
   digest: The main loop of the local exchange handles the first message of every recv and no other. -/

import HftGrading.Sandbox.WireBytes

set_option autoImplicit false
set_option relaxedAutoImplicit false

namespace HftGrading.Exchange.Gateway.ReceiveLoop

open Lib.StreamFraming Sandbox.WireBytes

inductive Call
  | processOrder (order : List Byte)
  | processCancel (cancel : List Byte)
  deriving DecidableEq, Repr

def recvBufSize : Nat := 256

/-- The bytes one `recv` returns; none if the socket has none. -/
structure Read where
  chunk : List Byte
  fits : chunk.length ≤ recvBufSize

/-- The buffer of the main loop, which keeps its bytes from round to round, and the calls so far. -/
structure MainLoop where
  recvBuf : List Byte
  calls : List Call
  whole : recvBuf.length = recvBufSize

namespace MainLoop

/-- `recv` writes to the front of the buffer. -/
def fill (m : MainLoop) (r : Read) : MainLoop where
  recvBuf := r.chunk ++ m.recvBuf.drop r.chunk.length
  calls := m.calls
  whole := by
    have fits := r.fits
    rw [List.length_append, List.length_drop, m.whole]
    omega

/-- The type that `recv_from_contestant` returns, if it is that of a message. -/
def recvFromContestant (m : MainLoop) (r : Read) : Option MsgType :=
  if r.chunk = [] then none else (m.fill r).recvBuf.head?.bind peekMsgType

/-- The receiving part of one round of the main loop. -/
def receive (m : MainLoop) (r : Read) : MainLoop :=
  let filled := m.fill r
  match m.recvFromContestant r with
  | some .orderEntry =>
    { filled with calls := filled.calls ++ [.processOrder (filled.recvBuf.take 64)] }
  | some .cancelRequest =>
    { filled with calls := filled.calls ++ [.processCancel (filled.recvBuf.take 32)] }
  | _ => filled

def start (recvBuf : List Byte) (whole : recvBuf.length = recvBufSize) : MainLoop :=
  ⟨recvBuf, [], whole⟩

def run (m : MainLoop) (reads : List Read) : MainLoop := reads.foldl receive m

end MainLoop

/-- A message that a contestant may send. -/
structure Message where
  type : MsgType
  bytes : List Byte
  kind : type = .orderEntry ∨ type = .cancelRequest ∨ type = .heartbeat
  tagged : bytes.head? = some type.code
  sized : bytes.length = type.size
  deriving DecidableEq

namespace Message

/-- The call a message is due. -/
def call (m : Message) : Option Call :=
  match m.type with
  | .orderEntry => some (.processOrder m.bytes)
  | .cancelRequest => some (.processCancel m.bytes)
  | _ => none

theorem call_eq_none_iff (m : Message) : m.call = none ↔ m.type = .heartbeat := by
  rw [call]
  rcases m.kind with type | type | type <;> simp [type]

end Message

/-- Messages that one `recv` returns together. -/
structure Burst where
  messages : List Message
  fits : (messages.map Message.bytes).flatten.length ≤ recvBufSize

def Burst.read (b : Burst) : Read := ⟨(b.messages.map Message.bytes).flatten, b.fits⟩

section Receiving

variable (m : MainLoop)

theorem peekMsgType_code (type : MsgType) : peekMsgType type.code = some type := by
  cases type <;> rfl

theorem receive_burst (b : Burst) :
    (m.receive b.read).calls = m.calls ++ (b.messages.head?.bind Message.call).toList := by
  obtain ⟨messages, fits⟩ := b
  cases messages with
  | nil => exact (List.append_nil _).symm
  | cons first later =>
    obtain ⟨rest, bytes⟩ := List.head?_eq_some_iff.mp first.tagged
    have front : (m.fill (Burst.read ⟨first :: later, fits⟩)).recvBuf =
        first.bytes ++ ((later.map Message.bytes).flatten ++
          m.recvBuf.drop (((first :: later).map Message.bytes).flatten).length) := by
      rw [← List.append_assoc]
      rfl
    have own : (m.fill (Burst.read ⟨first :: later, fits⟩)).recvBuf.take first.type.size =
        first.bytes := by
      rw [front, List.take_left' first.sized]
    have type : m.recvFromContestant (Burst.read ⟨first :: later, fits⟩) = some first.type := by
      have some : (Burst.read ⟨first :: later, fits⟩).chunk ≠ [] := by
        simp [Burst.read, bytes]
      rw [MainLoop.recvFromContestant, if_neg some, front, bytes, List.cons_append,
        List.head?_cons, Option.bind_some, peekMsgType_code]
    rw [MainLoop.receive, type, List.head?_cons, Option.bind_some, Message.call]
    rcases first.kind with kind | kind | kind
    · rw [kind] at own ⊢
      exact congrArg (fun own => m.calls ++ [Call.processOrder own]) own
    · rw [kind] at own ⊢
      exact congrArg (fun own => m.calls ++ [Call.processCancel own]) own
    · rw [kind]
      exact (List.append_nil _).symm

theorem receive_bursts (bursts : List Burst) :
    (m.run (bursts.map Burst.read)).calls =
      m.calls ++ bursts.flatMap fun b => (b.messages.head?.bind Message.call).toList := by
  induction bursts generalizing m with
  | nil => exact (List.append_nil _).symm
  | cons b bursts ih =>
    show ((m.receive b.read).run (bursts.map Burst.read)).calls = _
    rw [ih, receive_burst, List.flatMap_cons, List.append_assoc]

theorem calls_due (messages : List Message) :
    messages.filterMap Message.call =
      (messages.head?.bind Message.call).toList ++ messages.tail.filterMap Message.call := by
  cases messages with
  | nil => rfl
  | cons first later =>
    rw [List.filterMap_cons, List.head?_cons, Option.bind_some, List.tail_cons]
    cases first.call with
    | none => rfl
    | some call => rfl

theorem no_calls_iff (messages : List Message) :
    messages.filterMap Message.call = [] ↔ ∀ msg ∈ messages, msg.type = .heartbeat := by
  rw [List.filterMap_eq_nil_iff]
  exact forall₂_congr fun msg _ => msg.call_eq_none_iff

/-- When every `recv` returns whole messages, each order and cancel is handed to the engine once
and in order exactly if no `recv` returns one behind another message. -/
theorem calls_right_iff_single (recvBuf : List Byte) (whole : recvBuf.length = recvBufSize)
    (bursts : List Burst) :
    ((MainLoop.start recvBuf whole).run (bursts.map Burst.read)).calls =
        (bursts.flatMap Burst.messages).filterMap Message.call ↔
      ∀ b ∈ bursts, ∀ msg ∈ b.messages.tail, msg.type = .heartbeat := by
  rw [receive_bursts, MainLoop.start, List.nil_append, List.filterMap_flatMap]
  constructor
  · intro same
    -- No burst makes more calls than are due for it, so with as many in all none makes fewer.
    have count := congrArg List.length same
    rw [List.length_flatMap, List.length_flatMap] at count
    have fewer : ∀ b ∈ bursts, (b.messages.head?.bind Message.call).toList.length ≤
        (b.messages.filterMap Message.call).length := by
      intro b _
      rw [calls_due b.messages, List.length_append]
      exact Nat.le_add_right _ _
    intro b member
    have all := eq_of_sum_le fewer count.ge b member
    rw [calls_due b.messages, List.length_append] at all
    exact (no_calls_iff _).mp (List.length_eq_zero_iff.mp (by omega))
  · intro single
    refine List.flatMap_congr fun b member => ?_
    rw [calls_due b.messages, (no_calls_iff _).mpr (single b member), List.append_nil]

end Receiving

def sampleOrder (byte : Byte) : Message :=
  ⟨.orderEntry, 10 :: List.replicate 63 byte, Or.inl rfl, rfl, rfl⟩

def sampleCancel (byte : Byte) : Message :=
  ⟨.cancelRequest, 11 :: List.replicate 31 byte, Or.inr (Or.inl rfl), rfl, rfl⟩

def heartbeat : Message :=
  ⟨.heartbeat, 20 :: List.replicate 31 0, Or.inr (Or.inr rfl), rfl, rfl⟩

theorem spaced_messages_handled :
    ((MainLoop.start (List.replicate 256 0) List.length_replicate).run
        (List.map Burst.read
          [⟨[sampleOrder 1, heartbeat], by decide⟩, ⟨[], by decide⟩,
            ⟨[sampleCancel 1], by decide⟩])).calls =
      [.processOrder (sampleOrder 1).bytes, .processCancel (sampleCancel 1).bytes] :=
  (calls_right_iff_single (List.replicate 256 0) List.length_replicate
    [⟨[sampleOrder 1, heartbeat], by decide⟩, ⟨[], by decide⟩, ⟨[sampleCancel 1], by decide⟩]).mpr
    (by decide)

/-- Two orders in one `recv`: the second is lost. One order in two: the first part, which ends
within the price, is completed with what the buffer held before. -/
theorem coalesced_and_split_orders_fail :
    ((MainLoop.start (List.replicate 256 0) List.length_replicate).run
        [⟨(sampleOrder 1).bytes ++ (sampleOrder 2).bytes, by rw [List.length_append]; decide⟩]).calls =
      [.processOrder (sampleOrder 1).bytes] ∧
    ((MainLoop.start (List.replicate 256 0) List.length_replicate).run
        [⟨(sampleOrder 1).bytes.take 12, by decide⟩,
          ⟨(sampleOrder 1).bytes.drop 12, by decide⟩]).calls ≠
      [.processOrder (sampleOrder 1).bytes] := by
  constructor
  · decide
  · decide

end HftGrading.Exchange.Gateway.ReceiveLoop
