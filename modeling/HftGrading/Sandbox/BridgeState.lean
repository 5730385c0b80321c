/- module: HftGrading/Sandbox/BridgeState
   source: sandbox/include/sandbox/sandbox_bridge.hpp
   digest: The bridge to a contestant: sends, the drain loop of responses, the two rings, and runs over a socket. -/

import HftGrading.Lib.CountedRing
import HftGrading.Lib.PartialExecution
import HftGrading.Sandbox.WireBytes

set_option autoImplicit false
set_option relaxedAutoImplicit false

namespace HftGrading.Sandbox.BridgeState

open Function (update)
open HftGrading.Lib.CountedRing HftGrading.Lib.StreamFraming
open WireBytes

structure OrderLatency where
  orderId : Nat
  sendTsc : Nat
  recvTsc : Nat
  latencyNs : Nat
  wasDropped : Bool
  deriving DecidableEq, Repr, Inhabited

structure BridgeStats where
  ordersSent : Nat
  responsesRecv : Nat
  drops : Nat
  partialSends : Nat
  recvErrors : Nat
  deriving DecidableEq, Repr

def responseRingSize : Nat := 65536

def latencyRingSize : Nat := 65536

def pendingTscSize : Nat := 4096

def recvBufferSize : Nat := 4096

/-- The bridge. Arrays are functions of the index; `connected` is `client_fd_ >= 0`. -/
structure Bridge where
  connected : Bool
  responses : Nat → ContestantResponse
  respHead : Nat
  respTail : Nat
  latencies : Nat → OrderLatency
  latHead : Nat
  latTail : Nat
  pendingTsc : Nat → Nat
  pendingOid : Nat → Nat
  stats : BridgeStats

/-- What `send` on the socket came back with: `EAGAIN`, another error, or how many bytes went. -/
inductive SendResult where
  | again
  | error
  | wrote (n : Nat)
  deriving DecidableEq, Repr

/-- One call of `send_order`: the order, the clock it reads and what the kernel does. -/
structure Sending where
  order : BlastOrder
  tsc : Nat
  result : SendResult
  fits : ∀ n, result = .wrote n → n ≤ order.size

def Sending.delivered (s : Sending) : List Byte :=
  match s.result with
  | .wrote n => s.order.data.take n
  | _ => []

namespace Bridge

variable (b : Bridge)

def recordLatency (oid send recv : Nat) (dropped : Bool) : Bridge :=
  { b with
    latencies := update b.latencies (b.latTail % latencyRingSize)
      { orderId := oid
        sendTsc := send
        recvTsc := recv
        latencyNs := if send < recv then recv - send else 0
        wasDropped := dropped }
    latTail := b.latTail + 1 }

def sendOrder (s : Sending) : Bridge × Bool :=
  if b.connected then
    match s.result with
    | .again =>
      ({ b with stats := { b.stats with drops := b.stats.drops + 1 } }.recordLatency 0 s.tsc 0 true,
        false)
    | .error => ({ b with stats := { b.stats with recvErrors := b.stats.recvErrors + 1 } }, false)
    | .wrote n =>
      let sent := b.stats.ordersSent + 1
      ({ b with
          pendingTsc := update b.pendingTsc (sent % pendingTscSize) s.tsc
          pendingOid := update b.pendingOid (sent % pendingTscSize) s.order.clientOrderId
          stats := { b.stats with
            -- A short write is counted, and the order counts as sent all the same.
            partialSends := if n < s.order.size then b.stats.partialSends + 1
              else b.stats.partialSends
            ordersSent := sent } },
        true)
  else (b, false)

def findPending (oid : Nat) : Option Nat :=
  (List.range pendingTscSize).find? fun i => b.pendingOid i == oid

/-- The scan of `recv_responses` for the send time of a response. -/
def matchPending (resp : ContestantResponse) : Bridge × ContestantResponse :=
  match b.findPending resp.orderId with
  | some i =>
    ({ b with pendingOid := update b.pendingOid i 0 }, { resp with sendTsc := b.pendingTsc i })
  | none => (b, resp)

def keepResponse (recvTsc : Nat) (resp : ContestantResponse) : Bridge :=
  let timed := if 0 < resp.sendTsc then b.recordLatency resp.orderId resp.sendTsc recvTsc false else b
  { timed with
    responses := update b.responses (b.respTail % responseRingSize) resp
    respTail := b.respTail + 1
    stats := { b.stats with responsesRecv := b.stats.responsesRecv + 1 } }

/-- One round of the inner loop of `recv_responses`, on one 64-byte block of the buffer. -/
def takeResponse (recvTsc : Nat) (block : List Byte) : Bridge :=
  let answer := b.matchPending { ContestantResponse.ofBytes block with recvTsc := recvTsc }
  answer.1.keepResponse recvTsc answer.2

/-- One round of the outer loop of `recv_responses`. The buffer is local to the call and the next
`recv` overwrites it: bytes behind the last whole block are not kept. -/
def takeChunk (recvTsc : Nat) (chunk : List Byte) : Bridge :=
  (blocks responseSize chunk).foldl (takeResponse · recvTsc) b

def popResponse : Option ContestantResponse × Bridge :=
  if b.respTail ≤ b.respHead then (none, b)
  else (some (b.responses (b.respHead % responseRingSize)), { b with respHead := b.respHead + 1 })

def popLatency : Option OrderLatency × Bridge :=
  if b.latTail ≤ b.latHead then (none, b)
  else (some (b.latencies (b.latHead % latencyRingSize)), { b with latHead := b.latHead + 1 })

/-- After `init` and `listen_and_accept`. The rings come from an arena as they are. -/
def accepted (responses : Nat → ContestantResponse) (latencies : Nat → OrderLatency) : Bridge where
  connected := true
  responses := responses
  respHead := 0
  respTail := 0
  latencies := latencies
  latHead := 0
  latTail := 0
  pendingTsc := fun _ => 0
  pendingOid := fun _ => 0
  stats := { ordersSent := 0, responsesRecv := 0, drops := 0, partialSends := 0, recvErrors := 0 }

theorem matchPending_kept (resp : ContestantResponse) :
    (b.matchPending resp).1 = { b with pendingOid := (b.matchPending resp).1.pendingOid } ∧
      (b.matchPending resp).2.untimed = resp.untimed := by
  unfold matchPending
  cases b.findPending resp.orderId with
  | none => exact ⟨rfl, rfl⟩
  | some i => exact ⟨rfl, rfl⟩

theorem keepResponse_kept (recvTsc : Nat) (resp : ContestantResponse) :
    b.keepResponse recvTsc resp =
      { b with
        responses := update b.responses (b.respTail % responseRingSize) resp
        respTail := b.respTail + 1
        latencies := (b.keepResponse recvTsc resp).latencies
        latTail := (b.keepResponse recvTsc resp).latTail
        stats := { b.stats with responsesRecv := b.stats.responsesRecv + 1 } } := by
  unfold keepResponse
  split
  · rfl
  · rfl

theorem takeResponse_stores (recvTsc : Nat) (block : List Byte) :
    ∃ resp : ContestantResponse, resp.untimed = (ContestantResponse.ofBytes block).untimed ∧
      b.takeResponse recvTsc block =
        { b with
          responses := update b.responses (b.respTail % responseRingSize) resp
          respTail := b.respTail + 1
          latencies := (b.takeResponse recvTsc block).latencies
          latTail := (b.takeResponse recvTsc block).latTail
          pendingOid := (b.takeResponse recvTsc block).pendingOid
          stats := { b.stats with responsesRecv := b.stats.responsesRecv + 1 } } := by
  obtain ⟨kept, same⟩ :=
    b.matchPending_kept { ContestantResponse.ofBytes block with recvTsc := recvTsc }
  refine ⟨_, same, ?_⟩
  unfold takeResponse
  generalize b.matchPending _ = answer at kept ⊢
  obtain ⟨matched, resp⟩ := answer
  dsimp only at kept ⊢
  rw [kept, keepResponse_kept]

theorem takeResponses_counts (recvTsc : Nat) (row : List (List Byte)) :
    (row.foldl (takeResponse · recvTsc) b).connected = b.connected ∧
      (row.foldl (takeResponse · recvTsc) b).respHead = b.respHead ∧
      (row.foldl (takeResponse · recvTsc) b).respTail = b.respTail + row.length ∧
      (row.foldl (takeResponse · recvTsc) b).stats =
        { b.stats with responsesRecv := b.stats.responsesRecv + row.length } := by
  induction row generalizing b with
  | nil => exact ⟨rfl, rfl, rfl, rfl⟩
  | cons block row ih =>
    obtain ⟨resp, -, stores⟩ := b.takeResponse_stores recvTsc block
    obtain ⟨connected, head, tail, stats⟩ := ih (b.takeResponse recvTsc block)
    rw [List.foldl_cons, List.length_cons, connected, head, tail, stats, stores]
    refine ⟨rfl, rfl, ?_, ?_⟩
    · exact Nat.add_right_comm b.respTail 1 row.length
    · exact congrArg (fun n => { b.stats with responsesRecv := n })
        (Nat.add_right_comm b.stats.responsesRecv 1 row.length)

theorem takeChunk_counts (recvTsc : Nat) (chunk : List Byte) :
    (b.takeChunk recvTsc chunk).connected = b.connected ∧
      (b.takeChunk recvTsc chunk).respHead = b.respHead ∧
      (b.takeChunk recvTsc chunk).respTail = b.respTail + chunk.length / responseSize ∧
      (b.takeChunk recvTsc chunk).stats =
        { b.stats with
          responsesRecv := b.stats.responsesRecv + chunk.length / responseSize } := by
  have counted := b.takeResponses_counts recvTsc (blocks responseSize chunk)
  rwa [length_blocks (by decide)] at counted

theorem connected_sendOrder (s : Sending) : (b.sendOrder s).1.connected = b.connected := by
  unfold sendOrder
  split
  · cases s.result <;> rfl
  · rfl

theorem connected_popResponse : b.popResponse.2.connected = b.connected := by
  unfold popResponse
  split <;> rfl

theorem connected_popLatency : b.popLatency.2.connected = b.connected := by
  unfold popLatency
  split <;> rfl

end Bridge

/-- The bridge on its socket. `outbound` is what the contestant has been sent, `inbound` what it
writes and the bridge has not received; the other lists are what the run has brought so far. -/
structure Link where
  bridge : Bridge
  outbound : List Byte
  inbound : List Byte
  chunks : List (List Byte)
  returned : List ContestantResponse
  recorded : List OrderLatency
  reported : List OrderLatency

/-- One `recv`: how many bytes the kernel would hand over, and the clock read after it. A call of
`recv_responses` is a row of them, until there is nothing to hand over. -/
structure Read where
  bytes : Nat
  tsc : Nat
  deriving DecidableEq, Repr

inductive Op where
  | send (s : Sending)
  | recv (r : Read)
  | popResponse
  | popLatency

namespace Link

variable (l : Link)

def become (next : Bridge) : Link :=
  { l with
    bridge := next
    recorded := l.recorded ++
      window (· % latencyRingSize) next.latencies l.bridge.latTail next.latTail }

def send (s : Sending) : Link :=
  let sent := l.become (l.bridge.sendOrder s).1
  if l.bridge.connected then { sent with outbound := l.outbound ++ s.delivered } else sent

/-- The bytes one `recv` puts into the buffer. -/
def chunk (r : Read) : List Byte := l.inbound.take (min r.bytes recvBufferSize)

def recv (r : Read) : Link :=
  if l.bridge.connected then
    { l.become (l.bridge.takeChunk r.tsc (l.chunk r)) with
      inbound := l.inbound.drop (min r.bytes recvBufferSize)
      chunks := l.chunks ++ [l.chunk r] }
  else l

def popResponse : Link :=
  { l with bridge := l.bridge.popResponse.2, returned := l.returned ++ l.bridge.popResponse.1.toList }

def popLatency : Link :=
  { l with bridge := l.bridge.popLatency.2, reported := l.reported ++ l.bridge.popLatency.1.toList }

def step : Op → Link
  | .send s => l.send s
  | .recv r => l.recv r
  | .popResponse => l.popResponse
  | .popLatency => l.popLatency

def start (bridge : Bridge) (inbound : List Byte) : Link where
  bridge := bridge
  outbound := []
  inbound := inbound
  chunks := []
  returned := []
  recorded := []
  reported := []

theorem connected_step (op : Op) : (l.step op).bridge.connected = l.bridge.connected := by
  cases op with
  | send s =>
    simp only [step, send]
    split
    · exact l.bridge.connected_sendOrder s
    · exact l.bridge.connected_sendOrder s
  | recv r =>
    simp only [step, recv]
    split
    · exact (l.bridge.takeChunk_counts r.tsc (l.chunk r)).1
    · rfl
  | popResponse => exact l.bridge.connected_popResponse
  | popLatency => exact l.bridge.connected_popLatency

end Link

def Bridge.sample : Bridge := Bridge.accepted (fun _ => default) (fun _ => default)

/-- An `ORDER_ENTRY` with a one-byte client id and zeros elsewhere. -/
def sampleEntry (id : Byte) : BlastOrder where
  data := [10, 0, 0, 0, id, 0, 0, 0] ++ List.replicate 56 0
  size := 64
  type := .orderEntry
  whole := rfl
  kind := Or.inl rfl
  sized := rfl
  tagged := rfl

/-- A send of which the kernel takes `n` bytes. -/
def wroteOf (order : BlastOrder) (tsc n : Nat) (fits : n ≤ order.size) : Sending where
  order := order
  tsc := tsc
  result := .wrote n
  fits := by
    intro m same
    cases same
    exact fits

def refused (order : BlastOrder) (tsc : Nat) : Sending where
  order := order
  tsc := tsc
  result := .again
  fits := by
    intro m same
    cases same

def sampleOps : List Op := [.send (wroteOf (sampleEntry 5) 100 64 (by decide)), .recv ⟨4096, 200⟩]

end HftGrading.Sandbox.BridgeState
