/- module: HftGrading/Loadgen/ShmEngine
   source: loadgen/include/loadgen/shm_engine.hpp, loadgen/include/loadgen/bot_fleet.hpp
   digest: The load engine and the echo exchange on their two shared-memory channels. -/

import HftGrading.Core.RingBuffer

set_option autoImplicit false
set_option relaxedAutoImplicit false

namespace HftGrading.Loadgen.ShmEngine

open Function (update)
open Lib.PartialExecution HftGrading.Core

universe v

inductive BotState
  | idle | sending | waiting | received
  deriving DecidableEq, Repr

/-- The arrays of `BotFleet` that the engine reads or writes. -/
structure BotFleet where
  count : Nat
  botIds : Nat → UInt32
  sequenceNums : Nat → UInt64
  states : Nat → BotState
  sendTsc : Nat → UInt64
  recvTsc : Nat → UInt64

structure ShmRequest where
  botId : UInt32
  seqNum : UInt32
  sendTsc : UInt64
  valid : UInt8
  deriving DecidableEq, Repr

structure ShmResponse where
  botId : UInt32
  seqNum : UInt32
  sendTsc : UInt64
  valid : UInt8
  deriving DecidableEq, Repr

structure LatencySample where
  sendTsc : UInt64
  recvTsc : UInt64
  botId : UInt32
  seqNum : UInt32
  deriving DecidableEq, Repr

/-- `ShmChannel`, whose `try_push` and `try_pop` are those of the ring buffer; its capacity may
also be zero. -/
abbrev ShmChannel (α : Type v) := RingBuffer.System α

/-- The counters of `ShmEngine`. -/
structure Engine where
  totalSends : UInt64
  totalRecvs : UInt64
  nextSeq : UInt32
  deriving DecidableEq, Repr

/-- `run_batch` or `run_batch_tight`. -/
inductive Batch
  | plain | tight
  deriving DecidableEq, Repr

/-- Which `try_pop` of responses it is: the one after bot `i` in the tight loop, or that of the
loop of `recv_responses`. -/
inductive Receive
  | one (i : Nat)
  | drain
  deriving DecidableEq, Repr

/-- Where the engine thread is; `recvs` counts the responses of the current batch. -/
inductive EnginePc
  | returned (recvs : Nat)
  | bot (batch : Batch) (i recvs : Nat)
  | pushing (batch : Batch) (i recvs : Nat) (request : ShmRequest)
  | pushed (batch : Batch) (i recvs : Nat) (request : ShmRequest)
  | receive (receive : Receive) (recvs : Nat)
  | popping (receive : Receive) (recvs : Nat)
  | popped (receive : Receive) (recvs : Nat) (response : ShmResponse)
  deriving DecidableEq, Repr

/-- Where the exchange thread is; `count` is that of the current `process_batch`. -/
inductive ExchangePc
  | returned (count : Nat)
  | ready (count : Nat)
  | popping (count : Nat)
  | holding (count : Nat) (response : ShmResponse)
  | pushing (count : Nat) (response : ShmResponse)
  deriving DecidableEq, Repr

structure System where
  fleet : BotFleet
  engine : Engine
  enginePc : EnginePc
  totalProcessed : UInt64
  exchangePc : ExchangePc
  requests : ShmChannel ShmRequest
  responses : ShmChannel ShmResponse
  /-- What has been offered to the telemetry ring, whose answer is ignored. -/
  samples : List LatencySample

/-- A call of a batch, the next step of the engine with what `rdtsc` gives there, or the next
step of the exchange. -/
inductive Action
  | runBatch (batch : Batch)
  | engine (tsc : UInt64)
  | exchange
  deriving DecidableEq, Repr

def System.init (fleet : BotFleet) (requests : UInt64 → ShmRequest)
    (responses : UInt64 → ShmResponse) : System where
  fleet := fleet
  engine := ⟨0, 0, 0⟩
  enginePc := .returned 0
  totalProcessed := 0
  exchangePc := .returned 0
  requests := .init requests
  responses := .init responses
  samples := []

/-- On from bot `i` once its request has been sent, or could not be. -/
def afterSend (batch : Batch) (i recvs : Nat) : EnginePc :=
  match batch with
  | .plain => .bot .plain (i + 1) recvs
  | .tight => .receive (.one i) recvs

/-- On in or after the `try_push` of a request. -/
def afterPush (batch : Batch) (i recvs : Nat) (request : ShmRequest) :
    RingBuffer.Producer ShmRequest → EnginePc
  | .returned 0 => afterSend batch i recvs
  | .returned _ => .pushed batch i recvs request
  | _ => .pushing batch i recvs request

/-- On from a `try_pop` that found nothing. -/
def afterEmpty (receive : Receive) (recvs : Nat) : EnginePc :=
  match receive with
  | .one i => .bot .tight (i + 1) recvs
  | .drain => .returned recvs

/-- On in or after the `try_pop` of a response. -/
def afterPop (receive : Receive) (recvs : Nat) : RingBuffer.Consumer ShmResponse → EnginePc
  | .returned [] => afterEmpty receive recvs
  | .returned (response :: _) => .popped receive recvs response
  | _ => .popping receive recvs

def afterReceive (receive : Receive) (recvs : Nat) : EnginePc :=
  match receive with
  | .one i => .bot .tight (i + 1) recvs
  | .drain => .receive .drain recvs

def BotFleet.sent (fleet : BotFleet) (i : Nat) (request : ShmRequest) : BotFleet :=
  { fleet with
    sendTsc := update fleet.sendTsc i request.sendTsc
    sequenceNums := update fleet.sequenceNums i request.seqNum.toUInt64
    states := update fleet.states i .waiting }

def BotFleet.received (fleet : BotFleet) (botIdx : Nat) (recvTsc : UInt64) : BotFleet :=
  { fleet with
    recvTsc := update fleet.recvTsc botIdx recvTsc
    states := update fleet.states botIdx .idle }

/-- The handling of a response in `run_batch_tight` and `recv_responses`. -/
def handleResponse (s : System) (response : ShmResponse) (recvTsc : UInt64) : System :=
  let botIdx := response.botId.toNat
  let s := { s with engine.totalRecvs := s.engine.totalRecvs + 1 }
  if botIdx < s.fleet.count then
    { s with
      fleet := s.fleet.received botIdx recvTsc
      samples := s.samples ++ [⟨response.sendTsc, recvTsc, response.botId, response.seqNum⟩] }
  else s

def respond (request : ShmRequest) : ShmResponse :=
  ⟨request.botId, request.seqNum, request.sendTsc, 1⟩

/-- On in or after the `try_pop` of a request. -/
def afterTake (count : Nat) : RingBuffer.Consumer ShmRequest → ExchangePc
  | .returned [] => .returned count
  | .returned (request :: _) => .holding count (respond request)
  | _ => .popping count

/-- On in or after the `try_push` of a response, which is tried until it succeeds. -/
def afterReply (s : System) (count : Nat) (response : ShmResponse) : System :=
  match s.responses.producer with
  | .returned 0 => { s with exchangePc := .holding count response }
  | .returned _ =>
    { s with totalProcessed := s.totalProcessed + 1, exchangePc := .ready (count + 1) }
  | _ => s

section Threads

variable (capacity : UInt64)

/-- One step of the engine thread: a memory access of a channel operation, or its own work. -/
def engineStep (s : System) (tsc : UInt64) : Option System :=
  match s.enginePc with
  | .returned _ => none
  | .bot batch i recvs =>
    if i < s.fleet.count then
      if s.fleet.states i = .idle then
        let request : ShmRequest := ⟨s.fleet.botIds i, s.engine.nextSeq, tsc, 1⟩
        (RingBuffer.step capacity s.requests (.push (.tryPush request))).map fun requests =>
          { s with
            engine.nextSeq := s.engine.nextSeq + 1
            requests := requests
            enginePc := .pushing batch i recvs request }
      else some { s with enginePc := afterSend batch i recvs }
    else some { s with enginePc := .receive .drain recvs }
  | .pushing batch i recvs request =>
    (RingBuffer.step capacity s.requests .produce).map fun requests =>
      { s with
        requests := requests
        enginePc := afterPush batch i recvs request requests.producer }
  | .pushed batch i recvs request =>
    some { s with
      fleet := s.fleet.sent i request
      engine.totalSends := s.engine.totalSends + 1
      enginePc := afterSend batch i recvs }
  | .receive receive recvs =>
    (RingBuffer.step capacity s.responses (.pop .tryPop)).map fun responses =>
      { s with responses := responses, enginePc := .popping receive recvs }
  | .popping receive recvs =>
    (RingBuffer.step capacity s.responses .consume).map fun responses =>
      { s with
        responses := responses
        enginePc := afterPop receive recvs responses.consumer }
  | .popped receive recvs response =>
    some { handleResponse s response tsc with enginePc := afterReceive receive (recvs + 1) }

/-- One step of the exchange thread, which calls `process_batch` again and again. -/
def exchangeStep (s : System) : Option System :=
  match s.exchangePc with
  | .returned _ => some { s with exchangePc := .ready 0 }
  | .ready count =>
    (RingBuffer.step capacity s.requests (.pop .tryPop)).map fun requests =>
      { s with requests := requests, exchangePc := .popping count }
  | .popping count =>
    (RingBuffer.step capacity s.requests .consume).map fun requests =>
      { s with
        requests := requests
        exchangePc := afterTake count requests.consumer }
  | .holding count response =>
    (RingBuffer.step capacity s.responses (.push (.tryPush response))).map fun responses =>
      { s with responses := responses, exchangePc := .pushing count response }
  | .pushing count response =>
    (RingBuffer.step capacity s.responses .produce).map fun responses =>
      afterReply { s with responses := responses } count response

def step (s : System) : Action → Option System
  | .runBatch batch =>
    match s.enginePc with
    | .returned _ => some { s with enginePc := .bot batch 0 0 }
    | _ => none
  | .engine tsc => engineStep capacity s tsc
  | .exchange => exchangeStep capacity s

end Threads

structure Ticket where
  botId : UInt32
  sequenceNum : UInt64
  sendTsc : UInt64
  deriving DecidableEq, Repr

def ShmRequest.ticket (request : ShmRequest) : Ticket :=
  ⟨request.botId, request.seqNum.toUInt64, request.sendTsc⟩

def ShmResponse.ticket (response : ShmResponse) : Ticket :=
  ⟨response.botId, response.seqNum.toUInt64, response.sendTsc⟩

def ExchangePc.held : ExchangePc → List ShmResponse
  | .holding _ response | .pushing _ response => [response]
  | _ => []

def System.inFlight (capacity : UInt64) (s : System) : List Ticket :=
  (s.responses.ring.unread capacity).map ShmResponse.ticket ++
    s.exchangePc.held.map ShmResponse.ticket ++
    (s.requests.ring.unread capacity).map ShmRequest.ticket

def System.carrying (capacity : UInt64) (s : System) (i : Nat) : Nat :=
  (s.inFlight capacity).countP fun ticket => ticket.botId.toNat == i

def BotFleet.waiting (fleet : BotFleet) : List Nat :=
  (List.range fleet.count).filter fun i => fleet.states i == .waiting

/-- The engine thread is not between a channel operation and its state update. -/
def EnginePc.Settled : EnginePc → Prop
  | .pushed .. | .popped .. => False
  | _ => True

end HftGrading.Loadgen.ShmEngine
