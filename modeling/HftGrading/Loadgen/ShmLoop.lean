/- module: HftGrading/Loadgen/ShmLoop
   source: loadgen/include/loadgen/shm_engine.hpp
   digest: Every waiting bot has exactly one message between the engine and the exchange. -/

import HftGrading.Lib.OutstandingTickets
import HftGrading.Loadgen.ShmEngine

set_option autoImplicit false
set_option relaxedAutoImplicit false

namespace HftGrading.Loadgen.ShmLoop

open Function (update)
open Lib.PartialExecution Lib.OutstandingTickets HftGrading.Core
open Core.RingBuffer
  (Producer Consumer Consistent Pushing Popping consistent_init step_push step_pop
    produce_pushing consume_popping)
open ShmEngine

/-- The message a waiting bot has sent, as the fleet stores it. -/
def stored (fleet : BotFleet) (i : Nat) : Option Ticket :=
  if fleet.states i = .waiting then
    some ⟨fleet.botIds i, fleet.sequenceNums i, fleet.sendTsc i⟩
  else none

def due (fleet : BotFleet) : EnginePc → Nat → Option Ticket
  | .pushed _ i _ request => update (stored fleet) i (some request.ticket)
  | _ => stored fleet

/-- The response whose state update is to follow. -/
def received : EnginePc → List Ticket
  | .popped _ _ response => [response.ticket]
  | _ => []

def outstanding (capacity : UInt64) (s : System) : List Ticket :=
  received s.enginePc ++ s.inFlight capacity

section Phases

def Sends (pc : EnginePc) (producer : Producer ShmRequest) : Prop :=
  match pc with
  | .pushing _ _ _ request => Pushing request producer
  | _ => True

def Receives (pc : EnginePc) (consumer : Consumer ShmResponse) : Prop :=
  match pc with
  | .popping .. => Popping consumer
  | _ => True

def Takes (pc : ExchangePc) (consumer : Consumer ShmRequest) : Prop :=
  match pc with
  | .popping _ => Popping consumer
  | _ => True

def Replies (pc : ExchangePc) (producer : Producer ShmResponse) : Prop :=
  match pc with
  | .pushing _ response => Pushing response producer
  | _ => True

def Addressed (fleet : BotFleet) : EnginePc → Prop
  | .pushing _ i _ request | .pushed _ i _ request =>
    i < fleet.count ∧ fleet.states i = .idle ∧ request.botId = fleet.botIds i
  | _ => True

def Quiet : EnginePc → Prop
  | .returned _ | .bot .. | .receive .. => True
  | _ => False

variable {pc : EnginePc}

theorem quiet_afterSend (batch : Batch) (i recvs : Nat) : Quiet (afterSend batch i recvs) := by
  cases batch <;> trivial

theorem quiet_afterEmpty (receive : Receive) (recvs : Nat) : Quiet (afterEmpty receive recvs) := by
  cases receive <;> trivial

theorem quiet_afterReceive (receive : Receive) (recvs : Nat) :
    Quiet (afterReceive receive recvs) := by
  cases receive <;> trivial

theorem afterPush_pushing {request : ShmRequest} {producer : Producer ShmRequest}
    (going : Pushing request producer) (batch : Batch) (i recvs : Nat) :
    afterPush batch i recvs request producer = .pushing batch i recvs request := by
  cases going <;> rfl

theorem afterPop_popping {consumer : Consumer ShmResponse} (going : Popping consumer)
    (receive : Receive) (recvs : Nat) :
    afterPop receive recvs consumer = .popping receive recvs := by
  cases going <;> rfl

theorem afterTake_popping {consumer : Consumer ShmRequest} (going : Popping consumer)
    (count : Nat) : afterTake count consumer = .popping count := by
  cases going <;> rfl

namespace Quiet

variable (quiet : Quiet pc)
include quiet

theorem sends (producer : Producer ShmRequest) : Sends pc producer := by
  cases pc <;> trivial

theorem receives (consumer : Consumer ShmResponse) : Receives pc consumer := by
  cases pc <;> trivial

theorem addressed (fleet : BotFleet) : Addressed fleet pc := by
  cases pc <;> trivial

theorem due_eq (fleet : BotFleet) : due fleet pc = stored fleet := by
  cases pc <;> first | rfl | exact quiet.elim

theorem received_eq : received pc = [] := by
  cases pc <;> first | rfl | exact quiet.elim

end Quiet

end Phases

section Fleet

variable (fleet : BotFleet) (i : Nat)

theorem stored_sent {request : ShmRequest} (mine : request.botId = fleet.botIds i) :
    stored (fleet.sent i request) = update (stored fleet) i (some request.ticket) := by
  funext j
  by_cases same : j = i
  · rw [same, Function.update_self]
    simp only [stored, BotFleet.sent, Function.update_self, if_pos, ShmRequest.ticket, mine]
  · rw [Function.update_of_ne same]
    simp only [stored, BotFleet.sent, Function.update_of_ne same]

theorem stored_received (tsc : UInt64) :
    stored (fleet.received i tsc) = update (stored fleet) i none := by
  funext j
  by_cases same : j = i
  · rw [same, Function.update_self]
    simp only [stored, BotFleet.received, Function.update_self]
    rfl
  · rw [Function.update_of_ne same]
    simp only [stored, BotFleet.received, Function.update_of_ne same]

theorem stored_idle (idle : fleet.states i = .idle) : stored fleet i = none := by
  simp only [stored, idle]
  rfl

theorem states_update (states : ∀ j, j < fleet.count →
      fleet.states j = .idle ∨ fleet.states j = .waiting)
    {state : BotState} (new : state = .idle ∨ state = .waiting) (j : Nat) (bot : j < fleet.count) :
    update fleet.states i state j = .idle ∨ update fleet.states i state j = .waiting := by
  by_cases same : j = i
  · rw [same, Function.update_self]
    exact new
  · rw [Function.update_of_ne same]
    exact states j bot

variable {i}

theorem length_stored_sent (below : i < fleet.count) (idle : fleet.states i = .idle)
    {request : ShmRequest} (mine : request.botId = fleet.botIds i) :
    ((List.range fleet.count).filterMap (stored (fleet.sent i request))).length =
      ((List.range fleet.count).filterMap (stored fleet)).length + 1 := by
  have lengths := length_filterMap_update List.nodup_range (List.mem_range.mpr below)
    (stored fleet) (some request.ticket)
  rw [stored_idle fleet i idle] at lengths
  rw [stored_sent fleet i mine]
  exact lengths

theorem length_stored_received (below : i < fleet.count) {ticket : Ticket}
    (out : stored fleet i = some ticket) (tsc : UInt64) :
    ((List.range fleet.count).filterMap (stored (fleet.received i tsc))).length + 1 =
      ((List.range fleet.count).filterMap (stored fleet)).length := by
  have lengths := length_filterMap_update List.nodup_range (List.mem_range.mpr below)
    (stored fleet) none
  rw [out] at lengths
  rw [stored_received fleet i tsc]
  exact lengths

end Fleet

/-- What every interleaving keeps, for a fleet of `count` bots. -/
structure Coherent (capacity : UInt64) (count : Nat) (s : System) : Prop where
  count : s.fleet.count = count
  requests : Consistent capacity s.requests
  responses : Consistent capacity s.responses
  sends : Sends s.enginePc s.requests.producer
  receives : Receives s.enginePc s.responses.consumer
  takes : Takes s.exchangePc s.requests.consumer
  replies : Replies s.exchangePc s.responses.producer
  addressed : Addressed s.fleet s.enginePc
  ids : ∀ i, i < s.fleet.count → (s.fleet.botIds i).toNat = i
  states : ∀ i, i < s.fleet.count → s.fleet.states i = .idle ∨ s.fleet.states i = .waiting
  covers : Covers (fun ticket => ticket.botId.toNat) s.fleet.count (due s.fleet s.enginePc)
    (outstanding capacity s)
  balance : s.engine.totalSends - s.engine.totalRecvs =
    .ofNat ((List.range s.fleet.count).filterMap (stored s.fleet)).length

variable {capacity : UInt64} {bots : Nat} {s s' : System}

structure Exchanged (capacity : UInt64) (s s' : System) : Prop where
  fleet : s'.fleet = s.fleet
  engine : s'.engine = s.engine
  enginePc : s'.enginePc = s.enginePc
  producer : s'.requests.producer = s.requests.producer
  consumer : s'.responses.consumer = s.responses.consumer
  requests : Consistent capacity s'.requests
  responses : Consistent capacity s'.responses
  takes : Takes s'.exchangePc s'.requests.consumer
  replies : Replies s'.exchangePc s'.responses.producer
  inFlight : s'.inFlight capacity = s.inFlight capacity

theorem afterReply_pushing {response : ShmResponse} (going : Pushing response s.responses.producer)
    (count : Nat) : afterReply s count response = s := by
  unfold afterReply
  generalize s.responses.producer = producer at going
  cases going <;> rfl

theorem take_exchanged (coherent : Coherent capacity bots s)
    (masked : capacity &&& (capacity - 1) = 0) {count : Nat} (here : s.exchangePc = .popping count)
    {requests : ShmChannel ShmRequest}
    (moves : RingBuffer.step capacity s.requests .consume = some requests) :
    Exchanged capacity s
      { s with requests := requests, exchangePc := afterTake count requests.consumer } := by
  have consistent := coherent.requests.step masked moves
  have takes := coherent.takes
  rw [here] at takes
  obtain ⟨producer, outcome⟩ := consume_popping coherent.requests masked takes moves
  rcases outcome with ⟨going, same⟩ | ⟨empty, same⟩ | ⟨request, taken, front⟩
  · rw [afterTake_popping going]
    refine ⟨rfl, rfl, rfl, producer, rfl, consistent, coherent.responses, going, trivial, ?_⟩
    simp only [System.inFlight, here, same, ExchangePc.held]
  · rw [empty]
    refine ⟨rfl, rfl, rfl, producer, rfl, consistent, coherent.responses, trivial, trivial, ?_⟩
    simp only [System.inFlight, here, same, afterTake, ExchangePc.held]
  · rw [taken]
    refine ⟨rfl, rfl, rfl, producer, rfl, consistent, coherent.responses, trivial, trivial, ?_⟩
    simp only [System.inFlight, here, front, afterTake, ExchangePc.held, List.map_cons,
      List.map_nil, List.append_nil, List.append_assoc, List.singleton_append]
    rfl

theorem reply_exchanged (coherent : Coherent capacity bots s)
    (masked : capacity &&& (capacity - 1) = 0) {count : Nat} {response : ShmResponse}
    (here : s.exchangePc = .pushing count response) {responses : ShmChannel ShmResponse}
    (moves : RingBuffer.step capacity s.responses .produce = some responses) :
    Exchanged capacity s (afterReply { s with responses := responses } count response) := by
  have consistent := coherent.responses.step masked moves
  have replies := coherent.replies
  rw [here] at replies
  obtain ⟨consumer, outcome⟩ := produce_pushing coherent.responses masked replies moves
  rcases outcome with ⟨going, same⟩ | ⟨full, same⟩ | ⟨sent, grown⟩
  · rw [afterReply_pushing going]
    refine ⟨rfl, rfl, rfl, rfl, consumer, coherent.requests, consistent, ?_, ?_, ?_⟩
    · rw [here]
      trivial
    · rw [here]
      exact going
    · simp only [System.inFlight, same]
  · simp only [afterReply, full]
    refine ⟨rfl, rfl, rfl, rfl, consumer, coherent.requests, consistent, trivial, trivial, ?_⟩
    simp only [System.inFlight, here, same, ExchangePc.held]
  · simp only [afterReply, sent]
    refine ⟨rfl, rfl, rfl, rfl, consumer, coherent.requests, consistent, trivial, trivial, ?_⟩
    simp only [System.inFlight, here, grown, ExchangePc.held, List.map_append, List.map_cons,
      List.map_nil, List.append_nil]

theorem exchange_exchanged (coherent : Coherent capacity bots s)
    (masked : capacity &&& (capacity - 1) = 0) (moves : exchangeStep capacity s = some s') :
    Exchanged capacity s s' := by
  unfold exchangeStep at moves
  split at moves
  · next count here =>
      cases moves
      refine ⟨rfl, rfl, rfl, rfl, rfl, coherent.requests, coherent.responses, trivial, trivial, ?_⟩
      simp only [System.inFlight, here, ExchangePc.held]
  · next count here =>
      obtain ⟨requests, loads, made⟩ := Option.map_eq_some_iff.mp moves
      have consistent := coherent.requests.step masked loads
      have next := step_pop loads
      subst next
      cases made
      refine ⟨rfl, rfl, rfl, rfl, rfl, consistent, coherent.responses, .loaded _, trivial, ?_⟩
      simp only [System.inFlight, here, ExchangePc.held]
  · next count here =>
      obtain ⟨requests, accesses, made⟩ := Option.map_eq_some_iff.mp moves
      cases made
      exact take_exchanged coherent masked here accesses
  · next count response here =>
      obtain ⟨responses, loads, made⟩ := Option.map_eq_some_iff.mp moves
      have consistent := coherent.responses.step masked loads
      have next := step_push loads
      subst next
      cases made
      refine ⟨rfl, rfl, rfl, rfl, rfl, coherent.requests, consistent, trivial, .loaded _, ?_⟩
      simp only [System.inFlight, here, ExchangePc.held]
  · next count response here =>
      obtain ⟨responses, accesses, made⟩ := Option.map_eq_some_iff.mp moves
      cases made
      exact reply_exchanged coherent masked here accesses

theorem Exchanged.coherent (coherent : Coherent capacity bots s) (moves : Exchanged capacity s s') :
    Coherent capacity bots s' where
  count := by
    rw [moves.fleet]
    exact coherent.count
  requests := moves.requests
  responses := moves.responses
  sends := by
    rw [moves.enginePc, moves.producer]
    exact coherent.sends
  receives := by
    rw [moves.enginePc, moves.consumer]
    exact coherent.receives
  takes := moves.takes
  replies := moves.replies
  addressed := by
    rw [moves.enginePc, moves.fleet]
    exact coherent.addressed
  ids := by
    rw [moves.fleet]
    exact coherent.ids
  states := by
    rw [moves.fleet]
    exact coherent.states
  covers := by
    rw [outstanding, moves.inFlight, moves.enginePc, moves.fleet]
    exact coherent.covers
  balance := by
    rw [moves.engine, moves.fleet]
    exact coherent.balance

theorem pushed_keeps (coherent : Coherent capacity bots s) {batch : Batch} {i recvs : Nat}
    {request : ShmRequest} (here : s.enginePc = .pushed batch i recvs request) :
    Coherent capacity bots { s with
      fleet := s.fleet.sent i request
      engine.totalSends := s.engine.totalSends + 1
      enginePc := afterSend batch i recvs } := by
  have addressed := coherent.addressed
  have covers := coherent.covers
  rw [here] at addressed
  obtain ⟨below, idle, mine⟩ := addressed
  have quiet := quiet_afterSend batch i recvs
  refine { coherent with
    sends := quiet.sends _
    receives := quiet.receives _
    addressed := quiet.addressed _
    states := states_update s.fleet i coherent.states (.inr rfl)
    covers := ?_
    balance := ?_ }
  · rw [outstanding, quiet.due_eq, quiet.received_eq, stored_sent _ _ mine]
    rw [outstanding, here] at covers
    exact covers
  · have more := length_stored_sent s.fleet below idle mine
    calc s.engine.totalSends + 1 - s.engine.totalRecvs
        = s.engine.totalSends - s.engine.totalRecvs + 1 := add_sub_right_comm ..
      _ = .ofNat (((List.range s.fleet.count).filterMap (stored s.fleet)).length + 1) := by
          rw [coherent.balance, UInt64.ofNat_add]
          rfl
      _ = _ := congrArg UInt64.ofNat more.symm

theorem Coherent.response_due (coherent : Coherent capacity bots s) {receive : Receive} {recvs : Nat}
    {response : ShmResponse} (here : s.enginePc = .popped receive recvs response) :
    response.botId.toNat < s.fleet.count ∧
      stored s.fleet response.botId.toNat = some response.ticket := by
  have covers := coherent.covers
  rw [outstanding, here] at covers
  exact covers.front

theorem popped_keeps (coherent : Coherent capacity bots s) {receive : Receive} {recvs : Nat}
    {response : ShmResponse} (here : s.enginePc = .popped receive recvs response) (tsc : UInt64) :
    Coherent capacity bots { handleResponse s response tsc with
      enginePc := afterReceive receive (recvs + 1) } := by
  obtain ⟨below, out⟩ := coherent.response_due here
  have covers := coherent.covers
  rw [outstanding, here] at covers
  have quiet := quiet_afterReceive receive (recvs + 1)
  simp only [handleResponse, if_pos below]
  refine { coherent with
    sends := quiet.sends _
    receives := quiet.receives _
    addressed := quiet.addressed _
    states := states_update s.fleet _ coherent.states (.inl rfl)
    covers := ?_
    balance := ?_ }
  · rw [outstanding, quiet.due_eq, quiet.received_eq, stored_received]
    exact covers.settle
  · have less := length_stored_received s.fleet below out tsc
    calc s.engine.totalSends - (s.engine.totalRecvs + 1)
        = s.engine.totalSends - s.engine.totalRecvs - 1 := sub_add_eq_sub_sub ..
      _ = .ofNat _ - 1 := by rw [coherent.balance, ← less]
      _ = _ := by
          rw [UInt64.ofNat_add]
          exact add_sub_cancel_right _ _

theorem pushing_keeps (coherent : Coherent capacity bots s)
    (masked : capacity &&& (capacity - 1) = 0) {batch : Batch} {i recvs : Nat}
    {request : ShmRequest} (here : s.enginePc = .pushing batch i recvs request)
    {requests : ShmChannel ShmRequest}
    (moves : RingBuffer.step capacity s.requests .produce = some requests) :
    Coherent capacity bots { s with
      requests := requests
      enginePc := afterPush batch i recvs request requests.producer } := by
  have consistent := coherent.requests.step masked moves
  have sends := coherent.sends
  have addressed := coherent.addressed
  have covers := coherent.covers
  have takes := coherent.takes
  rw [here] at sends addressed
  rw [outstanding, here] at covers
  obtain ⟨consumer, outcome⟩ := produce_pushing coherent.requests masked sends moves
  rw [← consumer] at takes
  rcases outcome with ⟨going, same⟩ | ⟨full, same⟩ | ⟨sent, grown⟩
  · rw [afterPush_pushing going]
    refine { coherent with
      requests := consistent, sends := going, receives := trivial, takes := takes
      addressed := addressed, covers := ?_ }
    simpa only [outstanding, System.inFlight, same] using covers
  · rw [full]
    have quiet := quiet_afterSend batch i recvs
    refine { coherent with
      requests := consistent, sends := quiet.sends _, receives := quiet.receives _, takes := takes
      addressed := quiet.addressed _, covers := ?_ }
    simp only [outstanding, System.inFlight, same, afterPush, quiet.due_eq, quiet.received_eq]
    exact covers
  · rw [sent]
    obtain ⟨below, idle, mine⟩ := addressed
    refine { coherent with
      requests := consistent, sends := trivial, receives := trivial, takes := takes
      addressed := ⟨below, idle, mine⟩, covers := ?_ }
    have owner : request.ticket.botId.toNat = i := by
      rw [← coherent.ids i below, ← mine]
      rfl
    have issued := covers.issue below (stored_idle s.fleet i idle) owner
    simp only [outstanding, System.inFlight, grown, List.map_append, ← List.append_assoc]
    simp only [System.inFlight, ← List.append_assoc] at issued
    exact issued

theorem popping_keeps (coherent : Coherent capacity bots s)
    (masked : capacity &&& (capacity - 1) = 0) {receive : Receive} {recvs : Nat}
    (here : s.enginePc = .popping receive recvs) {responses : ShmChannel ShmResponse}
    (moves : RingBuffer.step capacity s.responses .consume = some responses) :
    Coherent capacity bots { s with
      responses := responses, enginePc := afterPop receive recvs responses.consumer } := by
  have consistent := coherent.responses.step masked moves
  have receives := coherent.receives
  have covers := coherent.covers
  have replies := coherent.replies
  rw [here] at receives
  rw [outstanding, here] at covers
  obtain ⟨producer, outcome⟩ := consume_popping coherent.responses masked receives moves
  rw [← producer] at replies
  rcases outcome with ⟨going, same⟩ | ⟨empty, same⟩ | ⟨response, taken, front⟩
  · rw [afterPop_popping going]
    refine { coherent with
      responses := consistent, sends := trivial, receives := going, replies := replies
      addressed := trivial, covers := ?_ }
    simpa only [outstanding, System.inFlight, same] using covers
  · rw [empty]
    have quiet := quiet_afterEmpty receive recvs
    refine { coherent with
      responses := consistent, sends := quiet.sends _, receives := quiet.receives _
      replies := replies, addressed := quiet.addressed _, covers := ?_ }
    simp only [outstanding, System.inFlight, same, afterPop, quiet.due_eq, quiet.received_eq]
    exact covers
  · rw [taken]
    refine { coherent with
      responses := consistent, sends := trivial, receives := trivial, replies := replies
      addressed := trivial, covers := ?_ }
    simp only [System.inFlight, front] at covers
    exact covers

theorem engine_keeps (coherent : Coherent capacity bots s)
    (masked : capacity &&& (capacity - 1) = 0) {tsc : UInt64}
    (moves : engineStep capacity s tsc = some s') : Coherent capacity bots s' := by
  have covers := coherent.covers
  unfold engineStep at moves
  split at moves
  · cases moves
  · next batch i recvs here =>
      rw [outstanding, here] at covers
      split_ifs at moves with below idle
      · obtain ⟨requests, loads, made⟩ := Option.map_eq_some_iff.mp moves
        have consistent := coherent.requests.step masked loads
        have next := step_push loads
        subst next
        cases made
        exact { coherent with
          requests := consistent, sends := .loaded _, receives := trivial
          addressed := ⟨below, idle, rfl⟩, covers := covers }
      · cases moves
        have quiet := quiet_afterSend batch i recvs
        refine { coherent with
          sends := quiet.sends _, receives := quiet.receives _, addressed := quiet.addressed _
          covers := ?_ }
        rw [outstanding, quiet.due_eq, quiet.received_eq]
        exact covers
      · cases moves
        exact { coherent with
          sends := trivial, receives := trivial, addressed := trivial, covers := covers }
  · next batch i recvs request here =>
      obtain ⟨requests, accesses, made⟩ := Option.map_eq_some_iff.mp moves
      cases made
      exact pushing_keeps coherent masked here accesses
  · next batch i recvs request here =>
      cases moves
      exact pushed_keeps coherent here
  · next receive recvs here =>
      rw [outstanding, here] at covers
      obtain ⟨responses, loads, made⟩ := Option.map_eq_some_iff.mp moves
      have consistent := coherent.responses.step masked loads
      have next := step_pop loads
      subst next
      cases made
      exact { coherent with
        responses := consistent, sends := trivial, receives := .loaded _, addressed := trivial
        covers := covers }
  · next receive recvs here =>
      obtain ⟨responses, accesses, made⟩ := Option.map_eq_some_iff.mp moves
      cases made
      exact popping_keeps coherent masked here accesses
  · next receive recvs response here =>
      cases moves
      exact popped_keeps coherent here tsc

theorem coherent_init (fleet : BotFleet)
    (ids : ∀ i, i < fleet.count → (fleet.botIds i).toNat = i)
    (idle : ∀ i, i < fleet.count → fleet.states i = .idle) (requests : UInt64 → ShmRequest)
    (responses : UInt64 → ShmResponse) :
    Coherent capacity fleet.count (System.init fleet requests responses) where
  count := rfl
  requests := consistent_init capacity requests
  responses := consistent_init capacity responses
  sends := trivial
  receives := trivial
  takes := trivial
  replies := trivial
  addressed := trivial
  ids := ids
  states i bot := .inl (idle i bot)
  covers := by
    have noRequest := (consistent_init capacity requests).popped_unread
    have noResponse := (consistent_init capacity responses).popped_unread
    have empty : outstanding capacity (System.init fleet requests responses) = [] := by
      simp only [outstanding, System.inFlight, System.init]
      rw [show (RingBuffer.System.init requests).ring.unread capacity = [] from noRequest,
        show (RingBuffer.System.init responses).ring.unread capacity = [] from noResponse]
      rfl
    rw [empty]
    exact Covers.nothing fun i bot => stored_idle fleet i (idle i bot)
  balance := by
    have none : (List.range fleet.count).filterMap (stored fleet) = [] :=
      List.filterMap_eq_nil_iff.mpr fun i bot =>
        stored_idle fleet i (idle i (List.mem_range.mp bot))
    simp only [System.init, none, sub_self]
    rfl

theorem step_keeps (coherent : Coherent capacity bots s) (masked : capacity &&& (capacity - 1) = 0)
    {action : Action} (moves : step capacity s action = some s') : Coherent capacity bots s' := by
  cases action with
  | runBatch batch =>
    have covers := coherent.covers
    simp only [step] at moves
    split at moves
    · next recvs here =>
        rw [outstanding, here] at covers
        cases moves
        exact { coherent with
          sends := trivial, receives := trivial, addressed := trivial, covers := covers }
    · cases moves
  | engine tsc => exact engine_keeps coherent masked moves
  | exchange => exact (exchange_exchanged coherent masked moves).coherent coherent

theorem run_coherent (masked : capacity &&& (capacity - 1) = 0) (start : Coherent capacity bots s)
    {schedule : List Action} (reached : run (step capacity) s schedule = some s') :
    Coherent capacity bots s' :=
  run_keeps (fun _ _ _ inv _ moves => step_keeps inv masked moves) start
    (obeys_of_forall (fun _ _ => trivial) s schedule) reached

section Settled

variable {pc : EnginePc}

theorem settled_due (settled : pc.Settled) (fleet : BotFleet) : due fleet pc = stored fleet := by
  cases pc <;> first | rfl | exact settled.elim

theorem settled_received (settled : pc.Settled) : received pc = [] := by
  cases pc <;> first | rfl | exact settled.elim

theorem length_waiting (fleet : BotFleet) :
    fleet.waiting.length = ((List.range fleet.count).filterMap (stored fleet)).length := by
  have agree : ∀ i, (stored fleet i).isSome = (fleet.states i == .waiting) := by
    intro i
    unfold stored
    split_ifs with waits
    · rw [waits]
      rfl
    · exact (beq_eq_false_iff_ne.mpr waits).symm
  rw [BotFleet.waiting, List.length_filterMap_eq_countP, List.countP_eq_length_filter]
  simp only [agree]

namespace Coherent

theorem carrying_eq (coherent : Coherent capacity bots s) (settled : s.enginePc.Settled) {i : Nat}
    (bot : i < bots) :
    s.carrying capacity i = if s.fleet.states i = .waiting then 1 else 0 := by
  have covers := coherent.covers
  rw [outstanding, settled_due settled, settled_received settled, List.nil_append,
    coherent.count] at covers
  rw [System.carrying, covers.count bot, stored]
  split_ifs <;> rfl

theorem bots_le (coherent : Coherent capacity bots s) : bots ≤ 2 ^ 32 := by
  by_contra many
  have last := coherent.ids (2 ^ 32) (by rw [coherent.count]; omega)
  have bound := (s.fleet.botIds (2 ^ 32)).toNat_lt
  omega

theorem waiting_eq (coherent : Coherent capacity bots s) :
    (s.engine.totalSends - s.engine.totalRecvs).toNat = s.fleet.waiting.length := by
  have few : s.fleet.waiting.length ≤ bots := by
    calc s.fleet.waiting.length ≤ (List.range s.fleet.count).length := List.length_filter_le ..
      _ = bots := by rw [List.length_range, coherent.count]
  have bound := coherent.bots_le
  rw [coherent.balance, ← length_waiting, UInt64.toNat_ofNat', Nat.mod_eq_of_lt (by omega)]

end Coherent

end Settled

/-- For every interleaving of the engine's batches with the exchange: away from a pending state
update a waiting bot has one message in flight and an idle bot none, the sends less the receives
are the waiting bots, and a response carries what its bot stored with its last send. -/
theorem waiting_bot_has_one_message (capacity : UInt64)
    (masked : capacity &&& (capacity - 1) = 0) (fleet : BotFleet)
    (ids : ∀ i, i < fleet.count → (fleet.botIds i).toNat = i)
    (idle : ∀ i, i < fleet.count → fleet.states i = .idle) (requests : UInt64 → ShmRequest)
    (responses : UInt64 → ShmResponse) (schedule : List Action) (s : System)
    (reached : run (step capacity) (System.init fleet requests responses) schedule = some s) :
    (s.enginePc.Settled → ∀ i, i < fleet.count →
      (s.fleet.states i = .waiting ↔ s.carrying capacity i = 1) ∧
        (s.fleet.states i = .idle ↔ s.carrying capacity i = 0)) ∧
      (s.engine.totalSends - s.engine.totalRecvs).toNat = s.fleet.waiting.length ∧
      ∀ receive recvs response, s.enginePc = .popped receive recvs response →
        response.botId.toNat < fleet.count ∧
          s.fleet.sequenceNums response.botId.toNat = response.seqNum.toUInt64 ∧
          s.fleet.sendTsc response.botId.toNat = response.sendTsc := by
  have coherent := run_coherent masked (coherent_init fleet ids idle requests responses) reached
  refine ⟨fun settled i bot => ?_, coherent.waiting_eq, fun receive recvs response here => ?_⟩
  · rw [coherent.carrying_eq settled bot]
    rcases coherent.states i (by rwa [coherent.count]) with rests | waits
    · simp [rests]
    · simp [waits]
  · obtain ⟨below, out⟩ := coherent.response_due here
    rw [coherent.count] at below
    simp only [stored, Option.ite_none_right_eq_some, Option.some.injEq, ShmResponse.ticket,
      Ticket.mk.injEq] at out
    exact ⟨below, out.2.2.1, out.2.2.2⟩

def pair : BotFleet :=
  ⟨2, fun i => .ofNat i, fun _ => 0, fun _ => .idle, fun _ => 0, fun _ => 0⟩

def crossing : List Action :=
  [.runBatch .tight, .engine 10, .engine 11, .engine 12, .engine 13, .engine 14, .engine 15,
    .engine 16, .engine 17, .exchange, .exchange, .engine 18, .engine 19, .exchange, .exchange,
    .exchange, .exchange, .exchange, .exchange, .exchange]

theorem waiting_bot_has_one_message_pair :
    (∃ s, run (step 1) (System.init pair (fun _ => ⟨0, 0, 0, 0⟩) fun _ => ⟨0, 0, 0, 0⟩)
        crossing = some s ∧ s.enginePc.Settled ∧
        s.fleet.states 0 = .waiting ∧ s.carrying 1 0 = 1 ∧
        s.fleet.states 1 = .idle ∧ s.carrying 1 1 = 0) ∧
      ∃ s, run (step 1) (System.init pair (fun _ => ⟨0, 0, 0, 0⟩) fun _ => ⟨0, 0, 0, 0⟩)
          (crossing ++ [.engine 20, .engine 21, .engine 22]) = some s ∧
        s.enginePc = .popped (.one 1) 0 ⟨0, 0, 10, 1⟩ ∧ s.fleet.sendTsc 0 = 10 ∧
        (s.engine.totalSends - s.engine.totalRecvs).toNat = s.fleet.waiting.length := by
  have answered := waiting_bot_has_one_message 1 (by decide) pair (by decide) (by decide)
    (fun _ => ⟨0, 0, 0, 0⟩) (fun _ => ⟨0, 0, 0, 0⟩) crossing _ rfl
  have received := waiting_bot_has_one_message 1 (by decide) pair (by decide) (by decide)
    (fun _ => ⟨0, 0, 0, 0⟩) (fun _ => ⟨0, 0, 0, 0⟩)
    (crossing ++ [.engine 20, .engine 21, .engine 22]) _ rfl
  refine ⟨⟨_, rfl, trivial, rfl, ((answered.1 trivial 0 (by decide)).1).mp rfl, rfl,
    ((answered.1 trivial 1 (by decide)).2).mp rfl⟩, _, rfl, rfl, ?_, received.2.1⟩
  exact (received.2.2 _ _ _ rfl).2.2

section Room

open List
open RingBuffer (SPSCRingBuffer PushCall)

/-- A `try_push` into a channel with a free slot goes on until it has succeeded. -/
theorem produce_finds_room {α : Type} {c c' : ShmChannel α} {item : α}
    (consistent : Consistent capacity c) (pushing : Pushing item c.producer)
    (free : (c.ring.unread capacity).length < capacity.toNat)
    (moves : RingBuffer.step capacity c .produce = some c') :
    Pushing item c'.producer ∨ c'.producer = .returned 1 := by
  obtain ⟨ring, -, refines⟩ := consistent
  have view := refines.producer
  rw [SPSCRingBuffer.unread, length_map, length_range] at free
  simp only [RingBuffer.step, RingBuffer.produce] at moves
  generalize c.producer = producer at pushing view moves
  cases pushing with
  | loaded w =>
    have small : ¬ w - c.ring.readPos ≥ capacity := by
      rw [view.1, ge_iff_le, UInt64.le_iff_toNat_le]
      exact Nat.not_le.mpr free
    cases moves
    simp only [PushCall.afterLoads, RingBuffer.tryPush, if_neg small]
    exact .inl (.writing w)
  | writing w =>
    cases moves
    exact .inl (.written w)
  | written =>
    cases moves
    exact .inr rfl

theorem Coherent.inFlight_lt (coherent : Coherent capacity bots s) {batch : Batch} {i recvs : Nat}
    {request : ShmRequest} (here : s.enginePc = .pushing batch i recvs request) :
    (s.inFlight capacity).length < bots := by
  have covers := coherent.covers
  have addressed := coherent.addressed
  rw [outstanding, here] at covers
  rw [here] at addressed
  obtain ⟨below, idle, mine⟩ := addressed
  have owner : request.ticket.botId.toNat = i := by
    rw [← coherent.ids i below, ← mine]
    rfl
  -- with the ticket of this request the queue still has at most one for each bot
  have issued := (covers.issue below (stored_idle s.fleet i idle) owner).perm.length_eq
  have few := issued.trans_le (length_filterMap_le ..)
  rwa [length_append, length_range, coherent.count] at few

/-- For every interleaving on channels with a slot for each bot: no push fails, so the engine
wastes no sequence number and the exchange never waits for room. -/
theorem roomy_channels_refuse_nothing (capacity : UInt64)
    (masked : capacity &&& (capacity - 1) = 0) (fleet : BotFleet)
    (ids : ∀ i < fleet.count, (fleet.botIds i).toNat = i)
    (idle : ∀ i < fleet.count, fleet.states i = .idle)
    (room : fleet.count ≤ capacity.toNat) (requests : UInt64 → ShmRequest)
    (responses : UInt64 → ShmResponse) (schedule : List Action) (s s' : System)
    (reached : run (step capacity) (System.init fleet requests responses) schedule = some s) :
    (∀ tsc batch i recvs request, s.enginePc = .pushing batch i recvs request →
      engineStep capacity s tsc = some s' →
      s'.enginePc = .pushing batch i recvs request ∨ s'.enginePc = .pushed batch i recvs request) ∧
    ∀ count response, s.exchangePc = .pushing count response →
      exchangeStep capacity s = some s' →
      s'.exchangePc = .pushing count response ∨ s'.exchangePc = .ready (count + 1) := by
  have coherent := run_coherent masked (coherent_init fleet ids idle requests responses) reached
  constructor
  · intro tsc batch i recvs request here moves
    have sends := coherent.sends
    rw [here] at sends
    have few := coherent.inFlight_lt here
    simp only [engineStep, here] at moves
    obtain ⟨channel, accesses, made⟩ := Option.map_eq_some_iff.mp moves
    cases made
    have free : (s.requests.ring.unread capacity).length < capacity.toNat := by
      simp only [System.inFlight, length_append, length_map] at few
      omega
    rcases produce_finds_room coherent.requests sends free accesses with going | sent
    · exact .inl (afterPush_pushing going batch i recvs)
    · rw [sent]
      exact .inr rfl
  · intro count response here moves
    have replies := coherent.replies
    rw [here] at replies
    simp only [exchangeStep, here] at moves
    obtain ⟨channel, accesses, made⟩ := Option.map_eq_some_iff.mp moves
    have free : (s.responses.ring.unread capacity).length < capacity.toNat := by
      -- the held response is one of the messages that are out
      have few := coherent.covers.perm.length_eq.trans_le (length_filterMap_le ..)
      simp only [outstanding, System.inFlight, here, ExchangePc.held, length_append,
        length_map, length_range, length_singleton, coherent.count] at few
      omega
    rw [← made]
    rcases produce_finds_room coherent.responses replies free accesses with going | sent
    · rw [afterReply_pushing going]
      exact .inl rfl
    · rw [afterReply, sent]
      exact .inr rfl

/-- Up to the push for bot 1, with the request of bot 0 still unread. -/
def brimming : List Action :=
  [.runBatch .plain, .engine 10, .engine 11, .engine 12, .engine 13, .engine 14, .engine 15]

/-- Up to the second reply, with the first still unread. -/
def answering : List Action :=
  brimming ++ [.engine 16, .engine 17, .engine 18] ++ List.replicate 14 .exchange

theorem pair_refused_nothing :
    (∃ s s', run (step 2) (System.init pair (fun _ => ⟨0, 0, 0, 0⟩) fun _ => ⟨0, 0, 0, 0⟩)
        brimming = some s ∧ engineStep 2 s 16 = some s' ∧
      (s.requests.ring.unread 2).length = 1 ∧ s.enginePc = .pushing .plain 1 0 ⟨1, 1, 15, 1⟩ ∧
      (s'.enginePc = .pushing .plain 1 0 ⟨1, 1, 15, 1⟩ ∨
        s'.enginePc = .pushed .plain 1 0 ⟨1, 1, 15, 1⟩)) ∧
    ∃ s s', run (step 2) (System.init pair (fun _ => ⟨0, 0, 0, 0⟩) fun _ => ⟨0, 0, 0, 0⟩)
        answering = some s ∧ exchangeStep 2 s = some s' ∧
      (s.responses.ring.unread 2).length = 1 ∧ s.exchangePc = .pushing 1 ⟨1, 1, 15, 1⟩ ∧
      (s'.exchangePc = .pushing 1 ⟨1, 1, 15, 1⟩ ∨ s'.exchangePc = .ready 2) := by
  constructor
  · refine ⟨_, _, rfl, rfl, rfl, rfl, ?_⟩
    exact (roomy_channels_refuse_nothing 2 (by decide) pair (by decide) (by decide) (by decide)
      (fun _ => ⟨0, 0, 0, 0⟩) (fun _ => ⟨0, 0, 0, 0⟩) brimming _ _ rfl).1 16 .plain 1 0 _ rfl rfl
  · refine ⟨_, _, rfl, rfl, rfl, rfl, ?_⟩
    exact (roomy_channels_refuse_nothing 2 (by decide) pair (by decide) (by decide) (by decide)
      (fun _ => ⟨0, 0, 0, 0⟩) (fun _ => ⟨0, 0, 0, 0⟩) answering _ _ rfl).2 1 _ rfl rfl

end Room

end HftGrading.Loadgen.ShmLoop
