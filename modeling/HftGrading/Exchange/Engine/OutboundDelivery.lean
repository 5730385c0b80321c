/- module: HftGrading/Exchange/Engine/OutboundDelivery
   source: exchange/include/exchange/match_engine.hpp
   digest: The outbound ring: what each operation enqueues, and what the pops hand out. -/

import HftGrading.Exchange.Book.CellBounds
import HftGrading.Exchange.Engine.Settlement
import HftGrading.Lib.CountedRing

set_option autoImplicit false
set_option relaxedAutoImplicit false

namespace HftGrading.Exchange.Engine.OutboundDelivery

open Lib.PartialExecution Lib.CountedRing WireProtocol Book.PriceMap Book.LimitBook
open Book.LimitBook.OrderBook (MatchResult)
open Book.CellBounds EngineState EngineSteps Settlement

variable {G : Type}

section Sending

/-- The step from `e` to `e'` has enqueued `msgs`, in this order and nothing else. -/
structure Sends (e e' : MatchEngine G) (msgs : List OutboundMsg) : Prop where
  outbound : e'.outbound = store (· % outboundQueueSize) e.outbound e.outboundTail msgs
  tail : e'.outboundTail = (e.outboundTail + msgs.length) % 4294967296
  head : e'.outboundHead = e.outboundHead

variable {e e' : MatchEngine G} {msgs : List OutboundMsg}

theorem sends_nil (bounded : e.outboundTail < 4294967296) : Sends e e [] :=
  ⟨rfl, (Nat.mod_eq_of_lt bounded).symm, rfl⟩

theorem Sends.bounded (sends : Sends e e' msgs) : e'.outboundTail < 4294967296 := by
  rw [sends.tail]
  exact Nat.mod_lt _ (by decide)

theorem Sends.enqueue (sends : Sends e e' msgs) (cid : Nat) (message : Message) :
    Sends e (e'.enqueueOutbound cid message) (msgs ++ [⟨message, cid⟩]) := by
  have slot : e'.outboundTail % outboundQueueSize =
      (e.outboundTail + msgs.length) % outboundQueueSize := by
    rw [sends.tail]
    unfold outboundQueueSize
    omega
  refine ⟨?_, ?_, sends.head⟩
  · rw [MatchEngine.enqueueOutbound, slot, store_append, ← sends.outbound]
    rfl
  · show succ32 e'.outboundTail = _
    rw [succ32, sends.tail, List.length_append, List.length_singleton]
    omega

theorem Sends.same {e'' : MatchEngine G} (sends : Sends e e' msgs)
    (outbound : e''.outbound = e'.outbound) (tail : e''.outboundTail = e'.outboundTail)
    (head : e''.outboundHead = e'.outboundHead) : Sends e e'' msgs :=
  ⟨by rw [outbound, sends.outbound], by rw [tail, sends.tail], by rw [head, sends.head]⟩

theorem Sends.sendFill (sends : Sends e e' msgs) (cid : Nat) (clientOid : UInt32)
    (exchangeOid : Nat) (side : Side) (price qty remaining : Int) (ts : Nat) :
    ∃ fill, Sends e (e'.sendFill cid clientOid exchangeOid side price qty remaining ts)
      (msgs ++ [⟨.fill fill, cid⟩]) := by
  have asked : Sends e { e' with book := e'.book.bestBidPrice.2.bestAskPrice.2 } msgs :=
    sends.same rfl rfl rfl
  exact ⟨_, asked.enqueue cid _⟩

theorem Sends.emitted_eq (sends : Sends e e' msgs) (bounded : e.outboundTail < 4294967296)
    (few : msgs.length ≤ outboundQueueSize) : emitted e e' = msgs := by
  unfold outboundQueueSize at few
  have count : (e'.outboundTail + 4294967296 - e.outboundTail) % 4294967296 = msgs.length := by
    rw [sends.tail]
    omega
  have cells : window (· % outboundQueueSize)
      (store (· % outboundQueueSize) e.outbound e.outboundTail msgs) e.outboundTail
      (e.outboundTail + msgs.length) =
      window (· % outboundQueueSize) e.outbound e.outboundTail e.outboundTail ++ msgs :=
    window_store (apart_mod outboundQueueSize) le_rfl msgs
      (Nat.add_le_add_left few e.outboundTail)
  rw [window_self, List.nil_append, ← sends.outbound, window, Nat.add_sub_cancel_left,
    List.range'_eq_map_range, List.map_map] at cells
  rw [emitted, count]
  exact cells

def Reports (msgs : List OutboundMsg) : Prop := ∀ msg ∈ msgs, ∃ fill, msg.message = .fill fill

theorem Sends.settleFill (sends : Sends e e' msgs) (cid : Nat) (order : OrderEntry) (ts : Nat)
    (filled : Int) (f : MatchResult) :
    ∃ more, Sends e (MatchEngine.settleFill cid order ts (e', filled) f).1 (msgs ++ more) ∧
      more.length = 2 ∧ Reports more := by
  generalize paid : (e'.contestants.applyFill (e'.book.pool.orders f.makerIdx).contestantId
    (e'.book.pool.orders f.makerIdx).side f.fillPrice f.fillQty).applyFill cid order.side
      f.fillPrice f.fillQty = c
  have booked : Sends e { e' with contestants := c } msgs := sends.same rfl rfl rfl
  obtain ⟨first, maker⟩ := booked.sendFill (e'.book.pool.orders f.makerIdx).contestantId
    (e'.book.pool.orders f.makerIdx).clientOrderId (e'.book.pool.orders f.makerIdx).exchangeId
    (e'.book.pool.orders f.makerIdx).side f.fillPrice f.fillQty
    (e'.book.pool.orders f.makerIdx).remainingQty ts
  obtain ⟨second, taker⟩ := maker.sendFill cid order.clientOrderId 0 order.side f.fillPrice
    f.fillQty (order.quantity - filled - f.fillQty) ts
  rw [List.append_assoc] at taker
  refine ⟨[⟨.fill first, (e'.book.pool.orders f.makerIdx).contestantId⟩, ⟨.fill second, cid⟩],
    ?_, rfl, ?_⟩
  · rw [MatchEngine.settleFill]
    simp only [paid]
    exact taker.same rfl rfl rfl
  · intro msg listed
    rcases List.mem_cons.mp listed with rfl | listed
    · exact ⟨first, rfl⟩
    · rw [List.mem_singleton.mp listed]
      exact ⟨second, rfl⟩

theorem Sends.settleFills (cid : Nat) (order : OrderEntry) (ts : Nat) (fills : List MatchResult)
    (filled : Int) (sends : Sends e e' msgs) :
    ∃ more, Sends e (fills.foldl (MatchEngine.settleFill cid order ts) (e', filled)).1
      (msgs ++ more) ∧ more.length = 2 * fills.length ∧ Reports more := by
  induction fills generalizing e' filled msgs with
  | nil => exact ⟨[], by rwa [List.append_nil], rfl, nofun⟩
  | cons f fills ih =>
    obtain ⟨pair, settled, two, reports⟩ := sends.settleFill cid order ts filled f
    obtain ⟨more, rest, count, reports'⟩ :=
      ih (MatchEngine.settleFill cid order ts (e', filled) f).2 settled
    refine ⟨pair ++ more, by rwa [List.append_assoc] at rest, ?_, ?_⟩
    · rw [List.length_append, two, count, List.length_cons]
      omega
    · intro msg listed
      rcases List.mem_append.mp listed with listed | listed
      · exact reports msg listed
      · exact reports' msg listed

/-- How `process_order` ends once `filled` is settled on the book `b`, and what it then sends. -/
inductive Closes (b : OrderBook) (cid : Nat) (order : OrderEntry) (filled : Int) (ts : Nat) :
    List OutboundMsg → Prop
  | rests {x : Nat} {b' : OrderBook} {exchangeOid : Nat}
      (wanted : order.quantity - filled > 0 ∧ order.orderType = .limit)
      (adds : b.addOrder cid order.clientOrderId order.side order.price (order.quantity - filled)
        ts = some (x, b')) (real : x ≠ nullIndex) :
      Closes b cid order filled ts [⟨.orderAck ⟨.accepted, order.clientOrderId, exchangeOid,
        order.price, order.quantity - filled⟩, cid⟩]
  | refused {b' : OrderBook} (wanted : order.quantity - filled > 0 ∧ order.orderType = .limit)
      (adds : b.addOrder cid order.clientOrderId order.side order.price (order.quantity - filled)
        ts = some (nullIndex, b')) :
      Closes b cid order filled ts []
  | done (ended : ¬ (order.quantity - filled > 0 ∧ order.orderType = .limit)) (some_fill : filled > 0) :
      Closes b cid order filled ts
        [⟨.orderAck ⟨.accepted, order.clientOrderId, 0, order.price, filled⟩, cid⟩]
  | unfilled (ended : ¬ (order.quantity - filled > 0 ∧ order.orderType = .limit))
      (no_fill : ¬ filled > 0) : Closes b cid order filled ts []

theorem Closes.few {b : OrderBook} {cid ts : Nat} {order : OrderEntry} {filled : Int}
    (closes : Closes b cid order filled ts msgs) : msgs.length ≤ 1 := by
  cases closes <;> simp

theorem Sends.restRemainder {cid ts : Nat} {order : OrderEntry} {filled : Int}
    {e'' : MatchEngine G} (sends : Sends e e' msgs)
    (returns : e'.restRemainder cid order filled ts = some e'') :
    ∃ more, Sends e e'' (msgs ++ more) ∧ Closes e'.book cid order filled ts more := by
  rw [MatchEngine.restRemainder] at returns
  split_ifs at returns with wanted some_fill
  · obtain ⟨⟨r, b⟩, adds, rest⟩ := Option.map_eq_some_iff.mp returns
    have stored : Sends e { e' with book := b } msgs := sends.same rfl rfl rfl
    simp only at rest
    split_ifs at rest with real
    · subst rest
      exact ⟨_, (stored.enqueue cid _).same rfl rfl rfl, .rests wanted adds real⟩
    · subst rest
      rw [not_not.mp real] at adds
      exact ⟨[], by rwa [List.append_nil], .refused wanted adds⟩
  · cases returns
    exact ⟨_, sends.enqueue cid _, .done wanted some_fill⟩
  · cases returns
    exact ⟨[], by rwa [List.append_nil], .unfilled wanted some_fill⟩

theorem executeOrder_sends {cid ts : Nat} {order : OrderEntry} (bounded : e.outboundTail < 4294967296)
    (returns : e.executeOrder cid order ts = some e') :
    ∃ fills b₁ told ends,
      e.book.matchOrder order.side order.price order.quantity cid 64 = some (fills, b₁) ∧
      Sends e e' (told ++ ends) ∧ told.length = 2 * fills.length ∧ Reports told ∧
      Closes (settledBook fills b₁) cid order (filledQty fills) ts ends := by
  obtain ⟨⟨fills, b₁⟩, matches_, -⟩ := Option.bind_eq_some_iff.mp returns
  rw [executeOrder_of_matchOrder matches_] at returns
  have counted : Sends e (afterMatch e cid b₁) [] := (sends_nil bounded).same rfl rfl rfl
  obtain ⟨told, settled, count, reports⟩ := counted.settleFills cid order ts fills 0
  obtain ⟨ends, sends, closes⟩ := settled.restRemainder returns
  obtain ⟨sum, book, -⟩ := settleFills_spec cid order ts fills (afterMatch e cid b₁, 0)
  rw [book, sum, Int.zero_add] at closes
  exact ⟨fills, b₁, told, ends, matches_, sends, count, reports, closes⟩

theorem executeOrder_few {cid ts : Nat} {order : OrderEntry} (bounded : e.outboundTail < 4294967296)
    (returns : e.executeOrder cid order ts = some e') :
    ∃ msgs, Sends e e' msgs ∧ msgs.length ≤ 129 := by
  obtain ⟨fills, b₁, told, ends, matches_, sends, count, -, closes⟩ :=
    executeOrder_sends bounded returns
  have few : fills.length ≤ 64 := matchOrder_few matches_
  have one := closes.few
  refine ⟨_, sends, ?_⟩
  rw [List.length_append, count]
  omega

theorem apply_sends (nextTick : G → Nat → MarketUpdate × G) (bounded : e.outboundTail < 4294967296)
    {op : EngineOp} (other : op ≠ .popOutbound) (returns : op.apply nextTick e = some e') :
    ∃ msgs, Sends e e' msgs ∧ msgs.length ≤ 129 := by
  have nothing := sends_nil bounded
  cases op with
  | popOutbound => exact absurd rfl other
  | registerContestant cash =>
    cases returns
    exact ⟨[], nothing.same rfl rfl rfl, Nat.zero_le _⟩
  | generateTick ts =>
    cases returns
    exact ⟨[], nothing.same rfl rfl rfl, Nat.zero_le _⟩
  | processOrder cid order ts =>
    change e.processOrder cid order ts = some e' at returns
    rw [MatchEngine.processOrder] at returns
    split_ifs at returns with unknown
    · cases returns
      exact ⟨[], nothing, Nat.zero_le _⟩
    · cases rejection : e.orderRejection cid order with
      | none =>
        rw [rejection] at returns
        exact executeOrder_few bounded returns
      | some status =>
        rw [rejection] at returns
        cases returns
        exact ⟨_, nothing.enqueue cid _, by simp⟩
  | processCancel cid cancel ts =>
    rcases processCancel_cases returns with ⟨r, b, -, rfl⟩ | rfl
    · refine ⟨_, Sends.enqueue (nothing.same ?_ ?_ ?_) cid _, by simp⟩
      all_goals rfl
    · exact ⟨_, nothing.enqueue cid _, by simp⟩

end Sending

/-- An engine with the record of what was enqueued and what the pops have returned. -/
structure Delivery (G : Type) where
  engine : MatchEngine G
  enqueued : List OutboundMsg
  popped : List OutboundMsg

namespace Delivery

def start (cfg : MatchEngineConfig) (gen : G) : Delivery G := ⟨MatchEngine.init cfg gen, [], []⟩

def after (d : Delivery G) (e' : MatchEngine G) : EngineOp → Delivery G
  | .popOutbound => ⟨e', d.enqueued, d.popped ++ d.engine.popOutbound.1.toList⟩
  | _ => ⟨e', d.enqueued ++ emitted d.engine e', d.popped⟩

theorem after_other (d : Delivery G) (e' : MatchEngine G) {op : EngineOp}
    (other : op ≠ .popOutbound) :
    d.after e' op = ⟨e', d.enqueued ++ emitted d.engine e', d.popped⟩ := by
  cases op with
  | popOutbound => exact absurd rfl other
  | _ => rfl

def step (nextTick : G → Nat → MarketUpdate × G) (d : Delivery G) (op : EngineOp) :
    Option (Delivery G) :=
  (op.apply nextTick d.engine).map fun e' => d.after e' op

/-- After the operation no more messages wait than the ring has cells. -/
def Roomy (nextTick : G → Nat → MarketUpdate × G) (d : Delivery G) (op : EngineOp) : Prop :=
  ∀ d', d.step nextTick op = some d' →
    d'.enqueued.length ≤ d'.popped.length + outboundQueueSize

def roomyTest (nextTick : G → Nat → MarketUpdate × G) (d : Delivery G) (op : EngineOp) : Bool :=
  (d.step nextTick op).all fun d' =>
    decide (d'.enqueued.length ≤ d'.popped.length + outboundQueueSize)

theorem roomy_of_test (nextTick : G → Nat → MarketUpdate × G) (d : Delivery G) (op : EngineOp)
    (passed : roomyTest nextTick d op = true) : Roomy nextTick d op := by
  intro d' move
  rw [roomyTest, move] at passed
  exact of_decide_eq_true passed

structure Sound (d : Delivery G) : Prop where
  taken : d.popped.length ≤ d.enqueued.length
  room : d.enqueued.length ≤ d.popped.length + outboundQueueSize
  head : d.engine.outboundHead = d.popped.length % 4294967296
  tail : d.engine.outboundTail = d.enqueued.length % 4294967296
  queued : d.enqueued = d.popped ++
    window (· % outboundQueueSize) d.engine.outbound d.popped.length d.enqueued.length

theorem sound_start (cfg : MatchEngineConfig) (gen : G) : (start cfg gen).Sound :=
  ⟨le_rfl, Nat.zero_le _, rfl, rfl, rfl⟩

variable {d d' : Delivery G}

theorem Sound.bounded (sound : d.Sound) : d.engine.outboundTail < 4294967296 := by
  rw [sound.tail]
  exact Nat.mod_lt _ (by decide)

theorem Sound.ends_meet (sound : d.Sound) :
    d.engine.outboundHead = d.engine.outboundTail ↔ d.popped.length = d.enqueued.length := by
  have taken := sound.taken
  have room := sound.room
  unfold outboundQueueSize at room
  rw [sound.head, sound.tail]
  omega

theorem Sound.pop (sound : d.Sound) (waiting : d.popped.length < d.enqueued.length) :
    ∃ msg, d.engine.popOutbound =
        (some msg, { d.engine with outboundHead := succ32 d.engine.outboundHead }) ∧
      Sound ⟨{ d.engine with outboundHead := succ32 d.engine.outboundHead }, d.enqueued,
        d.popped ++ [msg]⟩ := by
  have slot : d.engine.outboundHead % outboundQueueSize = d.popped.length % outboundQueueSize := by
    rw [sound.head]
    unfold outboundQueueSize
    omega
  refine ⟨d.engine.outbound (d.popped.length % outboundQueueSize), ?_, ?_, ?_, ?_, sound.tail, ?_⟩
  · rw [MatchEngine.popOutbound, if_neg (fun same => by
      have all := sound.ends_meet.mp same
      omega), slot]
  · rw [List.length_append, List.length_singleton]
    exact waiting
  · have room := sound.room
    rw [List.length_append, List.length_singleton]
    simp only
    omega
  · show succ32 d.engine.outboundHead = _
    rw [succ32, sound.head, List.length_append, List.length_singleton]
    omega
  · have queued := sound.queued
    rw [window_pop waiting] at queued
    rw [List.length_append, List.length_singleton, List.append_assoc, List.singleton_append]
    exact queued

theorem Sound.send (sound : d.Sound) {e' : MatchEngine G} {msgs : List OutboundMsg}
    (sends : Sends d.engine e' msgs)
    (room : d.enqueued.length + msgs.length ≤ d.popped.length + outboundQueueSize) :
    Sound ⟨e', d.enqueued ++ msgs, d.popped⟩ := by
  have taken := sound.taken
  have cells : e'.outbound =
      store (· % outboundQueueSize) d.engine.outbound d.enqueued.length msgs := by
    rw [sends.outbound, sound.tail]
    apply store_congr
    intro k
    unfold outboundQueueSize
    omega
  refine ⟨?_, ?_, ?_, ?_, ?_⟩
  · show d.popped.length ≤ (d.enqueued ++ msgs).length
    rw [List.length_append]
    omega
  · show (d.enqueued ++ msgs).length ≤ d.popped.length + outboundQueueSize
    rwa [List.length_append]
  · rw [sends.head, sound.head]
  · show e'.outboundTail = (d.enqueued ++ msgs).length % 4294967296
    rw [sends.tail, sound.tail, List.length_append]
    omega
  · show d.enqueued ++ msgs = d.popped ++ window (· % outboundQueueSize) e'.outbound
      d.popped.length (d.enqueued ++ msgs).length
    rw [List.length_append, cells, window_store (apart_mod outboundQueueSize) taken msgs room,
      ← List.append_assoc, ← sound.queued]

theorem Sound.step (nextTick : G → Nat → MarketUpdate × G) (sound : d.Sound) {op : EngineOp}
    (room : Roomy nextTick d op) (move : d.step nextTick op = some d') : d'.Sound := by
  have roomy := room d' move
  by_cases pop : op = .popOutbound
  · subst pop
    cases move
    show Sound ⟨d.engine.popOutbound.2, d.enqueued, d.popped ++ d.engine.popOutbound.1.toList⟩
    by_cases waiting : d.popped.length < d.enqueued.length
    · obtain ⟨msg, pops, after⟩ := sound.pop waiting
      rw [pops]
      exact after
    · have taken := sound.taken
      have none : d.engine.popOutbound = (none, d.engine) := by
        rw [MatchEngine.popOutbound, if_pos (sound.ends_meet.mpr (by omega))]
      rw [none]
      show Sound ⟨d.engine, d.enqueued, d.popped ++ []⟩
      rwa [List.append_nil]
  · obtain ⟨e', returns, record⟩ := Option.map_eq_some_iff.mp move
    obtain ⟨msgs, sends, few⟩ := apply_sends nextTick sound.bounded pop returns
    rw [after_other d e' pop,
      sends.emitted_eq sound.bounded (by unfold outboundQueueSize; omega)] at record
    rw [← record] at roomy ⊢
    rw [List.length_append] at roomy
    exact sound.send sends roomy

/-- One round of popping until `pop_outbound` returns false. -/
def drainRound (s : MatchEngine G × List OutboundMsg) :
    Option ((MatchEngine G × List OutboundMsg) ⊕ List OutboundMsg) :=
  match s.1.popOutbound with
  | (none, _) => some (.inr s.2)
  | (some msg, e) => some (.inl (e, s.2 ++ [msg]))

/-- Everything handed out until `pop_outbound` returns false; the ends are 32-bit counters. -/
def drain (e : MatchEngine G) : Option (List OutboundMsg) := loop drainRound 4294967296 (e, [])

theorem Sound.drain (sound : d.Sound) :
    ∃ rest, drain d.engine = some rest ∧ d.popped ++ rest = d.enqueued := by
  refine loop_returns drainRound
    (fun s => Sound ⟨s.1, d.enqueued, d.popped ++ s.2⟩)
    (fun s => d.enqueued.length - (d.popped ++ s.2).length)
    (fun rest => d.popped ++ rest = d.enqueued) ?_ 4294967296 (d.engine, []) ?_ ?_
  · rintro ⟨e, taken⟩ inv
    by_cases waiting : (d.popped ++ taken).length < d.enqueued.length
    · obtain ⟨msg, pops, after⟩ := inv.pop waiting
      refine .inl ⟨({ e with outboundHead := succ32 e.outboundHead }, taken ++ [msg]), ?_, ?_, ?_⟩
      · simp only [drainRound]
        rw [pops]
      · rw [← List.append_assoc]
        exact after
      · simp only [List.length_append, List.length_singleton] at waiting ⊢
        omega
    · have all : (d.popped ++ taken).length = d.enqueued.length :=
        Nat.le_antisymm inv.taken (not_lt.mp waiting)
      refine .inr ⟨taken, ?_, ?_⟩
      · have none : e.popOutbound = (none, e) := by
          rw [MatchEngine.popOutbound, if_pos (inv.ends_meet.mpr all)]
        simp only [drainRound, none]
      · have queued := inv.queued
        rw [all, window_self, List.append_nil] at queued
        exact queued.symm
  · rwa [List.append_nil]
  · have room := sound.room
    unfold outboundQueueSize at room
    rw [List.append_nil]
    omega

end Delivery

open Delivery in
/-- While no more than 4096 messages ever wait, the pops return the enqueued messages in order,
and a drain returns all that remain. -/
theorem outbound_delivered_in_order (cfg : MatchEngineConfig) (nextTick : G → Nat → MarketUpdate × G)
    (gen : G) (ops : List EngineOp)
    (room : Obeys (Delivery.step nextTick) (Roomy nextTick) (Delivery.start cfg gen) ops)
    (d : Delivery G) (returns : run (Delivery.step nextTick) (Delivery.start cfg gen) ops = some d) :
    d.popped <+: d.enqueued ∧
      ∃ rest, drain d.engine = some rest ∧ d.popped ++ rest = d.enqueued := by
  have sound : d.Sound := run_keeps (fun d op d' sound room move => sound.step nextTick room move)
    (sound_start cfg gen) room returns
  exact ⟨⟨_, sound.queued.symm⟩, sound.drain⟩

def servedRun : List EngineOp :=
  [.registerContestant 0, .registerContestant 0, .processOrder 0 ⟨.buy, .limit, 7, 100, 5⟩ 0,
    .popOutbound, .processOrder 1 ⟨.sell, .limit, 8, 100, 3⟩ 0, .popOutbound]

theorem servedRun_delivered :
    Obeys (Delivery.step silentTick) (Delivery.Roomy silentTick) (Delivery.start .default ())
        servedRun ∧
      ∃ d, run (Delivery.step silentTick) (Delivery.start .default ()) servedRun = some d ∧
        d.popped.length = 2 ∧ d.popped <+: d.enqueued := by
  have room : Obeys (Delivery.step silentTick) (Delivery.Roomy silentTick)
      (Delivery.start .default ()) servedRun :=
    obeys_of_test (Delivery.roomy_of_test silentTick) _ _ (by decide +kernel)
  have goes : (run (Delivery.step silentTick) (Delivery.start .default ()) servedRun).isSome = true := by
    decide +kernel
  obtain ⟨d, returns⟩ := Option.isSome_iff_exists.mp goes
  have count : (run (Delivery.step silentTick) (Delivery.start .default ()) servedRun).map
      (fun d => d.popped.length) = some 2 := by decide +kernel
  rw [returns] at count
  exact ⟨room, d, returns, Option.some.inj count,
    (outbound_delivered_in_order .default silentTick () servedRun room d returns).1⟩

def emptyOrder (k : Nat) : OrderEntry := ⟨.buy, .limit, UInt32.ofNat k, 1, 0⟩

def emptyReply (k : Nat) : OutboundMsg :=
  ⟨.orderAck ⟨.rejectedSize, UInt32.ofNat k, 0, 1, 0⟩, 0⟩

theorem emptyOrder_rejected {e : MatchEngine G} (registered : 0 < e.contestants.count) (k ts : Nat) :
    e.processOrder 0 (emptyOrder k) ts = some (e.enqueueOutbound 0 (emptyReply k).message) := by
  have rejection : e.orderRejection 0 (emptyOrder k) = some .rejectedSize :=
    if_pos (Or.inl (le_refl (0 : Int)))
  rw [MatchEngine.processOrder, if_neg (Nat.not_le.mpr registered), rejection]
  rfl

theorem flood (nextTick : G → Nat → MarketUpdate × G) (d : Delivery G)
    (registered : 0 < d.engine.contestants.count) (bounded : d.engine.outboundTail < 4294967296)
    (n : Nat) :
    ∃ d', run (Delivery.step nextTick) d
        ((List.range n).map fun k => .processOrder 0 (emptyOrder k) 0) = some d' ∧
      Sends d.engine d'.engine ((List.range n).map emptyReply) ∧
      d'.enqueued = d.enqueued ++ (List.range n).map emptyReply ∧ d'.popped = d.popped ∧
      0 < d'.engine.contestants.count := by
  induction n with
  | zero => exact ⟨d, rfl, sends_nil bounded, (List.append_nil _).symm, rfl, registered⟩
  | succ n ih =>
    obtain ⟨d', goes, sends, enqueued, popped, known⟩ := ih
    have last := emptyOrder_rejected known n 0
    have one : Sends d'.engine (d'.engine.enqueueOutbound 0 (emptyReply n).message)
        [emptyReply n] := (sends_nil sends.bounded).enqueue 0 _
    refine ⟨⟨d'.engine.enqueueOutbound 0 (emptyReply n).message, d'.enqueued ++ [emptyReply n],
      d'.popped⟩, ?_, ?_, ?_, popped, known⟩
    · rw [List.range_succ, List.map_append, run_append, goes, Option.bind_some]
      show ((d'.engine.processOrder 0 (emptyOrder n) 0).map fun e' =>
        (⟨e', d'.enqueued ++ emitted d'.engine e', d'.popped⟩ : Delivery G)).bind some = _
      rw [last, Option.map_some, Option.bind_some, one.emitted_eq sends.bounded
        (show 1 ≤ outboundQueueSize by decide)]
    · rw [List.range_succ, List.map_append]
      exact sends.enqueue 0 (emptyReply n).message
    · rw [enqueued, List.range_succ, List.map_append, List.append_assoc]
      rfl

def floodedRun (n : Nat) : List EngineOp :=
  .registerContestant 0 ::
    (((List.range (n + 1)).map fun k => .processOrder 0 (emptyOrder k) 0) ++ [.popOutbound])

theorem floodedRun_popped {n : Nat} (lapped : n % outboundQueueSize = 0) (few : n + 1 < 4294967296) :
    ∃ d, run (Delivery.step silentTick) (Delivery.start .default ()) (floodedRun n) = some d ∧
      d.popped = [emptyReply n] ∧ ∃ later, d.enqueued = emptyReply 0 :: later := by
  generalize begun : (⟨((MatchEngine.init .default ()).registerContestant 0).2, [], []⟩ :
    Delivery Unit) = d₀
  have known : 0 < d₀.engine.contestants.count := by
    rw [← begun]
    decide
  have fresh : d₀.engine.outboundTail = 0 ∧ d₀.engine.outboundHead = 0 ∧ d₀.enqueued = [] ∧
      d₀.popped = [] := by
    rw [← begun]
    exact ⟨rfl, rfl, rfl, rfl⟩
  obtain ⟨d, goes, sends, enqueued, popped, -⟩ := flood silentTick d₀ known
    (by rw [fresh.1]; decide) (n + 1)
  have head : d.engine.outboundHead = 0 := by rw [sends.head, fresh.2.1]
  have tail : d.engine.outboundTail = n + 1 := by
    rw [sends.tail, fresh.1, List.length_map, List.length_range]
    omega
  have cell : d.engine.outbound 0 = emptyReply n := by
    rw [sends.outbound, List.range_succ, List.map_append, store_append, List.length_map,
      List.length_range, fresh.1, Nat.zero_add, List.map_singleton, store, store, lapped]
    exact Function.update_self _ _ _
  have pops : d.engine.popOutbound.1 = some (emptyReply n) := by
    rw [MatchEngine.popOutbound, head, tail, if_neg (by omega), Nat.zero_mod, cell]
  refine ⟨⟨d.engine.popOutbound.2, d.enqueued, d.popped ++ d.engine.popOutbound.1.toList⟩, ?_, ?_, ?_⟩
  · have first : Delivery.step silentTick (Delivery.start .default ()) (.registerContestant 0) =
        some d₀ := begun ▸ rfl
    rw [floodedRun, run, first, Option.bind_some, run_append, goes, Option.bind_some]
    rfl
  · show d.popped ++ d.engine.popOutbound.1.toList = _
    rw [pops, popped, fresh.2.2.2]
    rfl
  · show ∃ later, d.enqueued = _
    rw [enqueued, fresh.2.2.1, List.range_succ_eq_map]
    exact ⟨_, rfl⟩

/-- With one order more than the ring has cells, the answer to the first is never returned. -/
theorem floodedRun_loses_message :
    ∃ d, run (Delivery.step silentTick) (Delivery.start .default ()) (floodedRun 4096) = some d ∧
      ¬ d.popped <+: d.enqueued := by
  obtain ⟨d, goes, popped, later, enqueued⟩ := floodedRun_popped (n := 4096) (by decide) (by decide)
  refine ⟨d, goes, fun ordered => ?_⟩
  rw [popped, enqueued, List.cons_prefix_cons] at ordered
  exact absurd ordered.1 (by decide)

end HftGrading.Exchange.Engine.OutboundDelivery
