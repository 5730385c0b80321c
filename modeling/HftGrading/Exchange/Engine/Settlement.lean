/- module: HftGrading/Exchange/Engine/Settlement
   source: exchange/include/exchange/match_engine.hpp
   digest: What the fills of an order book to the contestants and what the engine sends them. -/

import HftGrading.Exchange.Engine.EngineSteps
import HftGrading.Exchange.Engine.ProfitAccounts

set_option autoImplicit false
set_option relaxedAutoImplicit false

namespace HftGrading.Exchange.Engine.Settlement

open WireProtocol Book.PriceMap Book.LimitBook
open Book.LimitBook.OrderBook (MatchResult)
open Book.LevelQueue Book.BookRep Book.BookRuns EngineState
open EngineState.ContestantState (signedQty)
open EngineSteps ProfitAccounts

variable {G : Type}

section Messages

/-- What the step from `e` to `e'` has put in the queue: the cells between the two tails. -/
def emitted (e e' : MatchEngine G) : List OutboundMsg :=
  (List.range ((e'.outboundTail + 4294967296 - e.outboundTail) % 4294967296)).map
    (fun k => e'.outbound ((e.outboundTail + k) % outboundQueueSize))

/-- The messages `msgs` lie in the queue from the tail of `e` on. -/
structure Emits (e e' : MatchEngine G) (msgs : List OutboundMsg) : Prop where
  tail : e'.outboundTail = (e.outboundTail + msgs.length) % 4294967296
  cells : ∀ k, (inside : k < msgs.length) →
    e'.outbound ((e.outboundTail + k) % outboundQueueSize) = msgs[k]

variable {e e' : MatchEngine G} {msgs : List OutboundMsg}

theorem emits_nil (bounded : e.outboundTail < 4294967296) (tail : e'.outboundTail = e.outboundTail) :
    Emits e e' [] :=
  ⟨by rw [tail, List.length_nil, Nat.add_zero, Nat.mod_eq_of_lt bounded], fun _ inside => by cases inside⟩

theorem Emits.enqueue (emits : Emits e e' msgs) (room : msgs.length < outboundQueueSize) (cid : Nat)
    (message : Message) : Emits e (e'.enqueueOutbound cid message) (msgs ++ [⟨message, cid⟩]) := by
  unfold outboundQueueSize at room
  have slot : e'.outboundTail % outboundQueueSize =
      (e.outboundTail + msgs.length) % outboundQueueSize := by
    rw [emits.tail]
    unfold outboundQueueSize
    omega
  constructor
  · show succ32 e'.outboundTail = _
    rw [succ32, emits.tail, List.length_append, List.length_singleton]
    omega
  · intro k inside
    rw [MatchEngine.enqueueOutbound, slot]
    rw [List.length_append, List.length_singleton] at inside
    by_cases old : k < msgs.length
    · have apart : (e.outboundTail + k) % outboundQueueSize ≠
          (e.outboundTail + msgs.length) % outboundQueueSize := by
        unfold outboundQueueSize
        omega
      rw [List.getElem_append_left old]
      simp only [Function.update_of_ne apart]
      exact emits.cells k old
    · have last : k = msgs.length := by omega
      subst last
      simp

theorem Emits.same {e'' : MatchEngine G} (emits : Emits e e' msgs)
    (outbound : e''.outbound = e'.outbound) (tail : e''.outboundTail = e'.outboundTail) :
    Emits e e'' msgs := by
  constructor
  · rw [tail, emits.tail]
  · intro k inside
    rw [outbound, emits.cells k inside]

theorem Emits.since {e₁ : MatchEngine G} (emits : Emits e₁ e' msgs)
    (tail : e₁.outboundTail = e.outboundTail) : Emits e e' msgs := by
  constructor
  · rw [emits.tail, tail]
  · intro k inside
    rw [← tail, emits.cells k inside]

theorem Emits.sendFill (emits : Emits e e' msgs) (room : msgs.length < outboundQueueSize) (cid : Nat)
    (clientOid : UInt32) (exchangeOid : Nat) (side : Side) (price qty remaining : Int) (ts : Nat) :
    Emits e (e'.sendFill cid clientOid exchangeOid side price qty remaining ts)
      (msgs ++ [⟨.fill ⟨side, clientOid, exchangeOid, price, qty, remaining,
        e'.contestants.realizedPnl cid, ts⟩, cid⟩]) := by
  have asked : Emits e { e' with book := e'.book.bestBidPrice.2.bestAskPrice.2 } msgs :=
    emits.same rfl rfl
  exact asked.enqueue room cid _

theorem Emits.emitted_eq (emits : Emits e e' msgs) (bounded : e.outboundTail < 4294967296)
    (few : msgs.length < 4294967296) : emitted e e' = msgs := by
  have count : (e'.outboundTail + 4294967296 - e.outboundTail) % 4294967296 = msgs.length := by
    rw [emits.tail]
    omega
  rw [emitted, count]
  apply List.ext_getElem
  · rw [List.length_map, List.length_range]
  · intro k _ inside
    rw [List.getElem_map, List.getElem_range]
    exact emits.cells k inside

def fillBooking (msg : OutboundMsg) : Option Booking :=
  match msg.message with
  | .fill f => some ⟨msg.contestantId, f.side, f.fillPrice, f.fillQty⟩
  | _ => none

structure FillReport where
  contestantId : Nat
  clientOrderId : UInt32
  side : Side
  price : Int
  qty : Int
  deriving DecidableEq, Repr

def FillReport.booking (r : FillReport) : Booking := ⟨r.contestantId, r.side, r.price, r.qty⟩

def fillReport (msg : OutboundMsg) : Option FillReport :=
  match msg.message with
  | .fill f => some ⟨msg.contestantId, f.clientOrderId, f.side, f.fillPrice, f.fillQty⟩
  | _ => none

theorem filterMap_fillBooking (msgs : List OutboundMsg) :
    msgs.filterMap fillBooking = (msgs.filterMap fillReport).map FillReport.booking := by
  have each : fillBooking = fun msg => (fillReport msg).map FillReport.booking := by
    funext msg
    rw [fillBooking, fillReport]
    cases msg.message <;> rfl
  rw [each, List.map_filterMap]

end Messages

section FillLoop

def legs (b : OrderBook) (contestantId : Nat) (side : Side) (f : MatchResult) : List Booking :=
  [⟨(b.pool.orders f.makerIdx).contestantId, (b.pool.orders f.makerIdx).side, f.fillPrice, f.fillQty⟩,
    ⟨contestantId, side, f.fillPrice, f.fillQty⟩]

def fillBookings (b : OrderBook) (contestantId : Nat) (side : Side) (fills : List MatchResult) :
    List Booking :=
  fills.flatMap (legs b contestantId side)

def tellings (b : OrderBook) (contestantId : Nat) (order : OrderEntry) (f : MatchResult) :
    List FillReport :=
  [⟨(b.pool.orders f.makerIdx).contestantId, (b.pool.orders f.makerIdx).clientOrderId,
      (b.pool.orders f.makerIdx).side, f.fillPrice, f.fillQty⟩,
    ⟨contestantId, order.clientOrderId, order.side, f.fillPrice, f.fillQty⟩]

def fillReports (b : OrderBook) (contestantId : Nat) (order : OrderEntry)
    (fills : List MatchResult) : List FillReport :=
  fills.flatMap (tellings b contestantId order)

theorem fillReports_booking (b : OrderBook) (contestantId : Nat) (order : OrderEntry)
    (fills : List MatchResult) :
    (fillReports b contestantId order fills).map FillReport.booking =
      fillBookings b contestantId order.side fills := by
  rw [fillReports, List.map_flatMap]
  rfl

def bookAll (c : ContestantState) (bookings : List Booking) : ContestantState :=
  bookings.foldl (fun c k => c.applyFill k.contestantId k.side k.price k.qty) c

variable {e : MatchEngine G} {contestantId : Nat} {order : OrderEntry} {timestampNs : Nat}

/-- The fill loop so far: `fills` are settled, `msgs` were sent since `e`. -/
structure Settles (e : MatchEngine G) (contestantId : Nat) (order : OrderEntry)
    (fills : List MatchResult) (e' : MatchEngine G) (msgs : List OutboundMsg) : Prop where
  contestants : e'.contestants =
    bookAll e.contestants (fillBookings e.book contestantId order.side fills)
  pool : e'.book.pool = e.book.pool
  emits : Emits e e' msgs
  told : msgs.filterMap fillReport = fillReports e.book contestantId order fills
  count : msgs.length = 2 * fills.length

theorem fillBookings_snoc (b : OrderBook) (side : Side) (fills : List MatchResult) (f : MatchResult) :
    fillBookings b contestantId side (fills ++ [f]) =
      fillBookings b contestantId side fills ++ legs b contestantId side f := by
  simp [fillBookings]

theorem fillReports_snoc (b : OrderBook) (fills : List MatchResult) (f : MatchResult) :
    fillReports b contestantId order (fills ++ [f]) =
      fillReports b contestantId order fills ++ tellings b contestantId order f := by
  simp [fillReports]

theorem tellings_pool {b b' : OrderBook} (pool : b'.pool = b.pool) (f : MatchResult) :
    tellings b' contestantId order f = tellings b contestantId order f := by
  rw [tellings, tellings, pool]

theorem legs_pool {b b' : OrderBook} (pool : b'.pool = b.pool) (side : Side) (f : MatchResult) :
    legs b' contestantId side f = legs b contestantId side f := by
  rw [legs, legs, pool]

theorem Settles.settleFill {fills : List MatchResult} {e' : MatchEngine G} {filled : Int}
    {msgs : List OutboundMsg} (settles : Settles e contestantId order fills e' msgs)
    (room : fills.length < 64) (f : MatchResult) :
    ∃ more, Settles e contestantId order (fills ++ [f])
      (MatchEngine.settleFill contestantId order timestampNs (e', filled) f).1 more := by
  have count := settles.count
  have space : msgs.length + 1 < outboundQueueSize := by
    unfold outboundQueueSize
    omega
  have books : bookAll e'.contestants (legs e.book contestantId order.side f) =
      bookAll e.contestants (fillBookings e.book contestantId order.side (fills ++ [f])) := by
    rw [fillBookings_snoc, settles.contestants, bookAll, bookAll, bookAll, List.foldl_append]
  rw [← legs_pool settles.pool] at books
  -- The maker is paid and told first.
  have told : Emits e { e' with
      contestants := bookAll e'.contestants (legs e'.book contestantId order.side f) } msgs :=
    settles.emits.same rfl rfl
  have first := told.sendFill (by omega) (e'.book.pool.orders f.makerIdx).contestantId
    (e'.book.pool.orders f.makerIdx).clientOrderId (e'.book.pool.orders f.makerIdx).exchangeId
    (e'.book.pool.orders f.makerIdx).side f.fillPrice f.fillQty
    (e'.book.pool.orders f.makerIdx).remainingQty timestampNs
  have second := first.sendFill (by rw [List.length_append, List.length_singleton]; omega)
    contestantId order.clientOrderId 0 order.side f.fillPrice f.fillQty
    (order.quantity - filled - f.fillQty) timestampNs
  refine ⟨_, books, ?_, second.same rfl rfl, ?_, ?_⟩
  · have refreshed := (settleFill_spec contestantId order timestampNs (e', filled) f).2.1
    rw [refreshed, refresh_pool]
    exact settles.pool
  · rw [List.filterMap_append, List.filterMap_append, settles.told, fillReports_snoc,
      ← tellings_pool settles.pool, List.append_assoc]
    rfl
  · simp only [List.length_append, List.length_singleton, count]
    omega

theorem settles_nil (bounded : e.outboundTail < 4294967296) :
    Settles e contestantId order [] e [] :=
  ⟨rfl, rfl, emits_nil bounded rfl, rfl, rfl⟩

variable (contestantId order timestampNs) in
theorem settleFills_settles (bounded : e.outboundTail < 4294967296) (fills : List MatchResult)
    (few : fills.length ≤ 64) :
    ∃ msgs, Settles e contestantId order fills
      (fills.foldl (MatchEngine.settleFill contestantId order timestampNs) (e, 0)).1 msgs := by
  induction fills using List.reverseRecOn with
  | nil => exact ⟨[], settles_nil bounded⟩
  | append_singleton fills f ih =>
    rw [List.length_append, List.length_singleton] at few
    obtain ⟨msgs, settles⟩ := ih (by omega)
    rw [List.foldl_append]
    exact settles.settleFill (by omega) f

end FillLoop

section Positions

variable {c : ContestantState} {cid : Nat}

theorem netQty_cons (k : Booking) (bookings : List Booking) : netQty cid (k :: bookings) =
    (if k.contestantId = cid then k.signed else 0) + netQty cid bookings := by
  rw [netQty, netQty, bookingsOf, bookingsOf, List.filter_cons]
  by_cases own : k.contestantId = cid
  · simp [own]
  · simp [own]

theorem netQty_append (first second : List Booking) :
    netQty cid (first ++ second) = netQty cid first + netQty cid second := by
  rw [netQty, bookingsOf, List.filter_append, List.map_append, List.sum_append]
  rfl

theorem bookAll_position (bookings : List Booking) (c : ContestantState)
    (word : IsInt32 (c.position cid)) :
    (bookAll c bookings).position cid = wrap32 (c.position cid + netQty cid bookings) := by
  induction bookings generalizing c with
  | nil =>
    have none : netQty cid [] = 0 := rfl
    rw [none, Int.add_zero, wrap32_of_isInt32 word]
    rfl
  | cons k bookings ih =>
    rw [netQty_cons]
    by_cases own : k.contestantId = cid
    · have next : (c.applyFill k.contestantId k.side k.price k.qty).position cid =
          wrap32 (c.position cid + k.signed) := by
        rw [ContestantState.applyFill_eq, ← own]
        exact Function.update_self _ _ _
      have step := ih (c.applyFill k.contestantId k.side k.price k.qty)
        (by rw [next]; exact isInt32_wrap32 _)
      rw [next, wrap32_wrap32_add] at step
      rw [if_pos own, ← Int.add_assoc]
      exact step
    · have next : (c.applyFill k.contestantId k.side k.price k.qty).position cid =
          c.position cid := by
        rw [ContestantState.applyFill_eq]
        exact Function.update_of_ne (fun h => own h.symm) _ _
      have step := ih (c.applyFill k.contestantId k.side k.price k.qty) (by rwa [next])
      rw [next] at step
      rw [if_neg own, Int.zero_add]
      exact step

end Positions

section Orders

variable {e e' : MatchEngine G} {contestantId timestampNs : Nat} {order : OrderEntry}

theorem restRemainder_emits {filled : Int} (restored : MatchEngine G)
    (returns : e.restRemainder contestantId order filled timestampNs = some e')
    {msgs : List OutboundMsg} (emits : Emits restored e msgs) (room : msgs.length < outboundQueueSize) :
    e'.contestants.position = e.contestants.position ∧
      (Emits restored e' msgs ∨ ∃ ack, Emits restored e' (msgs ++ [⟨.orderAck ack, contestantId⟩])) := by
  rw [MatchEngine.restRemainder] at returns
  split_ifs at returns with wanted some_fill
  · obtain ⟨⟨r, b⟩, adds, rest⟩ := Option.map_eq_some_iff.mp returns
    simp only at rest
    split_ifs at rest with real
    · subst rest
      have stored : Emits restored { e with book := b } msgs := emits.same rfl rfl
      exact ⟨rfl, Or.inr ⟨_, (stored.enqueue room contestantId _).same rfl rfl⟩⟩
    · subst rest
      exact ⟨rfl, Or.inl (emits.same rfl rfl)⟩
  · cases returns
    exact ⟨rfl, Or.inr ⟨_, emits.enqueue room contestantId _⟩⟩
  · cases returns
    exact ⟨rfl, Or.inl emits⟩

theorem restRemainder_acks {R : Type} {filled : Int} (restored : MatchEngine G)
    (reading : OutboundMsg → Option R)
    (passes : ∀ ack cid, reading ⟨.orderAck ack, cid⟩ = none)
    (returns : e.restRemainder contestantId order filled timestampNs = some e')
    {msgs : List OutboundMsg} (emits : Emits restored e msgs) (room : msgs.length < outboundQueueSize) :
    ∃ more, Emits restored e' more ∧ more.filterMap reading = msgs.filterMap reading ∧
      more.length ≤ msgs.length + 1 := by
  rcases (restRemainder_emits restored returns emits room).2 with same | ⟨ack, acked⟩
  · exact ⟨msgs, same, rfl, Nat.le_succ _⟩
  · refine ⟨_, acked, ?_, by simp⟩
    rw [List.filterMap_append, List.filterMap_cons_none (passes ack contestantId)]
    exact List.append_nil _

def opBookings (e : MatchEngine G) : EngineOp → List Booking
  | .processOrder cid order _ => fillBookings e.book cid order.side (fillsOf e cid order)
  | _ => []

def opReports (e : MatchEngine G) : EngineOp → List FillReport
  | .processOrder cid order _ => fillReports e.book cid order (fillsOf e cid order)
  | _ => []

theorem opReports_booking (e : MatchEngine G) (op : EngineOp) :
    (opReports e op).map FillReport.booking = opBookings e op := by
  cases op with
  | processOrder cid order ts => exact fillReports_booking e.book cid order _
  | _ => rfl

theorem fillBookings_static {b b' : OrderBook}
    (static : ∀ x, static (b'.pool.orders x) = static (b.pool.orders x)) (side : Side)
    (fills : List MatchResult) :
    fillBookings b' contestantId side fills = fillBookings b contestantId side fills := by
  have same : legs b' contestantId side = legs b contestantId side := by
    funext f
    rw [legs, legs, contestantId_of_static (static f.makerIdx), side_of_static (static f.makerIdx)]
  rw [fillBookings, fillBookings, same]

theorem fillReports_static {b b' : OrderBook}
    (static : ∀ x, static (b'.pool.orders x) = static (b.pool.orders x))
    (fills : List MatchResult) :
    fillReports b' contestantId order fills = fillReports b contestantId order fills := by
  have same : tellings b' contestantId order = tellings b contestantId order := by
    funext f
    rw [tellings, tellings, contestantId_of_static (static f.makerIdx),
      clientOrderId_of_static (static f.makerIdx), side_of_static (static f.makerIdx)]
  rw [fillReports, fillReports, same]

structure Accounted (e : MatchEngine G) (op : EngineOp) (e' : MatchEngine G) : Prop where
  bounded : e'.outboundTail < 4294967296
  told : (emitted e e').filterMap fillReport = opReports e op
  position : ∀ c, IsInt32 (e.contestants.position c) →
    e'.contestants.position c = wrap32 (e.contestants.position c + netQty c (opBookings e op))

theorem Accounted.sent {op : EngineOp} (accounted : Accounted e op e') :
    (emitted e e').filterMap fillBooking = opBookings e op := by
  rw [filterMap_fillBooking, accounted.told, opReports_booking]

theorem accounted_idle {op : EngineOp} {msgs : List OutboundMsg}
    (bounded : e.outboundTail < 4294967296) (none : opReports e op = [])
    (emits : Emits e e' msgs) (few : msgs.length ≤ 1) (unfilled : msgs.filterMap fillReport = [])
    (same : e'.contestants.position = e.contestants.position) : Accounted e op e' := by
  refine ⟨?_, ?_, fun c word => ?_⟩
  · rw [emits.tail]
    exact Nat.mod_lt _ (by decide)
  · rw [emits.emitted_eq bounded (by omega), unfilled, none]
  · have zero : netQty c ([].map FillReport.booking) = 0 := rfl
    rw [← opReports_booking, none, same, zero, Int.add_zero, wrap32_of_isInt32 word]

theorem executeOrder_accounted {Q : Queues} (rep : Rep e.book Q)
    (bounded : e.outboundTail < 4294967296) (registered : contestantId < e.contestants.count)
    (accepted : e.orderRejection contestantId order = none)
    (returns : e.executeOrder contestantId order timestampNs = some e') :
    Accounted e (.processOrder contestantId order timestampNs) e' := by
  obtain ⟨Q₁, fills, before, b₁, run, matched⟩ := matchOrder_matched rep order.side order.price
    order.quantity contestantId 64
  have made : fillsOf e contestantId order = fills := by
    rw [fillsOf, if_pos ⟨registered, accepted⟩, run]
    rfl
  rw [executeOrder_of_matchOrder run] at returns
  have tail : (afterMatch e contestantId b₁).outboundTail = e.outboundTail := rfl
  have few := matched.few
  obtain ⟨msgs, settles⟩ := settleFills_settles contestantId order timestampNs
    (e := afterMatch e contestantId b₁) bounded fills few
  have count := settles.count
  have room : msgs.length < outboundQueueSize := by
    unfold outboundQueueSize
    omega
  have same := (restRemainder_emits (afterMatch e contestantId b₁) returns settles.emits room).1
  obtain ⟨more, emits, sent, longer⟩ := restRemainder_acks (afterMatch e contestantId b₁) fillReport
    (fun _ _ => rfl) returns settles.emits room
  have books : fillBookings (afterMatch e contestantId b₁).book contestantId order.side fills =
      opBookings e (.processOrder contestantId order timestampNs) := by
    rw [opBookings, made]
    exact fillBookings_static (fun x => matched.drained.static x) order.side fills
  have reports : fillReports (afterMatch e contestantId b₁).book contestantId order fills =
      opReports e (.processOrder contestantId order timestampNs) := by
    rw [opReports, made]
    exact fillReports_static (fun x => matched.drained.static x) fills
  refine ⟨?_, ?_, fun c word => ?_⟩
  · rw [emits.tail]
    exact Nat.mod_lt _ (by decide)
  · rw [(emits.since tail).emitted_eq bounded (by omega), sent, settles.told, reports]
  · have before : (afterMatch e contestantId b₁).contestants.position = e.contestants.position := rfl
    rw [same, settles.contestants, bookAll_position _ _ (by rwa [before]), before, books]

theorem apply_accounted (nextTick : G → Nat → MarketUpdate × G) {Q : Queues} (rep : Rep e.book Q)
    (bounded : e.outboundTail < 4294967296) {op : EngineOp}
    (returns : op.apply nextTick e = some e') : Accounted e op e' := by
  cases op with
  | registerContestant cash =>
    cases returns
    exact accounted_idle bounded rfl (emits_nil bounded rfl) (Nat.zero_le _) rfl rfl
  | generateTick ts =>
    cases returns
    exact accounted_idle bounded rfl (emits_nil bounded rfl) (Nat.zero_le _) rfl rfl
  | popOutbound =>
    cases returns
    have same : e.popOutbound.2.outboundTail = e.outboundTail ∧
        e.popOutbound.2.contestants.position = e.contestants.position := by
      rw [MatchEngine.popOutbound]
      split_ifs
      · exact ⟨rfl, rfl⟩
      · exact ⟨rfl, rfl⟩
    exact accounted_idle bounded rfl (emits_nil bounded same.1) (Nat.zero_le _) rfl same.2
  | processOrder cid order ts =>
    change e.processOrder cid order ts = some e' at returns
    rw [MatchEngine.processOrder] at returns
    split_ifs at returns with unknown
    · cases returns
      have none : opReports e (.processOrder cid order ts) = [] := by
        rw [opReports, fillsOf, if_neg (fun h => absurd h.1 (not_lt.mpr unknown))]
        rfl
      exact accounted_idle bounded none (emits_nil bounded rfl) (Nat.zero_le _) rfl rfl
    · cases rejection : e.orderRejection cid order with
      | none =>
        rw [rejection] at returns
        exact executeOrder_accounted rep bounded (Nat.lt_of_not_le unknown) rejection returns
      | some status =>
        rw [rejection] at returns
        cases returns
        have none : opReports e (.processOrder cid order ts) = [] := by
          rw [opReports, fillsOf, if_neg (fun h => by rw [rejection] at h; cases h.2)]
          rfl
        exact accounted_idle bounded none
          ((emits_nil bounded rfl).enqueue (by decide) cid _) le_rfl rfl rfl
  | processCancel cid cancel ts =>
    rcases processCancel_cases returns with ⟨r, b, run, rfl⟩ | rfl
    all_goals
      refine accounted_idle bounded rfl (Emits.enqueue (emits_nil bounded ?_) (by decide) cid _)
        le_rfl rfl rfl
      rfl

end Orders

end HftGrading.Exchange.Engine.Settlement
