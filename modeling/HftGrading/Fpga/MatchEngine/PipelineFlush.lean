/- module: HftGrading/Fpga/MatchEngine/PipelineFlush
   source: fpga/rtl/match_engine_fpga.sv
   digest: The pipelined engine does what it does one message at a time. -/

import HftGrading.Fpga.MatchEngine.ClockedRuns

set_option autoImplicit false
set_option relaxedAutoImplicit false

namespace HftGrading.Fpga.MatchEngine.PipelineFlush

open Lib.PartialExecution Lib.FlushedPipeline IicpcPkg EngineRegisters ClockedRuns

section Bests

variable (b : Book) (m : Message)

/-- `free_top` has as many bits as the pool has addresses: the test for a free slot never fails. -/
theorem hasSlot_eq_true : b.hasSlot = true := by
  have narrow := b.freeTop.isLt
  simp only [Book.hasSlot, BitVec.toNat_setWidth, maxOrders, decide_eq_true_eq]
  omega

theorem registerId_frame (oid : OrderId) :
    (b.registerId oid).bid = b.bid ∧ (b.registerId oid).ask = b.ask ∧
      (b.registerId oid).nextSlot = b.nextSlot := by
  unfold Book.registerId
  split_ifs <;> exact ⟨rfl, rfl, rfl⟩

theorem cancelOrder_frame (oid : OrderId) :
    (b.cancelOrder oid).bid = b.bid ∧ (b.cancelOrder oid).ask = b.ask := by
  unfold Book.cancelOrder
  split_ifs <;> exact ⟨rfl, rfl⟩

/-- A message that makes `S2_EXECUTE` insert. -/
def Inserts : Prop := m.msgType ≠ msgCancelReq ∧ m.rests = true

instance : Decidable (Inserts m) := inferInstanceAs (Decidable (_ ∧ _))

variable {b m}

theorem executeBook_inserts (inserts : Inserts m) : executeBook m b = b.insertOrder m := by
  simp only [executeBook, inserts.1, inserts.2, if_false, if_true]

theorem executeBook_still (still : ¬ Inserts m) :
    (executeBook m b).bid = b.bid ∧ (executeBook m b).ask = b.ask := by
  unfold executeBook
  split_ifs with cancel rests
  · exact cancelOrder_frame b _
  · exact absurd ⟨cancel, rests⟩ still
  · exact ⟨rfl, rfl⟩

theorem insertOrder_buy (buy : m.side = sideBuy) :
    (b.insertOrder m).bid = b.bid.joinBid m.price m.quantity b.nextSlot ∧
      (b.insertOrder m).ask = b.ask := by
  obtain ⟨bid, ask, slot⟩ := registerId_frame b m.clientOrderId
  simp only [Book.insertOrder, hasSlot_eq_true, if_true, Book.joinBest, buy, bid, ask, slot, and_self]

theorem insertOrder_sell (sell : m.side ≠ sideBuy) :
    (b.insertOrder m).bid = b.bid ∧
      (b.insertOrder m).ask = b.ask.joinAsk m.price m.quantity b.nextSlot := by
  obtain ⟨bid, ask, slot⟩ := registerId_frame b m.clientOrderId
  simp only [Book.insertOrder, hasSlot_eq_true, if_true, Book.joinBest, sell, if_false, bid, ask,
    slot, and_self]

end Bests

/-- A message whose effect on the BBO stage 1 is told of: a cancel, an order that does not
rest, or an order entry of one of the two sides. -/
def Forwards (m : Message) : Prop := IsEntry m ∨ ¬ Inserts m

instance (m : Message) : Decidable (Forwards m) := inferInstanceAs (Decidable (_ ∨ _))

theorem forwards_of_isLegal {m : Message} (legal : IsLegal m) : Forwards m := by
  rcases legal.1 with entry | cancel
  · exact .inl ⟨entry, legal.2⟩
  · exact .inr fun inserts => inserts.1 cancel

section Forwarding

variable {r : Regs}

theorem s2DoingInsert_execute (state : r.s2State = .execute) (valid : r.s2Valid = true)
    (settled : r.s2IsCrossing = false) (forwards : Forwards r.s2) :
    s2DoingInsert r = true ↔ Inserts r.s2 := by
  simp only [s2DoingInsert, state, valid, settled, Message.rests, Inserts, BEq.rfl, Bool.not_false,
    Bool.and_true, Bool.true_and, Bool.and_eq_true, beq_iff_eq, decide_eq_true_eq]
  constructor
  · rintro ⟨⟨entry, limit⟩, some⟩
    exact ⟨entry ▸ msgOrderEntry_ne_msgCancelReq, limit, some⟩
  · intro inserts
    refine ⟨⟨?_, inserts.2.1⟩, inserts.2.2⟩
    rcases forwards with entry | still
    · exact entry.1
    · refine absurd ⟨inserts.1, ?_⟩ still
      simp only [Message.rests, inserts.2.1, inserts.2.2, BEq.rfl, decide_true, Bool.and_self]

structure Shown (r : Regs) (bid ask : Bbo) : Prop where
  bidPrice : fwdBestBidPrice r = bid.price
  bidQty : fwdBestBidQty r = bid.qty
  bidValid : fwdBidValid r = bid.valid
  askPrice : fwdBestAskPrice r = ask.price
  askQty : fwdBestAskQty r = ask.qty
  askValid : fwdAskValid r = ask.valid

theorem s2DoingFill_eq_false (quiet : r.s2State ≠ .crossing) : s2DoingFill r = false := by
  simp only [s2DoingFill, Bool.and_eq_false_iff, beq_eq_false_iff_ne]
  exact .inr quiet

attribute [local simp] fwdBestBidPrice fwdBestBidQty fwdBidValid fwdBestAskPrice fwdBestAskQty
  fwdAskValid s2InsertImprovesBid s2InsertAtBid s2FillExhaustsBid s2InsertImprovesAsk s2InsertAtAsk
  s2FillExhaustsAsk

theorem shown_still (still : s2DoingInsert r = false) (quiet : r.s2State ≠ .crossing) :
    Shown r r.book.bid r.book.ask := by
  have noFill := s2DoingFill_eq_false quiet
  constructor <;> simp [still, noFill]

theorem shown_inserting (inserting : s2DoingInsert r = true) (quiet : r.s2State ≠ .crossing)
    (entry : IsEntry r.s2) :
    Shown r (r.book.insertOrder r.s2).bid (r.book.insertOrder r.s2).ask := by
  have noFill := s2DoingFill_eq_false quiet
  -- On its own side the order improves the best level, joins it, or rests behind it.
  rcases entry.2 with buy | sell
  · obtain ⟨bid, ask⟩ := insertOrder_buy (b := r.book) buy
    rw [bid, ask]
    unfold Bbo.joinBid Bbo.join
    split_ifs with improves level
    all_goals constructor <;> simp_all
  · obtain ⟨bid, ask⟩ := insertOrder_sell (b := r.book) (sell ▸ sideSell_ne_sideBuy)
    rw [bid, ask]
    unfold Bbo.joinAsk Bbo.join
    split_ifs with improves level
    all_goals constructor <;> simp_all

theorem shown_idle (state : r.s2State = .idle) : Shown r r.book.bid r.book.ask := by
  refine shown_still ?_ (by rw [state]; decide)
  simp [s2DoingInsert, state]

theorem shown_execute (state : r.s2State = .execute) (valid : r.s2Valid = true)
    (settled : r.s2IsCrossing = false) (forwards : Forwards r.s2) :
    Shown r (executeBook r.s2 r.book).bid (executeBook r.s2 r.book).ask := by
  have quiet : r.s2State ≠ .crossing := by rw [state]; decide
  have doing := s2DoingInsert_execute state valid settled forwards
  by_cases inserts : Inserts r.s2
  · rw [executeBook_inserts inserts]
    exact shown_inserting (doing.mpr inserts) quiet (forwards.resolve_right (not_not.mpr inserts))
  · obtain ⟨bid, ask⟩ := executeBook_still (b := r.book) inserts
    rw [bid, ask]
    exact shown_still (Bool.eq_false_iff.mpr fun d => inserts (doing.mp d)) quiet

def decides (b : Book) (m : Message) : Bool :=
  m.msgType == msgOrderEntry && (m.side == sideBuy || m.side == sideSell) && crosses m (facing b m)

theorem Shown.s1IsCrossing {b : Book} (shown : Shown r b.bid b.ask) {i : Inputs}
    (offered : i.inValid = true) : s1IsCrossing r i = decides b i.message := by
  simp only [EngineRegisters.s1IsCrossing, s1CanMatchBid, s1CanMatchAsk, shown.bidPrice,
    shown.bidValid, shown.askPrice, shown.askValid, offered, Bool.true_and]
  unfold decides crosses facing otherSide
  by_cases buy : i.message.side = sideBuy
  · have notSell : (sideBuy == sideSell) = false := rfl
    simp only [buy, notSell, best, if_true, BEq.rfl, Bool.true_and, Bool.false_and, Bool.or_false,
      Bool.and_true]
  · have notBuy : (i.message.side == sideBuy) = false := beq_false_of_ne buy
    simp only [buy, notBuy, best, if_false, Bool.false_and, Bool.false_or, Bool.and_assoc]

end Forwarding

@[ext]
structure Quiet where
  book : Book
  sweep : SweepMatch

def quiet (r : Regs) : Quiet := ⟨r.book, r.sweep⟩

inductive Output
  | fill (f : Fill)
  | ack (a : Ack)
  deriving DecidableEq, Repr

namespace Quiet

variable (q : Quiet) (m : Message)

def execute : Outcome Quiet Output :=
  ⟨⟨executeBook m q.book, q.sweep⟩, [.ack (executeAck m q.book)]⟩

def trade : Outcome Quiet Output :=
  (execute ⟨q.book.spendBest m.side q.sweep.qty, q.sweep⟩
    { m with quantity := m.quantity - q.sweep.qty }).prepend [.fill (fillOf m q.sweep)]

def sweepOnce : Outcome Quiet Output :=
  if hits q.sweep q.book m then trade ⟨q.book, matchOf m (facing q.book m)⟩ m else q.execute m

def process : Outcome Quiet Output :=
  if decides q.book m then q.sweepOnce m else q.execute m

end Quiet

def flush (r : Regs) : Outcome Quiet Output :=
  match r.s2State with
  | .idle => ⟨quiet r, []⟩
  | .execute => (quiet r).execute r.s2
  | .crossing => (quiet r).sweepOnce r.s2
  | .fillOut => (quiet r).trade r.s2

def written (r : Regs) : List Output :=
  match r.s2State with
  | .execute => [.ack (executeAck r.s2 r.book)]
  | .fillOut => [.fill (fillOf r.s2 r.sweep)]
  | _ => []

section Commuting

variable {r r' : Regs} {i : Inputs}

theorem flush_idle (state : r.s2State = .idle) : flush r = ⟨quiet r, []⟩ := by
  simp only [flush, state]

theorem flush_execute (state : r.s2State = .execute) : flush r = (quiet r).execute r.s2 := by
  simp only [flush, state]

theorem flush_crossing (state : r.s2State = .crossing) : flush r = (quiet r).sweepOnce r.s2 := by
  simp only [flush, state]

theorem flush_filling (state : r.s2State = .fillOut) : flush r = (quiet r).trade r.s2 := by
  simp only [flush, state]

theorem flush_latch {q : Regs} (shown : Shown r q.book.bid q.book.ask) (takes : accept r i = true) :
    flush (q.latch i r) = (quiet q).process i.message := by
  have decision : s1IsCrossing r i = decides q.book i.message :=
    shown.s1IsCrossing (inValid_of_accept takes)
  have next : (q.latch i r).s2State = if decides q.book i.message then .crossing else .execute := by
    rw [← decision]
    rfl
  unfold Quiet.process
  show _ = if decides q.book i.message then _ else _
  split_ifs at next ⊢
  · exact flush_crossing next
  · exact flush_execute next

theorem feed_accepted_none {o : Outcome Quiet Output} (silent : accept r i = false) :
    feed Quiet.process o (accepted r i) = o := by
  simp only [accepted, silent, Bool.false_eq_true, if_false, feed]

theorem feed_accepted {o : Outcome Quiet Output} (takes : accept r i = true) :
    feed Quiet.process o (accepted r i) = (o.after.process i.message).prepend o.out := by
  simp only [accepted, takes, if_true, feed]

theorem flush_fillOut (state : r.s2State = .fillOut)
    (found : r.sweep = matchOf r.s2 (facing r.book r.s2)) :
    flush r = (flush r.fillOut).prepend [.fill (fillOf r.s2 r.sweep)] := by
  rw [flush_filling state]
  unfold Quiet.trade
  congr 1
  by_cases left : 0 < r.s2.quantity - r.sweep.qty
  · have next : r.fillOut.s2State = .crossing := by simp only [Regs.fillOut, left, if_true]
    have miss : hits r.sweep (r.book.spendBest r.s2.side r.sweep.qty)
        { r.s2 with quantity := r.s2.quantity - r.sweep.qty } = false :=
      not_hits_of_invalid (facing_gone found left)
    rw [flush_crossing next]
    simp only [Regs.fillOut, left, if_true]
    exact (if_neg (Bool.eq_false_iff.mp miss)).symm
  · have next : r.fillOut.s2State = .execute := by simp only [Regs.fillOut, left, if_false]
    rw [flush_execute next]
    simp only [Regs.fillOut, left, if_false]
    rfl

theorem edge_commutes (edge : Edge r i r') (forwards : r.s2State = .execute → Forwards r.s2) :
    feed Quiet.process (flush r) (accepted r i) = (flush r').prepend (written r) := by
  cases edge with
  | rests state silent =>
    rw [feed_accepted_none silent, flush_idle state, flush_idle (r := r.deassert i) state]
    simp only [written, state]
    rfl
  | starts state takes =>
    have shown := shown_idle state
    rw [feed_accepted takes, flush_idle state, flush_latch (q := r.deassert i) shown takes]
    simp only [written, state]
    rfl
  | completes state valid settled silent =>
    rw [feed_accepted_none silent, flush_execute state,
      flush_idle (r := (r.deassert i).execute.empty) rfl]
    simp only [written, state]
    rfl
  | chains state valid settled takes =>
    have shown := shown_execute state valid settled (forwards state)
    rw [feed_accepted takes, flush_execute state,
      flush_latch (q := (r.deassert i).execute) shown takes]
    simp only [written, state]
    rfl
  | strikes state valid entry round hit =>
    rw [feed_accepted_none (accept_sweeping (.inl state)), flush_crossing state,
      flush_filling (r := (r.deassert i).beginFill (facing r.book r.s2)) rfl]
    simp only [written, state]
    exact if_pos hit
  | passes state valid entry miss =>
    rw [feed_accepted_none (accept_sweeping (.inl state)), flush_crossing state,
      flush_execute (r := (r.deassert i).endSweep) rfl]
    simp only [written, state]
    exact if_neg (Bool.eq_false_iff.mp miss)
  | fills state valid entry round some flag found =>
    rw [feed_accepted_none (accept_sweeping (.inr state))]
    simp only [written, state]
    exact flush_fillOut (r := r.deassert i) state found

theorem edge_forwards (edge : Edge r i r') (incoming : ∀ m ∈ accepted r i, Forwards m)
    (state' : r'.s2State = .execute) : Forwards r'.s2 := by
  cases edge with
  | rests state silent => exact S2State.noConfusion (state.symm.trans state')
  | starts state takes => exact incoming i.message (by simp [accepted, takes])
  | completes state valid settled silent => exact S2State.noConfusion state'
  | chains state valid settled takes => exact incoming i.message (by simp [accepted, takes])
  | strikes state valid entry round hit => exact S2State.noConfusion state'
  | passes state valid entry miss => exact .inl entry
  | fills state valid entry round some flag found =>
    have same : IsEntry (r.deassert i).fillOut.s2 := by
      unfold Regs.fillOut
      split_ifs <;> exact entry
    exact .inl same

def fillsOf (out : List Output) : List Fill :=
  out.filterMap fun
    | .fill f => some f
    | .ack _ => none

def acksOf (out : List Output) : List Ack :=
  out.filterMap fun
    | .fill _ => none
    | .ack a => some a

theorem fillsOf_append (out out' : List Output) :
    fillsOf (out ++ out') = fillsOf out ++ fillsOf out' := List.filterMap_append

theorem acksOf_append (out out' : List Output) :
    acksOf (out ++ out') = acksOf out ++ acksOf out' := List.filterMap_append

theorem edge_fills (edge : Edge r i r') :
    taken r.fillValid i.fillReady r.fill ++ held r'.fillValid r'.fill =
      held r.fillValid r.fill ++ fillsOf (written r) := by
  have kept := taken_held r.fillValid i.fillReady r.fill
  cases edge with
  | fills state valid entry round some flag found =>
    have wrote : (r.deassert i).fillOut.fillValid = true ∧
        (r.deassert i).fillOut.fill = fillOf r.s2 r.sweep := by
      unfold Regs.fillOut
      split_ifs <;> exact ⟨rfl, rfl⟩
    simp only [written, state, wrote]
    exact taken_written _ _ _ _ fun full => Bool.noConfusion (round.2.symm.trans full.1)
  | rests state | starts state | completes state | chains state | strikes state | passes state =>
    simp only [written, state]
    exact kept.trans (List.append_nil _).symm

theorem edge_acks (edge : Edge r i r')
    (room : r.s2State = .execute → ¬ (r.ackValid = true ∧ i.ackReady = false)) :
    taken r.ackValid i.ackReady r.ack ++ held r'.ackValid r'.ack =
      held r.ackValid r.ack ++ acksOf (written r) := by
  have kept := taken_held r.ackValid i.ackReady r.ack
  cases edge with
  | completes state | chains state =>
    simp only [written, state]
    exact taken_written _ _ _ _ (room state)
  | rests state | starts state | strikes state | passes state =>
    simp only [written, state]
    exact kept.trans (List.append_nil _).symm
  | fills state valid entry round some flag found =>
    have same : (r.deassert i).fillOut.ackValid = (r.deassert i).ackValid ∧
        (r.deassert i).fillOut.ack = r.ack := by
      unfold Regs.fillOut
      split_ifs <;> exact ⟨rfl, rfl⟩
    simp only [written, state, same]
    exact kept.trans (List.append_nil _).symm

end Commuting

/-- The ack register is not written while it holds an ack its reader does not take. -/
def Roomy (s : System) (c : Cycle) : Prop :=
  s.regs.s2State = .execute → ¬ (s.regs.ackValid = true ∧ c.ackReady = false)

instance (s : System) (c : Cycle) : Decidable (Roomy s c) := inferInstanceAs (Decidable (_ → _))

/-- The system stands where its messages, taken one at a time from `q`, will have it. -/
structure Followed (q : Quiet) (ms : List Message) (s : System) : Prop where
  sound : Sound s.regs
  forwards : s.regs.s2State = .execute → Forwards s.regs.s2
  tracks : ∃ done out, ms = done ++ s.waiting ∧
    Tracks Quiet.process flush q done out s.regs ∧
    s.fills ++ held s.regs.fillValid s.regs.fill = fillsOf out ∧
    s.acks ++ held s.regs.ackValid s.regs.ack = acksOf out

theorem followed_start (u : Regs) (ms : List Message) :
    Followed (quiet (reset u)) ms (System.start u ms) where
  sound := .idle rfl
  forwards := nofun
  tracks := ⟨[], [], rfl, rfl, rfl, rfl⟩

theorem followed_tick {q : Quiet} {ms : List Message} (forwards : ∀ m ∈ ms, Forwards m)
    {s : System} {c : Cycle} (followed : Followed q ms s) (roomy : Roomy s c) :
    Followed q ms (s.tick c) := by
  obtain ⟨done, out, split, tracks, fills, acks⟩ := followed.tracks
  have edge := followed.sound.edge (s.inputs c)
  have waiting := accepted_waiting s c
  have incoming : ∀ m ∈ accepted s.regs (s.inputs c), Forwards m := by
    intro m taken
    refine forwards m ?_
    rw [split, waiting]
    exact List.mem_append_right _ (List.mem_append_left _ taken)
  refine ⟨edge.sound, edge_forwards edge incoming,
    done ++ accepted s.regs (s.inputs c), out ++ written s.regs, ?_,
    tracks.step (edge_commutes edge followed.forwards), ?_, ?_⟩
  · rw [List.append_assoc, ← waiting, split]
  · have moved := edge_fills edge
    rw [fillReady_inputs] at moved
    rw [fillsOf_append, ← fills, List.append_assoc, ← moved, ← List.append_assoc]
    rfl
  · have moved := edge_acks edge (ackReady_inputs s c ▸ roomy)
    rw [ackReady_inputs] at moved
    rw [acksOf_append, ← acks, List.append_assoc, ← moved, ← List.append_assoc]
    rfl

theorem followed_after (u : Regs) {ms : List Message} (forwards : ∀ m ∈ ms, Forwards m)
    {cs : List Cycle} (roomy : Obeys (always System.tick) Roomy (System.start u ms) cs) :
    Followed (quiet (reset u)) ms ((System.start u ms).after cs) :=
  foldl_keeps (fun _ _ followed room => followed_tick forwards followed room)
    (followed_start u ms) roomy

theorem roomy_of_ready {s : System} {c : Cycle} (ready : c.Ready) : Roomy s c :=
  fun _ stalled => Bool.noConfusion (ready.2.symm.trans stalled.2)

theorem followed_ready (u : Regs) {ms : List Message} (forwards : ∀ m ∈ ms, Forwards m)
    {cs : List Cycle} (ready : ∀ c ∈ cs, c.Ready) :
    Followed (quiet (reset u)) ms ((System.start u ms).after cs) :=
  followed_after u forwards (obeys_of_mem (fun c listed _ => roomy_of_ready (ready c listed)) _)

/-- The fills emitted so far: those transferred and the one on offer. -/
def fillStream (s : System) : List Fill := s.fills ++ held s.regs.fillValid s.regs.fill

def ackStream (s : System) : List Ack := s.acks ++ held s.regs.ackValid s.regs.ack

theorem Followed.outcome {q : Quiet} {ms : List Message} {s : System} (followed : Followed q ms s)
    (idle : s.regs.s2State = .idle) :
    ∃ done out, ms = done ++ s.waiting ∧ feed Quiet.process ⟨q, []⟩ done = ⟨quiet s.regs, out⟩ ∧
      fillStream s = fillsOf out ∧ ackStream s = acksOf out := by
  obtain ⟨done, out, split, tracks, fills, acks⟩ := followed.tracks
  refine ⟨done, out, split, ?_, fills, acks⟩
  unfold Tracks at tracks
  rw [tracks, flush_idle idle, Outcome.prepend, List.append_nil]

/-- Two schedules that have presented the same messages and have come to rest have emitted the
same fills and acks and have left the same book. -/
theorem pipelining_is_transparent (u : Regs) (ms : List Message) (legal : ∀ m ∈ ms, IsLegal m)
    (cs ds : List Cycle) (ready : ∀ c ∈ cs, c.Ready) (ready' : ∀ d ∈ ds, d.Ready)
    (presented : ((System.start u ms).after cs).waiting = ((System.start u ms).after ds).waiting)
    (idle : ((System.start u ms).after cs).regs.s2State = .idle)
    (idle' : ((System.start u ms).after ds).regs.s2State = .idle) :
    fillStream ((System.start u ms).after cs) = fillStream ((System.start u ms).after ds) ∧
      ackStream ((System.start u ms).after cs) = ackStream ((System.start u ms).after ds) ∧
      ((System.start u ms).after cs).regs.book = ((System.start u ms).after ds).regs.book := by
  have forwards : ∀ m ∈ ms, Forwards m := fun m listed => forwards_of_isLegal (legal m listed)
  obtain ⟨done, out, split, outcome, fills, acks⟩ := (followed_ready u forwards ready).outcome idle
  obtain ⟨done', out', split', outcome', fills', acks'⟩ :=
    (followed_ready u forwards ready').outcome idle'
  have same : done = done' := by
    rw [presented] at split
    exact List.append_cancel_right (split.symm.trans split')
  have equal := outcome.symm.trans ((congrArg (feed Quiet.process _) same).trans outcome')
  obtain ⟨rest, emitted⟩ := Outcome.mk.inj equal
  refine ⟨?_, ?_, congrArg Quiet.book rest⟩
  · rw [fills, fills', emitted]
  · rw [acks, acks', emitted]

theorem pipelining_is_transparent_three_messages :
    let ms := [limitOrder sideSell 1 100 5, limitOrder sideBuy 2 100 3, cancelRequest 1]
    let packed := (System.start zeroRegs ms).after (List.replicate 8 offering)
    let spaced := (System.start zeroRegs ms).after
      ([offering, pausing, pausing, offering] ++ List.replicate 5 pausing ++
        [offering, pausing, pausing])
    (packed.waiting = [] ∧ packed.fills.length = 1 ∧ packed.acks.length = 3) ∧
      fillStream packed = fillStream spaced ∧ ackStream packed = ackStream spaced ∧
      packed.regs.book = spaced.regs.book :=
  ⟨by decide +kernel, pipelining_is_transparent zeroRegs _ (by decide +kernel) _ _
    (by decide +kernel) (by decide +kernel) (by decide +kernel) (by decide +kernel)
    (by decide +kernel)⟩

end HftGrading.Fpga.MatchEngine.PipelineFlush
