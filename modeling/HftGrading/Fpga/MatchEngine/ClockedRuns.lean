/- module: HftGrading/Fpga/MatchEngine/ClockedRuns
   source: fpga/rtl/match_engine_fpga.sv
   digest: The matching engine between a source of messages and its readers, edge by edge. -/

import HftGrading.Lib.PartialExecution
import HftGrading.Lib.FlushedPipeline
import HftGrading.Fpga.MatchEngine.EngineRegisters

set_option autoImplicit false
set_option relaxedAutoImplicit false

namespace HftGrading.Fpga.MatchEngine.ClockedRuns

open Lib.PartialExecution Lib.FlushedPipeline IicpcPkg EngineRegisters

inductive BookSide
  | bid | ask
  deriving DecidableEq, Repr

def ownSide (side : BitVec 8) : BookSide := if side = sideBuy then .bid else .ask

def otherSide (side : BitVec 8) : BookSide := if side = sideBuy then .ask else .bid

def best (b : Book) : BookSide → Bbo
  | .bid => b.bid
  | .ask => b.ask

structure LiveOrder where
  clientOrderId : OrderId
  contestantId : ContestantId
  side : BookSide
  price : Price
  quantity : Nat
  slot : Slot
  deriving DecidableEq, Repr

def consume (side : BookSide) (price : Price) : Nat → List LiveOrder → List LiveOrder
  | _, [] => []
  | qty, o :: os =>
    if o.side = side ∧ o.price = price then
      if qty < o.quantity then { o with quantity := o.quantity - qty } :: os
      else consume side price (qty - o.quantity) os
    else o :: consume side price qty os

def LiveOrder.of (m : Message) (slot : Slot) : LiveOrder :=
  ⟨m.clientOrderId, m.contestantId, ownSide m.side, m.price, m.quantity.toNat, slot⟩

def names (a : Ack) (o : LiveOrder) : Bool :=
  a.clientOrderId == o.clientOrderId && a.contestantId == o.contestantId

/-- The orders that have been inserted, less what has been filled and what has been acked
`CANCELLED`, after an edge at the registers `r`. -/
def liveAfter (r : Regs) (live : List LiveOrder) : List LiveOrder :=
  match r.s2State with
  | .idle => live
  | .execute =>
    if r.s2.msgType = msgCancelReq then
      if (executeAck r.s2 r.book).status = ackCancelled then
        live.filter (fun o => !names (executeAck r.s2 r.book) o)
      else live
    else if r.s2.rests && r.book.hasSlot then live ++ [.of r.s2 r.book.nextSlot]
    else live
  | .crossing => live
  | .fillOut => consume (otherSide r.s2.side) r.sweep.price r.sweep.qty.toNat live

/-- The engine, the messages still to be presented to it, the fills and acks that have been
transferred, and the orders that are live. -/
structure System where
  regs : Regs
  waiting : List Message
  fills : List Fill
  acks : List Ack
  live : List LiveOrder

def System.start (u : Regs) (ms : List Message) : System := ⟨reset u, ms, [], [], []⟩

/-- One cycle of the environment: whether the next message is presented, what the message
lines carry if not, and who is ready. -/
structure Cycle where
  offer : Bool
  noise : Message
  fillReady : Bool
  ackReady : Bool
  deriving DecidableEq, Repr

def Cycle.Ready (c : Cycle) : Prop := c.fillReady = true ∧ c.ackReady = true

instance (c : Cycle) : Decidable c.Ready := inferInstanceAs (Decidable (_ ∧ _))

namespace System

variable (s : System) (c : Cycle)

def inputs : Inputs :=
  match c.offer, s.waiting with
  | true, m :: _ => ⟨true, m, c.fillReady, c.ackReady⟩
  | _, _ => ⟨false, c.noise, c.fillReady, c.ackReady⟩

/-- A clock edge. A message that is taken gives way to the next one. -/
def tick : System where
  regs := s.regs.cycle (s.inputs c)
  waiting := if accept s.regs (s.inputs c) then s.waiting.tail else s.waiting
  fills := s.fills ++ taken s.regs.fillValid c.fillReady s.regs.fill
  acks := s.acks ++ taken s.regs.ackValid c.ackReady s.regs.ack
  live := liveAfter s.regs s.live

def after (cs : List Cycle) : System := cs.foldl tick s

end System

theorem fillReady_inputs (s : System) (c : Cycle) : (s.inputs c).fillReady = c.fillReady := by
  unfold System.inputs
  split <;> rfl

theorem ackReady_inputs (s : System) (c : Cycle) : (s.inputs c).ackReady = c.ackReady := by
  unfold System.inputs
  split <;> rfl

theorem inValid_of_accept {r : Regs} {i : Inputs} (takes : accept r i = true) :
    i.inValid = true := by
  simp only [accept, Bool.and_eq_true] at takes
  exact takes.1

def accepted (r : Regs) (i : Inputs) : List Message := if accept r i then [i.message] else []

theorem accepted_waiting (s : System) (c : Cycle) :
    s.waiting = accepted s.regs (s.inputs c) ++ (s.tick c).waiting := by
  unfold accepted System.tick
  by_cases taken : accept s.regs (s.inputs c) = true
  · have valid := inValid_of_accept taken
    simp only [taken, if_true]
    unfold System.inputs at valid ⊢
    split at valid
    · next presented =>
        simp only [presented, List.tail_cons, List.singleton_append]
    · cases valid
  · simp only [taken]
    rfl

def IsEntry (m : Message) : Prop :=
  m.msgType = msgOrderEntry ∧ (m.side = sideBuy ∨ m.side = sideSell)

instance (m : Message) : Decidable (IsEntry m) := inferInstanceAs (Decidable (_ ∧ _))

/-- The messages of the protocol. -/
def IsLegal (m : Message) : Prop :=
  (m.msgType = msgOrderEntry ∨ m.msgType = msgCancelReq) ∧ (m.side = sideBuy ∨ m.side = sideSell)

instance (m : Message) : Decidable (IsLegal m) := inferInstanceAs (Decidable (_ ∧ _))

def crosses (m : Message) (b : Bbo) : Bool :=
  b.valid && if m.side = sideBuy then decide (m.price ≥ b.price)
    else decide (m.price ≤ b.price) || m.orderType == orderMarket

def facing (b : Book) (m : Message) : Bbo := best b (otherSide m.side)

/-- Whether a sweep with the leftover `sweep` finds a fill. -/
def hits (sweep : SweepMatch) (b : Book) (m : Message) : Bool :=
  decide (0 < m.quantity) && crosses m (facing b m) && decide (sweep.qty < (facing b m).qty)

section Wires

variable {r : Regs}

theorem s2DoingInsert_crossing (state : r.s2State = .crossing) : s2DoingInsert r = false := by
  simp [s2DoingInsert, state]

theorem fwdAsk_crossing (state : r.s2State = .crossing) (valid : r.s2Valid = true)
    (buy : r.s2.side = sideBuy) :
    fwdBestAskPrice r = r.book.ask.price ∧
      fwdAskValid r = (r.book.ask.valid && decide (r.sweep.qty < r.book.ask.qty)) := by
  have still := s2DoingInsert_crossing state
  by_cases stale : r.book.ask.qty ≤ r.sweep.qty
  · have notLess : ¬ r.sweep.qty < r.book.ask.qty := by bv_omega
    simp [fwdBestAskPrice, fwdAskValid, s2InsertImprovesAsk, s2FillExhaustsAsk, s2DoingFill, still,
      state, valid, buy, stale, notLess]
  · have less : r.sweep.qty < r.book.ask.qty := by bv_omega
    simp [fwdBestAskPrice, fwdAskValid, s2InsertImprovesAsk, s2FillExhaustsAsk, s2DoingFill, still,
      state, valid, buy, stale, less]

theorem fwdBid_crossing (state : r.s2State = .crossing) (valid : r.s2Valid = true)
    (sell : r.s2.side = sideSell) :
    fwdBestBidPrice r = r.book.bid.price ∧
      fwdBidValid r = (r.book.bid.valid && decide (r.sweep.qty < r.book.bid.qty)) := by
  have still := s2DoingInsert_crossing state
  by_cases stale : r.book.bid.qty ≤ r.sweep.qty
  · have notLess : ¬ r.sweep.qty < r.book.bid.qty := by bv_omega
    simp [fwdBestBidPrice, fwdBidValid, s2InsertImprovesBid, s2FillExhaustsBid, s2DoingFill, still,
      state, valid, sell, stale, notLess]
  · have less : r.sweep.qty < r.book.bid.qty := by bv_omega
    simp [fwdBestBidPrice, fwdBidValid, s2InsertImprovesBid, s2FillExhaustsBid, s2DoingFill, still,
      state, valid, sell, stale, less]

theorem crossing_eq (state : r.s2State = .crossing) (valid : r.s2Valid = true)
    (entry : IsEntry r.s2) (shallow : r.s2SweepDepth.toNat < maxSweepDepth) :
    r.crossing =
      if hits r.sweep r.book r.s2 then r.beginFill (facing r.book r.s2) else r.endSweep := by
  by_cases some : 0 < r.s2.quantity
  · rcases entry.2 with buy | sell
    · obtain ⟨price, flag⟩ := fwdAsk_crossing state valid buy
      simp only [Regs.crossing, hits, crosses, facing, otherSide, best, some, shallow, buy, price,
        flag, and_self, if_true, decide_true, Bool.true_and]
      rw [Bool.and_right_comm]
    · obtain ⟨price, flag⟩ := fwdBid_crossing state valid sell
      simp only [Regs.crossing, hits, crosses, facing, otherSide, best, some, shallow, sell, price,
        flag, sideSell_ne_sideBuy, and_self, if_true, if_false, decide_true, Bool.true_and]
      rw [Bool.and_right_comm]
  · simp only [Regs.crossing, hits, some, false_and, if_false, decide_false, Bool.false_and,
      Bool.false_eq_true]

theorem isEntry_of_s1IsCrossing {i : Inputs} (crossing : s1IsCrossing r i = true) :
    IsEntry i.message := by
  simp only [s1IsCrossing, s1CanMatchBid, s1CanMatchAsk, Bool.and_eq_true, Bool.or_eq_true,
    beq_iff_eq] at crossing
  obtain ⟨⟨-, entry⟩, ⟨⟨buy, -⟩, -⟩ | ⟨⟨sell, -⟩, -⟩⟩ := crossing
  · exact ⟨entry, .inl buy⟩
  · exact ⟨entry, .inr sell⟩

end Wires

theorem facing_spendBest (b : Book) (m : Message) (qty : Quantity) :
    facing (b.spendBest m.side qty) m = (facing b m).spend qty := by
  unfold facing otherSide Book.spendBest
  split_ifs <;> rfl

/-- What the registers of stage 2 say of each other, state by state. In a second round of a
sweep the level it met is gone: a fill leaves either nothing of the order or nothing of the
level. A message is only taken when no fill waits for its reader, so that the fill register is
empty when the sweep begins. -/
inductive Sound (r : Regs) : Prop
  | idle (state : r.s2State = .idle)
  | execute (state : r.s2State = .execute) (valid : r.s2Valid = true)
      (settled : r.s2IsCrossing = false)
  | crossing (state : r.s2State = .crossing) (valid : r.s2Valid = true) (entry : IsEntry r.s2)
      (round : r.s2SweepDepth = 0 ∧ r.fillValid = false ∨
        r.s2SweepDepth = 1 ∧ (facing r.book r.s2).valid = false)
  | fillOut (state : r.s2State = .fillOut) (valid : r.s2Valid = true) (entry : IsEntry r.s2)
      (round : r.s2SweepDepth = 0 ∧ r.fillValid = false) (some : 0 < r.s2.quantity)
      (flag : (facing r.book r.s2).valid = true)
      (found : r.sweep = matchOf r.s2 (facing r.book r.s2))

inductive Edge (r : Regs) (i : Inputs) : Regs → Prop
  | rests (state : r.s2State = .idle) (silent : accept r i = false) : Edge r i (r.deassert i)
  | starts (state : r.s2State = .idle) (takes : accept r i = true) :
      Edge r i ((r.deassert i).latch i r)
  | completes (state : r.s2State = .execute) (valid : r.s2Valid = true)
      (settled : r.s2IsCrossing = false) (silent : accept r i = false) :
      Edge r i (r.deassert i).execute.empty
  | chains (state : r.s2State = .execute) (valid : r.s2Valid = true)
      (settled : r.s2IsCrossing = false) (takes : accept r i = true) :
      Edge r i ((r.deassert i).execute.latch i r)
  | strikes (state : r.s2State = .crossing) (valid : r.s2Valid = true) (entry : IsEntry r.s2)
      (round : r.s2SweepDepth = 0 ∧ r.fillValid = false) (hit : hits r.sweep r.book r.s2 = true) :
      Edge r i ((r.deassert i).beginFill (facing r.book r.s2))
  | passes (state : r.s2State = .crossing) (valid : r.s2Valid = true) (entry : IsEntry r.s2)
      (miss : hits r.sweep r.book r.s2 = false) : Edge r i (r.deassert i).endSweep
  | fills (state : r.s2State = .fillOut) (valid : r.s2Valid = true) (entry : IsEntry r.s2)
      (round : r.s2SweepDepth = 0 ∧ r.fillValid = false) (some : 0 < r.s2.quantity)
      (flag : (facing r.book r.s2).valid = true)
      (found : r.sweep = matchOf r.s2 (facing r.book r.s2)) : Edge r i (r.deassert i).fillOut

section Edges

variable {r r' : Regs} {i : Inputs}

theorem not_hits_of_invalid {sweep : SweepMatch} {b : Book} {m : Message}
    (gone : (facing b m).valid = false) : hits sweep b m = false := by
  simp only [hits, crosses, gone, Bool.false_and, Bool.and_false]

theorem accept_sweeping (sweeping : r.s2State = .crossing ∨ r.s2State = .fillOut) :
    accept r i = false := by
  refine Bool.eq_false_iff.mpr fun takes => ?_
  simp only [accept, inReady, s2CompletesThisCycle, Bool.and_eq_true, Bool.or_eq_true,
    beq_iff_eq] at takes
  rcases sweeping with state | state <;> simp [state] at takes

theorem Sound.edge (sound : Sound r) (i : Inputs) : Edge r i (r.cycle i) := by
  cases sound with
  | idle state =>
    simp only [Regs.cycle, state]
    split_ifs with takes
    · exact .starts state takes
    · exact .rests state (Bool.eq_false_iff.mpr takes)
  | execute state valid settled =>
    simp only [Regs.cycle, state]
    split_ifs with takes
    · exact .chains state valid settled takes
    · exact .completes state valid settled (Bool.eq_false_iff.mpr takes)
  | crossing state valid entry round =>
    have shallow : (r.deassert i).s2SweepDepth.toNat < maxSweepDepth := by
      show r.s2SweepDepth.toNat < maxSweepDepth
      rcases round with ⟨first, -⟩ | ⟨second, -⟩
      · rw [first]
        decide
      · rw [second]
        decide
    have round' : (r.deassert i).crossing = _ :=
      crossing_eq (r := r.deassert i) state valid entry shallow
    simp only [Regs.cycle, state, round']
    split_ifs with hit
    · refine .strikes state valid entry (round.resolve_right fun second => ?_) hit
      exact Bool.noConfusion ((not_hits_of_invalid second.2).symm.trans hit)
    · exact .passes state valid entry (Bool.eq_false_iff.mpr hit)
  | fillOut state valid entry round some flag found =>
    simp only [Regs.cycle, state]
    exact .fills state valid entry round some flag found

theorem accept_clears (takes : accept r i = true) : (r.deassert i).fillValid = false := by
  simp only [accept, inReady, outputStall, Bool.and_eq_true, Bool.not_eq_true',
    Bool.or_eq_false_iff, Bool.and_eq_false_iff, Bool.not_eq_false'] at takes
  have free := takes.2.1.1
  unfold Regs.deassert
  rcases free with empty | ready
  · simp only [empty, ite_self]
  · simp only [ready, if_true]

theorem sound_latch {q : Regs} (empty : q.fillValid = false) : Sound (q.latch i r) := by
  cases crossing : s1IsCrossing r i with
  | true =>
    refine .crossing ?_ rfl (isEntry_of_s1IsCrossing crossing) (.inl ⟨rfl, empty⟩)
    simp only [Regs.latch, crossing, if_true]
  | false =>
    refine .execute ?_ rfl crossing
    simp only [Regs.latch, crossing, Bool.false_eq_true, if_false]

theorem matchOf_exhausts {m : Message} {b : Bbo} (left : 0 < m.quantity - (matchOf m b).qty) :
    b.qty ≤ (matchOf m b).qty := by
  unfold matchOf at left ⊢
  dsimp only at left ⊢
  split_ifs at left ⊢ with less
  · simp at left
  · exact BitVec.le_refl _

theorem facing_gone (found : r.sweep = matchOf r.s2 (facing r.book r.s2))
    (left : 0 < r.s2.quantity - r.sweep.qty) :
    (facing (r.book.spendBest r.s2.side r.sweep.qty) r.s2).valid = false := by
  rw [found] at left ⊢
  rw [facing_spendBest]
  exact if_pos (matchOf_exhausts left)

theorem sound_fillOut (valid : r.s2Valid = true) (entry : IsEntry r.s2)
    (round : r.s2SweepDepth = 0) (found : r.sweep = matchOf r.s2 (facing r.book r.s2)) :
    Sound r.fillOut := by
  by_cases left : 0 < r.s2.quantity - r.sweep.qty
  · have next : r.fillOut.s2State = .crossing ∧ r.fillOut.s2Valid = true ∧
        r.fillOut.s2SweepDepth = 1 ∧ IsEntry r.fillOut.s2 := by
      simp only [Regs.fillOut, left, if_true, valid, round]
      exact ⟨trivial, trivial, rfl, entry⟩
    have gone : (facing r.fillOut.book r.fillOut.s2).valid = false := by
      simp only [Regs.fillOut, left, if_true]
      exact facing_gone found left
    exact .crossing next.1 next.2.1 next.2.2.2 (.inr ⟨next.2.2.1, gone⟩)
  · have next : r.fillOut.s2State = .execute ∧ r.fillOut.s2Valid = true ∧
        r.fillOut.s2IsCrossing = false := by
      simp only [Regs.fillOut, left, if_false, valid, and_self]
    exact .execute next.1 next.2.1 next.2.2

theorem Edge.sound (edge : Edge r i r') : Sound r' := by
  cases edge with
  | rests state silent => exact .idle state
  | starts state takes => exact sound_latch (accept_clears takes)
  | completes state valid settled silent => exact .idle rfl
  | chains state valid settled takes =>
    have empty : (r.deassert i).execute.fillValid = false := accept_clears takes
    exact sound_latch empty
  | strikes state valid entry round hit =>
    simp only [hits, crosses, Bool.and_eq_true, decide_eq_true_eq] at hit
    have empty : (r.deassert i).fillValid = false := by
      simp only [Regs.deassert, round.2, ite_self]
    exact .fillOut rfl valid entry ⟨round.1, empty⟩ hit.1.1 hit.1.2.1 rfl
  | passes state valid entry miss => exact .execute rfl valid rfl
  | fills state valid entry round some flag found =>
    exact sound_fillOut (r := r.deassert i) valid entry round.1 found

end Edges

def zeroMessage : Message := ⟨0, 0, 0, 0, 0, 0, 0, 0⟩

def zeroWay : CancelWay := ⟨fun _ => 0, fun _ => 0, fun _ => false⟩

def zeroRegs : Regs where
  book := ⟨fun _ => ⟨0, 0⟩, fun _ => 0, 0, ⟨0, 0, 0, false⟩, ⟨0, 0, 0, false⟩, zeroWay, zeroWay⟩
  sweep := ⟨0, 0, 0⟩
  s2State := .idle
  s2Valid := false
  s2 := zeroMessage
  s2IsCrossing := false
  s2SweepDepth := 0
  fillValid := false
  fill := ⟨0, 0, 0, 0, 0, 0, 0⟩
  ackValid := false
  ack := ⟨0, 0, 0⟩
  stats := ⟨0, 0, 0, 0, 0, 0⟩

def limitOrder (side : BitVec 8) (oid : OrderId) (price : Price) (qty : Quantity) : Message :=
  ⟨msgOrderEntry, 1, side, orderLimit, oid, price, qty, 0⟩

def cancelRequest (oid : OrderId) : Message := ⟨msgCancelReq, 1, sideBuy, orderLimit, oid, 0, 0, 0⟩

def offering : Cycle := ⟨true, zeroMessage, true, true⟩

def pausing : Cycle := ⟨false, zeroMessage, true, true⟩

end HftGrading.Fpga.MatchEngine.ClockedRuns
