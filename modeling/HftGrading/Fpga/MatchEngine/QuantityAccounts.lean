/- module: HftGrading/Fpga/MatchEngine/QuantityAccounts
   source: fpga/rtl/match_engine_fpga.sv
   digest: An account for every accepted message, and why the accounts of orders balance. -/

import HftGrading.Fpga.MatchEngine.PipelineFlush

set_option autoImplicit false
set_option relaxedAutoImplicit false

namespace HftGrading.Fpga.MatchEngine.QuantityAccounts

open Lib.PartialExecution IicpcPkg EngineRegisters ClockedRuns PipelineFlush

/-- An edge of `S2_FILL_OUT`: the fill it generates, and the registers it subtracts from as they
are before it and after it. -/
structure FillEntry where
  qty : Nat
  remaining : Nat
  opposite : Nat
  remainingAfter : Nat
  oppositeAfter : Nat
  deriving DecidableEq, Repr

structure Account where
  order : Message
  fills : List FillEntry
  inserted : Nat
  discarded : Nat
  deriving DecidableEq, Repr

def Account.filled (a : Account) : Nat := (a.fills.map FillEntry.qty).sum

/-- The accounts of the messages that have left stage 2, and that of the one in it. -/
structure Ledger where
  settled : List Account
  current : Option Account
  deriving DecidableEq, Repr

section Bookings

variable (r r' : Regs)

/-- The `S2_EXECUTE` of this cycle writes an order to the pool. -/
def insertsOrder : Bool := r.s2.msgType != msgCancelReq && r.s2.rests && r.book.hasSlot

def Account.fill (a : Account) : Account :=
  { a with fills := a.fills ++ [{
      qty := r'.fill.qty.toNat
      remaining := r.s2.quantity.toNat
      opposite := (facing r.book r.s2).qty.toNat
      remainingAfter := r'.s2.quantity.toNat
      oppositeAfter := (facing r'.book r'.s2).qty.toNat }] }

/-- The edge from `r` to `r'` executes the message: the pool takes what is left, or nothing does. -/
def Account.close (a : Account) : Account :=
  { a with
    inserted := if insertsOrder r then (r'.book.orderPool r.book.nextSlot).qty.toNat else 0
    discarded := if insertsOrder r then 0 else r.s2.quantity.toNat }

def Ledger.book (l : Ledger) : Ledger :=
  match r.s2State with
  | .idle | .crossing => l
  | .execute => ⟨l.settled ++ (l.current.map (Account.close r r')).toList, none⟩
  | .fillOut => { l with current := l.current.map (Account.fill r r') }

end Bookings

def Ledger.enrol (l : Ledger) : List Message → Ledger
  | [] => l
  | m :: _ => { l with current := some ⟨m, [], 0, 0⟩ }

structure Audit where
  system : System
  ledger : Ledger

def Audit.tick (a : Audit) (c : Cycle) : Audit where
  system := a.system.tick c
  ledger := (a.ledger.book a.system.regs (a.system.tick c).regs).enrol
    (accepted a.system.regs (a.system.inputs c))

def audit (u : Regs) (ms : List Message) (cs : List Cycle) : Audit :=
  cs.foldl Audit.tick ⟨System.start u ms, ⟨[], none⟩⟩

theorem audit_system (u : Regs) (ms : List Message) (cs : List Cycle) :
    (audit u ms cs).system = (System.start u ms).after cs := by
  unfold audit System.after
  exact (List.foldl_hom Audit.system fun _ _ => rfl).symm

structure FillEntry.Covered (f : FillEntry) : Prop where
  positive : 0 < f.qty
  byOrder : f.qty ≤ f.remaining
  byLevel : f.qty ≤ f.opposite
  remaining : f.remainingAfter = f.remaining - f.qty
  opposite : f.oppositeAfter = f.opposite - f.qty

structure Account.Balanced (a : Account) : Prop where
  sum : a.filled + a.inserted + a.discarded = a.order.quantity.toNat
  limit : a.order.orderType = orderLimit → a.discarded = 0
  other : a.order.orderType ≠ orderLimit → a.inserted = 0
  fills : ∀ f ∈ a.fills, f.Covered

/-- The account of the message in stage 2: what is not filled is in `s2_remaining_qty`. -/
structure Account.Running (a : Account) (r : Regs) : Prop where
  msgType : a.order.msgType = r.s2.msgType
  orderType : a.order.orderType = r.s2.orderType
  sum : a.filled + r.s2.quantity.toNat = a.order.quantity.toNat
  fills : ∀ f ∈ a.fills, f.Covered

section Steps

variable {r r' : Regs} {i : Inputs}

theorem Account.Running.congr {a : Account} (running : a.Running r) (s2 : r'.s2 = r.s2) :
    a.Running r' :=
  ⟨s2 ▸ running.msgType, s2 ▸ running.orderType, s2 ▸ running.sum, running.fills⟩

theorem running_opened (m : Message) (same : r.s2 = m) :
    Account.Running ⟨m, [], 0, 0⟩ r := by
  subst same
  exact ⟨rfl, rfl, Nat.zero_add _, fun _ none => absurd none List.not_mem_nil⟩

theorem matchOf_qty (m : Message) (b : Bbo) :
    (matchOf m b).qty.toNat = min m.quantity.toNat b.qty.toNat := by
  unfold matchOf
  dsimp only
  split_ifs with less
  · rw [BitVec.lt_def] at less
    omega
  · rw [BitVec.lt_def] at less
    omega

theorem fillOut_writes (r : Regs) :
    r.fillOut.fill = fillOf r.s2 r.sweep ∧
      r.fillOut.s2 = { r.s2 with quantity := r.s2.quantity - r.sweep.qty } ∧
      r.fillOut.book = r.book.spendBest r.s2.side r.sweep.qty ∧
      r.fillOut.s2State ≠ .idle ∧ r.fillOut.s2State ≠ .fillOut := by
  unfold Regs.fillOut
  split_ifs
  · exact ⟨rfl, rfl, rfl, S2State.noConfusion, S2State.noConfusion⟩
  · exact ⟨rfl, rfl, rfl, S2State.noConfusion, S2State.noConfusion⟩

theorem running_fill {a : Account} (running : a.Running r)
    (found : r.sweep = matchOf r.s2 (facing r.book r.s2)) (loaded : 0 < r.sweep.qty.toNat) :
    (a.fill r r.fillOut).Running r.fillOut := by
  obtain ⟨fill, s2, book, -⟩ := fillOut_writes r
  have qty : r.sweep.qty.toNat = min r.s2.quantity.toNat (facing r.book r.s2).qty.toNat := by
    rw [found]
    exact matchOf_qty _ _
  have written : r.fillOut.fill.qty = r.sweep.qty := by rw [fill]; rfl
  have left : r.fillOut.s2.quantity.toNat = r.s2.quantity.toNat - r.sweep.qty.toNat := by
    rw [s2]
    exact BitVec.toNat_sub_of_le (by rw [BitVec.le_def]; omega)
  have level : (facing r.fillOut.book r.fillOut.s2).qty.toNat =
      (facing r.book r.s2).qty.toNat - r.sweep.qty.toNat := by
    rw [book, s2]
    have spent := congrArg Bbo.qty (facing_spendBest r.book r.s2 r.sweep.qty)
    refine (congrArg BitVec.toNat spent).trans ?_
    exact BitVec.toNat_sub_of_le (by rw [BitVec.le_def]; omega)
  refine ⟨running.msgType.trans (by rw [s2]), running.orderType.trans (by rw [s2]), ?_, ?_⟩
  · have before := running.sum
    have grown : (a.fill r r.fillOut).filled = a.filled + r.sweep.qty.toNat := by
      simp only [Account.filled, Account.fill, written, List.map_append, List.map_cons,
        List.map_nil, List.sum_append, List.sum_cons, List.sum_nil, Nat.add_zero]
    show (a.fill r r.fillOut).filled + _ = a.order.quantity.toNat
    rw [grown, left]
    omega
  · intro f listed
    rcases List.mem_append.mp listed with old | new
    · exact running.fills f old
    · rw [List.mem_singleton.mp new]
      constructor
      · exact written ▸ loaded
      · show r.fillOut.fill.qty.toNat ≤ r.s2.quantity.toNat
        rw [written]
        omega
      · show r.fillOut.fill.qty.toNat ≤ (facing r.book r.s2).qty.toNat
        rw [written]
        omega
      · show r.fillOut.s2.quantity.toNat = r.s2.quantity.toNat - r.fillOut.fill.qty.toNat
        rw [left, written]
      · show (facing r.fillOut.book r.fillOut.s2).qty.toNat =
          (facing r.book r.s2).qty.toNat - r.fillOut.fill.qty.toNat
        rw [level, written]

theorem orderPool_inserted (inserts : insertsOrder r = true) :
    (executeBook r.s2 r.book).orderPool r.book.nextSlot = ⟨r.s2.price, r.s2.quantity⟩ := by
  simp only [insertsOrder, Bool.and_eq_true, bne_iff_ne] at inserts
  rw [executeBook_inserts inserts.1]
  simp only [Book.insertOrder, inserts.2, if_true]
  exact Function.update_self ..

theorem balanced_close {a : Account} (running : a.Running r)
    (order : a.order.msgType ≠ msgCancelReq) (book : r'.book = executeBook r.s2 r.book) :
    (a.close r r').Balanced := by
  have total := running.sum
  have insertsIff : insertsOrder r = true ↔ r.s2.orderType = orderLimit ∧ 0 < r.s2.quantity := by
    simp [insertsOrder, Message.rests, hasSlot_eq_true, ← running.msgType, order]
  constructor
  · show a.filled + (a.close r r').inserted + (a.close r r').discarded = _
    unfold Account.close
    split_ifs with inserts
    · rw [book, orderPool_inserted inserts]
      exact total
    · exact total
  · intro limit
    show (if insertsOrder r then 0 else r.s2.quantity.toNat) = 0
    split_ifs with inserts
    · rfl
    · have empty : ¬ 0 < r.s2.quantity := fun some =>
        inserts (insertsIff.mpr ⟨running.orderType.symm.trans limit, some⟩)
      bv_omega
  · intro other
    refine if_neg fun inserts => other ?_
    exact running.orderType.trans (insertsIff.mp inserts).1
  · exact running.fills

end Steps

/-- The messages that have an account, in the order they were taken. -/
def Ledger.orders (l : Ledger) : List Message :=
  l.settled.map Account.order ++ l.current.toList.map Account.order

/-- What the ledger says is right when the registers are `r`. -/
structure Kept (r : Regs) (l : Ledger) : Prop where
  loaded : r.s2State = .fillOut → 0 < r.sweep.qty.toNat
  settled : ∀ a ∈ l.settled, a.order.msgType ≠ msgCancelReq → a.Balanced
  idle : r.s2State = .idle → l.current = none
  busy : r.s2State ≠ .idle → ∃ a, l.current = some a ∧ a.Running r

section Edges

variable {r r' : Regs} {i : Inputs} {l : Ledger}

theorem enrol_none (silent : accept r i = false) : l.enrol (accepted r i) = l := by
  simp only [accepted, silent, Bool.false_eq_true, if_false, Ledger.enrol]

theorem enrol_some (takes : accept r i = true) :
    l.enrol (accepted r i) = { l with current := some ⟨i.message, [], 0, 0⟩ } := by
  simp only [accepted, takes, if_true, Ledger.enrol]

theorem kept_latch {q : Regs} (takes : accept r i = true) (free : l.current = none)
    (settled : ∀ a ∈ l.settled, a.order.msgType ≠ msgCancelReq → a.Balanced) :
    Kept (q.latch i r) (l.enrol (accepted r i)) ∧
      (l.enrol (accepted r i)).orders = l.orders ++ accepted r i := by
  have working : (q.latch i r).s2State = .crossing ∨ (q.latch i r).s2State = .execute := by
    unfold Regs.latch
    dsimp only
    split_ifs
    · exact .inl rfl
    · exact .inr rfl
  rw [enrol_some takes]
  refine ⟨⟨?_, settled, ?_, fun _ => ⟨_, rfl, running_opened _ rfl⟩⟩, ?_⟩
  · intro filling
    rcases working with state | state <;> exact S2State.noConfusion (state.symm.trans filling)
  · intro idle
    rcases working with state | state <;> exact S2State.noConfusion (state.symm.trans idle)
  · simp only [Ledger.orders, free, accepted, takes, if_true, Option.toList_none,
      Option.toList_some, List.map_nil, List.map_cons, List.append_nil]

theorem kept_execute (r' : Regs) (kept : Kept r l) (state : r.s2State = .execute)
    (book : r'.book = executeBook r.s2 r.book) :
    (l.book r r').current = none ∧ (l.book r r').orders = l.orders ∧
      ∀ a ∈ (l.book r r').settled, a.order.msgType ≠ msgCancelReq → a.Balanced := by
  obtain ⟨a, current, running⟩ := kept.busy (by rw [state]; exact S2State.noConfusion)
  have booked : l.book r r' = ⟨l.settled ++ [a.close r r'], none⟩ := by
    simp only [Ledger.book, state, current, Option.map_some, Option.toList_some]
  rw [booked]
  refine ⟨rfl, ?_, ?_⟩
  · simp only [Ledger.orders, current, List.map_append, List.map_cons, List.map_nil,
      Option.toList_none, Option.toList_some, List.append_nil]
    rfl
  · intro x listed order
    rcases List.mem_append.mp listed with old | new
    · exact kept.settled x old order
    · rw [List.mem_singleton.mp new] at order ⊢
      exact balanced_close running order book

theorem orders_silent (silent : accept r i = false) : l.orders = l.orders ++ accepted r i := by
  simp only [accepted, silent, Bool.false_eq_true, if_false, List.append_nil]

theorem kept_sweeping (kept : Kept r l) (state : r.s2State = .crossing)
    (same : l.book r r' = l) (s2 : r'.s2 = r.s2) (busy : r'.s2State ≠ .idle)
    (loaded : r'.s2State = .fillOut → 0 < r'.sweep.qty.toNat) :
    Kept r' ((l.book r r').enrol (accepted r i)) ∧
      ((l.book r r').enrol (accepted r i)).orders = l.orders ++ accepted r i := by
  have silent := accept_sweeping (r := r) (i := i) (.inl state)
  obtain ⟨a, current, running⟩ := kept.busy (by rw [state]; exact S2State.noConfusion)
  rw [enrol_none silent, same]
  exact ⟨⟨loaded, kept.settled, fun idle => absurd idle busy,
    fun _ => ⟨a, current, running.congr s2⟩⟩, orders_silent silent⟩

theorem kept_edge (edge : Edge r i r') (kept : Kept r l) :
    Kept r' ((l.book r r').enrol (accepted r i)) ∧
      ((l.book r r').enrol (accepted r i)).orders = l.orders ++ accepted r i := by
  cases edge with
  | rests state silent =>
    have same : l.book r (r.deassert i) = l := by simp only [Ledger.book, state]
    rw [enrol_none silent, same]
    refine ⟨⟨?_, kept.settled, fun _ => kept.idle state, fun busy => absurd state busy⟩,
      orders_silent silent⟩
    intro filling
    exact S2State.noConfusion (state.symm.trans filling)
  | starts state takes =>
    have same : l.book r ((r.deassert i).latch i r) = l := by simp only [Ledger.book, state]
    rw [same]
    exact kept_latch takes (kept.idle state) kept.settled
  | completes state valid settled silent =>
    obtain ⟨free, orders, balanced⟩ :=
      kept_execute (r.deassert i).execute.empty kept state rfl
    rw [enrol_none silent, orders]
    exact ⟨⟨fun filling => S2State.noConfusion filling, balanced, fun _ => free,
      fun busy => absurd rfl busy⟩, orders_silent silent⟩
  | chains state valid settled takes =>
    obtain ⟨free, orders, balanced⟩ :=
      kept_execute ((r.deassert i).execute.latch i r) kept state rfl
    rw [← orders]
    exact kept_latch takes free balanced
  | strikes state valid entry round hit =>
    refine kept_sweeping kept state (by simp only [Ledger.book, state]) rfl S2State.noConfusion
      fun _ => ?_
    -- The level holds more than the leftover of the last sweep, so that it holds something.
    simp only [hits, Bool.and_eq_true, decide_eq_true_eq, BitVec.lt_def] at hit
    have least : 0 < min r.s2.quantity.toNat (facing r.book r.s2).qty.toNat :=
      lt_min hit.1.1 (Nat.zero_lt_of_lt hit.2)
    exact (matchOf_qty r.s2 (facing r.book r.s2)).symm ▸ least
  | passes state valid entry miss =>
    exact kept_sweeping kept state (by simp only [Ledger.book, state]) rfl S2State.noConfusion
      S2State.noConfusion
  | fills state valid entry round some flag found =>
    have silent := accept_sweeping (r := r) (i := i) (.inr state)
    obtain ⟨a, current, running⟩ := kept.busy (by rw [state]; exact S2State.noConfusion)
    have booked : l.book r (r.deassert i).fillOut =
        { l with current := Option.some (a.fill r (r.deassert i).fillOut) } := by
      simp only [Ledger.book, state, current, Option.map_some]
    have next : (a.fill (r.deassert i) (r.deassert i).fillOut).Running (r.deassert i).fillOut :=
      running_fill (running.congr rfl) found (kept.loaded state)
    rw [enrol_none silent, booked]
    refine ⟨⟨fun filling => ?_, kept.settled, fun idle => ?_, fun _ => ⟨_, rfl, next⟩⟩, ?_⟩
    · exact absurd filling (fillOut_writes (r.deassert i)).2.2.2.2
    · exact absurd idle (fillOut_writes (r.deassert i)).2.2.2.1
    · rw [← orders_silent silent]
      simp only [Ledger.orders, current, Option.toList_some, List.map_cons, List.map_nil]
      rfl

theorem kept_audit (u : Regs) (ms : List Message) (cs : List Cycle) :
    let a := audit u ms cs
    Sound a.system.regs ∧ Kept a.system.regs a.ledger ∧ a.ledger.orders ++ a.system.waiting = ms := by
  have keep : ∀ (a : Audit) (c : Cycle),
      Sound a.system.regs ∧ Kept a.system.regs a.ledger ∧
        a.ledger.orders ++ a.system.waiting = ms → True →
      Sound (a.tick c).system.regs ∧ Kept (a.tick c).system.regs (a.tick c).ledger ∧
        (a.tick c).ledger.orders ++ (a.tick c).system.waiting = ms := by
    intro a c inv _
    have edge := inv.1.edge (a.system.inputs c)
    obtain ⟨kept, orders⟩ := kept_edge edge inv.2.1
    refine ⟨edge.sound, kept, ?_⟩
    have whole := inv.2.2
    rw [accepted_waiting a.system c, ← List.append_assoc, ← orders] at whole
    exact whole
  have start : Kept (reset u) ⟨[], none⟩ :=
    ⟨fun filling => S2State.noConfusion filling, fun _ none => absurd none List.not_mem_nil,
      fun _ => rfl, fun busy => absurd rfl busy⟩
  exact foldl_keeps keep ⟨.idle rfl, start, rfl⟩ (obeys_of_forall (fun _ _ => trivial) _ _)

end Edges

/-- Every message taken has an account. The account of an order that has left stage 2 balances,
with fills that both sides cover; the order in stage 2 has the rest of its quantity in
`s2_remaining_qty`. This is so for any messages, any ready pattern and any quantities. -/
theorem quantity_is_conserved (u : Regs) (ms : List Message) (cs : List Cycle) :
    let l := (audit u ms cs).ledger
    let s := (System.start u ms).after cs
    l.orders ++ s.waiting = ms ∧
      (∀ a ∈ l.settled, a.order.msgType = msgOrderEntry → a.Balanced) ∧
      (s.regs.s2State = .idle → l.current = none) ∧
      (s.regs.s2State ≠ .idle → ∃ a, l.current = some a ∧ a.Running s.regs) := by
  intro l s
  have same : (audit u ms cs).system = s := audit_system u ms cs
  obtain ⟨-, kept, orders⟩ := kept_audit u ms cs
  rw [same] at kept orders
  refine ⟨orders, fun a listed entry => ?_, kept.idle, kept.busy⟩
  exact kept.settled a listed (entry ▸ msgOrderEntry_ne_msgCancelReq)

theorem quantity_is_conserved_partial_fill :
    let ms := [limitOrder sideSell 1 100 5, limitOrder sideBuy 2 100 8,
      ⟨msgOrderEntry, 1, sideSell, orderIoc, 3, 101, 4, 0⟩]
    let l := (audit zeroRegs ms (List.replicate 9 offering)).ledger
    let s := (System.start zeroRegs ms).after (List.replicate 9 offering)
    (l.settled.map fun a => (a.fills, a.inserted, a.discarded)) =
        [([], 5, 0), ([⟨5, 8, 5, 3, 0⟩], 3, 0), ([], 0, 4)] ∧
      l.orders ++ s.waiting = ms ∧
      (∀ a ∈ l.settled, a.order.msgType = msgOrderEntry → a.Balanced) ∧
      (s.regs.s2State = .idle → l.current = none) ∧
      (s.regs.s2State ≠ .idle → ∃ a, l.current = some a ∧ a.Running s.regs) :=
  ⟨by decide +kernel, quantity_is_conserved zeroRegs _ _⟩

end HftGrading.Fpga.MatchEngine.QuantityAccounts
