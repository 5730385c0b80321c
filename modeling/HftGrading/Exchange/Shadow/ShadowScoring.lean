/- module: HftGrading/Exchange/Shadow/ShadowScoring
   source: exchange/include/exchange/shadow_orderbook.hpp, orchestrator/include/orchestrator/contest_runner.hpp
   digest: What the validation says of a contestant that reports exactly the fills of the shadow book. -/

import HftGrading.Exchange.Shadow.ShadowReference

set_option autoImplicit false
set_option relaxedAutoImplicit false

namespace HftGrading.Exchange.Shadow.ShadowScoring

open Function (update)
open Lib.PartialExecution Lib.PriceTimePriority WireProtocol Book.PriceMap Book.LimitBook
open Book.LimitBook.OrderBook (MatchResult)
open Book.MatchRounds Book.BookRep Book.BookRuns ShadowState ShadowReference

/-- What reaches the shadow book in `run_match`: messages sent to the contestant
and responses received from it. -/
inductive MatchEvent
  | orderEntry (order : OrderEntry) (timestampNs : Nat)
  | cancelRequest (cancel : CancelRequest)
  | fill (orderId : UInt32) (price qty : Int)
  | orderAck
  deriving DecidableEq, Repr

def MatchEvent.apply (s : ShadowOrderbook) : MatchEvent → Option ShadowOrderbook
  | .orderEntry order timestampNs => s.processOrder order timestampNs
  | .cancelRequest cancel => some (s.processCancel cancel)
  | .fill orderId price qty => some (s.validateFill orderId price qty)
  | .orderAck => some s.countAck

/-- A match, with the fills of each order that the contestant has still to report. -/
structure Session where
  shadow : ShadowOrderbook
  owed : UInt32 → List (Int × Int)

namespace Session

def init : Session := ⟨ShadowOrderbook.init, fun _ => []⟩

def madeFills (s : ShadowOrderbook) (order : OrderEntry) : List (Int × Int) :=
  match s.book.matchOrder order.side (ShadowOrderbook.matchPrice order) order.quantity 0 64 with
  | some (fills, _) => fills.map (fun f => (f.fillPrice, f.fillQty))
  | none => []

def owes (m : Session) : MatchEvent → UInt32 → List (Int × Int)
  | .orderEntry order _ => update m.owed order.clientOrderId
      (m.owed order.clientOrderId ++ madeFills m.shadow order)
  | .fill orderId _ _ => update m.owed orderId (m.owed orderId).tail
  | _ => m.owed

def apply (m : Session) (event : MatchEvent) : Option Session :=
  (event.apply m.shadow).map (fun s => ⟨s, m.owes event⟩)

end Session

/-- A report is the next fill owed for its order. -/
def Truthful (m : Session) : MatchEvent → Prop
  | .fill orderId price qty => (m.owed orderId).head? = some (price, qty)
  | _ => True

section Entries

variable {id : UInt32} {l closed : List ExpectedFill} {ef : ExpectedFill}

def openFills (id : UInt32) (l : List ExpectedFill) : List (Int × Int) :=
  (l.filter (fun ef => ef.orderId = id ∧ 0 < ef.fillQty)).map (fun ef => (ef.fillPrice, ef.fillQty))

def openCount (l : List ExpectedFill) : Nat := l.countP (fun ef => 0 < ef.fillQty)

theorem openFills_cons (id : UInt32) (ef : ExpectedFill) (l : List ExpectedFill) :
    openFills id (ef :: l) = if ef.orderId = id ∧ 0 < ef.fillQty then
      (ef.fillPrice, ef.fillQty) :: openFills id l else openFills id l := by
  unfold openFills
  rw [List.filter_cons]
  split_ifs <;> simp_all

theorem openFills_append (id : UInt32) (l l' : List ExpectedFill) :
    openFills id (l ++ l') = openFills id l ++ openFills id l' := by
  rw [openFills, List.filter_append, List.map_append, openFills, openFills]

theorem openCount_eq_zero (none : ∀ id, openFills id l = []) : openCount l = 0 := by
  apply List.countP_eq_zero.mpr
  intro ef member positive
  have listed : (ef.fillPrice, ef.fillQty) ∈ openFills ef.orderId l := by
    apply List.mem_map_of_mem
    exact List.mem_filter.mpr ⟨member, by simpa using positive⟩
  rw [none] at listed
  cases listed

structure Claimed (id : UInt32) (l : List ExpectedFill) (ef : ExpectedFill)
    (closed : List ExpectedFill) : Prop where
  first : openFills id l = (ef.fillPrice, ef.fillQty) :: openFills id closed
  others : ∀ id', id' ≠ id → openFills id' closed = openFills id' l
  length : closed.length = l.length
  count : openCount l = openCount closed + 1

theorem Claimed.cons (claimed : Claimed id l ef closed) {ef' : ExpectedFill}
    (skipped : ¬ (ef'.orderId = id ∧ 0 < ef'.fillQty)) :
    Claimed id (ef' :: l) ef (ef' :: closed) where
  first := by rw [openFills_cons, openFills_cons, if_neg skipped, if_neg skipped, claimed.first]
  others := fun id' other => by rw [openFills_cons, openFills_cons, claimed.others id' other]
  length := congrArg Nat.succ claimed.length
  count := by
    have count := claimed.count
    unfold openCount at count ⊢
    rw [List.countP_cons, List.countP_cons]
    omega

theorem claimEntry_claimed (id : UInt32) (l : List ExpectedFill) :
    (ShadowOrderbook.claimEntry id l = none ∧ openFills id l = []) ∨
      ∃ ef closed, ShadowOrderbook.claimEntry id l = some (ef, closed) ∧ Claimed id l ef closed := by
  induction l with
  | nil => exact Or.inl ⟨rfl, rfl⟩
  | cons ef l ih =>
    rw [ShadowOrderbook.claimEntry]
    by_cases here : ef.orderId = id ∧ 0 < ef.fillQty
    · rw [if_pos here]
      have shut : ∀ id', ¬ (ef.orderId = id' ∧ (0 : Int) < 0) := fun _ h => lt_irrefl _ h.2
      refine Or.inr ⟨ef, _, rfl, ?_, fun id' other => ?_, rfl, ?_⟩
      · rw [openFills_cons, openFills_cons, if_pos here, if_neg (shut id)]
      · have elsewhere : ¬ (ef.orderId = id' ∧ 0 < ef.fillQty) :=
          fun h => other (h.1.symm.trans here.1)
        rw [openFills_cons, openFills_cons, if_neg (shut id'), if_neg elsewhere]
      · simp [openCount, here.2]
    · rw [if_neg here]
      rcases ih with ⟨none, empty⟩ | ⟨found, closed, some, claimed⟩
      · refine Or.inl ⟨by rw [none]; rfl, ?_⟩
        rw [openFills_cons, if_neg here, empty]
      · exact Or.inr ⟨found, ef :: closed, by rw [some]; rfl, claimed.cons here⟩

end Entries

section Orders

variable {s s' : ShadowOrderbook} {order : OrderEntry} {ts : Nat} {Q Q₁ : Queues}
  {fills : List MatchResult} {before b₁ : OrderBook}

theorem processed_rep (processed : Processed Q s order ts Q₁ fills before b₁ s')
    (rep : Rep s.book Q) : ∃ Q', Rep s'.book Q' := by
  have rep₁ := processed.matched.drained.rep rep
  by_cases wanted : order.quantity - (fills.map MatchResult.fillQty).sum > 0 ∧
      order.orderType = .limit
  · obtain ⟨r, -, added⟩ := processed.rests wanted
    generalize s'.book = b' at added
    cases added with
    | exhausted => exact ⟨Q₁, rep₁⟩
    | unleveled x top => exact ⟨Q₁, rep₁.unleveled top⟩
    | rests x i L top located real => exact ⟨_, rep₁.rests wanted.1 top located real⟩
  · exact ⟨Q₁, (processed.ended wanted).symm ▸ rep₁⟩

theorem openFills_new (positive : ∀ f ∈ fills, 0 < f.fillQty) (id : UInt32) :
    openFills id (fills.map (ShadowOrderbook.expectedFill order)) =
      if id = order.clientOrderId then fills.map (fun f => (f.fillPrice, f.fillQty)) else [] := by
  induction fills with
  | nil => simp [openFills]
  | cons f fills ih =>
    have here : 0 < (ShadowOrderbook.expectedFill order f).fillQty := positive f (by simp)
    rw [List.map_cons, openFills_cons, ih (fun g hg => positive g (List.mem_cons_of_mem f hg))]
    by_cases same : id = order.clientOrderId
    · rw [if_pos ⟨same.symm, here⟩, if_pos same, if_pos same]
      rfl
    · rw [if_neg (fun h => same h.1.symm), if_neg same, if_neg same]

theorem openCount_new (positive : ∀ f ∈ fills, 0 < f.fillQty) :
    openCount (fills.map (ShadowOrderbook.expectedFill order)) = fills.length := by
  rw [openCount, List.countP_map, List.countP_eq_length.mpr]
  intro f member
  exact decide_eq_true (positive f member)

end Orders

section Honesty

/-- A match with a truthful contestant after `reports` reports: the open entries of
each order are the first fills owed for it, and any others were dropped by a full array. -/
structure Honest (reports : Nat) (m : Session) : Prop where
  rep : ∃ Q, Rep m.shadow.book Q
  expected : m.shadow.result.totalExpected = m.shadow.expected.length
  bounded : m.shadow.expected.length ≤ shadowMaxFills
  owed : ∀ id, ∃ dropped, m.owed id = openFills id m.shadow.expected ++ dropped ∧
    (dropped ≠ [] → m.shadow.expected.length = shadowMaxFills)
  correct : m.shadow.result.correctFills + openCount m.shadow.expected = m.shadow.expected.length
  reported : m.shadow.result.correctFills + m.shadow.result.extraFills = reports
  extra : 0 < m.shadow.result.extraFills → m.shadow.expected.length = shadowMaxFills
  clean : m.shadow.result.wrongPrice = 0 ∧ m.shadow.result.wrongQty = 0 ∧
    m.shadow.result.missingFills = 0

theorem honest_init : Honest 0 Session.init where
  rep := ⟨_, rep_init⟩
  expected := rfl
  bounded := Nat.zero_le _
  owed := fun _ => ⟨[], rfl, fun none => absurd rfl none⟩
  correct := rfl
  reported := rfl
  extra := fun impossible => absurd impossible (lt_irrefl 0)
  clean := ⟨rfl, rfl, rfl⟩

variable {reports : Nat} {m : Session}

theorem owed_append {n : Nat} {dropped : List (Int × Int)} (opened made : List (Int × Int))
    (full : dropped ≠ [] → n = 0) :
    (opened ++ dropped) ++ made = (opened ++ made.take n) ++ (dropped ++ made.drop n) := by
  by_cases none : dropped = []
  · rw [none, List.append_nil, List.nil_append, List.append_assoc, List.take_append_drop]
  · rw [full none, List.take_zero, List.drop_zero, List.append_nil, List.append_assoc]

section Entering

variable {s' : ShadowOrderbook} {order : OrderEntry} {ts : Nat} {Q Q₁ : Queues}
  {fills : List MatchResult} {before b₁ : OrderBook}
  (processed : Processed Q m.shadow order ts Q₁ fills before b₁ s')
include processed

theorem processed_length : s'.expected.length =
    m.shadow.expected.length + min fills.length (shadowMaxFills - m.shadow.expected.length) := by
  rw [processed.expected, List.length_append, List.length_take, List.length_map, Nat.min_comm]

theorem processed_positive :
    ∀ f ∈ fills.take (shadowMaxFills - m.shadow.expected.length), 0 < f.fillQty :=
  fun f member => processed.matched.positive f (List.mem_of_mem_take member)

theorem Honest.owed_order (honest : Honest reports m) (id : UInt32) :
    ∃ dropped, m.owes (.orderEntry order ts) id = openFills id s'.expected ++ dropped ∧
      (dropped ≠ [] → s'.expected.length = shadowMaxFills) := by
  have made : Session.madeFills m.shadow order =
      fills.map (fun f => (f.fillPrice, f.fillQty)) := by
    rw [Session.madeFills, processed.returns]
  have length := processed_length processed
  obtain ⟨dropped, queue, full⟩ := honest.owed id
  have opened : openFills id s'.expected = openFills id m.shadow.expected ++
      if id = order.clientOrderId then (fills.take (shadowMaxFills - m.shadow.expected.length)).map
        (fun f => (f.fillPrice, f.fillQty)) else [] := by
    rw [processed.expected, openFills_append, ← List.map_take,
      openFills_new (processed_positive processed)]
  rw [opened, Session.owes, made]
  by_cases same : id = order.clientOrderId
  · have split := owed_append (openFills id m.shadow.expected)
      (fills.map (fun f => (f.fillPrice, f.fillQty)))
      (fun some_dropped => Nat.sub_eq_zero_of_le (full some_dropped).ge)
    refine ⟨dropped ++ (fills.map (fun f => (f.fillPrice, f.fillQty))).drop
      (shadowMaxFills - m.shadow.expected.length), ?_, fun some_dropped => ?_⟩
    · rw [if_pos same, List.map_take, ← split, ← same, Function.update_self, queue]
    · rw [length]
      have bounded := honest.bounded
      by_cases none : dropped = []
      · rw [none, List.nil_append, ne_eq, List.drop_eq_nil_iff, List.length_map] at some_dropped
        omega
      · have := full none
        omega
  · refine ⟨dropped, ?_, fun some_dropped => ?_⟩
    · rw [if_neg same, List.append_nil, Function.update_of_ne same, queue]
    · have := full some_dropped
      omega

end Entering

theorem Honest.orderEntry (honest : Honest reports m) (order : OrderEntry) (ts : Nat) :
    ∃ m', m.apply (.orderEntry order ts) = some m' ∧ Honest reports m' := by
  obtain ⟨Q, rep⟩ := honest.rep
  obtain ⟨Q₁, fills, before, b₁, s', returns, processed⟩ := processOrder_processed rep order ts
  have length := processed_length processed
  have bounded := honest.bounded
  refine ⟨⟨s', m.owes (.orderEntry order ts)⟩, by rw [Session.apply, MatchEvent.apply, returns]; rfl,
    processed_rep processed rep, ?_, ?_, honest.owed_order processed, ?_, ?_, ?_, ?_⟩
  · rw [processed.result, length, ← honest.expected]
  · rw [length]
    omega
  · have opened : openCount s'.expected = openCount m.shadow.expected +
        min fills.length (shadowMaxFills - m.shadow.expected.length) := by
      rw [processed.expected, openCount, List.countP_append, ← openCount, ← openCount,
        ← List.map_take, openCount_new (processed_positive processed), List.length_take, Nat.min_comm]
    rw [processed.result, length, opened, ← honest.correct]
    show m.shadow.result.correctFills + _ = _
    omega
  · rw [processed.result]
    exact honest.reported
  · rw [processed.result]
    intro some_extra
    have full := honest.extra some_extra
    show s'.expected.length = shadowMaxFills
    omega
  · rw [processed.result]
    exact honest.clean

section Reporting

variable {id : UInt32} {price qty : Int} (truthful : Truthful m (.fill id price qty))
include truthful

theorem Honest.fill_dropped (honest : Honest reports m)
    (none : ShadowOrderbook.claimEntry id m.shadow.expected = none)
    (empty : openFills id m.shadow.expected = []) :
    Honest (reports + 1)
      ⟨m.shadow.validateFill id price qty, m.owes (.fill id price qty)⟩ := by
  have verdict : m.shadow.validateFill id price qty = ⟨m.shadow.book, m.shadow.expected,
      { m.shadow.result with
        totalActual := m.shadow.result.totalActual + 1
        extraFills := m.shadow.result.extraFills + 1 }⟩ := by
    rw [ShadowOrderbook.validateFill, none]
  obtain ⟨dropped, queue, full⟩ := honest.owed id
  rw [empty, List.nil_append] at queue
  have some_dropped : dropped ≠ [] := by
    rintro rfl
    have head : (m.owed id).head? = some (price, qty) := truthful
    rw [queue] at head
    cases head
  rw [verdict]
  refine ⟨honest.rep, honest.expected, honest.bounded, fun id' => ?_, honest.correct, ?_,
    fun _ => full some_dropped, honest.clean⟩
  · show ∃ dropped', update m.owed id (m.owed id).tail id' = _ ∧ _
    by_cases same : id' = id
    · subst same
      exact ⟨dropped.tail, by rw [Function.update_self, queue, empty, List.nil_append],
        fun _ => full some_dropped⟩
    · rw [Function.update_of_ne same]
      exact honest.owed id'
  · show m.shadow.result.correctFills + (m.shadow.result.extraFills + 1) = reports + 1
    rw [← honest.reported]
    omega

theorem Honest.fill_claimed (honest : Honest reports m) {ef : ExpectedFill}
    {closed : List ExpectedFill}
    (found : ShadowOrderbook.claimEntry id m.shadow.expected = some (ef, closed))
    (claimed : Claimed id m.shadow.expected ef closed) :
    Honest (reports + 1)
      ⟨m.shadow.validateFill id price qty, m.owes (.fill id price qty)⟩ := by
  obtain ⟨dropped, queue, full⟩ := honest.owed id
  rw [claimed.first, List.cons_append] at queue
  have same_fill : ef.fillPrice = price ∧ ef.fillQty = qty := by
    have head : (m.owed id).head? = some (price, qty) := truthful
    rw [queue] at head
    exact Prod.mk.inj (Option.some.inj head)
  have verdict : m.shadow.validateFill id price qty = ⟨m.shadow.book, closed,
      { m.shadow.result with
        totalActual := m.shadow.result.totalActual + 1
        correctFills := m.shadow.result.correctFills + 1 }⟩ := by
    rw [ShadowOrderbook.validateFill, found]
    simp only [ShadowOrderbook.judge, if_pos same_fill]
  have length := claimed.length
  rw [verdict]
  refine ⟨honest.rep, honest.expected.trans length.symm, length.trans_le honest.bounded,
    fun id' => ?_, ?_, ?_, fun some_extra => length.trans (honest.extra some_extra), honest.clean⟩
  · show ∃ dropped', update m.owed id (m.owed id).tail id' = openFills id' closed ++ dropped' ∧ _
    by_cases same : id' = id
    · subst same
      exact ⟨dropped, by rw [Function.update_self, queue, List.tail_cons],
        fun some_dropped => length.trans (full some_dropped)⟩
    · obtain ⟨dropped', queue', full'⟩ := honest.owed id'
      exact ⟨dropped', by rw [Function.update_of_ne same, queue', claimed.others id' same],
        fun some_dropped => length.trans (full' some_dropped)⟩
  · show m.shadow.result.correctFills + 1 + openCount closed = closed.length
    have count := claimed.count
    have correct := honest.correct
    omega
  · show m.shadow.result.correctFills + 1 + m.shadow.result.extraFills = reports + 1
    rw [← honest.reported]
    omega

theorem Honest.fill (honest : Honest reports m) :
    ∃ m', m.apply (.fill id price qty) = some m' ∧ Honest (reports + 1) m' := by
  refine ⟨_, rfl, ?_⟩
  rcases claimEntry_claimed id m.shadow.expected with ⟨none, empty⟩ | ⟨ef, closed, found, claimed⟩
  · exact honest.fill_dropped truthful none empty
  · exact honest.fill_claimed truthful found claimed

end Reporting

end Honesty

def reportCount (events : List MatchEvent) : Nat :=
  events.countP (fun event => match event with
    | .fill _ _ _ => true
    | _ => false)

theorem reportCount_append (events events' : List MatchEvent) :
    reportCount (events ++ events') = reportCount events + reportCount events' :=
  List.countP_append

theorem Honest.event {reports : Nat} {m : Session} (honest : Honest reports m) {event : MatchEvent}
    (truthful : Truthful m event) :
    ∃ m', m.apply event = some m' ∧ Honest (reports + reportCount [event]) m' := by
  cases event with
  | orderEntry order ts => exact honest.orderEntry order ts
  | cancelRequest cancel => exact ⟨_, rfl, honest⟩
  | fill id price qty => exact honest.fill truthful
  | orderAck =>
    exact ⟨_, rfl, honest.rep, honest.expected, honest.bounded, honest.owed, honest.correct,
      honest.reported, honest.extra, honest.clean⟩

theorem truthful_runs_honest (events : List MatchEvent)
    (truthful : Obeys Session.apply Truthful Session.init events) :
    ∃ m, run Session.apply Session.init events = some m ∧ Honest (reportCount events) m := by
  have keep : ∀ h (m : Session) event, Honest (reportCount h) m → Truthful m event → True →
      ∃ m', m.apply event = some m' ∧ Honest (reportCount (h ++ [event])) m' := by
    intro h m event honest legal _
    rw [reportCount_append]
    exact honest.event legal
  exact run_returns_history Session.apply Truthful (fun _ => True)
    (fun h m => Honest (reportCount h) m) (fun _ _ _ => trivial) keep [] events Session.init
    honest_init trivial truthful

/-- The score of a contestant without a fault. -/
structure Perfect (r : ValidationResult) : Prop where
  correct : r.correctFills = r.totalExpected
  wrongPrice : r.wrongPrice = 0
  wrongQty : r.wrongQty = 0
  extra : r.extraFills = 0
  missing : r.missingFills = 0

/-- A contestant that reports every fill truthfully, and no more fills than the array
holds, is found without fault. -/
theorem truthful_contestant_scores_perfectly (events : List MatchEvent)
    (few : reportCount events ≤ shadowMaxFills)
    (truthful : Obeys Session.apply Truthful Session.init events) :
    ∃ m, run Session.apply Session.init events = some m ∧
      ((∀ id, m.owed id = []) → Perfect m.shadow.finalize.result) := by
  obtain ⟨m, returns, honest⟩ := truthful_runs_honest events truthful
  refine ⟨m, returns, fun settled => ?_⟩
  have closed : openCount m.shadow.expected = 0 := by
    apply openCount_eq_zero
    intro id
    obtain ⟨dropped, queue, -⟩ := honest.owed id
    rw [settled id] at queue
    exact (List.append_eq_nil_iff.mp queue.symm).1
  have correct := honest.correct
  have reported := honest.reported
  obtain ⟨wrongPrice, wrongQty, missing⟩ := honest.clean
  refine ⟨?_, wrongPrice, wrongQty, ?_, ?_⟩
  · show m.shadow.result.correctFills = m.shadow.result.totalExpected
    rw [honest.expected]
    omega
  · show m.shadow.result.extraFills = 0
    -- An extra fill is reported only when the array is full and all of it is claimed.
    by_contra some_extra
    have full := honest.extra (Nat.pos_of_ne_zero some_extra)
    omega
  · show m.shadow.result.missingFills + openCount m.shadow.expected = 0
    omega

def orderIds (events : List MatchEvent) : List UInt32 :=
  events.filterMap (fun event => match event with
    | .orderEntry order _ => some order.clientOrderId
    | _ => none)

theorem owed_of_unused {id : UInt32} {events : List MatchEvent} {m m' : Session}
    (unused : id ∉ orderIds events) (empty : m.owed id = [])
    (returns : run Session.apply m events = some m') : m'.owed id = [] := by
  induction events generalizing m with
  | nil =>
    obtain rfl := Option.some.inj returns
    exact empty
  | cons event events ih =>
    obtain ⟨m₁, first, rest⟩ := Option.bind_eq_some_iff.mp returns
    obtain ⟨s₁, -, rfl⟩ := Option.map_eq_some_iff.mp first
    refine ih (fun used => unused ?_) ?_ rest
    · exact (List.sublist_cons_self event events).filterMap _ |>.subset used
    · cases event with
      | orderEntry order ts =>
        have other : id ≠ order.clientOrderId := by
          rintro rfl
          exact unused (by simp [orderIds])
        exact (Function.update_of_ne other _ _).trans empty
      | fill id' price qty =>
        show update m.owed id' (m.owed id').tail id = []
        by_cases same : id = id'
        · subst same
          rw [Function.update_self, empty, List.tail_nil]
        · rw [Function.update_of_ne same, empty]
      | cancelRequest => exact empty
      | orderAck => exact empty

def truthfulTest (m : Session) : MatchEvent → Bool
  | .fill orderId price qty => decide ((m.owed orderId).head? = some (price, qty))
  | _ => true

theorem truthful_of_test (m : Session) (event : MatchEvent) (passed : truthfulTest m event = true) :
    Truthful m event := by
  cases event with
  | fill id price qty =>
    have next : (m.owed id).head? = some (price, qty) := of_decide_eq_true passed
    exact next
  | _ => trivial

def lateReports : List MatchEvent :=
  [.orderEntry ⟨.sell, .limit, 1, 100, 5⟩ 0, .orderEntry ⟨.sell, .limit, 2, 101, 5⟩ 0,
    .orderEntry ⟨.buy, .limit, 3, 101, 7⟩ 0, .orderEntry ⟨.buy, .limit, 4, 101, 1⟩ 0,
    .fill 4 101 1, .orderAck, .fill 3 100 5, .fill 3 101 2]

theorem truthful_contestant_scores_perfectly_late :
    ∃ m, run Session.apply Session.init lateReports = some m ∧
      Perfect m.shadow.finalize.result := by
  obtain ⟨m, returns, perfect⟩ := truthful_contestant_scores_perfectly lateReports (by decide)
    (obeys_of_test truthful_of_test _ _ (by decide +kernel))
  refine ⟨m, returns, perfect (fun id => ?_)⟩
  by_cases used : id ∈ orderIds lateReports
  · have settled : (run Session.apply Session.init lateReports).map
        (fun m => (orderIds lateReports).all (fun id => (m.owed id).isEmpty)) = some true := by
      decide +kernel
    rw [returns] at settled
    exact List.isEmpty_iff.mp (List.all_eq_true.mp (Option.some.inj settled) id used)
  · exact owed_of_unused used rfl returns

section LongMatch

/-- One ask of the order 0 at 100, of which `n + 1` are left. -/
def oneAsk (n : Nat) : Textbook where
  resting
    | .buy => []
    | .sell => [⟨0, 100, n + 1⟩]
  fills := []

def taker (id : UInt32) : OrderEntry := ⟨.buy, .ioc, id, 100, 1⟩

def takers : Nat → Nat → List MatchEvent
  | _, 0 => []
  | first, n + 1 => .orderEntry (taker (UInt32.ofNat first)) 0 ::
      .fill (UInt32.ofNat first) 100 1 :: takers (first + 1) n

theorem reportCount_takers (first n : Nat) : reportCount (takers first n) = n := by
  induction n generalizing first with
  | zero => rfl
  | succ n ih =>
    have rest := ih (first + 1)
    simp only [reportCount, takers, List.countP_cons] at rest ⊢
    simp [rest]

theorem orderIds_takers (first n : Nat) :
    orderIds (takers first n) = (List.range' first n).map UInt32.ofNat := by
  induction n generalizing first with
  | zero => rfl
  | succ n ih =>
    have rest := ih (first + 1)
    simp only [orderIds, takers, taker, List.filterMap_cons, List.range'_succ,
      List.map_cons] at rest ⊢
    rw [rest]

theorem validateFill_book (s : ShadowOrderbook) (id : UInt32) (price qty : Int) :
    (s.validateFill id price qty).book = s.book := by
  unfold ShadowOrderbook.validateFill
  cases ShadowOrderbook.claimEntry id s.expected <;> rfl

theorem oneAsk_swept (n : Nat) (id : UInt32) :
    (oneAsk (n + 1)).swept (taker id) = ⟨[⟨0, 100, 1⟩], 0, [⟨0, 100, n + 1⟩]⟩ := by
  have part : (1 : Int) < ↑(n + 1) + 1 := by omega
  have left : (↑(n + 1) + 1 - 1 : Int) = n + 1 := by omega
  have accepted : Textbook.Accepts (taker id) 100 := Or.inr (lt_irrefl (100 : Int))
  refine (sweep_part (show (0 : Int) < 1 by decide) accepted part).trans ?_
  rw [← left]

theorem oneAsk_order (n : Nat) (id : UInt32) :
    ((oneAsk (n + 1)).order (taker id)).resting = (oneAsk n).resting := by
  funext side
  rw [Textbook.order]
  simp only [oneAsk_swept]
  cases side <;> rfl

structure Serving (n : Nat) (total : Int) (m : Session) : Prop where
  mirrors : Mirrors total m.shadow.book (oneAsk n).resting
  owed : m.owed = fun _ => []

variable {n : Nat} {total : Int} {m : Session}

theorem Serving.manageable (serving : Serving n total m) (id : UInt32) :
    Manageable m.shadow (.orderEntry (taker id) 0) := by
  refine ⟨Or.inl ?_, fun limit => by cases limit⟩
  have walk := congrArg List.length (congrFun serving.mirrors.walks .sell)
  rw [namedLots, List.length_map] at walk
  refine (List.takeWhile_prefix _).length_le.trans ?_
  show (Book.PriorityWalk.restingLots m.shadow.book .sell).length ≤ 64
  rw [walk]
  show 1 ≤ 64
  decide

theorem Serving.take (serving : Serving (n + 1) total m) (small : total + 1 < 2147483648)
    (id : UInt32) :
    ∃ m₁, m.apply (.orderEntry (taker id) 0) = some m₁ ∧ Truthful m₁ (.fill id 100 1) ∧
      ∃ m₂, m₁.apply (.fill id 100 1) = some m₂ ∧ Serving n (total + 1) m₂ := by
  obtain ⟨Q, Q₁, fills, before, b₁, s', returns, processed, mirrors, entries⟩ :=
    serving.mirrors.orderEntry (serving.manageable id) (show (0 : Int) < 100 by decide)
      (show (0 : Int) < 1 by decide) small
  have made : Session.madeFills m.shadow (taker id) = [(100, 1)] := by
    rw [oneAsk_swept] at entries
    have pairs := congrArg (List.map (fun l : Lot UInt32 Int => (l.price, l.qty))) entries
    rw [List.map_map, List.map_map] at pairs
    rw [Session.madeFills, processed.returns]
    exact pairs
  have owed : m.owes (.orderEntry (taker id) 0) = update (fun _ => []) id [(100, 1)] := by
    rw [Session.owes, made, serving.owed]
    rfl
  refine ⟨⟨s', m.owes (.orderEntry (taker id) 0)⟩,
    by rw [Session.apply, MatchEvent.apply, returns]; rfl, ?_, _, rfl, ?_, ?_⟩
  · show (m.owes (.orderEntry (taker id) 0) id).head? = some (100, 1)
    rw [owed, Function.update_self]
    rfl
  · show Mirrors _ (s'.validateFill id 100 1).book _
    rw [validateFill_book, ← oneAsk_order n id]
    exact mirrors
  · show update (m.owes (.orderEntry (taker id) 0)) id (m.owes (.orderEntry (taker id) 0) id).tail = _
    rw [owed, Function.update_self, Function.update_idem]
    exact Function.update_eq_self id _

theorem Serving.takers (serving : Serving n total m) (small : total + n < 2147483648) (first : Nat) :
    Obeys Session.apply Truthful m (ShadowScoring.takers first n) ∧
      ∃ m', run Session.apply m (ShadowScoring.takers first n) = some m' ∧ ∀ id, m'.owed id = [] := by
  induction n generalizing total m first with
  | zero => exact ⟨trivial, m, rfl, fun id => by rw [serving.owed]⟩
  | succ n ih =>
    obtain ⟨m₁, order, truthful, m₂, fill, next⟩ := serving.take (by omega) (UInt32.ofNat first)
    obtain ⟨obeys, m', rest, settled⟩ := ih next (by omega) (first + 1)
    refine ⟨⟨trivial, fun m₁' order' => ?_⟩, m', ?_, settled⟩
    · obtain rfl := Option.some.inj (order.symm.trans order')
      refine ⟨truthful, fun m₂' fill' => ?_⟩
      obtain rfl := Option.some.inj (fill.symm.trans fill')
      exact obeys
    · rw [ShadowScoring.takers, run, order, Option.bind_some, run, fill, Option.bind_some, rest]

def seller (n : Nat) : OrderEntry := ⟨.sell, .limit, 0, 100, n + 1⟩

theorem serving_start (small : (n : Int) + 1 < 2147483648) :
    ∃ m, Session.init.apply (.orderEntry (seller n) 0) = some m ∧ Serving n (n + 1) m := by
  have manageable : Manageable ShadowOrderbook.init (.orderEntry (seller n) 0) := by
    refine ⟨Or.inl (Nat.zero_le _), fun _ _ => ⟨by decide,
      Or.inl (show 0 < maxPriceLevelsOb by decide),
      show better .sell 100 (scanStart .sell) by decide, ?_, ?_⟩⟩
    · exact Or.inr (fun i active => by cases active.2)
    · exact Book.PriorityResting.spread_of_few (Nat.zero_le _) _
  have positive : (0 : Int) < n + 1 := by omega
  obtain ⟨Q, Q₁, fills, before, b₁, s', returns, processed, mirrors, entries⟩ :=
    mirrors_init.orderEntry manageable (show (0 : Int) < 100 by decide) positive
      (by show (0 : Int) + (n + 1) < 2147483648; omega)
  have swept : Textbook.init.swept (seller n) = ⟨[], n + 1, []⟩ := sweep_nil
  have made : Session.madeFills ShadowOrderbook.init (seller n) = [] := by
    rw [swept] at entries
    have none : fills = [] := List.map_eq_nil_iff.mp (List.map_eq_nil_iff.mp entries)
    have made := processed.returns
    rw [none] at made
    rw [Session.madeFills, made]
    rfl
  refine ⟨⟨s', Session.init.owes (.orderEntry (seller n) 0)⟩,
    by rw [Session.apply, MatchEvent.apply]; exact congrArg _ returns, ?_, ?_⟩
  · have after : (Textbook.init.order (seller n)).resting = (oneAsk n).resting := by
      funext side
      rw [Textbook.order]
      simp only [swept]
      rw [if_pos ⟨positive, rfl⟩]
      cases side <;> rfl
    rw [after] at mirrors
    exact mirrors.mono (by show (0 : Int) + (n + 1) ≤ n + 1; omega)
  · show update (fun _ => []) (0 : UInt32) ([] ++ Session.madeFills ShadowOrderbook.init (seller n)) = _
    rw [made]
    exact Function.update_eq_self _ _

def longMatch : List MatchEvent := .orderEntry (seller 262145) 0 :: takers 1 262145

/-- In a long match a contestant that reports every fill truthfully has a fill
counted as extra. -/
theorem long_match_counts_extra_fill :
    (orderIds longMatch).Nodup ∧ Obeys Session.apply Truthful Session.init longMatch ∧
      ∃ m, run Session.apply Session.init longMatch = some m ∧ (∀ id, m.owed id = []) ∧
        m.shadow.finalize.result.extraFills ≠ 0 := by
  obtain ⟨m₁, first, serving⟩ := serving_start (n := 262145) (by decide)
  obtain ⟨obeys, m, rest, settled⟩ := serving.takers (by decide) 1
  have truthful : Obeys Session.apply Truthful Session.init longMatch := by
    refine ⟨trivial, fun m₁' first' => ?_⟩
    obtain rfl := Option.some.inj (first.symm.trans first')
    exact obeys
  have returns : run Session.apply Session.init longMatch = some m := by
    rw [longMatch, run, first, Option.bind_some, rest]
  refine ⟨?_, truthful, m, returns, settled, ?_⟩
  · have ids : orderIds longMatch = (List.range' 0 262146).map UInt32.ofNat := by
      rw [List.range'_succ, List.map_cons, ← orderIds_takers]
      rfl
    rw [ids]
    refine List.Nodup.map_on (fun i hi j hj same => ?_) List.nodup_range'
    rw [List.mem_range'_1] at hi hj
    have words := congrArg UInt32.toNat same
    simp only [UInt32.toNat_ofNat'] at words
    omega
  · obtain ⟨m', returns', honest⟩ := truthful_runs_honest longMatch truthful
    obtain rfl := Option.some.inj (returns.symm.trans returns')
    have count : reportCount longMatch = 262145 := by
      rw [longMatch, ← List.singleton_append, reportCount_append, reportCount_takers]
      rfl
    have reported := honest.reported
    have correct := honest.correct
    have bounded := honest.bounded
    unfold shadowMaxFills at bounded
    show m.shadow.result.extraFills ≠ 0
    omega

end LongMatch

end HftGrading.Exchange.Shadow.ShadowScoring
