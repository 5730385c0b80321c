/- module: HftGrading/Exchange/Engine/EngineSteps
   source: exchange/include/exchange/match_engine.hpp
   digest: What each engine operation does to the book, the cancel map and the books of the contestants. -/

import HftGrading.Exchange.Engine.EngineState
import HftGrading.Exchange.Book.BestCache

set_option autoImplicit false
set_option relaxedAutoImplicit false

namespace HftGrading.Exchange.Engine.EngineSteps

open WireProtocol Book.PriceMap Book.LimitBook
open Book.LimitBook.OrderBook (MatchResult)
open Book.LevelSearch Book.LevelQueue Book.LevelFilling Book.MatchRounds Book.BookRep Book.BookRuns
open EngineState

variable {G : Type}

inductive EngineOp
  | registerContestant (initialCash : Int)
  | processOrder (contestantId : Nat) (order : OrderEntry) (timestampNs : Nat)
  | processCancel (contestantId : Nat) (cancel : CancelRequest) (timestampNs : Nat)
  | generateTick (timestampNs : Nat)
  | popOutbound

/-- The engine after one operation; results other than the engine are dropped. -/
def EngineOp.apply (nextTick : G → Nat → MarketUpdate × G) (e : MatchEngine G) :
    EngineOp → Option (MatchEngine G)
  | .registerContestant cash => some (e.registerContestant cash).2
  | .processOrder cid order ts => e.processOrder cid order ts
  | .processCancel cid cancel ts => e.processCancel cid cancel ts
  | .generateTick ts => some (e.generateTick nextTick ts).2
  | .popOutbound => some e.popOutbound.2

def refresh (b : OrderBook) : OrderBook := look (look b .buy) .sell

theorem refresh_refresh (b : OrderBook) : refresh (refresh b) = refresh b := by
  have swap : look (look (look b .buy) .sell) .buy = look (look (look b .buy) .buy) .sell := rfl
  rw [refresh, refresh, swap, look_again, look_again]

theorem refresh_drains {Q : Queues} (b : OrderBook) : Drains Q b Q (refresh b) :=
  .look (.look .refl .buy) .sell

theorem refresh_levels (b : OrderBook) (s : Side) :
    (refresh b).levels s = { b.levels s with bestIdx := ((b.levels s).findBest s).1 } := by
  cases s <;> simp [refresh, look, findBest_snd, OrderBook.levels, OrderBook.withLevels]

@[simp] theorem refresh_pool (b : OrderBook) : (refresh b).pool = b.pool := by simp [refresh]

@[simp] theorem refresh_nextExchangeId (b : OrderBook) :
    (refresh b).nextExchangeId = b.nextExchangeId := by simp [refresh]

/-- The fills `process_order` settles; an order it turns away has none. -/
def fillsOf (e : MatchEngine G) (contestantId : Nat) (order : OrderEntry) : List MatchResult :=
  if contestantId < e.contestants.count ∧ e.orderRejection contestantId order = none then
    ((e.book.matchOrder order.side order.price order.quantity contestantId 64).map Prod.fst).getD []
  else []

theorem size_of_accepted {e : MatchEngine G} {cid : Nat} {order : OrderEntry}
    (accepted : e.orderRejection cid order = none) :
    0 < order.quantity ∧ order.quantity ≤ e.cfg.maxOrderSize := by
  rw [MatchEngine.orderRejection] at accepted
  split_ifs at accepted with size
  omega

section FillLoop

def filledQty (fills : List MatchResult) : Int := (fills.map MatchResult.fillQty).sum

theorem length_le_filledQty {fills : List MatchResult} (positive : ∀ f ∈ fills, 0 < f.fillQty) :
    (fills.length : Int) ≤ filledQty fills := by
  induction fills with
  | nil => exact le_rfl
  | cons f fills ih =>
    have first := positive f List.mem_cons_self
    have rest := ih (fun g hg => positive g (List.mem_cons_of_mem f hg))
    rw [filledQty] at rest ⊢
    rw [List.map_cons, List.sum_cons, List.length_cons]
    omega

def settledBook (fills : List MatchResult) (b : OrderBook) : OrderBook :=
  if fills = [] then b else refresh b

theorem settledBook_drains {Q : Queues} (fills : List MatchResult) (b : OrderBook) :
    Drains Q b Q (settledBook fills b) := by
  rw [settledBook]
  split_ifs
  · exact .refl
  · exact refresh_drains b

theorem settledBook_pool (fills : List MatchResult) (b : OrderBook) :
    (settledBook fills b).pool = b.pool := by
  rw [settledBook]
  split_ifs
  · rfl
  · exact refresh_pool b

theorem settledBook_levels (fills : List MatchResult) (b : OrderBook) (s : Side) :
    ∃ r, (settledBook fills b).levels s = { b.levels s with bestIdx := r } := by
  rw [settledBook]
  split_ifs
  · exact ⟨_, rfl⟩
  · exact ⟨_, refresh_levels b s⟩

structure Untouched (e e' : MatchEngine G) : Prop where
  cfg : e'.cfg = e.cfg
  cancelMap : e'.cancelMap = e.cancelMap
  count : e'.contestants.count = e.contestants.count

variable (contestantId : Nat) (order : OrderEntry) (timestampNs : Nat)

theorem settleFill_spec (acc : MatchEngine G × Int) (f : MatchResult) :
    (MatchEngine.settleFill contestantId order timestampNs acc f).2 = acc.2 + f.fillQty ∧
      (MatchEngine.settleFill contestantId order timestampNs acc f).1.book = refresh acc.1.book ∧
      Untouched acc.1 (MatchEngine.settleFill contestantId order timestampNs acc f).1 :=
  ⟨rfl, refresh_refresh acc.1.book, rfl, rfl, rfl⟩

theorem settleFills_spec (fills : List MatchResult) (acc : MatchEngine G × Int) :
    (fills.foldl (MatchEngine.settleFill contestantId order timestampNs) acc).2 =
        acc.2 + filledQty fills ∧
      (fills.foldl (MatchEngine.settleFill contestantId order timestampNs) acc).1.book =
        settledBook fills acc.1.book ∧
      Untouched acc.1 (fills.foldl (MatchEngine.settleFill contestantId order timestampNs) acc).1 := by
  induction fills generalizing acc with
  | nil => exact ⟨(Int.add_zero _).symm, rfl, rfl, rfl, rfl⟩
  | cons f fills ih =>
    obtain ⟨sum, book, same⟩ := settleFill_spec contestantId order timestampNs acc f
    obtain ⟨sum', book', same'⟩ := ih (MatchEngine.settleFill contestantId order timestampNs acc f)
    refine ⟨?_, ?_, same'.cfg.trans same.cfg, same'.cancelMap.trans same.cancelMap,
      same'.count.trans same.count⟩
    · rw [List.foldl_cons, sum', sum, filledQty, filledQty, List.map_cons, List.sum_cons]
      omega
    · rw [List.foldl_cons, book', book, settledBook, settledBook, if_neg (List.cons_ne_nil f fills)]
      split_ifs
      · rfl
      · exact refresh_refresh _

end FillLoop

section Orders

variable {e : MatchEngine G} {Q : Queues} {contestantId : Nat} {order : OrderEntry}
  {timestampNs : Nat}

inductive Placed (Q : Queues) (b : OrderBook) (m : CancelMap) (contestantId : Nat)
    (order : OrderEntry) (remaining : Int) (timestampNs : Nat) :
    Queues → OrderBook → CancelMap → Prop
  | ended (why : ¬ (remaining > 0 ∧ order.orderType = .limit)) :
      Placed Q b m contestantId order remaining timestampNs Q b m
  | exhausted (wanted : remaining > 0 ∧ order.orderType = .limit)
      (null : ∃ b', b.addOrder contestantId order.clientOrderId order.side order.price remaining
        timestampNs = some (nullIndex, b')) :
      Placed Q b m contestantId order remaining timestampNs Q b m
  | refused {x : Nat} (wanted : remaining > 0 ∧ order.orderType = .limit)
      (top : ∃ rest, freeSlots b = rest ++ [x])
      (null : ∃ b', b.addOrder contestantId order.clientOrderId order.side order.price remaining
        timestampNs = some (nullIndex, b')) :
      Placed Q b m contestantId order remaining timestampNs Q
        ((stamped b contestantId order.clientOrderId order.side order.price remaining timestampNs
          x).onPool (fun P => P.free x)) m
  | rests {x i : Nat} {L : PriceLevelPool} (wanted : remaining > 0 ∧ order.orderType = .limit)
      (top : ∃ rest, freeSlots b = rest ++ [x])
      (located : Located (b.levels order.side) order.price i L) (real : i ≠ nullIndex) :
      Placed Q b m contestantId order remaining timestampNs
        (place Q order.side i (Q order.side i ++ [x]))
        (rested b contestantId order.clientOrderId order.side order.price remaining timestampNs x i L)
        (cancelMapInsert m (makeCancelKey contestantId order.clientOrderId) x)

theorem Placed.rep {b b' : OrderBook} {m m' : CancelMap} {remaining : Int} {Q' : Queues}
    (placed : Placed Q b m contestantId order remaining timestampNs Q' b' m') (rep : Rep b Q) :
    Rep b' Q' := by
  cases placed with
  | ended => exact rep
  | exhausted => exact rep
  | refused wanted top => exact rep.unleveled top
  | rests wanted top located real => exact rep.rests wanted.1 top located real

theorem restRemainder_placed (rep : Rep e.book Q) (contestantId : Nat) (order : OrderEntry)
    (filled : Int) (timestampNs : Nat) :
    ∃ Q' e', e.restRemainder contestantId order filled timestampNs = some e' ∧
      Placed Q e.book e.cancelMap contestantId order (order.quantity - filled) timestampNs
        Q' e'.book e'.cancelMap ∧ e'.cfg = e.cfg ∧ e'.contestants.count = e.contestants.count := by
  by_cases wanted : order.quantity - filled > 0 ∧ order.orderType = .limit
  · obtain ⟨r, b', run, added⟩ := addOrder_added contestantId order.clientOrderId order.side
      order.price (order.quantity - filled) timestampNs rep
    have goes : e.restRemainder contestantId order filled timestampNs =
        some (if r ≠ nullIndex then MatchEngine.acceptResting { e with book := b' } contestantId
          order (order.quantity - filled) r else { e with book := b' }) := by
      rw [MatchEngine.restRemainder, if_pos wanted, run]
      rfl
    cases added with
    | exhausted =>
      rw [if_neg (fun h => h rfl)] at goes
      exact ⟨Q, _, goes, .exhausted wanted ⟨_, run⟩, rfl, rfl⟩
    | unleveled x top =>
      rw [if_neg (fun h => h rfl)] at goes
      exact ⟨Q, _, goes, .refused wanted top ⟨_, run⟩, rfl, rfl⟩
    | rests x i L top located real =>
      rw [if_pos (rep.top_lt top).ne] at goes
      exact ⟨_, _, goes, .rests wanted top located real, rfl, rfl⟩
  · by_cases some_fill : filled > 0
    · exact ⟨Q, e.sendAck contestantId order.clientOrderId .accepted 0 order.price filled,
        by rw [MatchEngine.restRemainder, if_neg wanted, if_pos some_fill], .ended wanted, rfl, rfl⟩
    · exact ⟨Q, e, by rw [MatchEngine.restRemainder, if_neg wanted, if_neg some_fill],
        .ended wanted, rfl, rfl⟩

structure Executed (Q : Queues) (e : MatchEngine G) (contestantId : Nat) (order : OrderEntry)
    (timestampNs : Nat) (fills : List MatchResult) (Q₁ : Queues) (before b₁ : OrderBook)
    (Q' : Queues) (e' : MatchEngine G) : Prop where
  returns : e.book.matchOrder order.side order.price order.quantity contestantId 64 = some (fills, b₁)
  matched : Matched Q e.book order.side order.price order.quantity contestantId 64 Q₁ fills before b₁
  placed : Placed Q₁ (settledBook fills b₁) e.cancelMap contestantId order
    (order.quantity - filledQty fills) timestampNs Q' e'.book e'.cancelMap

theorem Executed.rep {fills : List MatchResult} {Q₁ Q' : Queues} {before b₁ : OrderBook}
    {e' : MatchEngine G}
    (executed : Executed Q e contestantId order timestampNs fills Q₁ before b₁ Q' e')
    (rep : Rep e.book Q) : Rep e'.book Q' :=
  executed.placed.rep ((settledBook_drains fills b₁).rep (executed.matched.drained.rep rep))

def afterMatch (e : MatchEngine G) (contestantId : Nat) (b₁ : OrderBook) : MatchEngine G :=
  { e with
    book := b₁
    contestants := { e.contestants with
      totalOrders := Function.update e.contestants.totalOrders contestantId
        (succ32 (e.contestants.totalOrders contestantId)) } }

theorem executeOrder_of_matchOrder {fills : List MatchResult} {b₁ : OrderBook}
    (made : e.book.matchOrder order.side order.price order.quantity contestantId 64 =
      some (fills, b₁)) :
    e.executeOrder contestantId order timestampNs =
      (fills.foldl (MatchEngine.settleFill contestantId order timestampNs)
        (afterMatch e contestantId b₁, 0)).1.restRemainder contestantId order
        (fills.foldl (MatchEngine.settleFill contestantId order timestampNs)
          (afterMatch e contestantId b₁, 0)).2 timestampNs := by
  rw [MatchEngine.executeOrder, made]
  rfl

theorem executeOrder_executed (rep : Rep e.book Q) (contestantId : Nat) (order : OrderEntry)
    (timestampNs : Nat) :
    ∃ fills Q₁ before b₁ Q' e', e.executeOrder contestantId order timestampNs = some e' ∧
      Executed Q e contestantId order timestampNs fills Q₁ before b₁ Q' e' ∧
      e'.cfg = e.cfg ∧ e'.contestants.count = e.contestants.count := by
  obtain ⟨Q₁, fills, before, b₁, run, matched⟩ := matchOrder_matched rep order.side order.price
    order.quantity contestantId 64
  obtain ⟨sum, book, same⟩ := settleFills_spec contestantId order timestampNs fills
    (afterMatch e contestantId b₁, 0)
  have executes : e.executeOrder contestantId order timestampNs = _ :=
    executeOrder_of_matchOrder run
  generalize fills.foldl (MatchEngine.settleFill contestantId order timestampNs)
    (afterMatch e contestantId b₁, 0) = r at sum book same executes
  have rep₁ : Rep r.1.book Q₁ := by
    rw [book]
    exact (settledBook_drains fills b₁).rep (matched.drained.rep rep)
  obtain ⟨Q', e', rest, placed, cfg, count⟩ :=
    restRemainder_placed rep₁ contestantId order r.2 timestampNs
  rw [sum, book, same.cancelMap, Int.zero_add] at placed
  exact ⟨fills, Q₁, before, b₁, Q', e', executes.trans rest, ⟨run, matched, placed⟩,
    cfg.trans same.cfg, count.trans same.count⟩

section Books

variable {e e' : MatchEngine G} {contestantId timestampNs : Nat} {order : OrderEntry}

theorem restRemainder_book {filled : Int}
    (returns : e.restRemainder contestantId order filled timestampNs = some e') :
    (order.quantity - filled > 0 ∧ order.orderType = .limit →
        ∃ r, e.book.addOrder contestantId order.clientOrderId order.side order.price
          (order.quantity - filled) timestampNs = some (r, e'.book)) ∧
      (¬ (order.quantity - filled > 0 ∧ order.orderType = .limit) → e'.book = e.book) := by
  refine ⟨fun wanted => ?_, fun done => ?_⟩
  · rw [MatchEngine.restRemainder, if_pos wanted] at returns
    obtain ⟨⟨r, b'⟩, adds, accepted⟩ := Option.map_eq_some_iff.mp returns
    refine ⟨r, adds.trans ?_⟩
    rw [← accepted]
    simp only
    split_ifs <;> rfl
  · rw [MatchEngine.restRemainder, if_neg done] at returns
    split_ifs at returns <;> rw [← Option.some.inj returns]
    rfl

theorem executeOrder_book (returns : e.executeOrder contestantId order timestampNs = some e') :
    ∃ fills b₁,
      e.book.matchOrder order.side order.price order.quantity contestantId 64 = some (fills, b₁) ∧
      (order.quantity - filledQty fills > 0 ∧ order.orderType = .limit →
        ∃ r, (settledBook fills b₁).addOrder contestantId order.clientOrderId order.side order.price
          (order.quantity - filledQty fills) timestampNs = some (r, e'.book)) ∧
      (¬ (order.quantity - filledQty fills > 0 ∧ order.orderType = .limit) →
        e'.book = settledBook fills b₁) := by
  obtain ⟨⟨fills, b₁⟩, matches_, -⟩ := Option.bind_eq_some_iff.mp returns
  rw [executeOrder_of_matchOrder matches_] at returns
  obtain ⟨sum, book, -⟩ := settleFills_spec contestantId order timestampNs fills
    (afterMatch e contestantId b₁, 0)
  have outcome := restRemainder_book returns
  rw [sum, book, Int.zero_add] at outcome
  exact ⟨fills, b₁, matches_, outcome⟩

end Books

end Orders

section Steps

variable {e : MatchEngine G} {Q : Queues}

def cancelTarget (e : MatchEngine G) (contestantId : Nat) (cancel : CancelRequest) : Nat :=
  cancelMapLookup e.cancelMap (makeCancelKey contestantId cancel.clientOrderId)

theorem processCancel_rejects {cid : Nat} {cancel : CancelRequest} (ts : Nat)
    (unowned : ¬ e.cancellable cid (cancelTarget e cid cancel)) :
    e.processCancel cid cancel ts = some (e.enqueueOutbound cid
      (.cancelAck ⟨.rejectedUnknown, cancel.clientOrderId, ts⟩)) := by
  rw [MatchEngine.processCancel, ← cancelTarget, if_neg unowned]

/-- The engine once the target of a cancel has left the book as `b`. -/
def cancelledEngine (e : MatchEngine G) (cid : Nat) (cancel : CancelRequest) (ts : Nat)
    (b : OrderBook) : MatchEngine G :=
  { e with
    book := b
    cancelMap := cancelMapRemove e.cancelMap (makeCancelKey cid cancel.clientOrderId)
    contestants := { e.contestants with
      orderCount := Function.update e.contestants.orderCount cid
        (pred32 (e.contestants.orderCount cid)) } }.enqueueOutbound cid
    (.cancelAck ⟨.cancelled, cancel.clientOrderId, ts⟩)

theorem processCancel_cancels {cid : Nat} {cancel : CancelRequest} (ts : Nat) {r : Bool}
    {b : OrderBook} (owned : e.cancellable cid (cancelTarget e cid cancel))
    (run : e.book.cancelOrder (cancelTarget e cid cancel) = some (r, b)) :
    e.processCancel cid cancel ts = some (cancelledEngine e cid cancel ts b) := by
  rw [MatchEngine.processCancel, ← cancelTarget, if_pos owned, run]
  rfl

theorem processCancel_cases {cid : Nat} {cancel : CancelRequest} {ts : Nat} {e' : MatchEngine G}
    (returns : e.processCancel cid cancel ts = some e') :
    (∃ r b, e.book.cancelOrder (cancelTarget e cid cancel) = some (r, b) ∧
        e' = cancelledEngine e cid cancel ts b) ∨
      e' = e.enqueueOutbound cid (.cancelAck ⟨.rejectedUnknown, cancel.clientOrderId, ts⟩) := by
  by_cases owned : e.cancellable cid (cancelTarget e cid cancel)
  · rw [MatchEngine.processCancel, ← cancelTarget, if_pos owned] at returns
    obtain ⟨⟨r, b⟩, run, rfl⟩ := Option.map_eq_some_iff.mp returns
    exact .inl ⟨r, b, run, rfl⟩
  · rw [processCancel_rejects ts owned] at returns
    exact .inr (Option.some.inj returns).symm

/-- The order in slot `x` rests on a side of the book. -/
def Resting (b : OrderBook) (s : Side) (x : Nat) : Prop := ∃ i, x ∈ b.queue s i

/-- A cancel that passes the ownership check has found an order that rests. -/
def FindsResting (e : MatchEngine G) : EngineOp → Prop
  | .processCancel cid cancel _ =>
    e.cancellable cid (cancelTarget e cid cancel) →
      ∃ s, Resting e.book s (cancelTarget e cid cancel)
  | _ => True

def findsRestingTest (e : MatchEngine G) : EngineOp → Bool
  | .processCancel cid cancel _ =>
    !decide (e.cancellable cid (cancelTarget e cid cancel)) ||
      listedTest e.book (cancelTarget e cid cancel)
  | _ => true

theorem findsResting_of_test (e : MatchEngine G) (op : EngineOp)
    (passed : findsRestingTest e op = true) : FindsResting e op := by
  cases op with
  | processCancel cid cancel ts =>
    intro owned
    rcases Bool.or_eq_true_iff.mp passed with unowned | listed
    · simp [owned] at unowned
    · exact ⟨_, _, of_decide_eq_true listed⟩
  | _ => trivial

def silentTick (g : Unit) (ts : Nat) : MarketUpdate × Unit := (⟨0, 0, 0, 0, 0, 0, 0, ts⟩, g)

inductive EngineStep (Q : Queues) (e : MatchEngine G) : EngineOp → Queues → MatchEngine G → Prop
  | quiet {op : EngineOp} {e' : MatchEngine G} (book : Drains Q e.book Q e'.book)
      (map : e'.cancelMap = e.cancelMap)
      (idle : ∀ cid order ts, op = .processOrder cid order ts → fillsOf e cid order = []) :
      EngineStep Q e op Q e'
  | executed {cid ts : Nat} {order : OrderEntry} {fills : List MatchResult} {Q₁ Q' : Queues}
      {before b₁ : OrderBook} {e' : MatchEngine G} (registered : cid < e.contestants.count)
      (accepted : e.orderRejection cid order = none)
      (executed : Executed Q e cid order ts fills Q₁ before b₁ Q' e') :
      EngineStep Q e (.processOrder cid order ts) Q' e'
  | cancelled {cid ts i : Nat} {cancel : CancelRequest} {s : Side} {b₁ : OrderBook}
      {e' : MatchEngine G} (owned : e.cancellable cid (cancelTarget e cid cancel))
      (listed : cancelTarget e cid cancel ∈ Q s i)
      (shed : Shed s i (Q s i) [cancelTarget e cid cancel]
        ((Q s i).erase (cancelTarget e cid cancel)) e.book b₁)
      (settled : Settled s i ((Q s i).erase (cancelTarget e cid cancel)) b₁ e'.book)
      (map : e'.cancelMap =
        cancelMapRemove e.cancelMap (makeCancelKey cid cancel.clientOrderId)) :
      EngineStep Q e (.processCancel cid cancel ts)
        (place Q s i ((Q s i).erase (cancelTarget e cid cancel))) e'

theorem EngineStep.rep {op : EngineOp} {Q' : Queues} {e' : MatchEngine G}
    (step : EngineStep Q e op Q' e') (rep : Rep e.book Q) : Rep e'.book Q' := by
  cases step with
  | quiet book => exact book.rep rep
  | executed _ _ executed => exact executed.rep rep
  | cancelled _ _ shed settled => exact rep.settle shed settled

theorem generateTick_drains (nextTick : G → Nat → MarketUpdate × G) (e : MatchEngine G) (ts : Nat) :
    Drains Q e.book Q (e.generateTick nextTick ts).2.book := by
  have both : Drains Q e.book Q (refresh e.book) := refresh_drains e.book
  simp only [MatchEngine.generateTick]
  split_ifs
  · exact .look (.look both .buy) .sell
  · exact .look both .sell
  · exact .look both .buy
  · exact both

theorem apply_step (nextTick : G → Nat → MarketUpdate × G) (rep : Rep e.book Q) (op : EngineOp)
    (finds : FindsResting e op) :
    ∃ Q' e', op.apply nextTick e = some e' ∧ EngineStep Q e op Q' e' ∧ e'.cfg = e.cfg := by
  cases op with
  | registerContestant cash => exact ⟨Q, _, rfl, .quiet .refl rfl nofun, rfl⟩
  | generateTick ts =>
    exact ⟨Q, _, rfl, .quiet (generateTick_drains nextTick e ts) rfl nofun, rfl⟩
  | popOutbound =>
    refine ⟨Q, _, rfl, ?_, ?_⟩
    · rw [MatchEngine.popOutbound]
      split_ifs
      · exact .quiet .refl rfl nofun
      · exact .quiet .refl rfl nofun
    · rw [MatchEngine.popOutbound]
      split_ifs
      · rfl
      · rfl
  | processOrder cid order ts =>
    change ∃ Q' e', e.processOrder cid order ts = some e' ∧ _
    rw [MatchEngine.processOrder]
    split_ifs with unknown
    · refine ⟨Q, e, rfl, .quiet .refl rfl ?_, rfl⟩
      rintro _ _ _ ⟨⟩
      exact if_neg (fun legal => absurd legal.1 (not_lt.mpr unknown))
    · cases rejection : e.orderRejection cid order with
      | some status =>
        refine ⟨Q, _, rfl, .quiet .refl rfl ?_, rfl⟩
        rintro _ _ _ ⟨⟩
        exact if_neg (fun legal => by rw [rejection] at legal; cases legal.2)
      | none =>
        obtain ⟨fills, Q₁, before, b₁, Q', e', run, executed, cfg, -⟩ :=
          executeOrder_executed rep cid order ts
        exact ⟨Q', e', run, .executed (Nat.lt_of_not_le unknown) rejection executed, cfg⟩
  | processCancel cid cancel ts =>
    change ∃ Q' e', e.processCancel cid cancel ts = some e' ∧ _
    by_cases owned : e.cancellable cid (cancelTarget e cid cancel)
    · obtain ⟨s, i, listed⟩ := finds owned
      rw [rep.queue_eq] at listed
      obtain ⟨b₁, b', run, shed, settled, -⟩ := rep.cancelOrder listed
      exact ⟨_, _, processCancel_cancels ts owned run, .cancelled owned listed shed settled rfl,
        rfl⟩
    · exact ⟨Q, _, processCancel_rejects ts owned, .quiet .refl rfl nofun, rfl⟩

end Steps

end HftGrading.Exchange.Engine.EngineSteps
