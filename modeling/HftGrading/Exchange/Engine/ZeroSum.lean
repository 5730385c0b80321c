/- module: HftGrading/Exchange/Engine/ZeroSum
   source: exchange/include/exchange/match_engine.hpp
   digest: Positions add up to zero and are what the fill messages say. -/

import HftGrading.Exchange.Engine.Positions
import Mathlib.Algebra.BigOperators.Group.Finset.Piecewise

set_option autoImplicit false
set_option relaxedAutoImplicit false

namespace HftGrading.Exchange.Engine.ZeroSum

open Lib.PartialExecution WireProtocol Book.PriceMap Book.LimitBook
open Book.LimitBook.OrderBook (MatchResult)
open Book.LevelSearch Book.LevelQueue Book.LevelFilling Book.MatchRounds Book.BookRep Book.BookRuns
open EngineState
open HftGrading.Exchange.Engine.EngineState.ContestantState (signedQty signedQty_zero signedQty_add
  signedQty_contra)
open EngineSteps ProfitAccounts Settlement OpenInterest Positions

variable {G : Type} {e e' : MatchEngine G} {Q Q' : Queues}

def maxContestants : Nat := 64

structure Journal (G : Type) where
  engine : MatchEngine G
  log : List OutboundMsg

def Journal.apply (nextTick : G → Nat → MarketUpdate × G) (j : Journal G) (op : EngineOp) :
    Option (Journal G) :=
  (op.apply nextTick j.engine).map (fun e => ⟨e, j.log ++ emitted j.engine e⟩)

def Journal.bookings (j : Journal G) : List Booking := j.log.filterMap fillBooking

/-- No registration beyond the arrays, and no `add_order` that fails. -/
def Provided (e : MatchEngine G) : EngineOp → Prop
  | .registerContestant _ => e.contestants.count < maxContestants
  | .processOrder cid order ts => cid < e.contestants.count → e.orderRejection cid order = none →
      ∀ fills b₁, e.book.matchOrder order.side order.price order.quantity cid 64 = some (fills, b₁) →
        order.quantity - filledQty fills > 0 ∧ order.orderType = .limit →
        ∀ r b', (settledBook fills b₁).addOrder cid order.clientOrderId order.side order.price
          (order.quantity - filledQty fills) ts = some (r, b') → r ≠ nullIndex
  | _ => True

/-- No position can leave the 32-bit range in one order: that of the sender by all of the
order, that of another contestant by what it has resting on the other side. -/
def Representable (e : MatchEngine G) : EngineOp → Prop
  | .processOrder cid order _ => cid < e.contestants.count → e.orderRejection cid order = none →
      IsInt32 (e.contestants.position cid + signedQty order.side order.quantity) ∧
        ∀ c < e.contestants.count, c ≠ cid → IsInt32 (e.contestants.position c +
          signedQty order.side.contra (min order.quantity (openQty e.book c order.side.contra)))
  | _ => True

section Lists

variable {b b' : OrderBook}

def Spent (b : OrderBook) (Q : Queues) : Prop := ∀ x, (∀ s i, x ∉ Q s i) → restingQty b x ≤ 0

/-- Every resting order belongs to one of the first `n` contestants. -/
def OwnedBelow (n : Nat) (b : OrderBook) (Q : Queues) : Prop :=
  ∀ s i, ∀ x ∈ Q s i, (b.pool.orders x).contestantId < n

theorem Spent.drains (spent : Spent b Q) (drains : Drains Q b Q' b') : Spent b' Q' := by
  intro x unlisted
  rcases drains.unlisted x unlisted with none | ⟨before, same⟩
  · exact none.le
  · rw [same]
    exact spent x before

theorem OwnedBelow.drains {n : Nat} (owned : OwnedBelow n b Q) (drains : Drains Q b Q' b') :
    OwnedBelow n b' Q' := by
  intro s i x hx
  rw [contestantId_of_static (drains.static x)]
  exact owned s i x ((drains.sublist s i).subset hx)

theorem OwnedBelow.mono {n m : Nat} (owned : OwnedBelow n b Q) (le : n ≤ m) : OwnedBelow m b Q :=
  fun s i x hx => (owned s i x hx).trans_le le

theorem OwnedBelow.openQty_eq_zero {n c : Nat} (owned : OwnedBelow n b Q) (rep : Rep b Q)
    (beyond : n ≤ c) (s : Side) : openQty b c s = 0 := by
  rw [openQty_eq rep]
  refine Finset.sum_eq_zero (fun i _ => List.sum_eq_zero ?_)
  intro q hq
  obtain ⟨x, hx, rfl⟩ := List.mem_map.mp hq
  have other : (b.pool.orders x).contestantId ≠ c := (owned s i x hx |>.trans_le beyond).ne
  rw [mine, if_neg other, zero_mul]

section Placing

variable {n cid ts : Nat} {order : OrderEntry} {m m' : CancelMap} {remaining : Int}

variable (placed : Placed Q b m cid order remaining ts Q' b' m')
  (taken : remaining > 0 ∧ order.orderType = .limit → ∀ r c, b.addOrder cid order.clientOrderId
    order.side order.price remaining ts = some (r, c) → r ≠ nullIndex)
include placed taken

theorem placed_rests : Q' = Q ∧ b' = b ∨ ∃ x i L, (∃ rest, freeSlots b = rest ++ [x]) ∧
    Q' = place Q order.side i (Q order.side i ++ [x]) ∧
    b' = rested b cid order.clientOrderId order.side order.price remaining ts x i L := by
  cases placed with
  | ended => exact .inl ⟨rfl, rfl⟩
  | exhausted wanted null | refused wanted top null =>
    obtain ⟨c, returns⟩ := null
    exact absurd rfl (taken wanted _ c returns)
  | @rests x i L wanted top located real => exact .inr ⟨x, i, L, top, rfl, rfl⟩

theorem placed_spent (spent : Spent b Q) : Spent b' Q' := by
  rcases placed_rests placed taken with ⟨rfl, rfl⟩ | ⟨x, i, L, top, rfl, rfl⟩
  · exact spent
  · intro y off
    have other : y ≠ x := by
      rintro rfl
      have here := off order.side i
      rw [place_self] at here
      exact here (by simp)
    rw [rested_qty, if_neg other]
    refine spent y (fun t j hy => off t j ?_)
    exact mem_place_append.mpr (Or.inl hy)

theorem placed_listed (rep : Rep b Q) : ∃ x₀, ∀ s i, ∀ x ∈ Q' s i,
    (x ∈ Q s i ∧ body (b'.pool.orders x) = body (b.pool.orders x)) ∨
      x = x₀ ∧ (b'.pool.orders x).contestantId = cid ∧
        (b'.pool.orders x).clientOrderId = order.clientOrderId ∧ restingQty b' x = remaining := by
  rcases placed_rests placed taken with ⟨rfl, rfl⟩ | ⟨x₀, i, L, top, rfl, rfl⟩
  · exact ⟨0, fun _ _ _ hx => Or.inl ⟨hx, rfl⟩⟩
  · refine ⟨x₀, fun t j x hx => ?_⟩
    rcases mem_place_append.mp hx with old | ⟨-, -, rfl⟩
    · have other : x ≠ x₀ := fun e => (rep.top_free top).2 t j (e ▸ old)
      exact Or.inl ⟨old, rested_other i L other⟩
    · have cell : body ((rested b cid order.clientOrderId order.side order.price remaining ts x i
          L).pool.orders x) = _ := rested_self i L
      exact Or.inr ⟨rfl, (congrArg Order.contestantId cell :),
        (congrArg Order.clientOrderId cell :), by rw [rested_qty, if_pos rfl]⟩

theorem placed_owned (rep : Rep b Q) (sender : cid < n) (owned : OwnedBelow n b Q) :
    OwnedBelow n b' Q' := by
  obtain ⟨x₀, listed⟩ := placed_listed placed taken rep
  intro t j x hx
  rcases listed t j x hx with ⟨old, cell⟩ | ⟨-, owner, -⟩
  · have same : (b'.pool.orders x).contestantId = (b.pool.orders x).contestantId :=
      (congrArg Order.contestantId cell :)
    rw [same]
    exact owned t j x old
  · rw [owner]
    exact sender

end Placing

end Lists

theorem sum_netQty {n : Nat} (bookings : List Booking) (known : ∀ k ∈ bookings, k.contestantId < n) :
    ∑ c ∈ Finset.range n, netQty c bookings = (bookings.map Booking.signed).sum := by
  induction bookings with
  | nil => exact Finset.sum_eq_zero (fun c _ => rfl)
  | cons k bookings ih =>
    have rest := ih (fun k' hk' => known k' (List.mem_cons_of_mem k hk'))
    have member : k.contestantId ∈ Finset.range n :=
      Finset.mem_range.mpr (known k List.mem_cons_self)
    simp only [netQty_cons, Finset.sum_add_distrib, rest, List.map_cons, List.sum_cons,
      Finset.sum_ite_eq, if_pos member]

theorem fillBookings_cancel {b : OrderBook} {cid : Nat} {side : Side} {fills : List MatchResult}
    (makers : ∀ f ∈ fills, (b.pool.orders f.makerIdx).side = side.contra) :
    ((fillBookings b cid side fills).map Booking.signed).sum = 0 := by
  induction fills with
  | nil => rfl
  | cons f fills ih =>
    have first := makers f List.mem_cons_self
    have rest := ih (fun g hg => makers g (List.mem_cons_of_mem f hg))
    rw [fillBookings] at rest
    rw [fillBookings, List.flatMap_cons, List.map_append, List.sum_append, rest, legs, first]
    simp only [List.map_cons, List.map_nil, List.sum_cons, List.sum_nil, Booking.signed,
      signedQty_contra]
    omega

theorem isInt32_between {p q r : Int} {s : Side} (here : IsInt32 p)
    (there : IsInt32 (p + signedQty s q)) (low : 0 ≤ r) (high : r ≤ q) :
    IsInt32 (p + signedQty s r) := by
  cases s
  · simp only [signedQty, IsInt32] at *
    omega
  · simp only [signedQty, IsInt32] at *
    omega

section Runs

structure Squared (Q : Queues) (j : Journal G) : Prop where
  rep : Rep j.engine.book Q
  bounded : j.engine.outboundTail < 4294967296
  spent : Spent j.engine.book Q
  owned : OwnedBelow j.engine.contestants.count j.engine.book Q
  few : j.engine.contestants.count ≤ maxContestants
  known : ∀ k ∈ j.bookings, k.contestantId < j.engine.contestants.count
  word : ∀ c, IsInt32 (j.engine.contestants.position c)
  position : ∀ c, j.engine.contestants.position c = netQty c j.bookings
  balanced : (j.bookings.map Booking.signed).sum = 0

variable {j : Journal G} (nextTick : G → Nat → MarketUpdate × G) {op : EngineOp}

theorem squared_init (cfg : MatchEngineConfig) (gen : G) :
    Squared (fun _ _ => []) ⟨MatchEngine.init cfg gen, []⟩ where
  rep := rep_init
  bounded := show 0 < 4294967296 by decide
  spent := fun _ _ => le_rfl
  owned := fun _ _ _ hx => by cases hx
  few := Nat.zero_le _
  known := fun _ hk => by cases hk
  word := fun _ => show IsInt32 0 by decide
  position := fun _ => rfl
  balanced := rfl

theorem Squared.findsResting (squared : Squared Q j) (op : EngineOp) : FindsResting j.engine op := by
  cases op with
  | processCancel cid cancel ts =>
    intro owned
    by_contra unlisted
    have rests := owned.2.2
    have spent := squared.spent (cancelTarget j.engine cid cancel) (fun s i listed =>
      unlisted ⟨s, i, by rwa [squared.rep.queue_eq]⟩)
    exact absurd rests (not_lt.mpr spent)
  | _ => trivial

theorem Squared.idle (squared : Squared Q j) (accounted : Accounted j.engine op e')
    (none : opBookings j.engine op = []) (drains : Drains Q j.engine.book Q' e'.book)
    (count : j.engine.contestants.count ≤ e'.contestants.count)
    (few : e'.contestants.count ≤ maxContestants) :
    Squared Q' ⟨e', j.log ++ emitted j.engine e'⟩ := by
  have same : (⟨e', j.log ++ emitted j.engine e'⟩ : Journal G).bookings = j.bookings := by
    rw [Journal.bookings, List.filterMap_append, accounted.sent, none, List.append_nil]
    rfl
  have position : ∀ c, e'.contestants.position c = j.engine.contestants.position c := by
    intro c
    have zero : netQty c [] = 0 := rfl
    have booked := accounted.position c (squared.word c)
    rwa [none, zero, Int.add_zero, wrap32_of_isInt32 (squared.word c)] at booked
  refine ⟨drains.rep squared.rep, accounted.bounded, squared.spent.drains drains,
    (squared.owned.drains drains).mono count, few, ?_, ?_, ?_, ?_⟩
  · rw [same]
    exact fun k hk => (squared.known k hk).trans_le count
  · exact fun c => by rw [position]; exact squared.word c
  · exact fun c => by rw [same, position, squared.position]
  · rw [same, squared.balanced]

variable {cid ts : Nat} {order : OrderEntry} {fills : List MatchResult} {Q₁ : Queues}
  {before b₁ : OrderBook}

theorem Squared.word_executed (squared : Squared Q j)
    (registered : cid < j.engine.contestants.count)
    (accepted : j.engine.orderRejection cid order = none)
    (executed : Executed Q j.engine cid order ts fills Q₁ before b₁ Q' e')
    (representable : Representable j.engine (.processOrder cid order ts)) (c : Nat) :
    IsInt32 (j.engine.contestants.position c +
      netQty c (fillBookings j.engine.book cid order.side fills)) := by
  have wanted := (size_of_accepted accepted).1
  obtain ⟨sender, others⟩ := representable registered accepted
  obtain ⟨taken, part⟩ := makerQty_bounds (b := j.engine.book) executed.matched.positive c
  obtain ⟨-, filled⟩ := executed_filled wanted executed
  have contra := (executed_openQty squared.rep wanted executed c).1
  have left := openQty_nonneg (executed.rep squared.rep) c order.side.contra
  rw [executed_netQty squared.rep executed c]
  by_cases self : c = cid
  · subst self
    have net : signedQty order.side (filledQty fills) +
        signedQty order.side.contra (makerQty j.engine.book c fills) =
        signedQty order.side (filledQty fills - makerQty j.engine.book c fills) := by
      rw [signedQty_contra, ← Int.sub_eq_add_neg]
      cases order.side
      · rfl
      · simp only [signedQty]
        omega
    rw [if_pos rfl, net]
    exact isInt32_between (squared.word c) sender (by omega) (by omega)
  · rw [if_neg self, Int.zero_add]
    by_cases inside : c < j.engine.contestants.count
    · exact isInt32_between (squared.word c) (others c inside self) taken
        (le_min (by omega) (by omega))
    · have nothing := squared.owned.openQty_eq_zero squared.rep (not_lt.mp inside)
        order.side.contra
      have zero : makerQty j.engine.book c fills = 0 := by omega
      rw [zero, signedQty_zero, Int.add_zero]
      exact squared.word c

theorem Squared.executed (squared : Squared Q j)
    (registered : cid < j.engine.contestants.count)
    (accepted : j.engine.orderRejection cid order = none)
    (executed : Executed Q j.engine cid order ts fills Q₁ before b₁ Q' e')
    (accounted : Accounted j.engine (.processOrder cid order ts) e')
    (count : e'.contestants.count = j.engine.contestants.count)
    (provided : Provided j.engine (.processOrder cid order ts))
    (representable : Representable j.engine (.processOrder cid order ts)) :
    Squared Q' ⟨e', j.log ++ emitted j.engine e'⟩ := by
  have made := fillsOf_executed registered accepted executed
  have matched := executed.matched
  have drains : Drains Q j.engine.book Q₁ (settledBook fills b₁) := by
    rw [settledBook]
    split_ifs
    · exact matched.drained
    · exact .look (.look matched.drained .buy) .sell
  have taken := provided registered accepted fills b₁ executed.returns
  have spent := placed_spent executed.placed taken (squared.spent.drains drains)
  have owned := placed_owned executed.placed taken (drains.rep squared.rep) registered
    (squared.owned.drains drains)
  have books : opBookings j.engine (.processOrder cid order ts) =
      fillBookings j.engine.book cid order.side fills := by rw [opBookings, made]
  have all : (⟨e', j.log ++ emitted j.engine e'⟩ : Journal G).bookings =
      j.bookings ++ fillBookings j.engine.book cid order.side fills := by
    rw [Journal.bookings, List.filterMap_append, accounted.sent, books]
    rfl
  have word := squared.word_executed registered accepted executed representable
  have position : ∀ c, e'.contestants.position c = j.engine.contestants.position c +
      netQty c (fillBookings j.engine.book cid order.side fills) := by
    intro c
    have booked := accounted.position c (squared.word c)
    -- The word of every position is what the bookings make of it.
    rwa [books, wrap32_of_isInt32 (word c)] at booked
  refine ⟨executed.rep squared.rep, accounted.bounded, spent, ?_, ?_, ?_, ?_, ?_, ?_⟩
  · rw [count]
    exact owned
  · rw [count]
    exact squared.few
  · rw [all, count]
    intro k hk
    rcases List.mem_append.mp hk with old | new
    · exact squared.known k old
    · obtain ⟨f, hf, leg⟩ := List.mem_flatMap.mp new
      obtain ⟨i, listed⟩ := matched.makers f hf
      rcases List.mem_cons.mp leg with rfl | leg
      · exact squared.owned order.side.contra i f.makerIdx listed
      · rw [List.mem_singleton.mp leg]
        exact registered
  · exact fun c => by rw [position]; exact word c
  · exact fun c => by rw [all, netQty_append, position, squared.position]
  · rw [all, List.map_append, List.sum_append, squared.balanced, Int.zero_add]
    refine fillBookings_cancel (fun f hf => ?_)
    obtain ⟨i, listed⟩ := matched.makers f hf
    exact (squared.rep.level order.side.contra i).side f.makerIdx listed

theorem apply_count (rep : Rep e.book Q) (returns : op.apply nextTick e = some e')
    (provided : Provided e op) (few : e.contestants.count ≤ maxContestants) :
    e.contestants.count ≤ e'.contestants.count ∧ e'.contestants.count ≤ maxContestants ∧
      ((∀ cash, op ≠ .registerContestant cash) → e'.contestants.count = e.contestants.count) := by
  have kept : (∀ cash, op ≠ .registerContestant cash) →
      e'.contestants.count = e.contestants.count := by
    intro other
    cases op with
    | registerContestant cash => exact absurd rfl (other cash)
    | generateTick ts =>
      cases returns
      rfl
    | popOutbound =>
      cases returns
      rw [MatchEngine.popOutbound]
      split_ifs
      · rfl
      · rfl
    | processOrder cid order ts =>
      change e.processOrder cid order ts = some e' at returns
      rw [MatchEngine.processOrder] at returns
      split_ifs at returns
      · cases returns
        rfl
      · cases rejection : e.orderRejection cid order with
        | none =>
          obtain ⟨_, _, _, _, _, e'', run, _, _, count⟩ := executeOrder_executed rep cid order ts
          rw [rejection] at returns
          obtain rfl : e'' = e' := Option.some.inj (run.symm.trans returns)
          exact count
        | some status =>
          rw [rejection] at returns
          cases returns
          rfl
    | processCancel cid cancel ts =>
      rcases processCancel_cases returns with ⟨r, b, -, rfl⟩ | rfl
      · rfl
      · rfl
  by_cases register : ∃ cash, op = .registerContestant cash
  · obtain ⟨cash, rfl⟩ := register
    cases returns
    have room : e.contestants.count < 64 := provided
    have next : succ32 e.contestants.count = e.contestants.count + 1 :=
      Nat.mod_eq_of_lt (by omega)
    change _ ≤ succ32 e.contestants.count ∧ succ32 e.contestants.count ≤ 64 ∧ _
    rw [next]
    exact ⟨Nat.le_succ _, room, fun other => absurd rfl (other cash)⟩
  · have same := kept (fun cash h => register ⟨cash, h⟩)
    exact ⟨same.ge, same.trans_le few, fun _ => same⟩

theorem Squared.step (squared : Squared Q j) (provided : Provided j.engine op)
    (representable : Representable j.engine op) :
    ∃ Q' j', j.apply nextTick op = some j' ∧ Squared Q' j' := by
  obtain ⟨Q', e', returns, step, -⟩ :=
    apply_step nextTick squared.rep op (squared.findsResting op)
  have accounted := apply_accounted nextTick squared.rep squared.bounded returns
  obtain ⟨more, few, same⟩ := apply_count nextTick squared.rep returns provided squared.few
  refine ⟨Q', ⟨e', j.log ++ emitted j.engine e'⟩, ?_, ?_⟩
  · rw [Journal.apply, returns]
    rfl
  · cases step with
    | quiet book map idle => exact squared.idle accounted (opBookings_quiet idle) book more few
    | cancelled owned listed shed settled =>
      exact squared.idle accounted rfl
        (Drains.shed .refl (List.ne_nil_of_mem listed) shed settled) more few
    | executed registered accepted executed =>
      exact squared.executed registered accepted executed accounted (same nofun) provided
        representable

/-- While no position can wrap, positions add up to zero and are what the fill messages say. -/
theorem positions_are_zero_sum (nextTick : G → Nat → MarketUpdate × G) (gen : G)
    (cfg : MatchEngineConfig) (ops : List EngineOp)
    (legal : Obeys (Journal.apply nextTick)
      (fun j op => Provided j.engine op ∧ Representable j.engine op)
      ⟨MatchEngine.init cfg gen, []⟩ ops) :
    ∃ j, run (Journal.apply nextTick) ⟨MatchEngine.init cfg gen, []⟩ ops = some j ∧
      ∑ c ∈ Finset.range maxContestants, j.engine.contestants.position c = 0 ∧
      ∀ c, j.engine.contestants.position c = netQty c j.bookings := by
  have keep : ∀ (j : Journal G) op, (∃ Q, Squared Q j) →
      Provided j.engine op ∧ Representable j.engine op →
      ∃ j', j.apply nextTick op = some j' ∧ ∃ Q, Squared Q j' := by
    rintro j op ⟨Q, squared⟩ ⟨provided, representable⟩
    obtain ⟨Q', j', returns, squared'⟩ := squared.step nextTick provided representable
    exact ⟨j', returns, Q', squared'⟩
  obtain ⟨j, returns, Q, squared⟩ := run_returns (Journal.apply nextTick)
    (fun j op => Provided j.engine op ∧ Representable j.engine op) (fun j => ∃ Q, Squared Q j) keep
    ops ⟨MatchEngine.init cfg gen, []⟩ ⟨_, squared_init cfg gen⟩ legal
  refine ⟨j, returns, ?_, squared.position⟩
  calc ∑ c ∈ Finset.range maxContestants, j.engine.contestants.position c
      = ∑ c ∈ Finset.range maxContestants, netQty c j.bookings :=
        Finset.sum_congr rfl (fun c _ => squared.position c)
    _ = (j.bookings.map Booking.signed).sum :=
        sum_netQty j.bookings (fun k hk => (squared.known k hk).trans_le squared.few)
    _ = 0 := squared.balanced

def providedTest (e : MatchEngine G) : EngineOp → Bool
  | .registerContestant _ => decide (e.contestants.count < maxContestants)
  | .processOrder cid order ts =>
    match e.book.matchOrder order.side order.price order.quantity cid 64 with
    | none => true
    | some (fills, b₁) =>
      decide (order.quantity - filledQty fills > 0 ∧ order.orderType = .limit →
        ((settledBook fills b₁).addOrder cid order.clientOrderId order.side order.price
          (order.quantity - filledQty fills) ts).map Prod.fst ≠ some nullIndex)
  | _ => true

theorem provided_of_test (e : MatchEngine G) (op : EngineOp) (passed : providedTest e op = true) :
    Provided e op := by
  cases op with
  | registerContestant cash =>
    have room : e.contestants.count < maxContestants := of_decide_eq_true passed
    exact room
  | processOrder cid order ts =>
    intro _ _ fills b₁ matched wanted r b' added failed
    rw [providedTest, matched] at passed
    exact of_decide_eq_true passed wanted (by rw [added, failed]; rfl)
  | _ => trivial

def representableTest (e : MatchEngine G) : EngineOp → Bool
  | .processOrder cid order _ => decide (cid < e.contestants.count →
      e.orderRejection cid order = none →
      IsInt32 (e.contestants.position cid + signedQty order.side order.quantity) ∧
        ∀ c < e.contestants.count, c ≠ cid → IsInt32 (e.contestants.position c +
          signedQty order.side.contra (min order.quantity (openQty e.book c order.side.contra))))
  | _ => true

theorem representable_of_test (e : MatchEngine G) (op : EngineOp)
    (passed : representableTest e op = true) : Representable e op := by
  cases op with
  | processOrder cid order ts =>
    have words : cid < e.contestants.count → e.orderRejection cid order = none →
        IsInt32 (e.contestants.position cid + signedQty order.side order.quantity) ∧
          ∀ c < e.contestants.count, c ≠ cid → IsInt32 (e.contestants.position c +
            signedQty order.side.contra
              (min order.quantity (openQty e.book c order.side.contra))) :=
      of_decide_eq_true passed
    exact words
  | _ => trivial

theorem positions_are_zero_sum_self_trade :
    ∃ j, run (Journal.apply silentTick) ⟨MatchEngine.init .default (), []⟩
        [.registerContestant 0, .registerContestant 0, .processOrder 0 ⟨.buy, .limit, 1, 100, 30⟩ 0,
          .processOrder 1 ⟨.sell, .limit, 1, 99, 20⟩ 0, .processOrder 0 ⟨.sell, .ioc, 2, 100, 5⟩ 0,
          .processCancel 0 ⟨1, 0⟩ 0] = some j ∧
      ∑ c ∈ Finset.range maxContestants, j.engine.contestants.position c = 0 ∧
      ∀ c, j.engine.contestants.position c = netQty c j.bookings :=
  positions_are_zero_sum silentTick () .default _ (obeys_of_test
    (fun j op (passed : (providedTest j.engine op && representableTest j.engine op) = true) =>
      have both := Bool.and_eq_true_iff.mp passed
      ⟨provided_of_test j.engine op both.1, representable_of_test j.engine op both.2⟩)
    _ _ (by decide +kernel))

def widestLimits : MatchEngineConfig :=
  { MatchEngineConfig.default with
    maxPosition := 2147483647
    maxOrderSize := 2147483647 }

def twoBids : List EngineOp :=
  [.registerContestant 0, .registerContestant 0, .registerContestant 0,
    .processOrder 0 ⟨.buy, .limit, 1, 101, 2147483647⟩ 0,
    .processOrder 0 ⟨.buy, .limit, 2, 100, 1⟩ 0,
    .processOrder 1 ⟨.sell, .ioc, 1, 101, 2147483647⟩ 0,
    .processOrder 2 ⟨.sell, .ioc, 1, 100, 1⟩ 0]

/-- The position wraps, and neither half of the balance holds. -/
theorem wrapped_position_breaks_balance :
    Obeys (Journal.apply silentTick) (fun j op => Provided j.engine op)
      ⟨MatchEngine.init widestLimits (), []⟩ twoBids ∧
    (run (Journal.apply silentTick) ⟨MatchEngine.init widestLimits (), []⟩ twoBids).map (fun j =>
      (∑ c ∈ Finset.range maxContestants, j.engine.contestants.position c,
        j.engine.contestants.position 0, netQty 0 j.bookings)) =
      some (-4294967296, -2147483648, 2147483648) := by
  constructor
  · exact obeys_of_test (fun (j : Journal Unit) => provided_of_test j.engine) _ _
      (by decide +kernel)
  · decide +kernel

end Runs

end HftGrading.Exchange.Engine.ZeroSum
