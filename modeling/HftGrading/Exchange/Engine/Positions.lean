/- module: HftGrading/Exchange/Engine/Positions
   source: exchange/include/exchange/match_engine.hpp
   digest: The position limit over whole runs of the engine. -/

import HftGrading.Exchange.Engine.OpenInterest

set_option autoImplicit false
set_option relaxedAutoImplicit false

namespace HftGrading.Exchange.Engine.Positions

open Lib.PartialExecution WireProtocol Book.PriceMap Book.LimitBook
open Book.LimitBook.OrderBook (MatchResult)
open Book.LevelSearch Book.LevelQueue Book.LevelFilling Book.MatchRounds Book.BookRep Book.BookRuns
open EngineState
open HftGrading.Exchange.Engine.EngineState.ContestantState (signedQty signedQty_zero signedQty_add
  signedQty_contra)
open EngineSteps ProfitAccounts Settlement OpenInterest

variable {G : Type} {e e' : MatchEngine G} {Q Q' : Queues}

section Exposure

def exposure (e : MatchEngine G) (cid : Nat) (s : Side) : Int :=
  signedQty s (e.contestants.position cid) + openQty e.book cid s

theorem isInt32_of_signed {p M : Int} (small : M ≤ 2147483647) (both : ∀ s, signedQty s p ≤ M) :
    IsInt32 p := by
  have long : p ≤ M := both .buy
  have short : -p ≤ M := both .sell
  constructor
  · omega
  · omega

variable {cid ts : Nat} {order : OrderEntry} {fills : List MatchResult} {Q₁ : Queues}
  {before b₁ : OrderBook}

def nextPosition (e : MatchEngine G) (cid : Nat) (order : OrderEntry) (fills : List MatchResult)
    (c : Nat) : Int :=
  e.contestants.position c + netQty c (fillBookings e.book cid order.side fills)

theorem executed_exposes (rep : Rep e.book Q) (wanted : 0 < order.quantity)
    (executed : Executed Q e cid order ts fills Q₁ before b₁ Q' e') (c : Nat) :
    signedQty order.side (nextPosition e cid order fills c) + openQty e'.book c order.side ≤
        exposure e c order.side + (if c = cid then order.quantity else 0) ∧
      signedQty order.side.contra (nextPosition e cid order fills c) +
        openQty e'.book c order.side.contra ≤ exposure e c order.side.contra := by
  have net := executed_netQty rep executed c
  have filled := executed_filled wanted executed
  obtain ⟨contra, own⟩ := executed_openQty rep wanted executed c
  obtain ⟨taken, part⟩ := makerQty_bounds (b := e.book) executed.matched.positive c
  rw [nextPosition, net, exposure, exposure]
  by_cases self : c = cid
  · rw [if_pos self] at own
    rw [if_pos self, if_pos self]
    generalize order.side = s at *
    cases s
    · simp only [signedQty, Side.contra] at *
      constructor <;> omega
    · simp only [signedQty, Side.contra] at *
      constructor <;> omega
  · rw [if_neg self] at own
    rw [if_neg self, if_neg self]
    generalize order.side = s at *
    cases s
    · simp only [signedQty, Side.contra] at *
      constructor <;> omega
    · simp only [signedQty, Side.contra] at *
      constructor <;> omega

/-- No exposure is above `M`. -/
structure Limited (M : Int) (Q : Queues) (e : MatchEngine G) : Prop where
  rep : Rep e.book Q
  bounded : e.outboundTail < 4294967296
  exposed : ∀ c s, exposure e c s ≤ M

variable {M : Int}

theorem Limited.position_le (limited : Limited M Q e) (c : Nat) (s : Side) :
    signedQty s (e.contestants.position c) ≤ M := by
  have exposed := limited.exposed c s
  have nonneg := openQty_nonneg limited.rep c s
  rw [exposure] at exposed
  omega

theorem Limited.word (limited : Limited M Q e) (small : M ≤ 2147483647) (c : Nat) :
    IsInt32 (e.contestants.position c) :=
  isInt32_of_signed small (limited.position_le c)

theorem Limited.idle (limited : Limited M Q e) (small : M ≤ 2147483647) {op : EngineOp}
    (accounted : Accounted e op e') (none : opBookings e op = []) (rep : Rep e'.book Q')
    (less : ∀ c s, openQty e'.book c s ≤ openQty e.book c s) : Limited M Q' e' := by
  refine ⟨rep, accounted.bounded, fun c s => ?_⟩
  have same := accounted.position c (limited.word small c)
  have zero : netQty c [] = 0 := rfl
  rw [none, zero, Int.add_zero, wrap32_of_isInt32 (limited.word small c)] at same
  have exposed := limited.exposed c s
  have lower := less c s
  rw [exposure] at exposed
  rw [exposure, same]
  omega

theorem Limited.executed (limited : Limited M Q e) (small : M ≤ 2147483647)
    (wanted : 0 < order.quantity)
    (executed : Executed Q e cid order ts fills Q₁ before b₁ Q' e')
    (accounted : Accounted e (.processOrder cid order ts) e')
    (made : fillsOf e cid order = fills)
    (room : ∀ c, signedQty order.side (nextPosition e cid order fills c) +
      openQty e'.book c order.side ≤ M) :
    Limited M Q' e' ∧ ∀ c, e'.contestants.position c = nextPosition e cid order fills c := by
  have rep' := executed.rep limited.rep
  have both : ∀ c s, signedQty s (nextPosition e cid order fills c) + openQty e'.book c s ≤ M := by
    intro c s
    rcases Side.eq_or_eq_contra order.side s with rfl | rfl
    · exact room c
    · exact (executed_exposes limited.rep wanted executed c).2.trans (limited.exposed c _)
  have word : ∀ c, IsInt32 (nextPosition e cid order fills c) := by
    intro c
    refine isInt32_of_signed small (fun s => ?_)
    have bound := both c s
    have nonneg := openQty_nonneg rep' c s
    omega
  have next : ∀ c, e'.contestants.position c = nextPosition e cid order fills c := by
    intro c
    have booked := accounted.position c (limited.word small c)
    rw [opBookings, made, ← nextPosition, wrap32_of_isInt32 (word c)] at booked
    exact booked
  refine ⟨⟨rep', accounted.bounded, fun c s => ?_⟩, next⟩
  rw [exposure, next]
  exact both c s

theorem limited_init (cfg : MatchEngineConfig) (gen : G) (nonneg : 0 ≤ M) :
    Limited M (fun _ _ => []) (MatchEngine.init cfg gen) where
  rep := rep_init
  bounded := show 0 < 4294967296 by decide
  exposed := fun c s => by
    cases s
    · exact nonneg
    · exact nonneg

end Exposure

section Limits

variable (nextTick : G → Nat → MarketUpdate × G) {op : EngineOp}

theorem fillsOf_executed {cid ts : Nat} {order : OrderEntry} {fills : List MatchResult} {Q₁ : Queues}
    {before b₁ : OrderBook} (registered : cid < e.contestants.count)
    (accepted : e.orderRejection cid order = none)
    (executed : Executed Q e cid order ts fills Q₁ before b₁ Q' e') : fillsOf e cid order = fills := by
  rw [fillsOf, if_pos ⟨registered, accepted⟩, executed.returns]
  rfl

theorem opBookings_quiet
    (idle : ∀ cid order ts, op = .processOrder cid order ts → fillsOf e cid order = []) :
    opBookings e op = [] := by
  cases op with
  | processOrder cid order ts =>
    rw [opBookings, idle cid order ts rfl]
    rfl
  | _ => rfl

/-- An order that would exceed the limit once all the sender has resting on its side is
filled as well is not sent; a cancel finds an order that rests. -/
def Prudent (e : MatchEngine G) : EngineOp → Prop
  | .processOrder cid order _ => cid < e.contestants.count → e.orderRejection cid order = none →
      exposure e cid order.side + order.quantity ≤ e.cfg.maxPosition
  | op => FindsResting e op

theorem findsResting_of_prudent (prudent : Prudent e op) : FindsResting e op := by
  cases op with
  | processOrder => trivial
  | registerContestant => trivial
  | processCancel => exact prudent
  | generateTick => trivial
  | popOutbound => trivial

theorem Limited.step (limited : Limited e.cfg.maxPosition Q e)
    (small : e.cfg.maxPosition ≤ 2147483647) (prudent : Prudent e op) :
    ∃ Q' e', op.apply nextTick e = some e' ∧ Limited e'.cfg.maxPosition Q' e' ∧ e'.cfg = e.cfg := by
  obtain ⟨Q', e', returns, step, cfg⟩ :=
    apply_step nextTick limited.rep op (findsResting_of_prudent prudent)
  have accounted := apply_accounted nextTick limited.rep limited.bounded returns
  refine ⟨Q', e', returns, ?_, cfg⟩
  rw [cfg]
  have rep' := step.rep limited.rep
  cases step with
  | quiet book map idle =>
    exact limited.idle small accounted (opBookings_quiet idle) rep'
      (fun c s => openQty_drains limited.rep book c s)
  | cancelled owned listed shed settled =>
    have drains : Drains Q e.book _ e'.book :=
      Drains.shed .refl (List.ne_nil_of_mem listed) shed settled
    exact limited.idle small accounted rfl rep'
      (fun c s => openQty_drains limited.rep drains c s)
  | @executed cid ts order fills Q₁ Q' before b₁ e' registered accepted executed =>
    have wanted := (size_of_accepted accepted).1
    refine (limited.executed small wanted executed accounted
      (fillsOf_executed registered accepted executed) (fun c => ?_)).1
    refine (executed_exposes limited.rep wanted executed c).1.trans ?_
    by_cases self : c = cid
    · rw [if_pos self, self]
      exact prudent registered accepted
    · rw [if_neg self, Int.add_zero]
      exact limited.exposed c _

/-- In prudent runs no position leaves the limit. -/
theorem prudent_runs_within_limit (nextTick : G → Nat → MarketUpdate × G) (gen : G)
    (cfg : MatchEngineConfig) (nonneg : 0 ≤ cfg.maxPosition) (word : IsInt32 cfg.maxPosition)
    (ops : List EngineOp)
    (prudent : Obeys (EngineOp.apply nextTick) Prudent (MatchEngine.init cfg gen) ops) :
    ∃ e, run (EngineOp.apply nextTick) (MatchEngine.init cfg gen) ops = some e ∧
      ∀ c, |e.contestants.position c| ≤ cfg.maxPosition := by
  have keep : ∀ (e : MatchEngine G) op, (∃ Q, Limited e.cfg.maxPosition Q e) ∧ e.cfg = cfg →
      Prudent e op → ∃ e', op.apply nextTick e = some e' ∧
        (∃ Q, Limited e'.cfg.maxPosition Q e') ∧ e'.cfg = cfg := by
    rintro e op ⟨⟨Q, limited⟩, same⟩ prudent
    obtain ⟨Q', e', returns, limited', kept⟩ := limited.step nextTick
      (by rw [same]; exact word.2) prudent
    exact ⟨e', returns, ⟨Q', limited'⟩, kept.trans same⟩
  obtain ⟨e, returns, ⟨Q, limited⟩, same⟩ := run_returns (EngineOp.apply nextTick) Prudent
    (fun e => (∃ Q, Limited e.cfg.maxPosition Q e) ∧ e.cfg = cfg) keep ops
    (MatchEngine.init cfg gen) ⟨⟨_, limited_init cfg gen nonneg⟩, rfl⟩ prudent
  refine ⟨e, returns, fun c => abs_le.mpr ⟨?_, ?_⟩⟩
  · have short : -e.contestants.position c ≤ e.cfg.maxPosition := limited.position_le c .sell
    rw [same] at short
    omega
  · have long : e.contestants.position c ≤ e.cfg.maxPosition := limited.position_le c .buy
    rwa [same] at long

def prudentTest (e : MatchEngine G) : EngineOp → Bool
  | .processOrder cid order _ => decide (cid < e.contestants.count →
      e.orderRejection cid order = none →
      exposure e cid order.side + order.quantity ≤ e.cfg.maxPosition)
  | op => findsRestingTest e op

theorem prudent_of_test (e : MatchEngine G) (op : EngineOp) (passed : prudentTest e op = true) :
    Prudent e op := by
  cases op with
  | processOrder cid order ts =>
    have room : cid < e.contestants.count → e.orderRejection cid order = none →
        exposure e cid order.side + order.quantity ≤ e.cfg.maxPosition := of_decide_eq_true passed
    exact room
  | registerContestant => trivial
  | processCancel cid cancel ts => exact findsResting_of_test e (.processCancel cid cancel ts) passed
  | generateTick => trivial
  | popOutbound => trivial

theorem prudent_runs_within_limit_replaced_bid :
    ∃ e, run (EngineOp.apply silentTick) (MatchEngine.init .default ())
        [.registerContestant 0, .registerContestant 0, .processOrder 0 ⟨.buy, .limit, 1, 100, 50⟩ 0,
          .processOrder 0 ⟨.buy, .limit, 2, 99, 50⟩ 0, .processCancel 0 ⟨1, 0⟩ 0,
          .processOrder 0 ⟨.buy, .limit, 3, 98, 50⟩ 0, .processOrder 1 ⟨.sell, .ioc, 1, 98, 50⟩ 0,
          .processOrder 1 ⟨.sell, .ioc, 2, 98, 50⟩ 0] = some e ∧
      ∀ c, |e.contestants.position c| ≤ 100 :=
  prudent_runs_within_limit silentTick () .default (by decide) (by decide) _
    (obeys_of_test prudent_of_test _ _ (by decide +kernel))

def threeBids : List EngineOp :=
  [.registerContestant 0, .registerContestant 0, .registerContestant 0,
    .processOrder 0 ⟨.buy, .limit, 1, 100, 50⟩ 0, .processOrder 0 ⟨.buy, .limit, 2, 100, 50⟩ 0,
    .processOrder 0 ⟨.buy, .limit, 3, 100, 50⟩ 0, .processOrder 1 ⟨.sell, .limit, 1, 100, 50⟩ 0,
    .processOrder 1 ⟨.sell, .limit, 2, 100, 50⟩ 0, .processOrder 2 ⟨.sell, .limit, 1, 100, 50⟩ 0]

/-- The check does not count what rests, and the position ends beyond the limit. -/
theorem resting_bids_exceed_limit :
    (run (EngineOp.apply silentTick) (MatchEngine.init .default ()) threeBids).map
      (fun e => e.contestants.position 0) = some 150 := by
  decide +kernel

end Limits

end HftGrading.Exchange.Engine.Positions
