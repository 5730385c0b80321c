/- module: HftGrading/Exchange/Shadow/ValidationAccounts
   source: exchange/include/exchange/shadow_orderbook.hpp
   digest: Every reported fill and every expected fill is counted under exactly one verdict. -/

import HftGrading.Exchange.Shadow.ShadowScoring

set_option autoImplicit false
set_option relaxedAutoImplicit false

namespace HftGrading.Exchange.Shadow.ValidationAccounts

open Lib.PartialExecution WireProtocol Book.LimitBook
open Book.LimitBook.OrderBook (MatchResult)
open Book.BookRep Book.BookRuns ShadowState ShadowScoring

def claimedFills (r : ValidationResult) : Nat := r.correctFills + r.wrongPrice + r.wrongQty

structure Balanced (s : ShadowOrderbook) : Prop where
  rep : ∃ Q, Rep s.book Q
  expected : s.result.totalExpected = claimedFills s.result + openCount s.expected
  actual : s.result.totalActual = claimedFills s.result + s.result.extraFills
  unfinished : s.result.missingFills = 0

theorem balanced_init : Balanced ShadowOrderbook.init := ⟨⟨_, rep_init⟩, rfl, rfl, rfl⟩

variable {s : ShadowOrderbook}

theorem claimedFills_judge (ef : ExpectedFill) (price qty : Int) (r : ValidationResult) :
    claimedFills (ShadowOrderbook.judge ef price qty r) = claimedFills r + 1 := by
  unfold ShadowOrderbook.judge claimedFills
  split_ifs
  · simp only
    omega
  · simp only
    omega
  · simp only
    omega

theorem judge_others (ef : ExpectedFill) (price qty : Int) (r : ValidationResult) :
    (ShadowOrderbook.judge ef price qty r).totalExpected = r.totalExpected ∧
      (ShadowOrderbook.judge ef price qty r).totalActual = r.totalActual ∧
      (ShadowOrderbook.judge ef price qty r).extraFills = r.extraFills ∧
      (ShadowOrderbook.judge ef price qty r).missingFills = r.missingFills := by
  unfold ShadowOrderbook.judge
  split_ifs
  · exact ⟨rfl, rfl, rfl, rfl⟩
  · exact ⟨rfl, rfl, rfl, rfl⟩
  · exact ⟨rfl, rfl, rfl, rfl⟩

theorem Balanced.orderEntry (balanced : Balanced s) (order : OrderEntry) (timestampNs : Nat) :
    ∃ s', s.processOrder order timestampNs = some s' ∧ Balanced s' := by
  obtain ⟨Q, rep⟩ := balanced.rep
  obtain ⟨Q₁, fills, before, b₁, s', returns, processed⟩ :=
    processOrder_processed rep order timestampNs
  -- Fills of `match` are positive, so every entry that is recorded is open.
  have opened : openCount s'.expected = openCount s.expected +
      min fills.length (shadowMaxFills - s.expected.length) := by
    have positive : ∀ f ∈ fills.take (shadowMaxFills - s.expected.length), 0 < f.fillQty :=
      fun f member => processed.matched.positive f (List.mem_of_mem_take member)
    rw [processed.expected, openCount, List.countP_append, ← openCount, ← openCount,
      ← List.map_take, openCount_new positive, List.length_take, Nat.min_comm]
  have expected := balanced.expected
  refine ⟨s', returns, processed_rep processed rep, ?_, ?_, ?_⟩
  · rw [processed.result, opened]
    show s.result.totalExpected + _ = claimedFills s.result + _
    omega
  · rw [processed.result]
    exact balanced.actual
  · rw [processed.result]
    exact balanced.unfinished

theorem Balanced.fill (balanced : Balanced s) (orderId : UInt32) (price qty : Int) :
    Balanced (s.validateFill orderId price qty) := by
  have expected := balanced.expected
  have actual := balanced.actual
  rw [ShadowOrderbook.validateFill]
  rcases claimEntry_claimed orderId s.expected with ⟨none, -⟩ | ⟨ef, closed, found, claimed⟩
  · rw [none]
    refine ⟨balanced.rep, expected, ?_, balanced.unfinished⟩
    show s.result.totalActual + 1 = claimedFills s.result + (s.result.extraFills + 1)
    omega
  · rw [found]
    have count := claimed.count
    obtain ⟨sameExpected, sameActual, sameExtra, sameMissing⟩ := judge_others ef price qty
      { s.result with totalActual := s.result.totalActual + 1 }
    have more := claimedFills_judge ef price qty
      { s.result with totalActual := s.result.totalActual + 1 }
    refine ⟨balanced.rep, ?_, ?_, ?_⟩
    · show (ShadowOrderbook.judge ef price qty _).totalExpected = claimedFills _ + openCount closed
      rw [sameExpected, more]
      show s.result.totalExpected = claimedFills s.result + 1 + openCount closed
      omega
    · show (ShadowOrderbook.judge ef price qty _).totalActual =
        claimedFills _ + (ShadowOrderbook.judge ef price qty _).extraFills
      rw [sameActual, more, sameExtra]
      show s.result.totalActual + 1 = claimedFills s.result + 1 + s.result.extraFills
      omega
    · exact sameMissing.trans balanced.unfinished

theorem Balanced.event (balanced : Balanced s) (event : MatchEvent) :
    ∃ s', event.apply s = some s' ∧ Balanced s' := by
  cases event with
  | orderEntry order timestampNs => exact balanced.orderEntry order timestampNs
  | cancelRequest cancel => exact ⟨s, rfl, balanced⟩
  | fill orderId price qty => exact ⟨_, rfl, balanced.fill orderId price qty⟩
  | orderAck =>
    exact ⟨_, rfl, balanced.rep, balanced.expected, balanced.actual, balanced.unfinished⟩

/-- After any events and one `finalize` every report and every expected fill has one verdict. -/
theorem validation_accounts_for_fills (events : List MatchEvent) :
    ∃ s, run MatchEvent.apply ShadowOrderbook.init events = some s ∧
      s.finalize.result.totalActual = s.finalize.result.correctFills +
        s.finalize.result.wrongPrice + s.finalize.result.wrongQty + s.finalize.result.extraFills ∧
      s.finalize.result.totalExpected = s.finalize.result.correctFills +
        s.finalize.result.wrongPrice + s.finalize.result.wrongQty +
        s.finalize.result.missingFills := by
  obtain ⟨s, returns, balanced⟩ := run_returns MatchEvent.apply (fun _ _ => True) Balanced
    (fun s event balanced _ => balanced.event event) events ShadowOrderbook.init balanced_init
    (obeys_of_forall (fun _ _ => trivial) _ _)
  refine ⟨s, returns, balanced.actual, ?_⟩
  show s.result.totalExpected =
    claimedFills s.result + (s.result.missingFills + openCount s.expected)
  rw [balanced.unfinished, Nat.zero_add]
  exact balanced.expected

end HftGrading.Exchange.Shadow.ValidationAccounts
