/- module: HftGrading/Exchange/Audit/AuditVerdict
   source: exchange/include/exchange/correctness_validator.hpp
   digest: What the checker says of a log, against what a clean log is. -/

import HftGrading.Exchange.Audit.CleanLogs
import Mathlib.Algebra.Order.Group.Abs

set_option autoImplicit false
set_option relaxedAutoImplicit false

namespace HftGrading.Exchange.Audit.AuditVerdict

open Function (update)
open Lib.PriceTimePriority WireProtocol
open Book.LimitBook.OrderBook (beyondLimit)
open Shadow.ShadowReference.Textbook (Accepts)
open CorrectnessValidator CorrectnessValidator.Validation CleanLogs

section Verdict

variable (maxPosition : Int)

def checked (log : List AuditEntry) : Validation := log.foldl (checkEntry maxPosition) .start

theorem checked_snoc (log : List AuditEntry) (e : AuditEntry) :
    checked maxPosition (log ++ [e]) = (checked maxPosition log).checkEntry maxPosition e := by
  rw [checked, List.foldl_append]
  rfl

theorem idle_checked (log : List AuditEntry) : idleErrors (checked maxPosition log).report = 0 := by
  induction log using List.reverseRecOn with
  | nil => rfl
  | append_singleton log e ih =>
    rw [checked_snoc, (checkEntry_numbered maxPosition _ e).2.2]
    exact ih

theorem finish_total (v : Validation) : v.finish.totalViolations =
    v.report.sequenceErrors + v.report.positionLimitBreaches + v.report.crossedBookViolations +
      idleErrors v.report + if v.totalBuyQty ≠ v.totalSellQty then 1 else 0 := by
  rw [finish]
  split_ifs
  · simp only [CorrectnessReport.totalViolations, idleErrors]
    omega
  · simp only [CorrectnessReport.totalViolations, idleErrors]
    omega

theorem no_violations_iff (records : List AuditEntry) :
    (validate records maxPosition).totalViolations = 0 ↔
      (checked maxPosition (readEntries records)).report.sequenceErrors = 0 ∧
        (checked maxPosition (readEntries records)).report.positionLimitBreaches = 0 ∧
        (checked maxPosition (readEntries records)).report.crossedBookViolations = 0 ∧
        (checked maxPosition (readEntries records)).totalBuyQty =
          (checked maxPosition (readEntries records)).totalSellQty := by
  have idle := idle_checked maxPosition (readEntries records)
  show (checked maxPosition (readEntries records)).finish.totalViolations = 0 ↔ _
  rw [finish_total, idle]
  by_cases same : (checked maxPosition (readEntries records)).totalBuyQty =
      (checked maxPosition (readEntries records)).totalSellQty
  swap
  · rw [if_pos same]
    exact iff_of_false (Nat.succ_ne_zero _) (fun clear => same clear.2.2.2)
  · rw [if_neg (not_not.mpr same)]
    constructor
    · intro none
      exact ⟨by omega, by omega, by omega, same⟩
    · rintro ⟨sequence, breaches, crossed, -⟩
      omega

end Verdict

section Sequence

def Rising (log : List AuditEntry) : Prop :=
  ((log.map AuditEntry.sequenceNo).filter (0 < ·)).Pairwise (· < ·)

instance (log : List AuditEntry) : Decidable (Rising log) :=
  inferInstanceAs (Decidable (List.Pairwise _ _))

variable (maxPosition : Int)

theorem sequence_clear_iff (log : List AuditEntry) (v : Validation) :
    (log.foldl (checkEntry maxPosition) v).report.sequenceErrors = 0 ↔
      v.report.sequenceErrors = 0 ∧
        (v.lastSeq :: (log.map AuditEntry.sequenceNo).filter (0 < ·)).IsChain (· < ·) := by
  induction log generalizing v with
  | nil => simp
  | cons e log ih =>
    obtain ⟨errors, last, -⟩ := checkEntry_numbered maxPosition v e
    rw [List.foldl_cons, ih, errors, last, sequenceError, List.map_cons]
    by_cases numbered : 0 < e.sequenceNo
    · rw [if_pos numbered, List.filter_cons_of_pos (by simpa using numbered),
        List.isChain_cons_cons]
      by_cases later : v.lastSeq < e.sequenceNo
      · rw [if_neg (fun late => absurd later (not_lt.mpr late.2)), Nat.add_zero,
          and_iff_right later]
      · rw [if_pos ⟨numbered, not_lt.mp later⟩]
        exact iff_of_false (fun clear => Nat.succ_ne_zero _ clear.1)
          (fun clear => later clear.2.1)
    · rw [if_neg numbered, List.filter_cons_of_neg (by simpa using numbered),
        if_neg (fun late => numbered late.1), Nat.add_zero]

theorem sequence_clear_iff_rising (log : List AuditEntry) :
    (checked maxPosition log).report.sequenceErrors = 0 ↔ Rising log := by
  have positive : ∀ n ∈ (log.map AuditEntry.sequenceNo).filter (0 < ·), 0 < n := fun n member =>
    of_decide_eq_true (List.mem_filter.mp member).2
  rw [checked, sequence_clear_iff, List.isChain_iff_pairwise, List.pairwise_cons,
    and_iff_right (show start.report.sequenceErrors = 0 from rfl)]
  exact and_iff_right positive

/-- Only the first entry of a log numbered upwards can have the number 0. -/
theorem upwards_iff (log : List AuditEntry) :
    (log.map AuditEntry.sequenceNo).Pairwise (· < ·) ↔
      Rising log ∧ ∀ e ∈ log.tail, e.sequenceNo ≠ 0 := by
  cases log with
  | nil => simp [Rising]
  | cons e log =>
    rw [Rising, List.tail_cons, List.map_cons]
    constructor
    · intro upwards
      refine ⟨upwards.filter _, fun later member zero => ?_⟩
      have above := (List.pairwise_cons.mp upwards).1 _ (List.mem_map_of_mem member)
      omega
    · rintro ⟨rising, numbered⟩
      have rest : (log.map AuditEntry.sequenceNo).filter (0 < ·) = log.map AuditEntry.sequenceNo := by
        apply List.filter_eq_self.mpr
        intro n member
        obtain ⟨later, entry, rfl⟩ := List.mem_map.mp member
        exact decide_eq_true (Nat.pos_of_ne_zero (numbered later entry))
      by_cases first : 0 < e.sequenceNo
      · rwa [List.filter_cons_of_pos (by simpa using first), rest] at rising
      · rw [List.filter_cons_of_neg (by simpa using first), rest] at rising
        refine List.pairwise_cons.mpr ⟨fun n member => ?_, rising⟩
        obtain ⟨later, entry, rfl⟩ := List.mem_map.mp member
        have := numbered later entry
        omega

end Sequence

section Limits

variable (maxPosition : Int)

theorem breaches_mono (v : Validation) (e : AuditEntry)
    (known : e.contestantId < valMaxContestants) : v.report.positionLimitBreaches ≤
      (v.checkEntry maxPosition e).report.positionLimitBreaches := by
  by_cases fill : ∃ f, e.body = .fill f
  · obtain ⟨f, body⟩ := fill
    rw [(checkEntry_filled maxPosition v e known body).breaches]
    exact Nat.le_add_right _ _
  · exact (checkEntry_unfilled maxPosition v e (not_exists.mp fill)).breaches.ge

theorem breaches_mono_run {log : List AuditEntry} (v : Validation)
    (known : ∀ e ∈ log, e.contestantId < valMaxContestants) : v.report.positionLimitBreaches ≤
      (log.foldl (checkEntry maxPosition) v).report.positionLimitBreaches := by
  induction log generalizing v with
  | nil => exact le_rfl
  | cons e log ih =>
    obtain ⟨first, rest⟩ := List.forall_mem_cons.mp known
    exact (breaches_mono maxPosition v e first).trans (ih _ rest)

/-- The positions in the checker's words, which wrap. -/
abbrev WordLimits : (Nat → Int) → List AuditEntry → Prop :=
  Within (fun p f => wrap32 (p + signedFill f)) absPosition maxPosition

theorem limits_clear_iff {log : List AuditEntry} (v : Validation)
    (known : ∀ e ∈ log, e.contestantId < valMaxContestants) :
    (log.foldl (checkEntry maxPosition) v).report.positionLimitBreaches = 0 ↔
      v.report.positionLimitBreaches = 0 ∧ WordLimits maxPosition v.positions log := by
  induction log generalizing v with
  | nil => exact (and_iff_left trivial).symm
  | cons e log ih =>
    obtain ⟨first, rest⟩ := List.forall_mem_cons.mp known
    rw [List.foldl_cons]
    by_cases fill : ∃ f, e.body = .fill f
    · obtain ⟨f, body⟩ := fill
      have filled := checkEntry_filled maxPosition v e first body
      have breaches := filled.breaches
      rw [WordLimits, within_fill body]
      split_ifs at breaches with beyond
      · have mono := breaches_mono_run maxPosition (v.checkEntry maxPosition e) rest
        exact iff_of_false (by omega) (fun clear => absurd clear.2.1 (not_le.mpr beyond))
      · rw [ih _ rest, breaches, filled.positions, Nat.add_zero]
        exact and_congr_right fun _ => (and_iff_right (not_lt.mp beyond)).symm
    · have other := not_exists.mp fill
      have unfilled := checkEntry_unfilled maxPosition v e other
      rw [WordLimits, within_other other, ih _ rest, unfilled.breaches, unfilled.positions]

variable {maxPosition}

/-- A position within the limit is within its word: the checker raises no false alarm. -/
theorem wordLimits_of_limitsKept {log : List AuditEntry} {position : Nat → Int}
    (word : IsInt32 maxPosition)
    (fills : ∀ x ∈ fillsOf log, 0 < x.2.fillQty ∧ IsInt32 x.2.fillQty)
    (kept : LimitsKept maxPosition position log) : WordLimits maxPosition position log := by
  induction log generalizing position with
  | nil => trivial
  | cons e log ih =>
    rw [← List.singleton_append, fillsOf_append] at fills
    have rest := fun x member => fills x (List.mem_append_right _ member)
    by_cases fill : ∃ f, e.body = .fill f
    · obtain ⟨f, body⟩ := fill
      obtain ⟨positive, int⟩ : 0 < f.fillQty ∧ IsInt32 f.fillQty := fills (e.contestantId, f)
        (List.mem_append_left _ (by rw [fillsOf_fill body]; exact List.mem_singleton_self _))
      obtain ⟨within, later⟩ := (within_fill body).mp kept
      have small : |position e.contestantId + signedQty f| ≤ 2147483647 :=
        within.trans word.2
      have range := abs_le.mp small
      have signed : signedFill f = signedQty f := by
        rw [signedFill, signedQty, wrap32_of_isInt32]
        unfold IsInt32 at int ⊢
        omega
      have same : wrap32 (position e.contestantId + signedFill f) =
          position e.contestantId + signedQty f := by
        rw [signed]
        exact wrap32_of_isInt32 ⟨by omega, by omega⟩
      refine (within_fill body).mpr ?_
      rw [same, absPosition, ite_wrap32_neg_eq_abs small]
      exact ⟨within, ih rest later⟩
    · have other := not_exists.mp fill
      exact (within_other other).mpr (ih rest ((within_other other).mp kept))

end Limits

section Conservation

/-- As many bought as sold, modulo the word the checker adds them up in. -/
def Balanced (log : List AuditEntry) : Prop :=
  wrap64 ((fillsOf log).map (qtyOn .buy)).sum = wrap64 ((fillsOf log).map (qtyOn .sell)).sum

instance (log : List AuditEntry) : Decidable (Balanced log) := inferInstanceAs (Decidable (_ = _))

variable (maxPosition : Int)

theorem totals_checked {log : List AuditEntry}
    (known : ∀ e ∈ log, e.contestantId < valMaxContestants) :
    (checked maxPosition log).totalBuyQty = wrap64 ((fillsOf log).map (qtyOn .buy)).sum ∧
      (checked maxPosition log).totalSellQty = wrap64 ((fillsOf log).map (qtyOn .sell)).sum := by
  induction log using List.reverseRecOn with
  | nil => exact ⟨rfl, rfl⟩
  | append_singleton log e ih =>
    obtain ⟨bought, sold⟩ := ih (fun e member => known e (List.mem_append_left _ member))
    rw [checked_snoc]
    by_cases fill : ∃ f, e.body = .fill f
    · obtain ⟨f, body⟩ := fill
      have filled := checkEntry_filled maxPosition (checked maxPosition log) e
        (known e (by simp)) body
      rw [filled.bought, filled.sold, bought, sold, fillsOf_append, fillsOf_fill body]
      simp only [List.map_append, List.sum_append, List.map_singleton, List.sum_singleton, qtyOn]
      cases f.side with
      | buy => simp
      | sell => simp
    · have other := not_exists.mp fill
      have unfilled := checkEntry_unfilled maxPosition (checked maxPosition log) e other
      rw [unfilled.bought, unfilled.sold, fillsOf_append, fillsOf_other other, List.append_nil]
      exact ⟨bought, sold⟩

end Conservation

section Strays

def limitPrices (side : Side) (log : List AuditEntry) : List Int :=
  log.filterMap fun e => match e.body with
    | .order o => if o.orderType = .limit ∧ o.side = side then some o.price else none
    | _ => none

def highestBid (log : List AuditEntry) : Int := (limitPrices .buy log).foldl max 0

def lowestAsk (log : List AuditEntry) : Int := (limitPrices .sell log).foldl min int64Max

/-- Both sides have been quoted across each other, and the price is off that band. -/
def Stray (before : List AuditEntry) (price : Int) : Prop :=
  (0 < highestBid before ∧ lowestAsk before < int64Max ∧ lowestAsk before ≤ highestBid before) ∧
    (price < lowestAsk before ∨ highestBid before < price)

instance (before : List AuditEntry) (price : Int) : Decidable (Stray before price) :=
  inferInstanceAs (Decidable (_ ∧ _))

def Strays (log : List AuditEntry) : Prop :=
  ∃ i < log.length, ∃ x ∈ fillsOf log[i]?.toList, Stray (log.take i) x.2.fillPrice

instance (log : List AuditEntry) : Decidable (Strays log) :=
  inferInstanceAs (Decidable (∃ i < log.length, ∃ x ∈ _, _))

theorem strays_snoc (log : List AuditEntry) (e : AuditEntry) :
    Strays (log ++ [e]) ↔ Strays log ∨ ∃ x ∈ fillsOf [e], Stray log x.2.fillPrice := by
  have last : (log ++ [e])[log.length]?.toList = [e] := by simp
  rw [Strays, Strays, List.length_append, List.length_singleton, Nat.exists_lt_succ_right, last,
    List.take_left]
  refine or_congr_left (exists_congr fun i => and_congr_right fun within => ?_)
  rw [List.getElem?_append_left within, List.take_append_of_le_length within.le]

variable (maxPosition : Int)

theorem bests_checked (log : List AuditEntry) :
    (checked maxPosition log).bestBid = highestBid log ∧
      (checked maxPosition log).bestAsk = lowestAsk log := by
  induction log using List.reverseRecOn with
  | nil => exact ⟨rfl, rfl⟩
  | append_singleton log e ih =>
    obtain ⟨bid, ask⟩ := ih
    have split : ∀ side,
        limitPrices side (log ++ [e]) = limitPrices side log ++ limitPrices side [e] :=
      fun _ => List.filterMap_append
    rw [checked_snoc, highestBid, lowestAsk, split, split, List.foldl_append, List.foldl_append,
      ← highestBid.eq_1, ← lowestAsk.eq_1, limitPrices, limitPrices, List.filterMap_cons,
      List.filterMap_cons]
    by_cases isOrder : ∃ o, e.body = .order o
    · obtain ⟨o, body⟩ := isOrder
      rw [(checkEntry_order maxPosition _ e body).1, (checkEntry_order maxPosition _ e body).2,
        bid, ask]
      simp only [body]
      constructor <;> split_ifs <;> rfl
    · have other := not_exists.mp isOrder
      rw [(checkEntry_other maxPosition _ e other).1, (checkEntry_other maxPosition _ e other).2,
        bid, ask]
      cases body : e.body with
      | order o => exact absurd body (other o)
      | _ => exact ⟨rfl, rfl⟩

theorem outside_iff (log : List AuditEntry) (price : Int) :
    (checked maxPosition log).Outside price ↔ Stray log price := by
  rw [Outside, (bests_checked maxPosition log).1, (bests_checked maxPosition log).2, Stray]

theorem crossed_clear_iff {log : List AuditEntry}
    (known : ∀ e ∈ log, e.contestantId < valMaxContestants) :
    (checked maxPosition log).report.crossedBookViolations = 0 ↔ ¬ Strays log := by
  induction log using List.reverseRecOn with
  | nil => exact iff_of_true rfl (by decide)
  | append_singleton log e ih =>
    have before := ih (fun e member => known e (List.mem_append_left _ member))
    rw [checked_snoc, strays_snoc, not_or, ← before]
    by_cases fill : ∃ f, e.body = .fill f
    · obtain ⟨f, body⟩ := fill
      rw [(checkEntry_filled maxPosition _ e (known e (by simp)) body).crossed, fillsOf_fill body]
      simp only [outside_iff, List.mem_singleton, exists_eq_left]
      split_ifs with stray
      · exact iff_of_false (by simp) (fun clear => clear.2 stray)
      · exact (and_iff_left stray).symm
    · have other := not_exists.mp fill
      rw [(checkEntry_unfilled maxPosition _ e other).crossed, fillsOf_other other]
      simp

end Strays

section Crossing

variable (maxPosition : Int)

structure Spanned (r : Replay) (v : Validation) : Prop where
  bids : ∀ l ∈ r.resting .buy, l.price ≤ v.bestBid
  asks : ∀ l ∈ r.resting .sell, v.bestAsk ≤ l.price
  trades : ∀ t ∈ r.trades, v.bestAsk ≤ t.price ∧ t.price ≤ v.bestBid

variable {r : Replay} {v : Validation} {e : AuditEntry}

theorem Spanned.cancel (spanned : Spanned r v) (cid : Nat) (c : CancelRequest) :
    Spanned (r.cancel cid c) v :=
  ⟨fun l member => spanned.bids l (List.mem_filter.mp member).1,
    fun l member => spanned.asks l (List.mem_filter.mp member).1, spanned.trades⟩

theorem swept_priced {o : OrderEntry} {m : Lot (Nat × UInt32) Int} (limit : o.orderType = .limit)
    (taken : m ∈ (r.swept o).fills) :
    ¬ beyondLimit o.side o.price m.price ∧ ∃ l ∈ r.resting o.side.contra, m.price = l.price := by
  obtain ⟨accepted, l, member, -, same, -⟩ := sweep_fills_of (Accepts o) _ _ _ m taken
  refine ⟨accepted.resolve_left ?_, l, member, same⟩
  rw [limit]
  decide

theorem order_rests {cid : Nat} {o : OrderEntry} {s : Side} {l : Lot (Nat × UInt32) Int}
    (member : l ∈ (r.order cid o).resting s) :
    (∃ m ∈ r.resting s, l.price = m.price) ∨ s = o.side ∧ l.price = o.price := by
  have kept : ∀ l ∈ update r.resting o.side.contra (r.swept o).rest s,
      ∃ m ∈ r.resting s, l.price = m.price := by
    intro l member
    by_cases contra : s = o.side.contra
    · subst contra
      rw [Function.update_self] at member
      exact sweep_rest_price (Accepts o) _ _ _ (∃ m ∈ r.resting _, · = m.price)
        (fun m listed => ⟨m, listed, rfl⟩) l member
    · rw [Function.update_of_ne contra] at member
      exact ⟨l, member, rfl⟩
  simp only [Replay.order] at member
  split_ifs at member with rests
  · by_cases own : s = o.side
    · subst own
      rw [Function.update_self] at member
      rcases mem_arrive.mp member with rfl | member
      · exact Or.inr ⟨rfl, rfl⟩
      · exact Or.inl (kept l member)
    · rw [Function.update_of_ne own] at member
      exact Or.inl (kept l member)
  · exact Or.inl (kept l member)

theorem Spanned.order (spanned : Spanned r v) (cid : Nat) {o : OrderEntry} {v' : Validation}
    (limit : o.orderType = .limit)
    (bid : v'.bestBid = if o.side = .buy then max v.bestBid o.price else v.bestBid)
    (ask : v'.bestAsk = if o.side = .sell then min v.bestAsk o.price else v.bestAsk) :
    Spanned (r.order cid o) v' := by
  have higher : v.bestBid ≤ v'.bestBid := by
    rw [bid]
    split_ifs
    exacts [le_max_left _ _, le_rfl]
  have lower : v'.bestAsk ≤ v.bestAsk := by
    rw [ask]
    split_ifs
    exacts [min_le_left _ _, le_rfl]
  refine ⟨fun l member => ?_, fun l member => ?_, fun t member => ?_⟩
  · rcases order_rests member with ⟨m, rested, same⟩ | ⟨side, same⟩
    · rw [same]
      exact (spanned.bids m rested).trans higher
    · rw [same, bid, if_pos side.symm]
      exact le_max_right _ _
  · rcases order_rests member with ⟨m, rested, same⟩ | ⟨side, same⟩
    · rw [same]
      exact lower.trans (spanned.asks m rested)
    · rw [same, ask, if_pos side.symm]
      exact min_le_right _ _
  · rcases List.mem_append.mp member with before | new
    · obtain ⟨above, below⟩ := spanned.trades t before
      exact ⟨lower.trans above, below.trans higher⟩
    · obtain ⟨m, taken, rfl⟩ := List.mem_map.mp new
      rw [Trade.price_between]
      obtain ⟨within, l, rested, same⟩ := swept_priced limit taken
      cases side : o.side with
      | buy =>
        rw [side] at within rested
        have bound := spanned.asks l rested
        rw [side, if_pos rfl] at bid
        refine ⟨lower.trans (same ▸ bound), ?_⟩
        rw [bid]
        exact (not_lt.mp within).trans (le_max_right _ _)
      | sell =>
        rw [side] at within rested
        have bound := spanned.bids l rested
        rw [side, if_pos rfl] at ask
        refine ⟨?_, (same ▸ bound).trans higher⟩
        rw [ask]
        exact (min_le_right _ _).trans (not_lt.mp within)

theorem Spanned.entry (spanned : Spanned r v) (limited : Limited e) :
    Spanned (r.entry e) (v.checkEntry maxPosition e) := by
  by_cases isOrder : ∃ o, e.body = .order o
  · obtain ⟨o, body⟩ := isOrder
    rw [Limited, body] at limited
    obtain ⟨bid, ask⟩ := checkEntry_order maxPosition v e body
    simp only [limited, true_and] at bid ask
    rw [Replay.entry, body]
    exact spanned.order e.contestantId limited bid ask
  · obtain ⟨bid, ask⟩ := checkEntry_other maxPosition v e (not_exists.mp isOrder)
    have still : Spanned r (v.checkEntry maxPosition e) :=
      ⟨bid ▸ spanned.bids, ask ▸ spanned.asks, bid ▸ ask ▸ spanned.trades⟩
    rw [Replay.entry]
    cases body : e.body with
    | order o => exact absurd ⟨o, body⟩ isOrder
    | cancel c => exact still.cancel e.contestantId c
    | _ => exact still

theorem spanned_checked {log : List AuditEntry} (limited : ∀ e ∈ log, Limited e) :
    Spanned (replay log) (checked maxPosition log) := by
  induction log using List.reverseRecOn with
  | nil =>
    exact ⟨fun _ member => absurd member List.not_mem_nil,
      fun _ member => absurd member List.not_mem_nil,
      fun _ member => absurd member List.not_mem_nil⟩
  | append_singleton log e ih =>
    rw [checked_snoc, replay_snoc]
    exact (ih (fun e member => limited e (List.mem_append_left _ member))).entry maxPosition
      (limited e (by simp))

theorem fill_traded {p rest : List AuditEntry} {f : Fill} (regular : Regular (p ++ e :: rest))
    (fills : pairs (fillsOf (p ++ e :: rest)) = some (replay (p ++ e :: rest)).trades)
    (body : e.body = .fill f) : ∃ t ∈ (replay p).trades, t.price = f.fillPrice := by
  have split : p ++ e :: rest = (p ++ [e]) ++ rest := by simp
  have place : (fillsOf (p ++ e :: rest))[(fillsOf p).length]? = some (e.contestantId, f) := by
    rw [split, fillsOf_append, fillsOf_append, fillsOf_fill body]
    simp
  obtain ⟨t, here, price⟩ := pairs_price fills place
  have causal := regular.causal (p ++ [e]) ((List.mem_inits _ _).mpr ⟨rest, split.symm⟩)
  have idle : (replay (p ++ [e])).trades = (replay p).trades := by
    rw [replay_snoc, Replay.entry, body]
  rw [fillsOf_append, fillsOf_fill body, List.length_append, List.length_singleton, idle] at causal
  obtain ⟨more, later⟩ := trades_mono p (e :: rest)
  rw [← later, List.getElem?_append_left (by omega)] at here
  exact ⟨t, List.mem_of_getElem? here, price⟩

theorem not_strays {log : List AuditEntry} (regular : Regular log)
    (fills : pairs (fillsOf log) = some (replay log).trades) : ¬ Strays log := by
  rintro ⟨i, inside, x, member, -, off⟩
  have split : log = log.take i ++ log[i] :: log.drop (i + 1) := by simp
  have limited : ∀ e ∈ log.take i, Limited e := fun e member =>
    regular.limits e (List.mem_of_mem_take member)
  rw [List.getElem?_eq_getElem inside, Option.toList_some] at member
  by_cases fill : ∃ f, log[i].body = .fill f
  · obtain ⟨f, body⟩ := fill
    rw [fillsOf_fill body, List.mem_singleton] at member
    subst member
    rw [split] at regular fills
    obtain ⟨t, traded, price⟩ := fill_traded regular fills body
    obtain ⟨above, below⟩ := (spanned_checked valMaxPosition limited).trades t traded
    rw [price, (bests_checked valMaxPosition _).2] at above
    rw [price, (bests_checked valMaxPosition _).1] at below
    exact off.elim (not_lt.mpr above) (not_lt.mpr below)
  · rw [fillsOf_other (not_exists.mp fill)] at member
    cases member

end Crossing

section Soundness

variable {records : List AuditEntry} {maxPosition : Int}

/-- The faults the checker reports: falling numbers, a position beyond the limit, and more bought
than sold or the other way round. -/
def Detected (log : List AuditEntry) (maxPosition : Int) : Prop :=
  ¬ Rising log ∨ ¬ WordLimits maxPosition (fun _ => 0) log ∨ ¬ Balanced log

/-- The faults it has no check for: an entry without a number, a position that came back into its
word, fills that are not the trades of the book, and a contestant trading with themselves. -/
def Unseen (log : List AuditEntry) (maxPosition : Int) : Prop :=
  (∃ e ∈ log.tail, e.sequenceNo = 0) ∨ ¬ LimitsKept maxPosition (fun _ => 0) log ∨
    pairs (fillsOf log) ≠ some (replay log).trades ∨
    ∃ t ∈ (replay log).trades, t.buyer.1 = t.seller.1

instance (log : List AuditEntry) (maxPosition : Int) : Decidable (Detected log maxPosition) :=
  inferInstanceAs (Decidable (_ ∨ _))

instance (log : List AuditEntry) (maxPosition : Int) : Decidable (Unseen log maxPosition) :=
  inferInstanceAs (Decidable (_ ∨ _))

theorem no_violations_iff_not_detected (sane : ∀ e ∈ readEntries records, Sane e) :
    (validate records maxPosition).totalViolations = 0 ↔
      ¬ Detected (readEntries records) maxPosition ∧ ¬ Strays (readEntries records) := by
  have known : ∀ e ∈ readEntries records, e.contestantId < valMaxContestants :=
    fun e member => (sane e member).1
  obtain ⟨bought, sold⟩ := totals_checked maxPosition known
  rw [no_violations_iff, sequence_clear_iff_rising, checked, limits_clear_iff _ _ known, ← checked,
    crossed_clear_iff maxPosition known, bought, sold, ← Balanced, Detected]
  simp only [start, CorrectnessReport.zero, true_and]
  tauto

theorem clean_iff (sane : ∀ e ∈ readEntries records, Sane e) (word : IsInt32 maxPosition)
    (words : ∀ x ∈ fillsOf (readEntries records), IsInt32 x.2.fillQty) :
    Clean (readEntries records) maxPosition ↔
      ¬ Detected (readEntries records) maxPosition ∧ ¬ Unseen (readEntries records) maxPosition := by
  have positive : ∀ x ∈ fillsOf (readEntries records), 0 < x.2.fillQty := by
    intro x member
    obtain ⟨e, entry, same⟩ := List.mem_filterMap.mp member
    have priced := (sane e entry).2
    cases body : e.body with
    | fill f =>
      rw [body] at same priced
      cases same
      exact priced.2
    | _ =>
      rw [body] at same
      cases same
  have limits : LimitsKept maxPosition (fun _ => 0) (readEntries records) →
      WordLimits maxPosition (fun _ => 0) (readEntries records) :=
    wordLimits_of_limitsKept word fun x member => ⟨positive x member, words x member⟩
  have balanced : pairs (fillsOf (readEntries records)) = some (replay (readEntries records)).trades →
      Balanced (readEntries records) := fun fills => congrArg wrap64 (pairs_conserve fills)
  have upwards := upwards_iff (readEntries records)
  constructor
  · intro clean
    obtain ⟨rising, numbered⟩ := upwards.mp clean.sequence
    refine ⟨?_, ?_⟩
    · rintro (falling | beyond | uneven)
      · exact falling rising
      · exact beyond (limits clean.limits)
      · exact uneven (balanced clean.fills)
    · rintro (⟨e, member, zero⟩ | beyond | others | ⟨t, member, same⟩)
      · exact numbered e member zero
      · exact beyond clean.limits
      · exact others clean.fills
      · exact clean.apart t member same
  · rintro ⟨detected, unseen⟩
    rw [Detected, not_or, not_not] at detected
    simp only [Unseen, not_or, not_not, not_exists, not_and] at unseen
    obtain ⟨numbered, kept, fills, apart⟩ := unseen
    exact ⟨upwards.mpr ⟨detected.1, numbered⟩, fills, apart, kept⟩

/-- The verdict on a log is right exactly where a fault is reported, or where a fill strays from
the quoted band just when there is a fault the checker does not see. -/
theorem verdict_right_iff (records : List AuditEntry) (maxPosition : Int)
    (sane : ∀ e ∈ readEntries records, Sane e) (word : IsInt32 maxPosition)
    (words : ∀ x ∈ fillsOf (readEntries records), IsInt32 x.2.fillQty) :
    (((validate records maxPosition).totalViolations = 0 ↔
          Clean (readEntries records) maxPosition) ↔
        (Detected (readEntries records) maxPosition ∨
          (Strays (readEntries records) ↔ Unseen (readEntries records) maxPosition))) ∧
      (Regular (readEntries records) →
        pairs (fillsOf (readEntries records)) = some (replay (readEntries records)).trades →
          ¬ Strays (readEntries records)) := by
  constructor
  · rw [no_violations_iff_not_detected sane, clean_iff sane word words]
    by_cases detected : Detected (readEntries records) maxPosition
    · exact iff_of_true (iff_of_false (fun none => none.1 detected) (fun clean => clean.1 detected))
        (Or.inl detected)
    · rw [and_iff_right detected, and_iff_right detected, not_iff_not, or_iff_right detected]
  · exact not_strays

def orderEntry (n cid : Nat) (side : Side) (orderType : WireProtocol.OrderType) (price : Int) : AuditEntry :=
  ⟨cid, n, .order ⟨side, orderType, UInt32.ofNat n, price, 5⟩⟩

def fillEntry (n cid : Nat) (side : Side) (orderId : UInt32) (price : Int) : AuditEntry :=
  ⟨cid, n, .fill ⟨side, orderId, 0, price, 5, 0, 0, 0⟩⟩

def tradedLog : List AuditEntry :=
  [orderEntry 1 1 .sell .limit 100, orderEntry 2 2 .buy .limit 100, fillEntry 3 2 .buy 2 100,
    fillEntry 4 1 .sell 1 100, ⟨0, 0, .unwritten⟩]

def phantomLog : List AuditEntry := [fillEntry 1 1 .buy 1 100, fillEntry 2 2 .sell 2 100]

def takenLog : List AuditEntry :=
  [orderEntry 1 1 .sell .limit 100, orderEntry 2 2 .buy .limit 100, fillEntry 3 2 .buy 2 100,
    fillEntry 4 1 .sell 1 100, orderEntry 5 1 .sell .limit 110, orderEntry 6 2 .buy .ioc 110,
    fillEntry 7 2 .buy 6 110, fillEntry 8 1 .sell 5 110]

def iocLog : List AuditEntry :=
  [orderEntry 1 1 .sell .limit 100, orderEntry 2 2 .buy .ioc 100, fillEntry 3 2 .buy 2 100,
    fillEntry 4 1 .sell 1 100]

def loneFillLog : List AuditEntry := [fillEntry 1 1 .buy 1 100]

theorem verdict_right_iff_sample :
    (∀ log ∈ [tradedLog, iocLog, loneFillLog],
        ((validate log valMaxPosition).totalViolations = 0 ↔
          Clean (readEntries log) valMaxPosition)) ∧
      ∀ log ∈ [phantomLog, takenLog],
        ¬ ((validate log valMaxPosition).totalViolations = 0 ↔
          Clean (readEntries log) valMaxPosition) := by
  have exact_at : ∀ log ∈ [tradedLog, iocLog, loneFillLog, phantomLog, takenLog],
      ((validate log valMaxPosition).totalViolations = 0 ↔
          Clean (readEntries log) valMaxPosition) ↔
        (Detected (readEntries log) valMaxPosition ∨
          (Strays (readEntries log) ↔ Unseen (readEntries log) valMaxPosition)) := by
    intro log member
    have inputs : (∀ e ∈ readEntries log, Sane e) ∧
        ∀ x ∈ fillsOf (readEntries log), IsInt32 x.2.fillQty := by
      revert log
      decide
    exact (verdict_right_iff log valMaxPosition inputs.1 (by decide) inputs.2).1
  constructor
  · intro log member
    refine (exact_at log ?_).mpr ?_
    · revert log
      decide
    · revert log
      decide
  · intro log member
    refine mt (exact_at log ?_).mp ?_
    · revert log
      decide
    · revert log
      decide

theorem phantom_passes_and_clean_fails :
    ((∀ e ∈ readEntries phantomLog, Sane e) ∧
        (validate phantomLog valMaxPosition).totalViolations = 0 ∧
        ¬ Clean (readEntries phantomLog) valMaxPosition) ∧
      (∀ e ∈ readEntries takenLog, Sane e) ∧ Clean (readEntries takenLog) valMaxPosition ∧
        (validate takenLog valMaxPosition).totalViolations = 2 := by
  refine ⟨⟨by decide, by decide, fun clean => ?_⟩, by decide,
    ⟨by decide, by decide, by decide, by decide⟩, by decide⟩
  exact absurd clean.fills (by decide)

end Soundness

end HftGrading.Exchange.Audit.AuditVerdict
