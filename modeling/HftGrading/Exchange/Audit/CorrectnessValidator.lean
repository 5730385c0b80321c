/- module: HftGrading/Exchange/Audit/CorrectnessValidator
   source: exchange/include/exchange/correctness_validator.hpp, exchange/include/exchange/audit_log.hpp
   digest: The audit log and the checker that replays it, counter by counter. -/

import HftGrading.Exchange.WireProtocol
import Mathlib.Algebra.Order.Group.Unbundled.Int

set_option autoImplicit false
set_option relaxedAutoImplicit false

namespace HftGrading.Exchange.Audit.CorrectnessValidator

open Function (update)
open WireProtocol

/-- The type byte of an entry with the payload it selects: 0 marks a record that was never written,
`other` are the types the checker passes over. The time stamp, which it does not read, is left out. -/
inductive AuditBody
  | unwritten
  | order (order : OrderEntry)
  | cancel (cancel : CancelRequest)
  | fill (fill : Fill)
  | ack (ack : OrderAck)
  | other
  deriving DecidableEq, Repr

structure AuditEntry where
  contestantId : Nat
  sequenceNo : Nat
  body : AuditBody
  deriving DecidableEq, Repr

/-- What `read_next` hands out: the records up to the first that was never written. -/
def readEntries (records : List AuditEntry) : List AuditEntry :=
  records.takeWhile fun entry => entry.body ≠ .unwritten

structure CorrectnessReport where
  totalEvents : Nat
  totalOrders : Nat
  totalCancels : Nat
  totalFills : Nat
  totalAcks : Nat
  crossedBookViolations : Nat
  priorityViolations : Nat
  fillIntegrityErrors : Nat
  conservationErrors : Nat
  positionLimitBreaches : Nat
  selfTradeViolations : Nat
  sequenceErrors : Nat
  phantomFills : Nat
  deriving DecidableEq, Repr

def CorrectnessReport.zero : CorrectnessReport := ⟨0, 0, 0, 0, 0, 0, 0, 0, 0, 0, 0, 0, 0⟩

def CorrectnessReport.totalViolations (r : CorrectnessReport) : Nat :=
  r.crossedBookViolations + r.priorityViolations + r.fillIntegrityErrors + r.conservationErrors +
    r.positionLimitBreaches + r.selfTradeViolations + r.sequenceErrors + r.phantomFills

def valMaxContestants : Nat := 64

def valMaxPosition : Int := 100

/-- The locals of `validate`. -/
structure Validation where
  report : CorrectnessReport
  positions : Nat → Int
  totalBuyQty : Int
  totalSellQty : Int
  lastSeq : Nat
  bestBid : Int
  bestAsk : Int

namespace Validation

def start : Validation := ⟨.zero, fun _ => 0, 0, 0, 0, 0, int64Max⟩

def checkSequence (v : Validation) (sequenceNo : Nat) : Validation :=
  if sequenceNo > 0 then
    { v with
      report := if sequenceNo ≤ v.lastSeq then
          { v.report with sequenceErrors := v.report.sequenceErrors + 1 }
        else v.report
      lastSeq := sequenceNo }
  else v

def seeOrder (v : Validation) (o : OrderEntry) : Validation :=
  if o.orderType = .limit then
    if o.side = .buy ∧ o.price > v.bestBid then { v with bestBid := o.price }
    else if o.side = .sell ∧ o.price < v.bestAsk then { v with bestAsk := o.price }
    else v
  else v

def signedFill (f : Fill) : Int := if f.side = .buy then f.fillQty else wrap32 (-f.fillQty)

def absPosition (p : Int) : Int := if p ≥ 0 then p else wrap32 (-p)

def checkPosition (maxPosition : Int) (v : Validation) (cid : Nat) (f : Fill) : Validation :=
  if cid < valMaxContestants then
    { v with
      positions := update v.positions cid (wrap32 (v.positions cid + signedFill f))
      report := if absPosition (wrap32 (v.positions cid + signedFill f)) > maxPosition then
          { v.report with positionLimitBreaches := v.report.positionLimitBreaches + 1 }
        else v.report }
  else v

def addQty (v : Validation) (f : Fill) : Validation :=
  if f.side = .buy then { v with totalBuyQty := wrap64 (v.totalBuyQty + f.fillQty) }
  else { v with totalSellQty := wrap64 (v.totalSellQty + f.fillQty) }

def Outside (v : Validation) (price : Int) : Prop :=
  (v.bestBid > 0 ∧ v.bestAsk < int64Max ∧ v.bestBid ≥ v.bestAsk) ∧
    (price < v.bestAsk ∨ price > v.bestBid)

instance (v : Validation) (price : Int) : Decidable (v.Outside price) :=
  inferInstanceAs (Decidable (_ ∧ _))

def checkCrossed (v : Validation) (f : Fill) : Validation :=
  if v.Outside f.fillPrice then
    { v with report :=
      { v.report with crossedBookViolations := v.report.crossedBookViolations + 1 } }
  else v

def checkBody (maxPosition : Int) (v : Validation) (entry : AuditEntry) : Validation :=
  match entry.body with
  | .order o => { v with report := { v.report with totalOrders := v.report.totalOrders + 1 } }.seeOrder o
  | .cancel _ => { v with report := { v.report with totalCancels := v.report.totalCancels + 1 } }
  | .fill f =>
    (({ v with report := { v.report with totalFills := v.report.totalFills + 1 } }.checkPosition
      maxPosition entry.contestantId f).addQty f).checkCrossed f
  | .ack _ => { v with report := { v.report with totalAcks := v.report.totalAcks + 1 } }
  | _ => v

def countEntry (v : Validation) (entry : AuditEntry) : Validation :=
  { v with report := { v.report with totalEvents := v.report.totalEvents + 1 } }.checkSequence
    entry.sequenceNo

def checkEntry (maxPosition : Int) (v : Validation) (entry : AuditEntry) : Validation :=
  (v.countEntry entry).checkBody maxPosition entry

def finish (v : Validation) : CorrectnessReport :=
  if v.totalBuyQty ≠ v.totalSellQty then
    { v.report with conservationErrors := v.report.conservationErrors + 1 }
  else v.report

end Validation

def validate (records : List AuditEntry) (maxPosition : Int) : CorrectnessReport :=
  ((readEntries records).foldl (Validation.checkEntry maxPosition) .start).finish

namespace Validation

section Rounds

variable (maxPosition : Int) (v : Validation) (entry : AuditEntry)

def sequenceError : Nat := if entry.sequenceNo > 0 ∧ entry.sequenceNo ≤ v.lastSeq then 1 else 0

def idleErrors (r : CorrectnessReport) : Nat :=
  r.priorityViolations + r.fillIntegrityErrors + r.conservationErrors + r.selfTradeViolations +
    r.phantomFills

structure Unfilled (v v' : Validation) : Prop where
  breaches : v'.report.positionLimitBreaches = v.report.positionLimitBreaches
  positions : v'.positions = v.positions
  crossed : v'.report.crossedBookViolations = v.report.crossedBookViolations
  bought : v'.totalBuyQty = v.totalBuyQty
  sold : v'.totalSellQty = v.totalSellQty

theorem countEntry_numbered :
    (v.countEntry entry).report.sequenceErrors = v.report.sequenceErrors + v.sequenceError entry ∧
      (v.countEntry entry).lastSeq = (if entry.sequenceNo > 0 then entry.sequenceNo else v.lastSeq) ∧
      idleErrors (v.countEntry entry).report = idleErrors v.report := by
  simp only [countEntry, checkSequence, sequenceError]
  split_ifs with numbered late both both both
  · exact ⟨rfl, rfl, rfl⟩
  · exact absurd ⟨numbered, late⟩ both
  · exact absurd both.2 late
  · exact ⟨rfl, rfl, rfl⟩
  · exact absurd both.1 numbered
  · exact ⟨rfl, rfl, rfl⟩

theorem countEntry_unfilled : Unfilled v (v.countEntry entry) ∧
    (v.countEntry entry).bestBid = v.bestBid ∧ (v.countEntry entry).bestAsk = v.bestAsk := by
  rw [countEntry, checkSequence]
  split_ifs
  · exact ⟨⟨rfl, rfl, rfl, rfl, rfl⟩, rfl, rfl⟩
  · exact ⟨⟨rfl, rfl, rfl, rfl, rfl⟩, rfl, rfl⟩
  · exact ⟨⟨rfl, rfl, rfl, rfl, rfl⟩, rfl, rfl⟩

theorem checkBody_numbered : (v.checkBody maxPosition entry).report.sequenceErrors =
      v.report.sequenceErrors ∧ (v.checkBody maxPosition entry).lastSeq = v.lastSeq ∧
      idleErrors (v.checkBody maxPosition entry).report = idleErrors v.report := by
  rw [checkBody]
  cases entry.body with
  | order o =>
    simp only [seeOrder]
    split_ifs <;> exact ⟨rfl, rfl, rfl⟩
  | fill f =>
    simp only [checkCrossed, addQty, checkPosition]
    split_ifs <;> exact ⟨rfl, rfl, rfl⟩
  | _ => exact ⟨rfl, rfl, rfl⟩

theorem checkBody_unfilled (other : ∀ f, entry.body ≠ .fill f) :
    Unfilled v (v.checkBody maxPosition entry) := by
  rw [checkBody]
  cases body : entry.body with
  | order o =>
    simp only [seeOrder]
    split_ifs <;> exact ⟨rfl, rfl, rfl, rfl, rfl⟩
  | fill f => exact absurd body (other f)
  | _ => exact ⟨rfl, rfl, rfl, rfl, rfl⟩

def positionAfter (f : Fill) : Int := wrap32 (v.positions entry.contestantId + signedFill f)

structure Filled (f : Fill) (v' : Validation) : Prop where
  breaches : v'.report.positionLimitBreaches = v.report.positionLimitBreaches +
    if absPosition (v.positionAfter entry f) > maxPosition then 1 else 0
  positions : v'.positions = update v.positions entry.contestantId (v.positionAfter entry f)
  crossed : v'.report.crossedBookViolations = v.report.crossedBookViolations +
    if v.Outside f.fillPrice then 1 else 0
  bought : v'.totalBuyQty =
    if f.side = .buy then wrap64 (v.totalBuyQty + f.fillQty) else v.totalBuyQty
  sold : v'.totalSellQty =
    if f.side = .buy then v.totalSellQty else wrap64 (v.totalSellQty + f.fillQty)

theorem checkPosition_eq (known : entry.contestantId < valMaxContestants) (f : Fill) :
    v.checkPosition maxPosition entry.contestantId f =
      { v with
        positions := update v.positions entry.contestantId (v.positionAfter entry f)
        report :=
          { v.report with
            positionLimitBreaches := v.report.positionLimitBreaches +
              if absPosition (v.positionAfter entry f) > maxPosition then 1 else 0 } } := by
  rw [checkPosition, if_pos known, positionAfter]
  split_ifs
  · rfl
  · rfl

theorem addQty_eq (f : Fill) :
    v.addQty f =
      { v with
        totalBuyQty := if f.side = .buy then wrap64 (v.totalBuyQty + f.fillQty) else v.totalBuyQty
        totalSellQty := if f.side = .buy then v.totalSellQty
          else wrap64 (v.totalSellQty + f.fillQty) } := by
  rw [addQty]
  split_ifs
  · rfl
  · rfl

theorem checkCrossed_eq (f : Fill) :
    v.checkCrossed f =
      { v with
        report :=
          { v.report with
            crossedBookViolations := v.report.crossedBookViolations +
              if v.Outside f.fillPrice then 1 else 0 } } := by
  rw [checkCrossed]
  split_ifs
  · rfl
  · rfl

theorem checkBody_filled (known : entry.contestantId < valMaxContestants) {f : Fill}
    (body : entry.body = .fill f) : Filled maxPosition v entry f (v.checkBody maxPosition entry) := by
  rw [checkBody, body]
  simp only
  rw [checkPosition_eq maxPosition _ entry known, addQty_eq, checkCrossed_eq]
  exact ⟨rfl, rfl, rfl, rfl, rfl⟩

theorem seeOrder_bests (o : OrderEntry) :
    (v.seeOrder o).bestBid =
        (if o.orderType = .limit ∧ o.side = .buy then max v.bestBid o.price else v.bestBid) ∧
      (v.seeOrder o).bestAsk =
        if o.orderType = .limit ∧ o.side = .sell then min v.bestAsk o.price else v.bestAsk := by
  rw [seeOrder]
  by_cases limit : o.orderType = .limit
  · cases side : o.side with
    | buy =>
      by_cases higher : o.price > v.bestBid
      · simp [limit, higher, max_eq_right higher.le]
      · simp [limit, higher, max_eq_left (not_lt.mp higher)]
    | sell =>
      by_cases lower : o.price < v.bestAsk
      · simp [limit, lower, min_eq_right lower.le]
      · simp [limit, lower, min_eq_left (not_lt.mp lower)]
  · simp [limit]

theorem checkBody_order {o : OrderEntry} (body : entry.body = .order o) :
    (v.checkBody maxPosition entry).bestBid = (v.seeOrder o).bestBid ∧
      (v.checkBody maxPosition entry).bestAsk = (v.seeOrder o).bestAsk := by
  rw [checkBody, body]
  simp only [seeOrder]
  split_ifs <;> exact ⟨rfl, rfl⟩

theorem checkBody_other (other : ∀ o, entry.body ≠ .order o) :
    (v.checkBody maxPosition entry).bestBid = v.bestBid ∧
      (v.checkBody maxPosition entry).bestAsk = v.bestAsk := by
  rw [checkBody]
  cases body : entry.body with
  | order o => exact absurd body (other o)
  | fill f =>
    simp only [checkCrossed, addQty, checkPosition]
    split_ifs <;> exact ⟨rfl, rfl⟩
  | _ => exact ⟨rfl, rfl⟩

theorem checkEntry_numbered :
    (v.checkEntry maxPosition entry).report.sequenceErrors =
        v.report.sequenceErrors + v.sequenceError entry ∧
      (v.checkEntry maxPosition entry).lastSeq =
        (if entry.sequenceNo > 0 then entry.sequenceNo else v.lastSeq) ∧
      idleErrors (v.checkEntry maxPosition entry).report = idleErrors v.report := by
  obtain ⟨errors, last, idle⟩ := checkBody_numbered maxPosition (v.countEntry entry) entry
  rw [checkEntry, errors, last, idle]
  exact countEntry_numbered v entry

theorem checkEntry_unfilled (other : ∀ f, entry.body ≠ .fill f) :
    Unfilled v (v.checkEntry maxPosition entry) := by
  obtain ⟨before, -⟩ := countEntry_unfilled v entry
  have after := checkBody_unfilled maxPosition (v.countEntry entry) entry other
  exact ⟨after.breaches.trans before.breaches, after.positions.trans before.positions,
    after.crossed.trans before.crossed, after.bought.trans before.bought,
    after.sold.trans before.sold⟩

theorem checkEntry_filled (known : entry.contestantId < valMaxContestants) {f : Fill}
    (body : entry.body = .fill f) : Filled maxPosition v entry f (v.checkEntry maxPosition entry) := by
  obtain ⟨before, bid, ask⟩ := countEntry_unfilled v entry
  have after := checkBody_filled maxPosition (v.countEntry entry) entry known body
  have position : (v.countEntry entry).positionAfter entry f = v.positionAfter entry f := by
    rw [positionAfter, positionAfter, before.positions]
  have outside : (v.countEntry entry).Outside f.fillPrice ↔ v.Outside f.fillPrice := by
    rw [Outside, Outside, bid, ask]
  refine ⟨?_, ?_, ?_, ?_, ?_⟩
  · rw [checkEntry, after.breaches, position, before.breaches]
  · rw [checkEntry, after.positions, position, before.positions]
  · rw [checkEntry, after.crossed, before.crossed]
    simp only [outside]
  · rw [checkEntry, after.bought, before.bought]
  · rw [checkEntry, after.sold, before.sold]

theorem checkEntry_order {o : OrderEntry} (body : entry.body = .order o) :
    (v.checkEntry maxPosition entry).bestBid =
        (if o.orderType = .limit ∧ o.side = .buy then max v.bestBid o.price else v.bestBid) ∧
      (v.checkEntry maxPosition entry).bestAsk =
        if o.orderType = .limit ∧ o.side = .sell then min v.bestAsk o.price else v.bestAsk := by
  obtain ⟨-, bid, ask⟩ := countEntry_unfilled v entry
  obtain ⟨bid', ask'⟩ := checkBody_order maxPosition (v.countEntry entry) entry body
  obtain ⟨bid'', ask''⟩ := seeOrder_bests (v.countEntry entry) o
  rw [checkEntry, bid', ask', bid'', ask'', bid, ask]
  exact ⟨rfl, rfl⟩

theorem checkEntry_other (other : ∀ o, entry.body ≠ .order o) :
    (v.checkEntry maxPosition entry).bestBid = v.bestBid ∧
      (v.checkEntry maxPosition entry).bestAsk = v.bestAsk := by
  obtain ⟨-, bid, ask⟩ := countEntry_unfilled v entry
  obtain ⟨bid', ask'⟩ := checkBody_other maxPosition (v.countEntry entry) entry other
  exact ⟨bid'.trans bid, ask'.trans ask⟩

end Rounds

end Validation

end HftGrading.Exchange.Audit.CorrectnessValidator
