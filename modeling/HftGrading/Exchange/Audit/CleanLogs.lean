/- module: HftGrading/Exchange/Audit/CleanLogs
   source: exchange/include/exchange/correctness_validator.hpp
   digest: Audit logs that a textbook book would have written. -/

import HftGrading.Exchange.Audit.CorrectnessValidator
import HftGrading.Exchange.Shadow.ShadowReference

set_option autoImplicit false
set_option relaxedAutoImplicit false

namespace HftGrading.Exchange.Audit.CleanLogs

open Function (update)
open Lib.PriceTimePriority WireProtocol
open Book.LevelSearch (rank)
open Shadow.ShadowReference.Textbook (Accepts)
open CorrectnessValidator

structure Trade where
  buyer : Nat × UInt32
  seller : Nat × UInt32
  price : Int
  qty : Int
  deriving DecidableEq, Repr

def Trade.between (side : Side) (taker : Nat × UInt32) (maker : Lot (Nat × UInt32) Int) : Trade :=
  match side with
  | .buy => ⟨taker, maker.ref, maker.price, maker.qty⟩
  | .sell => ⟨maker.ref, taker, maker.price, maker.qty⟩

theorem Trade.price_between (side : Side) (taker : Nat × UInt32) (maker : Lot (Nat × UInt32) Int) :
    (Trade.between side taker maker).price = maker.price := by
  cases side <;> rfl

structure Replay where
  resting : Side → List (Lot (Nat × UInt32) Int)
  trades : List Trade

namespace Replay

def init : Replay := ⟨fun _ => [], []⟩

def swept (r : Replay) (o : OrderEntry) : Swept (Nat × UInt32) Int :=
  sweep (Accepts o) (r.resting o.side.contra).length o.quantity (r.resting o.side.contra)

def order (r : Replay) (cid : Nat) (o : OrderEntry) : Replay where
  resting :=
    let after := update r.resting o.side.contra (r.swept o).rest
    if 0 < (r.swept o).left ∧ o.orderType = .limit then
      update after o.side (arrive (fun l => rank o.side l.price)
        ⟨(cid, o.clientOrderId), o.price, (r.swept o).left⟩ (after o.side))
    else after
  trades := r.trades ++ (r.swept o).fills.map (Trade.between o.side (cid, o.clientOrderId))

def cancel (r : Replay) (cid : Nat) (c : CancelRequest) : Replay :=
  { r with resting := fun s => (r.resting s).filter (fun l => l.ref ≠ (cid, c.clientOrderId)) }

def entry (r : Replay) (e : AuditEntry) : Replay :=
  match e.body with
  | .order o => r.order e.contestantId o
  | .cancel c => r.cancel e.contestantId c
  | _ => r

end Replay

def replay (log : List AuditEntry) : Replay := log.foldl Replay.entry Replay.init

theorem replay_snoc (log : List AuditEntry) (e : AuditEntry) :
    replay (log ++ [e]) = (replay log).entry e := by
  rw [replay, List.foldl_append]
  rfl

theorem trades_entry (r : Replay) (e : AuditEntry) : r.trades <+: (r.entry e).trades := by
  rw [Replay.entry]
  cases e.body with
  | order o => exact List.prefix_append _ _
  | _ => exact List.prefix_rfl

theorem trades_mono (log more : List AuditEntry) :
    (replay log).trades <+: (replay (log ++ more)).trades := by
  induction more using List.reverseRecOn with
  | nil => rw [List.append_nil]
  | append_singleton more e ih =>
    rw [← List.append_assoc, replay_snoc]
    exact ih.trans (trades_entry _ e)

def fillsOf (log : List AuditEntry) : List (Nat × Fill) :=
  log.filterMap fun e => match e.body with
    | .fill f => some (e.contestantId, f)
    | _ => none

def pairUp (a b : Nat × Fill) : Option Trade :=
  if a.2.fillPrice = b.2.fillPrice ∧ a.2.fillQty = b.2.fillQty then
    match a.2.side, b.2.side with
    | .buy, .sell =>
      some ⟨(a.1, a.2.clientOrderId), (b.1, b.2.clientOrderId), a.2.fillPrice, a.2.fillQty⟩
    | .sell, .buy =>
      some ⟨(b.1, b.2.clientOrderId), (a.1, a.2.clientOrderId), a.2.fillPrice, a.2.fillQty⟩
    | _, _ => none
  else none

def pairs : List (Nat × Fill) → Option (List Trade)
  | [] => some []
  | [_] => none
  | a :: b :: rest => (pairUp a b).bind fun t => (pairs rest).map fun ts => t :: ts

def signedQty (f : Fill) : Int := if f.side = .buy then f.fillQty else -f.fillQty

/-- No fill takes a contestant's position, as `step` and `size` reckon it, beyond the limit. -/
def Within (step : Int → Fill → Int) (size : Int → Int) (maxPosition : Int) :
    (Nat → Int) → List AuditEntry → Prop
  | _, [] => True
  | position, e :: log =>
    match e.body with
    | .fill f => size (step (position e.contestantId) f) ≤ maxPosition ∧
        Within step size maxPosition
          (update position e.contestantId (step (position e.contestantId) f)) log
    | _ => Within step size maxPosition position log

instance decidableWithin (step : Int → Fill → Int) (size : Int → Int) (maxPosition : Int) :
    (position : Nat → Int) → (log : List AuditEntry) →
      Decidable (Within step size maxPosition position log)
  | _, [] => inferInstanceAs (Decidable True)
  | position, e :: log => by
      rw [Within]
      cases e.body with
      | fill f =>
        have := decidableWithin step size maxPosition
          (update position e.contestantId (step (position e.contestantId) f)) log
        infer_instance
      | _ => exact decidableWithin step size maxPosition position log

abbrev LimitsKept (maxPosition : Int) : (Nat → Int) → List AuditEntry → Prop :=
  Within (fun p f => p + signedQty f) (fun p => |p|) maxPosition

/-- The log of a correct session: numbered upwards, its fills the trades of the textbook book in
pairs of a buy and a sell, nobody trading with themselves, everybody within the position limit. -/
structure Clean (log : List AuditEntry) (maxPosition : Int) : Prop where
  sequence : (log.map AuditEntry.sequenceNo).Pairwise (· < ·)
  fills : pairs (fillsOf log) = some (replay log).trades
  apart : ∀ t ∈ (replay log).trades, t.buyer.1 ≠ t.seller.1
  limits : LimitsKept maxPosition (fun _ => 0) log

/-- Positive prices and quantities, and contestants the checker has a place for. -/
def Sane (e : AuditEntry) : Prop :=
  e.contestantId < valMaxContestants ∧ match e.body with
    | .order o => 0 < o.price ∧ 0 < o.quantity
    | .fill f => 0 < f.fillPrice ∧ 0 < f.fillQty
    | _ => True

instance (e : AuditEntry) : Decidable (Sane e) := by
  rw [Sane]
  cases e.body <;> infer_instance

def Limited (e : AuditEntry) : Prop :=
  match e.body with
  | .order o => o.orderType = .limit
  | _ => True

instance (e : AuditEntry) : Decidable (Limited e) := by
  rw [Limited]
  cases e.body <;> infer_instance

/-- Every order is a limit order, and fills are logged behind the orders that make them. -/
structure Regular (log : List AuditEntry) : Prop where
  limits : ∀ e ∈ log, Limited e
  causal : ∀ p ∈ log.inits, (fillsOf p).length ≤ 2 * (replay p).trades.length

section Entries

variable {step : Int → Fill → Int} {size : Int → Int} {maxPosition : Int} {position : Nat → Int}
  {e : AuditEntry} {log : List AuditEntry}

theorem within_fill {f : Fill} (body : e.body = .fill f) :
    Within step size maxPosition position (e :: log) ↔
      size (step (position e.contestantId) f) ≤ maxPosition ∧ Within step size maxPosition
        (update position e.contestantId (step (position e.contestantId) f)) log := by
  rw [Within, body]

theorem within_other (other : ∀ f, e.body ≠ .fill f) :
    Within step size maxPosition position (e :: log) ↔
      Within step size maxPosition position log := by
  rw [Within]
  cases body : e.body with
  | fill f => exact absurd body (other f)
  | _ => exact Iff.rfl

theorem fillsOf_append (log more : List AuditEntry) :
    fillsOf (log ++ more) = fillsOf log ++ fillsOf more := List.filterMap_append

theorem fillsOf_fill {f : Fill} (body : e.body = .fill f) : fillsOf [e] = [(e.contestantId, f)] := by
  rw [fillsOf, List.filterMap_cons, body]
  rfl

theorem fillsOf_other (other : ∀ f, e.body ≠ .fill f) : fillsOf [e] = [] := by
  rw [fillsOf, List.filterMap_cons]
  cases body : e.body with
  | fill f => exact absurd body (other f)
  | _ => rfl

end Entries

theorem pairUp_eq {a b : Nat × Fill} {t : Trade} (paired : pairUp a b = some t) :
    t.price = a.2.fillPrice ∧ t.price = b.2.fillPrice ∧ a.2.fillQty = b.2.fillQty ∧
      (a.2.side = .buy ↔ b.2.side = .sell) := by
  rw [pairUp] at paired
  split_ifs at paired with same
  obtain ⟨price, qty⟩ := same
  cases left : a.2.side <;> cases right : b.2.side <;> rw [left, right] at paired <;> cases paired
  · exact ⟨rfl, price, qty, iff_of_true rfl rfl⟩
  · exact ⟨rfl, price, qty, iff_of_false (by decide) (by decide)⟩

theorem pairs_cons {a b : Nat × Fill} {rest : List (Nat × Fill)} {ts : List Trade}
    (paired : pairs (a :: b :: rest) = some ts) :
    ∃ t later, pairUp a b = some t ∧ pairs rest = some later ∧ ts = t :: later := by
  obtain ⟨t, up, behind⟩ := Option.bind_eq_some_iff.mp paired
  obtain ⟨later, rests, rfl⟩ := Option.map_eq_some_iff.mp behind
  exact ⟨t, later, up, rests, rfl⟩

theorem pairs_price {fs : List (Nat × Fill)} {ts : List Trade} (paired : pairs fs = some ts)
    {i : Nat} {x : Nat × Fill} (here : fs[i]? = some x) :
    ∃ t, ts[i / 2]? = some t ∧ t.price = x.2.fillPrice := by
  induction fs using pairs.induct generalizing ts i with
  | case1 => cases here
  | case2 => cases paired
  | case3 a b rest ih =>
    obtain ⟨t, later, up, rests, rfl⟩ := pairs_cons paired
    obtain ⟨first, second, -, -⟩ := pairUp_eq up
    match i with
    | 0 =>
      cases here
      exact ⟨t, rfl, first⟩
    | 1 =>
      cases here
      exact ⟨t, rfl, second⟩
    | i + 2 =>
      rw [Nat.add_div_right i (by decide)]
      exact ih rests here

def qtyOn (side : Side) (x : Nat × Fill) : Int := if x.2.side = side then x.2.fillQty else 0

theorem pairs_conserve {fs : List (Nat × Fill)} {ts : List Trade} (paired : pairs fs = some ts) :
    (fs.map (qtyOn .buy)).sum = (fs.map (qtyOn .sell)).sum := by
  induction fs using pairs.induct generalizing ts with
  | case1 => rfl
  | case2 => cases paired
  | case3 a b rest ih =>
    obtain ⟨t, later, up, rests, rfl⟩ := pairs_cons paired
    obtain ⟨-, -, qty, sides⟩ := pairUp_eq up
    have both : qtyOn .buy a + qtyOn .buy b = qtyOn .sell a + qtyOn .sell b := by
      unfold qtyOn
      cases left : a.2.side <;> cases right : b.2.side <;> simp_all
    simp only [List.map_cons, List.sum_cons]
    rw [← Int.add_assoc, both, ih rests, Int.add_assoc]

end HftGrading.Exchange.Audit.CleanLogs
