/- module: HftGrading/Exchange/Engine/ProfitAccounts
   source: exchange/include/exchange/match_engine.hpp
   digest: Realized profit, average entry and position of a contestant against the value of its fills. -/

import HftGrading.Exchange.Engine.EngineState
import Mathlib.Tactic.LinearCombination
import Mathlib.Tactic.Ring

set_option autoImplicit false
set_option relaxedAutoImplicit false

namespace HftGrading.Exchange.Engine.ProfitAccounts

open Function (update)
open Lib.PartialExecution WireProtocol EngineState
open EngineState.ContestantState (closingPnl nextEntry signedQty)

section OneFill

def Opens (pos signed : Int) : Prop := (pos ≥ 0 ∧ signed > 0) ∨ (pos ≤ 0 ∧ signed < 0)

def Reverses (pos signed : Int) : Prop := (0 < pos ∧ pos + signed < 0) ∨ (pos < 0 ∧ 0 < pos + signed)

instance (pos signed : Int) : Decidable (Opens pos signed) :=
  inferInstanceAs (Decidable ((pos ≥ 0 ∧ signed > 0) ∨ (pos ≤ 0 ∧ signed < 0)))

instance (pos signed : Int) : Decidable (Reverses pos signed) :=
  inferInstanceAs (Decidable ((0 < pos ∧ pos + signed < 0) ∨ (pos < 0 ∧ 0 < pos + signed)))

structure ExactAverage (pos signed avg price : Int) : Prop where
  total : IsInt32 (|pos| + |signed|)
  oldCost : IsInt64 (avg * |pos|)
  newCost : IsInt64 (price * |signed|)
  cost : IsInt64 (avg * |pos| + price * |signed|)
  whole : |pos| + |signed| ∣ avg * |pos| + price * |signed|

variable {pos signed avg price : Int}

theorem wrap32_neg_of_abs {x : Int} (small : |x| ≤ 2147483647) : wrap32 (-x) = -x := by
  have range := abs_le.mp small
  exact wrap32_of_isInt32 ⟨by omega, by omega⟩

theorem nextEntry_kept (other : ¬ Opens pos signed) : nextEntry pos signed avg price = avg :=
  if_neg other

theorem nextEntry_mul (opens : Opens pos signed) (exact : ExactAverage pos signed avg price) :
    (|pos| + |signed|) * nextEntry pos signed avg price = avg * |pos| + price * |signed| := by
  have moves : signed ≠ 0 := by
    rcases opens with ⟨-, up⟩ | ⟨-, down⟩
    · exact up.ne'
    · exact down.ne
  have positive : 0 < |pos| + |signed| := add_pos_of_nonneg_of_pos (abs_nonneg _) (abs_pos.mpr moves)
  have entry : nextEntry pos signed avg price =
      (avg * |pos| + price * |signed|).tdiv (|pos| + |signed|) := by
    rw [nextEntry, if_pos (show (pos ≥ 0 ∧ signed > 0) ∨ (pos ≤ 0 ∧ signed < 0) from opens)]
    have bound := exact.total.2
    have old : |pos| ≤ 2147483647 := (le_add_of_nonneg_right (abs_nonneg signed)).trans bound
    have new : |signed| ≤ 2147483647 := (le_add_of_nonneg_left (abs_nonneg pos)).trans bound
    simp only [ite_wrap32_neg_eq_abs old, ite_wrap32_neg_eq_abs new,
      wrap32_of_isInt32 exact.total, wrap64_of_isInt64 exact.oldCost,
      wrap64_of_isInt64 exact.newCost, wrap64_of_isInt64 exact.cost, if_pos positive]
  rw [entry]
  exact Int.mul_tdiv_cancel' exact.whole

theorem closingPnl_opens (opens : Opens pos signed) : closingPnl pos signed avg price = 0 := by
  unfold Opens at opens
  exact if_neg (by omega)

theorem closingPnl_closes (small : |pos| ≤ 2147483647) (other : ¬ Opens pos signed)
    (stays : ¬ Reverses pos signed) :
    closingPnl pos signed avg price = signed * (avg - price) := by
  have range := abs_le.mp small
  unfold Opens at other
  unfold Reverses at stays
  unfold closingPnl
  by_cases closes : (pos > 0 ∧ signed < 0) ∨ (pos < 0 ∧ signed > 0)
  · rw [if_pos closes]
    rcases closes with ⟨long, sold⟩ | ⟨short, bought⟩
    · have part : max signed (-pos) = signed := max_eq_left (by omega)
      have back : wrap32 (-signed) = -signed := wrap32_of_isInt32 ⟨by omega, by omega⟩
      simp only [if_neg (show ¬ signed > 0 by omega), wrap32_neg_of_abs small, part,
        if_neg (show ¬ signed ≥ 0 by omega), back, if_pos long]
      ring
    · have part : min signed (-pos) = signed := min_eq_left (by omega)
      simp only [if_pos bought, wrap32_neg_of_abs small, part, if_pos bought.le,
        if_neg (show ¬ pos > 0 by omega)]
  · have idle : signed = 0 := by omega
    rw [if_neg closes, idle, zero_mul]

theorem closingPnl_reverses (small : |pos| ≤ 2147483647) (reverses : Reverses pos signed) :
    closingPnl pos signed avg price = pos * (price - avg) := by
  have closes : (pos > 0 ∧ signed < 0) ∨ (pos < 0 ∧ signed > 0) := by
    unfold Reverses at reverses
    omega
  unfold closingPnl
  rw [if_pos closes]
  rcases reverses with ⟨long, below⟩ | ⟨short, above⟩
  · have whole : max signed (-pos) = -pos := max_eq_right (by omega)
    have back : wrap32 pos = pos := wrap32_of_isInt32 ⟨by omega, (abs_le.mp small).2⟩
    simp only [if_neg (show ¬ signed > 0 by omega), wrap32_neg_of_abs small, whole,
      if_neg (show ¬ -pos ≥ 0 by omega), if_pos long, neg_neg, back]
  · have whole : min signed (-pos) = -pos := min_eq_right (by omega)
    simp only [if_pos (show signed > 0 by omega), wrap32_neg_of_abs small, whole,
      if_pos (show -pos ≥ 0 by omega),
      if_neg (show ¬ pos > 0 by omega)]
    ring

theorem fill_balances (small : |pos| ≤ 2147483647)
    (exact : Opens pos signed → ExactAverage pos signed avg price) :
    closingPnl pos signed avg price - (pos + signed) * nextEntry pos signed avg price =
      -(pos * avg) - signed * price +
        if Reverses pos signed then (pos + signed) * (price - avg) else 0 := by
  by_cases opens : Opens pos signed
  · have stays : ¬ Reverses pos signed := by
      unfold Opens at opens
      unfold Reverses
      omega
    have cost := nextEntry_mul opens (exact opens)
    rw [closingPnl_opens opens, if_neg stays]
    rcases opens with ⟨long, bought⟩ | ⟨short, sold⟩
    · rw [abs_of_nonneg long, abs_of_pos bought] at cost
      linear_combination -cost
    · rw [abs_of_nonpos short, abs_of_neg sold] at cost
      linear_combination cost
  · rw [nextEntry_kept opens]
    split_ifs with reverses
    · rw [closingPnl_reverses small reverses]
      ring
    · rw [closingPnl_closes small opens reverses]
      ring

end OneFill

section Bookings

/-- One call of `apply_fill`. -/
structure Booking where
  contestantId : Nat
  side : Side
  price : Int
  qty : Int
  deriving DecidableEq, Repr

def Booking.apply (c : ContestantState) (k : Booking) : Option ContestantState :=
  some (c.applyFill k.contestantId k.side k.price k.qty)

def Booking.signed (k : Booking) : Int := signedQty k.side k.qty

def bookingsOf (cid : Nat) (bookings : List Booking) : List Booking :=
  bookings.filter (fun k => k.contestantId = cid)

/-- What the fills of a contestant are worth at a price. -/
def fillsValue (cid : Nat) (bookings : List Booking) (mid : Int) : Int :=
  ((bookingsOf cid bookings).map (fun k => k.signed * (mid - k.price))).sum

/-- No word of `apply_fill` overflows, the position it leaves can be negated, and its division
leaves no remainder. -/
structure Exact (c : ContestantState) (k : Booking) : Prop where
  position : IsInt32 (c.position k.contestantId + k.signed)
  negated : IsInt32 (-(c.position k.contestantId + k.signed))
  realized : IsInt64 (c.realizedPnl k.contestantId + closingPnl (c.position k.contestantId)
    k.signed (c.avgEntry k.contestantId) k.price)
  average : Opens (c.position k.contestantId) k.signed →
    ExactAverage (c.position k.contestantId) k.signed (c.avgEntry k.contestantId) k.price

/-- A booking does not take a position through zero, or does so at the average entry. -/
def Faithful (c : ContestantState) (k : Booking) : Prop :=
  Reverses (c.position k.contestantId) k.signed → k.price = c.avgEntry k.contestantId

/-- No word of `total_pnl` overflows. -/
structure Markable (c : ContestantState) (cid : Nat) (mid : Int) : Prop where
  unrealized : IsInt64 (c.position cid * (mid - c.avgEntry cid))
  total : IsInt64 (c.realizedPnl cid + c.position cid * (mid - c.avgEntry cid))

def netQty (cid : Nat) (bookings : List Booking) : Int :=
  ((bookingsOf cid bookings).map Booking.signed).sum

def netCost (cid : Nat) (bookings : List Booking) : Int :=
  ((bookingsOf cid bookings).map (fun k => k.signed * k.price)).sum

structure Tracked (cid : Nat) (bookings : List Booking) (c : ContestantState) : Prop where
  position : c.position cid = netQty cid bookings
  small : |c.position cid| ≤ 2147483647
  realized : IsInt64 (c.realizedPnl cid)

def Balanced (cid : Nat) (bookings : List Booking) (c : ContestantState) : Prop :=
  c.realizedPnl cid = c.position cid * c.avgEntry cid - netCost cid bookings

def Reports (cid : Nat) (bookings : List Booking) (c : ContestantState) : Prop :=
  ∀ mid, Markable c cid mid → c.totalPnl cid mid = fillsValue cid bookings mid

variable {c : ContestantState} {k : Booking} {cid : Nat} {bookings : List Booking}

theorem fillsValue_eq (mid : Int) :
    fillsValue cid bookings mid = netQty cid bookings * mid - netCost cid bookings := by
  rw [fillsValue, netQty, netCost]
  induction bookingsOf cid bookings with
  | nil => simp
  | cons k rest ih =>
    simp only [List.map_cons, List.sum_cons]
    linear_combination ih

theorem bookingsOf_own (own : k.contestantId = cid) :
    bookingsOf cid (bookings ++ [k]) = bookingsOf cid bookings ++ [k] := by
  simp [bookingsOf, own]

theorem bookingsOf_other (other : k.contestantId ≠ cid) :
    bookingsOf cid (bookings ++ [k]) = bookingsOf cid bookings := by
  simp [bookingsOf, other]

theorem totalPnl_eq {mid : Int} (small : |c.position cid| ≤ 2147483647)
    (markable : Markable c cid mid) :
    c.totalPnl cid mid = c.realizedPnl cid + c.position cid * (mid - c.avgEntry cid) := by
  have unrealized : c.unrealizedPnl cid mid = c.position cid * (mid - c.avgEntry cid) := by
    have short : -c.position cid * (c.avgEntry cid - mid) =
        c.position cid * (mid - c.avgEntry cid) := by ring
    rw [ContestantState.unrealizedPnl, wrap32_neg_of_abs small, short,
      wrap64_of_isInt64 markable.unrealized]
    split_ifs with flat
    · rw [flat, zero_mul]
    · rfl
    · rfl
  rw [ContestantState.totalPnl, unrealized, wrap64_of_isInt64 markable.total]

theorem reports_iff (tracked : Tracked cid bookings c) :
    Reports cid bookings c ↔ Balanced cid bookings c := by
  constructor
  · intro reports
    have markable : Markable c cid (c.avgEntry cid) := by
      constructor
      · rw [sub_self, mul_zero]
        decide
      · rw [sub_self, mul_zero, add_zero]
        exact tracked.realized
    have value := reports _ markable
    rw [totalPnl_eq tracked.small markable, fillsValue_eq, ← tracked.position] at value
    rw [Balanced]
    linear_combination value
  · intro balanced mid markable
    rw [Balanced] at balanced
    rw [totalPnl_eq tracked.small markable, fillsValue_eq, ← tracked.position]
    linear_combination balanced

theorem Tracked.apply (tracked : Tracked cid bookings c) (exact : k.contestantId = cid → Exact c k) :
    Tracked cid (bookings ++ [k]) (c.applyFill k.contestantId k.side k.price k.qty) := by
  by_cases own : k.contestantId = cid
  · have words := exact own
    subst own
    refine ⟨?_, ?_, ?_⟩
    · rw [netQty, bookingsOf_own rfl, List.map_append, List.sum_append, ← netQty, ← tracked.position]
      simp only [ContestantState.applyFill_eq, Function.update_self, List.map_cons, List.map_nil,
        List.sum_cons, List.sum_nil, add_zero]
      exact wrap32_of_isInt32 words.position
    · simp only [ContestantState.applyFill_eq, Function.update_self]
      rw [← Booking.signed, wrap32_of_isInt32 words.position]
      have negated := words.negated.2
      exact abs_le.mpr ⟨by omega, words.position.2⟩
    · simp only [ContestantState.applyFill_eq, Function.update_self]
      rw [← Booking.signed, wrap64_of_isInt64 words.realized]
      exact words.realized
  · have other : cid ≠ k.contestantId := fun e => own e.symm
    refine ⟨?_, ?_, ?_⟩
    · rw [netQty, bookingsOf_other own, ← netQty, ← tracked.position]
      simp only [ContestantState.applyFill_eq, Function.update_of_ne other]
    · simp only [ContestantState.applyFill_eq, Function.update_of_ne other]
      exact tracked.small
    · simp only [ContestantState.applyFill_eq, Function.update_of_ne other]
      exact tracked.realized

theorem balanced_apply_iff (tracked : Tracked cid bookings c) (balanced : Balanced cid bookings c)
    (exact : k.contestantId = cid → Exact c k) :
    Balanced cid (bookings ++ [k]) (c.applyFill k.contestantId k.side k.price k.qty) ↔
      (k.contestantId = cid → Faithful c k) := by
  by_cases own : k.contestantId = cid
  · have words := exact own
    subst own
    have step := fill_balances tracked.small words.average
    have signed : signedQty k.side k.qty = k.signed := rfl
    rw [Balanced] at balanced
    rw [Balanced, netCost, bookingsOf_own rfl, List.map_append, List.sum_append, ← netCost]
    simp only [ContestantState.applyFill_eq, signed, Function.update_self,
      wrap64_of_isInt64 words.realized, wrap32_of_isInt32 words.position, List.map_cons,
      List.map_nil, List.sum_cons, List.sum_nil, add_zero, forall_const, Faithful]
    by_cases reverses : Reverses (c.position k.contestantId) k.signed
    · have left : c.position k.contestantId + k.signed ≠ 0 := by
        unfold Reverses at reverses
        omega
      rw [if_pos reverses] at step
      constructor
      · intro kept _
        have zero : (c.position k.contestantId + k.signed) *
            (k.price - c.avgEntry k.contestantId) = 0 := by
          linear_combination kept - balanced - step
        exact sub_eq_zero.mp ((mul_eq_zero.mp zero).resolve_left left)
      · intro faithful
        rw [faithful reverses, sub_self, mul_zero] at step
        rw [faithful reverses]
        linear_combination balanced + step
    · rw [if_neg reverses] at step
      refine iff_of_true ?_ (fun h => absurd h reverses)
      linear_combination balanced + step
  · have other : cid ≠ k.contestantId := fun e => own e.symm
    refine iff_of_true ?_ (fun h => absurd h own)
    rw [Balanced, netCost, bookingsOf_other own, ← netCost]
    simp only [ContestantState.applyFill_eq, Function.update_of_ne other]
    exact balanced

theorem faithful_iff_balanced (more : List Booking) (tracked : Tracked cid bookings c)
    (balanced : Balanced cid bookings c)
    (exact : Obeys Booking.apply (fun c k => k.contestantId = cid → Exact c k) c more) :
    Obeys Booking.apply (fun c k => k.contestantId = cid → Faithful c k) c more ↔
      ∀ settled, settled <+: more → ∃ c', run Booking.apply c settled = some c' ∧
        Reports cid (bookings ++ settled) c' := by
  induction more generalizing bookings c with
  | nil =>
    refine iff_of_true trivial (fun part initial => ?_)
    rw [List.prefix_nil.mp initial, List.append_nil]
    exact ⟨c, rfl, (reports_iff tracked).mpr balanced⟩
  | cons k more ih =>
    have tracked' := tracked.apply exact.1
    have rest := exact.2 _ rfl
    have kept := balanced_apply_iff tracked balanced exact.1
    constructor
    · rintro ⟨here, later⟩ part initial
      rcases List.prefix_cons_iff.mp initial with rfl | ⟨part, rfl, shorter⟩
      · rw [List.append_nil]
        exact ⟨c, rfl, (reports_iff tracked).mpr balanced⟩
      · have later' := (ih tracked' (kept.mpr here) rest).mp (later _ rfl) part shorter
        rwa [List.append_assoc] at later'
    · intro reports
      obtain ⟨c', returns, first⟩ := reports [k] ⟨more, rfl⟩
      cases returns
      have balanced' := (reports_iff tracked').mp first
      refine ⟨kept.mp balanced', fun c' move => ?_⟩
      cases move
      refine (ih tracked' balanced' rest).mpr (fun part initial => ?_)
      have later := reports (k :: part) (List.cons_prefix_cons.mpr ⟨rfl, initial⟩)
      rwa [List.append_cons] at later

/-- The profit reported for a contestant is the value of its fills at every point of a run
exactly when no fill takes its position through zero off the average entry. -/
theorem report_is_value_iff_faithful (cid : Nat) (bookings : List Booking)
    (exact : Obeys Booking.apply (fun c k => k.contestantId = cid → Exact c k)
      ContestantState.init bookings) :
    Obeys Booking.apply (fun c k => k.contestantId = cid → Faithful c k) ContestantState.init
        bookings ↔
      ∀ part, part <+: bookings → ∃ c, run Booking.apply ContestantState.init part = some c ∧
        ∀ mid, Markable c cid mid → c.totalPnl cid mid = fillsValue cid part mid := by
  have tracked : Tracked cid [] ContestantState.init :=
    ⟨rfl, show |(0 : Int)| ≤ _ by decide, show IsInt64 0 by decide⟩
  have balanced : Balanced cid [] ContestantState.init := rfl
  exact faithful_iff_balanced bookings tracked balanced exact

instance (pos signed avg price : Int) : Decidable (ExactAverage pos signed avg price) :=
  decidable_of_iff (IsInt32 (|pos| + |signed|) ∧ IsInt64 (avg * |pos|) ∧ IsInt64 (price * |signed|) ∧
      IsInt64 (avg * |pos| + price * |signed|) ∧
      |pos| + |signed| ∣ avg * |pos| + price * |signed|)
    ⟨fun ⟨total, oldCost, newCost, cost, whole⟩ => ⟨total, oldCost, newCost, cost, whole⟩,
      fun ⟨total, oldCost, newCost, cost, whole⟩ => ⟨total, oldCost, newCost, cost, whole⟩⟩

instance (c : ContestantState) (k : Booking) : Decidable (Exact c k) :=
  decidable_of_iff (IsInt32 (c.position k.contestantId + k.signed) ∧
      IsInt32 (-(c.position k.contestantId + k.signed)) ∧
      IsInt64 (c.realizedPnl k.contestantId + closingPnl (c.position k.contestantId) k.signed
        (c.avgEntry k.contestantId) k.price) ∧
      (Opens (c.position k.contestantId) k.signed →
        ExactAverage (c.position k.contestantId) k.signed (c.avgEntry k.contestantId) k.price))
    ⟨fun ⟨position, negated, realized, average⟩ => ⟨position, negated, realized, average⟩,
      fun ⟨position, negated, realized, average⟩ => ⟨position, negated, realized, average⟩⟩

instance (c : ContestantState) (k : Booking) : Decidable (Faithful c k) :=
  inferInstanceAs (Decidable (Reverses _ _ → _))

instance (c : ContestantState) (cid : Nat) (mid : Int) : Decidable (Markable c cid mid) :=
  decidable_of_iff (IsInt64 (c.position cid * (mid - c.avgEntry cid)) ∧
      IsInt64 (c.realizedPnl cid + c.position cid * (mid - c.avgEntry cid)))
    ⟨fun ⟨unrealized, total⟩ => ⟨unrealized, total⟩, fun ⟨unrealized, total⟩ => ⟨unrealized, total⟩⟩

def longThenShort : List Booking :=
  [⟨0, .buy, 100, 2⟩, ⟨0, .buy, 110, 2⟩, ⟨1, .sell, 7, 9⟩, ⟨0, .sell, 120, 1⟩, ⟨0, .sell, 90, 3⟩,
    ⟨0, .sell, 95, 5⟩]

theorem report_is_value_long_then_short :
    ∃ c, run Booking.apply ContestantState.init longThenShort = some c ∧ Markable c 0 100 ∧
      c.totalPnl 0 100 = -55 := by
  have exact : Obeys Booking.apply (fun c k => k.contestantId = 0 → Exact c k)
      ContestantState.init longThenShort :=
    obeys_of_test (fun c k (passed : decide (k.contestantId = 0 → Exact c k) = true) =>
      of_decide_eq_true passed) _ _ (by decide +kernel)
  have faithful : Obeys Booking.apply (fun c k => k.contestantId = 0 → Faithful c k)
      ContestantState.init longThenShort :=
    obeys_of_test (fun c k (passed : decide (k.contestantId = 0 → Faithful c k) = true) =>
      of_decide_eq_true passed) _ _ (by decide +kernel)
  have words : (run Booking.apply ContestantState.init longThenShort).all
      (fun c => decide (Markable c 0 100)) = true := by decide +kernel
  obtain ⟨c, returns, value⟩ := (report_is_value_iff_faithful 0 longThenShort exact).mp faithful
    longThenShort (List.prefix_refl _)
  rw [returns] at words
  have markable : Markable c 0 100 := of_decide_eq_true words
  exact ⟨c, returns, markable, (value 100 markable).trans (by decide +kernel)⟩

def reversal : List Booking := [⟨0, .buy, 100, 1⟩, ⟨0, .sell, 110, 2⟩]

/-- The short that is left is booked at the entry of the long that was closed. -/
theorem reversal_misreports_value :
    Obeys Booking.apply Exact ContestantState.init reversal ∧
      (run Booking.apply ContestantState.init reversal).map
        (fun c => (decide (Markable c 0 110), c.totalPnl 0 110)) = some (true, 0) ∧
      fillsValue 0 reversal 110 = 10 :=
  ⟨obeys_of_test (fun c k (passed : decide (Exact c k) = true) => of_decide_eq_true passed) _ _
    (by decide +kernel), by decide +kernel, by decide +kernel⟩

end Bookings

end HftGrading.Exchange.Engine.ProfitAccounts
