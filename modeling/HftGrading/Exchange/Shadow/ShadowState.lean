/- module: HftGrading/Exchange/Shadow/ShadowState
   source: exchange/include/exchange/shadow_orderbook.hpp
   digest: The shadow book a contestant is graded against, and the validation of reported fills. -/

import HftGrading.Exchange.Book.BookRuns

set_option autoImplicit false
set_option relaxedAutoImplicit false

namespace HftGrading.Exchange.Shadow.ShadowState

open WireProtocol Book.PriceMap Book.LimitBook
open Book.LimitBook.OrderBook (MatchResult)
open Book.MatchRounds Book.BookRep Book.BookRuns

structure ExpectedFill where
  orderId : UInt32
  fillPrice : Int
  fillQty : Int
  aggressorSide : Side
  deriving DecidableEq, Repr

structure ValidationResult where
  totalOrders : Nat
  totalExpected : Nat
  totalActual : Nat
  correctFills : Nat
  wrongPrice : Nat
  wrongQty : Nat
  missingFills : Nat
  extraFills : Nat
  priorityErrors : Nat
  totalAcks : Nat
  deriving DecidableEq, Repr

def ValidationResult.init : ValidationResult := ⟨0, 0, 0, 0, 0, 0, 0, 0, 0, 0⟩

def shadowMaxFills : Nat := 262144

/-- `expected` lists the entries of the array below `expected_count_`. -/
structure ShadowOrderbook where
  book : OrderBook
  expected : List ExpectedFill
  result : ValidationResult

namespace ShadowOrderbook

def init : ShadowOrderbook := ⟨OrderBook.init, [], ValidationResult.init⟩

def matchPrice (order : OrderEntry) : Int :=
  if order.orderType = .market then
    match order.side with
    | .buy => int64Max
    | .sell => 0
  else order.price

def expectedFill (order : OrderEntry) (f : MatchResult) : ExpectedFill :=
  ⟨order.clientOrderId, f.fillPrice, f.fillQty, order.side⟩

def recordFill (order : OrderEntry) (s : ShadowOrderbook) (f : MatchResult) : ShadowOrderbook :=
  if s.expected.length < shadowMaxFills then
    { s with
      expected := s.expected ++ [expectedFill order f]
      result := { s.result with totalExpected := s.result.totalExpected + 1 } }
  else s

/-- `timestampNs` is the time stamp counter where a remainder rests. The order types the
source lists are all there are. -/
def processOrder (s : ShadowOrderbook) (order : OrderEntry) (timestampNs : Nat) :
    Option ShadowOrderbook := do
  let s := { s with result := { s.result with totalOrders := s.result.totalOrders + 1 } }
  let (fills, book) ← s.book.matchOrder order.side (matchPrice order) order.quantity 0 64
  let s := fills.foldl (recordFill order) { s with book := book }
  let filled := (fills.map MatchResult.fillQty).sum
  let remaining := order.quantity - filled
  if remaining > 0 ∧ order.orderType = .limit then
    let (_, book) ← s.book.addOrder 0 order.clientOrderId order.side order.price remaining timestampNs
    return { s with book := book }
  else return s

/-- Cancels are dropped. -/
def processCancel (s : ShadowOrderbook) (_cancel : CancelRequest) : ShadowOrderbook := s

/-- The scan of `validate_fill`: the first open entry under the id, and the array with it closed. -/
def claimEntry (orderId : UInt32) : List ExpectedFill → Option (ExpectedFill × List ExpectedFill)
  | [] => none
  | ef :: rest =>
    if ef.orderId = orderId ∧ 0 < ef.fillQty then some (ef, { ef with fillQty := 0 } :: rest)
    else (claimEntry orderId rest).map (fun (found, closed) => (found, ef :: closed))

def judge (ef : ExpectedFill) (price qty : Int) (result : ValidationResult) : ValidationResult :=
  if ef.fillPrice = price ∧ ef.fillQty = qty then
    { result with correctFills := result.correctFills + 1 }
  else if ef.fillPrice ≠ price then { result with wrongPrice := result.wrongPrice + 1 }
  else { result with wrongQty := result.wrongQty + 1 }

def validateFill (s : ShadowOrderbook) (orderId : UInt32) (price qty : Int) : ShadowOrderbook :=
  let result := { s.result with totalActual := s.result.totalActual + 1 }
  match claimEntry orderId s.expected with
  | some (ef, closed) => { s with expected := closed, result := judge ef price qty result }
  | none => { s with result := { result with extraFills := result.extraFills + 1 } }

def countAck (s : ShadowOrderbook) : ShadowOrderbook :=
  { s with result := { s.result with totalAcks := s.result.totalAcks + 1 } }

def finalize (s : ShadowOrderbook) : ShadowOrderbook :=
  { s with result := { s.result with
      missingFills := s.result.missingFills + s.expected.countP (fun ef => 0 < ef.fillQty) } }

end ShadowOrderbook

section Recording

variable {order : OrderEntry} {s : ShadowOrderbook}

theorem recordFills_spec (fills : List MatchResult) (s : ShadowOrderbook) :
    fills.foldl (ShadowOrderbook.recordFill order) s =
      { s with
        expected := s.expected ++ (fills.map (ShadowOrderbook.expectedFill order)).take
          (shadowMaxFills - s.expected.length)
        result := { s.result with totalExpected :=
          s.result.totalExpected + min fills.length (shadowMaxFills - s.expected.length) } } := by
  induction fills generalizing s with
  | nil => simp
  | cons f fills ih =>
    rw [List.foldl_cons, ih]
    by_cases room : s.expected.length < shadowMaxFills
    · obtain ⟨n, left⟩ := Nat.exists_eq_add_of_lt room
      have before : shadowMaxFills - s.expected.length = n + 1 := by omega
      have after : shadowMaxFills - (s.expected.length + 1) = n := by omega
      simp only [ShadowOrderbook.recordFill, if_pos room, List.length_append, List.length_cons,
        List.length_nil, Nat.zero_add, before, after, List.map_cons, List.take_succ_cons,
        List.append_assoc, List.singleton_append, Nat.add_min_add_right]
      congr 2
      omega
    · have full : shadowMaxFills - s.expected.length = 0 := by omega
      simp [ShadowOrderbook.recordFill, if_neg room, full]

/-- An order that has gone through: `fills` were made, `b₁` is the book after the match. -/
structure Processed (Q : Queues) (s : ShadowOrderbook) (order : OrderEntry) (timestampNs : Nat)
    (Q₁ : Queues) (fills : List MatchResult) (before b₁ : OrderBook) (s' : ShadowOrderbook) :
    Prop where
  returns : s.book.matchOrder order.side (ShadowOrderbook.matchPrice order) order.quantity 0 64 =
    some (fills, b₁)
  matched : Matched Q s.book order.side (ShadowOrderbook.matchPrice order) order.quantity 0 64
    Q₁ fills before b₁
  rests : order.quantity - (fills.map MatchResult.fillQty).sum > 0 ∧ order.orderType = .limit →
    ∃ r, b₁.addOrder 0 order.clientOrderId order.side order.price
        (order.quantity - (fills.map MatchResult.fillQty).sum) timestampNs = some (r, s'.book) ∧
      Added b₁ 0 order.clientOrderId order.side order.price
        (order.quantity - (fills.map MatchResult.fillQty).sum) timestampNs r s'.book
  ended : ¬ (order.quantity - (fills.map MatchResult.fillQty).sum > 0 ∧ order.orderType = .limit) →
    s'.book = b₁
  expected : s'.expected = s.expected ++ (fills.map (ShadowOrderbook.expectedFill order)).take
    (shadowMaxFills - s.expected.length)
  result : s'.result = { s.result with
    totalOrders := s.result.totalOrders + 1
    totalExpected :=
      s.result.totalExpected + min fills.length (shadowMaxFills - s.expected.length) }

theorem processOrder_processed {Q : Queues} (rep : Rep s.book Q) (order : OrderEntry)
    (timestampNs : Nat) :
    ∃ Q₁ fills before b₁ s', s.processOrder order timestampNs = some s' ∧
      Processed Q s order timestampNs Q₁ fills before b₁ s' := by
  obtain ⟨Q₁, fills, before, b₁, returns, matched⟩ := matchOrder_matched rep order.side
    (ShadowOrderbook.matchPrice order) order.quantity 0 64
  have rep₁ := matched.drained.rep rep
  by_cases wanted : order.quantity - (fills.map MatchResult.fillQty).sum > 0 ∧
      order.orderType = .limit
  · obtain ⟨r, b', adds, added⟩ := addOrder_added 0 order.clientOrderId order.side order.price
      (order.quantity - (fills.map MatchResult.fillQty).sum) timestampNs rep₁
    refine ⟨Q₁, fills, before, b₁, ⟨b', _, _⟩, ?_, returns, matched, fun _ => ⟨r, adds, added⟩,
      fun done => absurd wanted done, rfl, rfl⟩
    simp only [ShadowOrderbook.processOrder, returns, Option.bind_eq_bind, Option.bind_some,
      recordFills_spec, if_pos wanted, adds]
    rfl
  · refine ⟨Q₁, fills, before, b₁, ⟨b₁, _, _⟩, ?_, returns, matched,
      fun again => absurd again wanted, fun _ => rfl, rfl, rfl⟩
    simp only [ShadowOrderbook.processOrder, returns, Option.bind_eq_bind, Option.bind_some,
      recordFills_spec, if_neg wanted]
    rfl

end Recording

end HftGrading.Exchange.Shadow.ShadowState
