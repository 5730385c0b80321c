/- module: HftGrading/Exchange/WireProtocol
   source: sdk/include/sdk/protocol.hpp
   digest: Wire enums and messages of the exchange, and the machine words they are made of. -/

import Mathlib.Algebra.Order.Group.Unbundled.Int
import Mathlib.Algebra.Ring.Int.Defs
import Mathlib.Algebra.Ring.Nat

set_option autoImplicit false
set_option relaxedAutoImplicit false

namespace HftGrading.Exchange.WireProtocol

def int64Min : Int := -9223372036854775808

def int64Max : Int := 9223372036854775807

def wrap32 (x : Int) : Int := (x + 2147483648) % 4294967296 - 2147483648

def wrap64 (x : Int) : Int :=
  (x + 9223372036854775808) % 18446744073709551616 - 9223372036854775808

def IsInt32 (x : Int) : Prop := -2147483648 ≤ x ∧ x ≤ 2147483647

def IsInt64 (x : Int) : Prop := int64Min ≤ x ∧ x ≤ int64Max

instance (x : Int) : Decidable (IsInt32 x) :=
  inferInstanceAs (Decidable (-2147483648 ≤ x ∧ x ≤ 2147483647))

instance (x : Int) : Decidable (IsInt64 x) := inferInstanceAs (Decidable (int64Min ≤ x ∧ x ≤ int64Max))

theorem wrap32_of_isInt32 {x : Int} (word : IsInt32 x) : wrap32 x = x := by
  unfold IsInt32 at word
  unfold wrap32
  omega

theorem ite_wrap32_neg_eq_abs {x : Int} (small : |x| ≤ 2147483647) :
    (if x ≥ 0 then x else wrap32 (-x)) = |x| := by
  rw [Int.abs_eq_natAbs] at small ⊢
  split_ifs with nonneg
  · omega
  · rw [wrap32_of_isInt32 (show -2147483648 ≤ -x ∧ -x ≤ 2147483647 by omega)]
    omega

theorem isInt32_wrap32 (x : Int) : IsInt32 (wrap32 x) := by
  unfold IsInt32 wrap32
  omega

theorem wrap64_of_isInt64 {x : Int} (word : IsInt64 x) : wrap64 x = x := by
  unfold IsInt64 int64Min int64Max at word
  unfold wrap64
  omega

theorem wrap32_of_nonneg {x : Int} (low : 0 ≤ x) (high : x < 2147483648) : wrap32 x = x := by
  unfold wrap32
  omega

@[simp] theorem wrap32_wrap32_add (x y : Int) : wrap32 (wrap32 x + y) = wrap32 (x + y) := by
  unfold wrap32
  omega

@[simp] theorem wrap32_wrap32_sub (x y : Int) : wrap32 (wrap32 x - y) = wrap32 (x - y) := by
  unfold wrap32
  omega

@[simp] theorem wrap64_wrap64_add (x y : Int) : wrap64 (wrap64 x + y) = wrap64 (x + y) := by
  unfold wrap64
  omega

theorem wrap64_emod (x : Int) : wrap64 x % 2 ^ 64 = x % 2 ^ 64 := by
  unfold wrap64
  omega

def succ32 (n : Nat) : Nat := (n + 1) % 4294967296

def pred32 (n : Nat) : Nat := (n + 4294967295) % 4294967296

theorem succ32_of_lt {n : Nat} (small : n + 1 < 4294967296) : succ32 n = n + 1 :=
  Nat.mod_eq_of_lt small

theorem pred32_succ {n : Nat} (small : n < 4294967296) : pred32 (n + 1) = n := by
  unfold pred32
  omega

inductive Side
  | buy | sell
  deriving DecidableEq, Repr

/-- The side an order trades against. -/
def Side.contra : Side → Side
  | .buy => .sell
  | .sell => .buy

@[simp] theorem Side.contra_contra (s : Side) : s.contra.contra = s := by cases s <;> rfl

theorem Side.contra_ne (s : Side) : s.contra ≠ s := by cases s <;> decide

theorem Side.eq_or_eq_contra (s t : Side) : t = s ∨ t = s.contra := by cases s <;> cases t <;> decide

inductive OrderType
  | limit | market | ioc
  deriving DecidableEq, Repr

inductive AckStatus
  | accepted | rejectedPrice | rejectedSize | rejectedRisk | rejectedRate | rejectedUnknown
  | cancelled
  deriving DecidableEq, Repr

/-- `OrderEntry`, less its message tag and padding. -/
structure OrderEntry where
  side : Side
  orderType : OrderType
  clientOrderId : UInt32
  price : Int
  quantity : Int
  deriving DecidableEq, Repr

/-- `CancelRequest`, less its message tag and padding. -/
structure CancelRequest where
  clientOrderId : UInt32
  exchangeOrderId : Nat
  deriving DecidableEq, Repr

/-- `MarketUpdate`, less its message tag, instrument and padding. -/
structure MarketUpdate where
  sequence : Nat
  bestBidPrice : Int
  bestAskPrice : Int
  bestBidQty : Int
  bestAskQty : Int
  lastTradePrice : Int
  lastTradeQty : Int
  exchangeTsNs : Nat
  deriving DecidableEq, Repr

/-- `OrderAck`, less its message tag and padding. -/
structure OrderAck where
  status : AckStatus
  clientOrderId : UInt32
  exchangeOrderId : Nat
  price : Int
  quantity : Int
  deriving DecidableEq, Repr

/-- `Fill`, less its message tag, instrument, padding and the fee, which is never set. -/
structure Fill where
  side : Side
  clientOrderId : UInt32
  exchangeOrderId : Nat
  fillPrice : Int
  fillQty : Int
  remainingQty : Int
  realizedPnl : Int
  exchangeTsNs : Nat
  deriving DecidableEq, Repr

/-- `CancelAck`, less its message tag, padding and the exchange id, which is never set. -/
structure CancelAck where
  status : AckStatus
  clientOrderId : UInt32
  exchangeTsNs : Nat
  deriving DecidableEq, Repr

/-- `SessionEnd`, less its message tag, padding and the counters that are never set. -/
structure SessionEnd where
  totalFills : Nat
  finalPnl : Int
  finalPosition : Int
  totalOrders : Nat
  endTimestampNs : Nat
  deriving DecidableEq, Repr

/-- What the exchange sends a contestant during a session. -/
inductive Message
  | orderAck (ack : OrderAck)
  | fill (fill : Fill)
  | cancelAck (ack : CancelAck)
  deriving DecidableEq, Repr

end HftGrading.Exchange.WireProtocol
