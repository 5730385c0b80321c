/- module: HftGrading/Exchange/Book/PriceMap
   source: exchange/include/exchange/orderbook.hpp, core/include/core/compiler_hints.hpp
   digest: The price to level-index hash map: hashing, wide lookup, insertion and removal. -/

import HftGrading.Lib.PartialExecution
import HftGrading.Lib.RobinHoodTable

set_option autoImplicit false
set_option relaxedAutoImplicit false

namespace HftGrading.Exchange.Book.PriceMap

open Lib.PartialExecution (loop)
open Lib.RobinHoodTable (Table)

/-- `NULL_INDEX`, that is `UINT32_MAX`. -/
def nullIndex : Nat := 4294967295

def maxPriceLevelsOb : Nat := 4096

def priceMapCapacity : Nat := 8192

def priceMapMask : Nat := priceMapCapacity - 1

/-- The arrays `keys`, `values` and `distances`. Distances are bytes: every
increment below is taken modulo 256. -/
abbrev PriceHashMap := Table Int Nat

namespace PriceHashMap

def clear : PriceHashMap where
  keys _ := 0
  values _ := nullIndex
  distances _ := 0

/-- Fibonacci hash of the 64-bit pattern of a price. -/
def hash (price : Int) : Nat :=
  (((price % 2 ^ 64).toNat * 0x9E3779B97F4A7C15 % 2 ^ 64) >>> 51) % 2 ^ 32 &&& priceMapMask

/-- The test `distances[slot] == 0 && keys[slot] == 0`. -/
def vacant (m : PriceHashMap) (slot : Nat) : Bool :=
  m.distances slot == 0 && m.keys slot == 0

def avx2FindKeyI64 (keys : Nat → Int) (slot : Nat) (key : Int) : Nat :=
  (if keys slot = key then 0xFF else 0) +
    (if keys (slot + 1) = key then 0xFF00 else 0) +
    (if keys (slot + 2) = key then 0xFF0000 else 0) +
    (if keys (slot + 3) = key then 0xFF000000 else 0)

/-- `__builtin_ctz` on a 32-bit word. -/
def ctz (word : Nat) : Nat := ((List.range 32).find? (fun i => word.testBit i)).getD 32

def avx2FirstMatchIndexI64 (mask : Nat) : Nat := ctz mask >>> 3

def groupStops (m : PriceHashMap) (slot dist : Nat) : Bool :=
  (List.range 4).any (fun i => m.vacant (slot + i) || decide (m.distances (slot + i) < dist + i))

def wideRound (m : PriceHashMap) (price : Int) :
    Nat × Nat → Option (Nat × Nat ⊕ (Nat ⊕ Nat × Nat))
  | (slot, dist) =>
    if slot + 4 ≤ priceMapCapacity then
      let mask := avx2FindKeyI64 m.keys slot price
      if mask ≠ 0 then some (.inr (.inl (m.values (slot + avx2FirstMatchIndexI64 mask))))
      else if m.groupStops slot dist then some (.inr (.inl nullIndex))
      else some (.inl ((slot + 4) &&& priceMapMask, (dist + 4) % 256))
    else some (.inr (.inr (slot, dist)))

def scalarRound (m : PriceHashMap) (price : Int) : Nat × Nat → Option (Nat × Nat ⊕ Nat)
  | (slot, dist) =>
    if m.vacant slot then some (.inr nullIndex)
    else if m.distances slot < dist then some (.inr nullIndex)
    else if m.keys slot = price then some (.inr (m.values slot))
    else some (.inl ((slot + 1) &&& priceMapMask, (dist + 1) % 256))

def probeFuel : Nat := priceMapCapacity + 1

def find (m : PriceHashMap) (price : Int) : Option Nat := do
  match ← loop (m.wideRound price) probeFuel (hash price, 0) with
  | .inl found => some found
  | .inr rest => loop (m.scalarRound price) probeFuel rest

structure Insertion where
  map : PriceHashMap
  slot : Nat
  curKey : Int
  curVal : Nat
  dist : Nat

def insertRound (i : Insertion) : Option (Insertion ⊕ PriceHashMap) :=
  let next := (i.slot + 1) &&& priceMapMask
  if i.map.vacant i.slot then some (.inr (i.map.put i.slot i.curKey i.curVal i.dist))
  else if i.map.distances i.slot < i.dist then
    some (.inl ⟨i.map.put i.slot i.curKey i.curVal i.dist, next, i.map.keys i.slot,
      i.map.values i.slot, (i.map.distances i.slot + 1) % 256⟩)
  else some (.inl { i with slot := next, dist := (i.dist + 1) % 256 })

def insert (m : PriceHashMap) (price : Int) (levelIdx : Nat) : Option PriceHashMap :=
  loop insertRound probeFuel ⟨m, hash price, price, levelIdx, 1⟩

/-- One round of the search in `remove`: the slot of the key, or nothing. -/
def seekRound (m : PriceHashMap) (price : Int) (slot : Nat) : Option (Nat ⊕ Option Nat) :=
  if m.keys slot = price then some (.inr (some slot))
  else if m.vacant slot then some (.inr none)
  else some (.inl ((slot + 1) &&& priceMapMask))

def shiftRound : PriceHashMap × Nat → Option (PriceHashMap × Nat ⊕ PriceHashMap)
  | (m, slot) =>
    let next := (slot + 1) &&& priceMapMask
    if m.distances next ≤ 1 then some (.inr (m.put slot 0 nullIndex 0))
    else some (.inl (m.put slot (m.keys next) (m.values next) (m.distances next - 1), next))

def shiftFuel : Nat := 256 * priceMapCapacity

def remove (m : PriceHashMap) (price : Int) : Option PriceHashMap := do
  match ← loop (m.seekRound price) probeFuel (hash price) with
  | none => some m
  | some slot => loop shiftRound shiftFuel (m, slot)

end PriceHashMap

end HftGrading.Exchange.Book.PriceMap
