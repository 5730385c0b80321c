/- module: HftGrading/Loadgen/RawDraws
   source: loadgen/include/loadgen/order_blaster.hpp, exchange/include/exchange/market_data_gen.hpp
   digest: The raw draws of both generators: no state is lost, and none but zero leads to zero. -/

import HftGrading.Lib.XorShift
import HftGrading.Loadgen.BlastGenerator
import Mathlib.Data.FinEnum

set_option autoImplicit false

namespace HftGrading.Loadgen.RawDraws

open Function
open Lib.XorShift BlastGenerator

/-- `next_raw` of the market data: what it returns, and the state it leaves. -/
def MarketDataGenerator.nextRaw (rngState : UInt64) : UInt64 × UInt64 :=
  let s := rngState
  let s := s ^^^ s <<< 13
  let s := s ^^^ s >>> 7
  let s := s ^^^ s <<< 17
  (s, s)

variable (nextRaw : UInt64 → UInt64 × UInt64)

def stateAfter (n : Nat) (seed : UInt64) : UInt64 := (fun s => (nextRaw s).2)^[n] seed

/-- A draw is a permutation of the states that fixes zero; from another seed no draw returns zero,
and two states are never drawn to one. -/
structure NeverDegenerates : Prop where
  bijective : Bijective fun s => (nextRaw s).2
  zero : nextRaw 0 = (0, 0)
  nonzero : ∀ seed, seed ≠ 0 → ∀ n, (nextRaw (stateAfter nextRaw n seed)).1 ≠ 0
  apart : ∀ n s t, s ≠ t → stateAfter nextRaw n s ≠ stateAfter nextRaw n t

variable {nextRaw}

theorem neverDegenerates_of_injective (injective : Injective fun s => (nextRaw s).2)
    (zero : nextRaw 0 = (0, 0)) (returned : ∀ s, (nextRaw s).1 = (nextRaw s).2) :
    NeverDegenerates nextRaw := by
  refine ⟨Finite.injective_iff_bijective.1 injective, zero, fun seed nonzero n => ?_,
    fun n s t apart same => apart (injective.iterate n same)⟩
  -- draws from zero stay there, so a draw that returns zero starts from zero
  have fixed : stateAfter nextRaw (n + 1) 0 = 0 := iterate_fixed (congrArg Prod.snd zero) (n + 1)
  rw [returned]
  intro drawn
  apply nonzero
  apply injective.iterate (n + 1)
  exact (iterate_succ_apply' ..).trans (drawn.trans fixed.symm)

theorem injective_xorshift64 : Injective fun s => (xorshift64 s).2 := by
  intro s t same
  have words : ∀ r, (xorshift64 r).2.toBitVec = (fun x : BitVec 64 => x ^^^ x <<< 17)
      ((fun x : BitVec 64 => x ^^^ x >>> 7) ((fun x : BitVec 64 => x ^^^ x <<< 13) r.toBitVec)) :=
    fun _ => rfl
  have drawn := congrArg UInt64.toBitVec same
  rw [words, words] at drawn
  have third := injective_xor_shiftLeft (by decide) drawn
  have second := injective_xor_shiftRight (by decide) third
  exact UInt64.toBitVec_inj.1 (injective_xor_shiftLeft (by decide) second)

theorem raw_draws_never_degenerate :
    NeverDegenerates xorshift64 ∧ NeverDegenerates MarketDataGenerator.nextRaw := by
  have blaster := neverDegenerates_of_injective injective_xorshift64 (by decide) fun _ => rfl
  exact ⟨blaster, blaster⟩

end HftGrading.Loadgen.RawDraws
