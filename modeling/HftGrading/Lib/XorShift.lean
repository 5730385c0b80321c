/- module: HftGrading/Lib/XorShift
   scope: library
   digest: A word to which a shift of itself is added: the map is one to one, as the shifts die out. -/

import Mathlib.Data.BitVec

set_option autoImplicit false

namespace HftGrading.Lib.XorShift

open Function

variable {w : Nat}

theorem injective_xor {f : BitVec w → BitVec w} (linear : ∀ x y, f (x ^^^ y) = f x ^^^ f y)
    {n : Nat} (dies : ∀ x, f^[n] x = 0) : Injective fun x => x ^^^ f x := by
  intro x y same
  -- the difference of the two words is its own image
  have fixed : f (x ^^^ y) = x ^^^ y := by
    apply BitVec.xor_eq_zero_iff.1
    calc f (x ^^^ y) ^^^ (x ^^^ y) = (x ^^^ f x) ^^^ (y ^^^ f y) := by
          rw [linear]
          ac_rfl
      _ = 0 := BitVec.xor_eq_zero_iff.2 same
  exact BitVec.xor_eq_zero_iff.1 ((iterate_fixed fixed n).symm.trans (dies _))

theorem iterate_shift {shift : BitVec w → Nat → BitVec w} (none : ∀ x, shift x 0 = x)
    (add : ∀ x m k, shift x (m + k) = shift (shift x m) k) (k n : Nat) (x : BitVec w) :
    (fun x => shift x k)^[n] x = shift x (n * k) := by
  induction n with
  | zero => rw [Nat.zero_mul, none, iterate_zero, id]
  | succ n ih => rw [iterate_succ_apply', ih, Nat.succ_mul, add]

variable {k : Nat}

theorem injective_xor_shiftLeft (positive : 0 < k) :
    Injective fun x : BitVec w => x ^^^ x <<< k := by
  refine injective_xor (n := w) (fun x y => BitVec.shiftLeft_xor_distrib x y k) fun x => ?_
  rw [iterate_shift (fun x => BitVec.shiftLeft_zero x) BitVec.shiftLeft_add]
  exact BitVec.shiftLeft_eq_zero (Nat.le_mul_of_pos_right w positive)

theorem injective_xor_shiftRight (positive : 0 < k) :
    Injective fun x : BitVec w => x ^^^ x >>> k := by
  refine injective_xor (n := w) (fun x y => BitVec.ushiftRight_xor_distrib x y k) fun x => ?_
  rw [iterate_shift (fun x => BitVec.ushiftRight_zero x) BitVec.shiftRight_add]
  exact BitVec.ushiftRight_eq_zero (Nat.le_mul_of_pos_right w positive)

end HftGrading.Lib.XorShift
