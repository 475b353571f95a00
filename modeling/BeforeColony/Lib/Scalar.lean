import Mathlib.Algebra.Order.Floor.Ring
import Mathlib.Algebra.Order.Field.Basic
import Mathlib.Data.Rat.Floor
import Mathlib.Analysis.Real.Sqrt
import Mathlib.Tactic.FieldSimp
import Mathlib.Tactic.LinearCombination

/-!
# Numbers computed with exactly

An ordered field with floors, and square roots in it: the first root of a quadratic is a root
(`firstRoot_isRoot`), and comes after 0 where the quadratic starts positive and falling
(`firstRoot_pos`).
-/

set_option autoImplicit false

namespace Lib

class Scalar (K : Type*) extends Field K, LinearOrder K, IsStrictOrderedRing K, FloorRing K

instance : Scalar ℚ where

noncomputable instance : Scalar ℝ where

structure IsSqrt {K : Type*} [Scalar K] (sqrt : K → K) : Prop where
  nonneg : ∀ x, 0 ≤ x → 0 ≤ sqrt x
  mul_self : ∀ x, 0 ≤ x → sqrt x * sqrt x = x

theorem isSqrt_real : IsSqrt Real.sqrt where
  nonneg x _ := Real.sqrt_nonneg x
  mul_self _ := Real.mul_self_sqrt

variable {K : Type*} [Scalar K] {sqrt : K → K} {a h c : K}

def firstRoot (sqrt : K → K) (a h c : K) : K := (-h - sqrt (h * h - a * c)) / a

theorem firstRoot_isRoot (hsqrt : IsSqrt sqrt) (ha : 0 < a) (hdisc : 0 ≤ h * h - a * c) :
    a * (firstRoot sqrt a h c * firstRoot sqrt a h c) + 2 * h * firstRoot sqrt a h c + c = 0 := by
  have hroot : a * firstRoot sqrt a h c = -h - sqrt (h * h - a * c) := mul_div_cancel₀ _ ha.ne'
  have hsquare := hsqrt.mul_self _ hdisc
  refine (mul_eq_zero.mp ?_).resolve_left ha.ne'
  linear_combination (a * firstRoot sqrt a h c + 2 * h - h - sqrt (h * h - a * c)) * hroot + hsquare

theorem firstRoot_pos (hsqrt : IsSqrt sqrt) (ha : 0 < a) (hh : h < 0) (hc : 0 < c)
    (hdisc : 0 ≤ h * h - a * c) : 0 < firstRoot sqrt a h c := by
  refine div_pos ?_ ha
  have hsquare := hsqrt.mul_self _ hdisc
  have hnonneg := hsqrt.nonneg _ hdisc
  have hac := mul_pos ha hc
  by_contra hle
  nlinarith

end Lib
