import Mathlib.Analysis.SpecialFunctions.Trigonometric.Basic
import Mathlib.NumberTheory.Real.Irrational
import BeforeColony.Pieces.Lattice

/-!
# The tiling's points on the plane

What a lattice point is in metres, and what lies along a direction of 30° steps. A turn of the
lattice is the plane's (`toPlane_rot`), and comparing two points in whole numbers is comparing them
on the plane (`cmpAlong_eq`): `√3` is irrational, so no sum `P + Q√3` but zero's own is zero.
-/

set_option autoImplicit false

namespace BeforeColony.Pieces

open Real

abbrev Plane := ℝ × ℝ

namespace Plane

/-- Direction `m`: `m` steps of 30° round from the first axis. -/
noncomputable def way (m : ℕ) : Plane := (cos (m * (π / 6)), sin (m * (π / 6)))

noncomputable def along (m : ℕ) : Plane →ₗ[ℝ] ℝ :=
  (way m).1 • LinearMap.fst ℝ ℝ ℝ + (way m).2 • LinearMap.snd ℝ ℝ ℝ

theorem along_apply (m : ℕ) (v : Plane) :
    along m v = cos (m * (π / 6)) * v.1 + sin (m * (π / 6)) * v.2 := by
  simp [along, way]

noncomputable def turnBy (k : ℕ) (v : Plane) : Plane :=
  (cos (k * (π / 6)) * v.1 - sin (k * (π / 6)) * v.2,
    sin (k * (π / 6)) * v.1 + cos (k * (π / 6)) * v.2)

theorem turnBy_zero (v : Plane) : turnBy 0 v = v := by
  simp [turnBy]

theorem turnBy_succ (k : ℕ) (v : Plane) :
    turnBy (k + 1) v = (√3 / 2 * (turnBy k v).1 - 1 / 2 * (turnBy k v).2,
      1 / 2 * (turnBy k v).1 + √3 / 2 * (turnBy k v).2) := by
  simp only [turnBy, Nat.cast_succ, add_mul, one_mul, cos_add, sin_add, cos_pi_div_six,
    sin_pi_div_six]
  ext <;> simp only <;> ring

theorem along_turnBy (m k : ℕ) (v : Plane) : along (m + k) (turnBy k v) = along m v := by
  have hone := sin_sq_add_cos_sq (k * (π / 6))
  simp only [along_apply, turnBy, Nat.cast_add, add_mul, cos_add, sin_add]
  linear_combination (cos (m * (π / 6)) * v.1 + sin (m * (π / 6)) * v.2) * hone

theorem along_add_six (m : ℕ) (v : Plane) : along (m + 6) v = -along m v := by
  have hangle : ((m + 6 : ℕ) : ℝ) * (π / 6) = m * (π / 6) + π := by
    push_cast
    ring
  simp only [along_apply, hangle, cos_add_pi, sin_add_pi]
  ring

theorem along_add_twelve (m : ℕ) (v : Plane) : along (m + 12) v = along m v := by
  rw [show m + 12 = m + 6 + 6 from rfl, along_add_six, along_add_six, neg_neg]

theorem along_mod (m : ℕ) (v : Plane) : along (m % 12) v = along m v := by
  have hwhole : ∀ n, along (m % 12 + 12 * n) v = along (m % 12) v := by
    intro n
    induction n with
    | zero => rfl
    | succ n ih => rw [Nat.mul_succ, ← Nat.add_assoc, along_add_twelve, ih]
  rw [← hwhole (m / 12), Nat.mod_add_div]

theorem along_zero (v : Plane) : along 0 v = v.1 := by
  simp [along_apply]

theorem along_add (d j : ℕ) (v : Plane) :
    along (d + j) v = cos (j * (π / 6)) * along d v + sin (j * (π / 6)) * along (d + 3) v := by
  have hangle : ((d + 3 : ℕ) : ℝ) * (π / 6) = d * (π / 6) + π / 2 := by
    push_cast
    ring
  rw [along_apply (d + 3), hangle, cos_add_pi_div_two, sin_add_pi_div_two]
  simp only [along_apply, Nat.cast_add, add_mul, cos_add, sin_add]
  ring

theorem along_way (m k : ℕ) : along m (way k) = cos (m * (π / 6) - k * (π / 6)) := by
  rw [along_apply, way, cos_sub]

theorem along_way_self (m : ℕ) : along m (way m) = 1 := by
  rw [along_way, sub_self, cos_zero]

/-- A point by how far along two directions at right angles it is. -/
theorem eq_add_way (d : ℕ) (v : Plane) :
    v = along d v • way d + along (d + 3) v • way (d + 3) := by
  have hangle : ((d + 3 : ℕ) : ℝ) * (π / 6) = d * (π / 6) + π / 2 := by
    push_cast
    ring
  have hone := sin_sq_add_cos_sq (d * (π / 6))
  ext
  · simp only [along_apply, way, hangle, cos_add_pi_div_two, sin_add_pi_div_two, Prod.smul_mk,
      Prod.fst_add, smul_eq_mul]
    linear_combination -v.1 * hone
  · simp only [along_apply, way, hangle, cos_add_pi_div_two, sin_add_pi_div_two, Prod.smul_mk,
      Prod.snd_add, smul_eq_mul]
    linear_combination -v.2 * hone

end Plane

open Plane

namespace LPt

/-- A lattice point in metres, half a metre to the step: `ζ` is a turn of 30°. -/
noncomputable def toPlane (p : LPt) : Plane :=
  (0.5 * (p.a + p.b * cos (π / 6) + 0.5 * p.c), 0.5 * (0.5 * p.b + p.c * cos (π / 6) + p.d))

theorem toPlane_eq (p : LPt) :
    p.toPlane = ((2 * p.a + p.c + p.b * √3) / 4, (2 * p.d + p.b + p.c * √3) / 4) := by
  rw [toPlane, cos_pi_div_six]
  ext
  · norm_num
    ring
  · norm_num
    ring

theorem toPlane_add (p o : LPt) : (p.add o).toPlane = p.toPlane + o.toPlane := by
  ext <;> simp only [toPlane_eq, add, Prod.fst_add, Prod.snd_add] <;> push_cast <;> ring

theorem toPlane_sub (p o : LPt) : (p.sub o).toPlane = p.toPlane - o.toPlane := by
  ext <;> simp only [toPlane_eq, sub, Prod.fst_sub, Prod.snd_sub] <;> push_cast <;> ring

theorem toPlane_rot (p : LPt) (k : ℕ) : (p.rot k).toPlane = turnBy k p.toPlane := by
  rw [rot_eq]
  have hthree : √3 * √3 = 3 := mul_self_sqrt (by norm_num)
  induction k with
  | zero => rw [turnBy_zero, Function.iterate_zero, id]
  | succ k ih =>
    rw [Function.iterate_succ_apply', turnBy_succ, ← ih]
    ext
    · simp only [toPlane_eq, rot1]
      push_cast
      linear_combination (-(1 : ℝ) / 8 * (rot1^[k] p).b) * hthree
    · simp only [toPlane_eq, rot1]
      push_cast
      linear_combination (-(1 : ℝ) / 8 * (rot1^[k] p).c) * hthree

theorem toPlane_edge (k : ℕ) : (edge k).toPlane = (3 : ℝ) • way k := by
  have hside : (⟨6, 0, 0, 0⟩ : LPt).toPlane = (3, 0) := by
    ext
    · simp only [toPlane_eq]
      norm_num
    · simp [toPlane_eq]
  rw [edge, toPlane_rot, hside]
  simp only [turnBy, way, Prod.smul_mk, smul_eq_mul, mul_zero, sub_zero, add_zero, mul_comm (3 : ℝ)]

theorem proj4_eq (p : LPt) (m : ℕ) :
    ((p.proj4 m).1 : ℝ) + (p.proj4 m).2 * √3 = 4 * along m p.toPlane := by
  have hback : along m p.toPlane = (p.rot (12 - m % 12)).toPlane.1 := by
    rw [toPlane_rot, ← along_zero, ← along_mod m, ← along_turnBy (m % 12) (12 - m % 12),
      Nat.add_sub_cancel' (Nat.mod_lt m (by decide)).le, ← along_mod 12]
  rw [hback, proj4, toPlane_eq]
  push_cast
  ring

end LPt

theorem eq_zero_of_square {p q : ℤ} (h : p * p = 3 * q * q) : q = 0 := by
  by_contra hq
  have hq' : (q : ℝ) ≠ 0 := Int.cast_ne_zero.mpr hq
  have hcast : (p : ℝ) * p = 3 * q * q := by exact_mod_cast h
  have hratio : √3 = |(p : ℝ) / q| := by
    rw [sqrt_eq_iff_mul_self_eq (by norm_num) (abs_nonneg _), abs_mul_abs_self]
    field_simp
    linear_combination -hcast
  apply Nat.prime_three.irrational_sqrt
  refine ⟨|(p : ℚ) / q|, ?_⟩
  push_cast
  exact hratio.symm

/-- The larger of two numbers tells their sum's sign. -/
theorem add_pos_of_square_lt {x y : ℝ} (hx : 0 < x) (h : y * y < x * x) : 0 < x + y := by
  have hlt : |y| < x := abs_of_pos hx ▸ sq_lt_sq.mp (by rwa [sq, sq])
  linarith [(abs_lt.mp hlt).1]

theorem signPQ3_eq (p q : ℤ) : signPQ3 p q = SignType.sign ((p : ℝ) + q * √3) := by
  have hroot : 0 < √3 := sqrt_pos.mpr (by norm_num)
  have hsquare : ((q : ℝ) * √3) * (q * √3) = 3 * q * q := by
    linear_combination (q : ℝ) * q * mul_self_sqrt (show (0 : ℝ) ≤ 3 by norm_num)
  have hexact : q ≠ 0 → p * p ≠ 3 * q * q := fun hq h => hq (eq_zero_of_square h)
  have hlarger : p * p > 3 * q * q → ((q : ℝ) * √3) * (q * √3) < p * p := by
    intro h
    rw [hsquare]
    exact_mod_cast h
  have hsmaller : q ≠ 0 → ¬ p * p > 3 * q * q → (p : ℝ) * p < ((q : ℝ) * √3) * (q * √3) := by
    intro hq h
    rw [hsquare]
    exact_mod_cast lt_of_le_of_ne (not_lt.mp h) (hexact hq)
  unfold signPQ3
  split_ifs with hpos hne hneg hne hp hbig hbig
  · rw [sign_pos]
    · rfl
    · obtain ⟨hp, hq⟩ := hpos
      have hp' : (0 : ℝ) ≤ p := Int.cast_nonneg hp
      have hq' : (0 : ℝ) ≤ q * √3 := mul_nonneg (Int.cast_nonneg hq) hroot.le
      rcases hne with hne | hne
      · have : (0 : ℝ) < p := Int.cast_pos.mpr (by omega)
        linarith
      · have : (0 : ℝ) < q * √3 := mul_pos (Int.cast_pos.mpr (by omega)) hroot
        linarith
  · simp only [ne_eq, not_or, not_not] at hne
    simp [hne.1, hne.2]
  · rw [sign_eq_neg_one_iff.mpr]
    · rfl
    · obtain ⟨hp, hq⟩ := hneg
      have hp' : (p : ℝ) ≤ 0 := Int.cast_nonpos.mpr hp
      have hq' : (q : ℝ) * √3 ≤ 0 := mul_nonpos_of_nonpos_of_nonneg (Int.cast_nonpos.mpr hq) hroot.le
      rcases hne with hne | hne
      · have : (p : ℝ) < 0 := Int.cast_lt_zero.mpr (by omega)
        linarith
      · have : (q : ℝ) * √3 < 0 := mul_neg_of_neg_of_pos (Int.cast_lt_zero.mpr (by omega)) hroot
        linarith
  · simp only [ne_eq, not_or, not_not] at hne
    simp [hne.1, hne.2]
  · rw [sign_pos (add_pos_of_square_lt (Int.cast_pos.mpr hp) (hlarger hbig))]
    rfl
  · have hq : q < 0 := by
      by_contra hq
      exact hpos ⟨hp.le, not_lt.mp hq⟩
    have hsum := add_pos_of_square_lt (x := -((q : ℝ) * √3)) (y := -(p : ℝ))
      (neg_pos.mpr (mul_neg_of_neg_of_pos (Int.cast_lt_zero.mpr hq) hroot))
      (by simpa only [neg_mul_neg] using hsmaller hq.ne hbig)
    rw [sign_eq_neg_one_iff.mpr (by linarith)]
    rfl
  · have hp' : p < 0 := by
      by_contra hlt
      have hzero : p = 0 := by omega
      rw [hzero] at hbig
      nlinarith [mul_self_nonneg q]
    have hsum := add_pos_of_square_lt (x := -(p : ℝ)) (y := -((q : ℝ) * √3))
      (neg_pos.mpr (Int.cast_lt_zero.mpr hp')) (by simpa only [neg_mul_neg] using hlarger hbig)
    rw [sign_eq_neg_one_iff.mpr (by linarith)]
    rfl
  · have hq : 0 < q := by
      by_contra hq
      exact hneg ⟨not_lt.mp hp, not_lt.mp hq⟩
    have hsum := add_pos_of_square_lt (x := (q : ℝ) * √3) (y := (p : ℝ))
      (mul_pos (Int.cast_pos.mpr hq) hroot) (hsmaller hq.ne' hbig)
    rw [sign_pos (by linarith)]
    rfl

/-- Two points compared along a direction, as they lie on the plane. -/
theorem cmpAlong_eq (p q : LPt) (m : ℕ) :
    cmpAlong p q m = SignType.sign (along m p.toPlane - along m q.toPlane) := by
  rw [cmpAlong, signPQ3_eq, LPt.proj4_eq, LPt.toPlane_sub, map_sub]
  rcases lt_trichotomy (along m p.toPlane - along m q.toPlane) 0 with h | h | h
  · rw [sign_eq_neg_one_iff.mpr h, sign_eq_neg_one_iff.mpr (by linarith)]
  · rw [h, mul_zero]
  · rw [sign_pos h, sign_pos (by linarith)]

theorem cmpAlong_le_zero {p q : LPt} {m : ℕ} :
    cmpAlong p q m ≤ 0 ↔ along m p.toPlane ≤ along m q.toPlane := by
  rw [cmpAlong_eq, ← sub_nonpos (a := along m p.toPlane)]
  rcases lt_trichotomy (along m p.toPlane - along m q.toPlane) 0 with h | h | h
  · simp [sign_eq_neg_one_iff.mpr h, h.le]
  · simp [h]
  · simp [sign_pos h, sub_pos.mp h]

theorem zero_lt_cmpAlong {p q : LPt} {m : ℕ} :
    0 < cmpAlong p q m ↔ along m q.toPlane < along m p.toPlane := by
  rw [← not_le, cmpAlong_le_zero, not_le]

theorem cmpAlong_lt_zero {p q : LPt} {m : ℕ} :
    cmpAlong p q m < 0 ↔ along m p.toPlane < along m q.toPlane := by
  rw [cmpAlong_eq, ← sub_neg (a := along m p.toPlane)]
  rcases lt_trichotomy (along m p.toPlane - along m q.toPlane) 0 with h | h | h
  · simp [sign_eq_neg_one_iff.mpr h, h]
  · simp [h]
  · simp [sign_pos h, (sub_pos.mp h).le]

/-! ## Extreme corners -/

theorem extreme_mem (v : LPt) (poly : List LPt) (m : ℕ) (hi : Bool) :
    extreme v poly m hi ∈ v :: poly := by
  induction poly generalizing v with
  | nil => exact List.mem_singleton_self v
  | cons w poly ih =>
    rw [extreme, List.foldl_cons]
    dsimp only
    split
    · exact List.mem_cons_of_mem v (ih w)
    · change extreme v poly m hi ∈ v :: w :: poly
      rcases List.mem_cons.mp (ih v) with h | h
      · rw [h]
        exact List.mem_cons_self
      · exact List.mem_cons_of_mem v (List.mem_cons_of_mem w h)

theorem le_extreme (v : LPt) (poly : List LPt) (m : ℕ) :
    ∀ w ∈ v :: poly, along m w.toPlane ≤ along m (extreme v poly m true).toPlane := by
  induction poly generalizing v with
  | nil =>
    intro w hw
    rw [List.mem_singleton.mp hw]
    rfl
  | cons u poly ih =>
    rw [extreme, List.foldl_cons]
    dsimp only
    split
    next hcmp =>
      have hvu := zero_lt_cmpAlong.mp (by simpa using hcmp)
      intro w hw
      rcases List.mem_cons.mp hw with rfl | hw
      · exact hvu.le.trans (ih u u List.mem_cons_self)
      · exact ih u w hw
    next hcmp =>
      have huv := cmpAlong_le_zero.mp (not_lt.mp (by simpa using hcmp))
      intro w hw
      rcases List.mem_cons.mp hw with rfl | hw
      · exact ih w w List.mem_cons_self
      · rcases List.mem_cons.mp hw with rfl | hw
        · exact huv.trans (ih v v List.mem_cons_self)
        · exact ih v w (List.mem_cons_of_mem v hw)

theorem extreme_le (v : LPt) (poly : List LPt) (m : ℕ) :
    ∀ w ∈ v :: poly, along m (extreme v poly m false).toPlane ≤ along m w.toPlane := by
  induction poly generalizing v with
  | nil =>
    intro w hw
    rw [List.mem_singleton.mp hw]
    rfl
  | cons u poly ih =>
    rw [extreme, List.foldl_cons]
    dsimp only
    split
    next hcmp =>
      have huv := cmpAlong_lt_zero.mp (by simpa using hcmp)
      intro w hw
      rcases List.mem_cons.mp hw with rfl | hw
      · exact (ih u u List.mem_cons_self).trans huv.le
      · exact ih u w hw
    next hcmp =>
      have hvu := (not_lt.mp (mt cmpAlong_lt_zero.mpr (by simpa using hcmp)))
      intro w hw
      rcases List.mem_cons.mp hw with rfl | hw
      · exact ih w w List.mem_cons_self
      · rcases List.mem_cons.mp hw with rfl | hw
        · exact (ih v v List.mem_cons_self).trans hvu
        · exact ih v w (List.mem_cons_of_mem v hw)

/-- All of one piece's corners before all of another's along direction `m`. -/
def Before (m : ℕ) (a b : List LPt) : Prop :=
  ∀ p ∈ a, ∀ q ∈ b, along m p.toPlane ≤ along m q.toPlane

/-- Two pieces overlap where along none of the six directions one is before the other. -/
theorem overlaps_iff {a b : List LPt} (ha : a ≠ []) (hb : b ≠ []) :
    overlaps a b = true ↔ ∀ m < 6, ¬ Before m a b ∧ ¬ Before m b a := by
  obtain ⟨p, as, rfl⟩ := List.exists_cons_of_ne_nil ha
  obtain ⟨q, bs, rfl⟩ := List.exists_cons_of_ne_nil hb
  have hbefore : ∀ (m : ℕ) (p q : LPt) (as bs : List LPt), Before m (p :: as) (q :: bs) ↔
      cmpAlong (extreme p as m true) (extreme q bs m false) m ≤ 0 := by
    intro m p q as bs
    rw [cmpAlong_le_zero]
    constructor
    · intro h
      exact h _ (extreme_mem p as m true) _ (extreme_mem q bs m false)
    · intro h u hu w hw
      exact (le_extreme p as m u hu).trans (h.trans (extreme_le q bs m w hw))
  simp only [overlaps, List.all_eq_true, List.mem_range, hbefore, Bool.not_eq_true',
    Bool.or_eq_false_iff, decide_eq_false_iff_not]

end BeforeColony.Pieces
