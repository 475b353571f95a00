import Mathlib.Tactic.Linarith
import BeforeColony.Sim.Cells

/-!
# Rocks

A rock of the debris field is an ellipsoid, and a ball sweeping along a segment meets it where the
segment enters the ellipsoid grown by the ball's radius: at once, where it starts within a hair's
breadth of it. Away from the box of its bounds nothing else of it is met (`sweep_of_missed`).
-/

set_option autoImplicit false

namespace BeforeColony

open Lib

namespace Vec

variable {K : Type*} [Scalar K]

def dot (p q : Vec K) : K := p.x * q.x + p.y * q.y + p.z * q.z

def cross (p q : Vec K) : Vec K :=
  ⟨p.y * q.z - q.y * p.z, p.z * q.x - q.z * p.x, p.x * q.y - q.x * p.y⟩

def scale (p : Vec K) (k : K) : Vec K := ⟨p.x * k, p.y * k, p.z * k⟩

def div (p q : Vec K) : Vec K := ⟨p.x / q.x, p.y / q.y, p.z / q.z⟩

def onWay (a b : Vec K) (t : K) : Vec K := a.add ((b.sub a).scale t)

theorem onWay_between (a b : Vec K) {t : K} (h0 : 0 ≤ t) (h1 : t ≤ 1) :
    (a.min b).Le (a.onWay b t) ∧ (a.onWay b t).Le (a.max b) := by
  have hlow (u v : K) : Min.min u v ≤ u + (v - u) * t := by
    rcases le_total u v with huv | hvu
    · rw [min_eq_left huv]
      have hstep := mul_nonneg (sub_nonneg.mpr huv) h0
      linarith
    · rw [min_eq_right hvu]
      have hstep := mul_nonneg (sub_nonneg.mpr hvu) (sub_nonneg.mpr h1)
      linarith
  have hhigh (u v : K) : u + (v - u) * t ≤ Max.max u v := by
    rcases le_total u v with huv | hvu
    · rw [max_eq_right huv]
      have hstep := mul_nonneg (sub_nonneg.mpr huv) (sub_nonneg.mpr h1)
      linarith
    · rw [max_eq_left hvu]
      have hstep := mul_nonneg (sub_nonneg.mpr hvu) h0
      linarith
  exact ⟨⟨hlow _ _, hlow _ _, hlow _ _⟩, hhigh _ _, hhigh _ _, hhigh _ _⟩

/-- What a vector has a negative product with is not 0. -/
theorem dot_self_pos {p d : Vec K} (h : p.dot d < 0) : 0 < d.dot d := by
  have hx := mul_self_nonneg d.x
  have hy := mul_self_nonneg d.y
  have hz := mul_self_nonneg d.z
  unfold dot at h ⊢
  by_contra hle
  have hx' : d.x = 0 := mul_self_eq_zero.mp (by linarith)
  have hy' : d.y = 0 := mul_self_eq_zero.mp (by linarith)
  have hz' : d.z = 0 := mul_self_eq_zero.mp (by linarith)
  rw [hx', hy', hz'] at h
  simp at h

end Vec

namespace Debris

structure Quat (K : Type*) where
  x : K
  y : K
  z : K
  w : K

namespace Quat

variable {K : Type*} [Scalar K]

def conjugate (q : Quat K) : Quat K := ⟨-q.x, -q.y, -q.z, q.w⟩

local instance atLeastTwo_two : Nat.AtLeastTwo 2 := ⟨le_rfl⟩

/-- A vector turned by a quaternion of length 1. -/
def rotate (q : Quat K) (v : Vec K) : Vec K :=
  let b : Vec K := ⟨q.x, q.y, q.z⟩
  ((v.scale (q.w * q.w - b.dot b)).add (b.scale (v.dot b * 2))).add ((b.cross v).scale (q.w * 2))

def Unit (q : Quat K) : Prop := q.x * q.x + q.y * q.y + q.z * q.z + q.w * q.w = 1

theorem Unit.conjugate {q : Quat K} (h : q.Unit) : q.conjugate.Unit := by
  unfold Unit Quat.conjugate
  rw [neg_mul_neg, neg_mul_neg, neg_mul_neg]
  exact h

theorem Unit.dot_rotate {q : Quat K} (h : q.Unit) (v : Vec K) :
    (q.rotate v).dot (q.rotate v) = v.dot v := by
  have hscale : (q.rotate v).dot (q.rotate v)
      = (q.x * q.x + q.y * q.y + q.z * q.z + q.w * q.w)
        * (q.x * q.x + q.y * q.y + q.z * q.z + q.w * q.w) * v.dot v := by
    simp only [rotate, Vec.dot, Vec.scale, Vec.add, Vec.cross]
    ring
  rw [hscale, h, one_mul, one_mul]

end Quat

structure Rock (K : Type*) [Scalar K] where
  pos : Vec K
  /-- Bounding radius: the largest half-axis. -/
  radius : K
  axes : Vec K
  rot : Quat K
  axes_pos : 0 < axes.x ∧ 0 < axes.y ∧ 0 < axes.z
  radius_eq : radius = max (max axes.x axes.y) axes.z
  rot_unit : rot.Unit

namespace Rock

variable {K : Type*} [Scalar K]

def unit (k : Rock K) (p : Vec K) (r : K) : Vec K :=
  (k.rot.conjugate.rotate (p.sub k.pos)).div (k.axes.add (.splat r))

/-- How fast the way from `a` to `b` closes on the rock, and how far outside it starts. -/
def halfB (k : Rock K) (a b : Vec K) (r : K) : K := (k.unit a r).dot ((k.unit b r).sub (k.unit a r))

def outside (k : Rock K) (a : Vec K) (r : K) : K := (k.unit a r).dot (k.unit a r) - 1

/-- How far along the way from `a` to `b` (0 to 1) a ball of radius `r` first touches the rock: 0
if it starts touching and moves further in (a hair's breadth counts); none if it never touches, or
only leaves. -/
def sweep (sqrt : K → K) (k : Rock K) (a b : Vec K) (r : K) : Option K :=
  if 0 ≤ k.halfB a b r then none
  else if k.outside a r ≤ 1 / 1000 then some 0
  else
    let d := (k.unit b r).sub (k.unit a r)
    let dd := d.dot d
    let disc := k.halfB a b r * k.halfB a b r - dd * k.outside a r
    if disc < 0 then none
    else
      let t := (-k.halfB a b r - sqrt disc) / dd
      if t ≤ 1 then some t else none

/-- Whether a ball starts touching the rock, or a hair's breadth from it, and moves further in. -/
def TouchedAt (k : Rock K) (a b : Vec K) (r : K) : Prop :=
  k.halfB a b r < 0 ∧ k.outside a r ≤ 1 / 1000

def Overlaps (k : Rock K) (lo hi : Vec K) : Prop :=
  (k.pos.sub (.splat k.radius)).Le hi ∧ lo.Le (k.pos.add (.splat k.radius))

instance (k : Rock K) (lo hi : Vec K) : Decidable (k.Overlaps lo hi) :=
  inferInstanceAs (Decidable (_ ∧ _))

variable {sqrt : K → K} {k : Rock K} {a b q lo hi : Vec K} {r t : K}

def ball (pos : Vec K) (radius : K) (h : 0 < radius) : Rock K where
  pos
  radius
  axes := .splat radius
  rot := ⟨0, 0, 0, 1⟩
  axes_pos := ⟨h, h, h⟩
  radius_eq := by
    simp [Vec.splat]
  rot_unit := by
    simp [Quat.Unit]

theorem axes_le (k : Rock K) : k.axes.x ≤ k.radius ∧ k.axes.y ≤ k.radius ∧ k.axes.z ≤ k.radius := by
  rw [k.radius_eq]
  exact ⟨(le_max_left _ _).trans (le_max_left _ _), (le_max_right _ _).trans (le_max_left _ _),
    le_max_right _ _⟩

theorem radius_pos (k : Rock K) : 0 < k.radius := k.axes_pos.1.trans_le k.axes_le.1

theorem square_div_le {w s S : K} (hs : 0 < s) (hsS : s ≤ S) :
    w * w / (S * S) ≤ w / s * (w / s) := by
  rw [div_mul_div_comm]
  exact div_le_div_of_nonneg_left (mul_self_nonneg w) (mul_pos hs hs)
    (mul_self_le_mul_self hs.le hsS)

/-- Further off than the bounding radius grown by `r`, a point is outside the ellipsoid grown so. -/
theorem one_lt_unit (hr : 0 ≤ r)
    (hfar : (k.radius + r) * (k.radius + r) < (q.sub k.pos).dot (q.sub k.pos)) :
    1 < (k.unit q r).dot (k.unit q r) := by
  obtain ⟨hx, hy, hz⟩ := k.axes_le
  obtain ⟨hx', hy', hz'⟩ := k.axes_pos
  have hpos : 0 < k.radius + r := by
    have := k.radius_pos
    linarith
  rw [← k.rot_unit.conjugate.dot_rotate] at hfar
  generalize hw : k.rot.conjugate.rotate (q.sub k.pos) = w at hfar
  have hdx := square_div_le (w := w.x) (add_pos_of_pos_of_nonneg hx' hr) (add_le_add_left hx r)
  have hdy := square_div_le (w := w.y) (add_pos_of_pos_of_nonneg hy' hr) (add_le_add_left hy r)
  have hdz := square_div_le (w := w.z) (add_pos_of_pos_of_nonneg hz' hr) (add_le_add_left hz r)
  have hsum : 1 < w.x * w.x / ((k.radius + r) * (k.radius + r))
      + w.y * w.y / ((k.radius + r) * (k.radius + r))
      + w.z * w.z / ((k.radius + r) * (k.radius + r)) := by
    rw [← add_div, ← add_div, one_lt_div (mul_pos hpos hpos)]
    exact hfar
  show 1 < (k.unit q r).x * (k.unit q r).x + (k.unit q r).y * (k.unit q r).y
    + (k.unit q r).z * (k.unit q r).z
  unfold unit
  rw [hw]
  simp only [Vec.div, Vec.add, Vec.splat]
  linarith

theorem unit_onWay (k : Rock K) (a b : Vec K) (r t : K) :
    k.unit (a.onWay b t) r = (k.unit a r).onWay (k.unit b r) t := by
  simp only [unit, Vec.onWay, Quat.rotate, Vec.dot, Vec.scale, Vec.add, Vec.cross, Vec.sub, Vec.div]
  congr 1 <;> ring

theorem outside_onWay (k : Rock K) (a b : Vec K) (r t : K) :
    k.outside (a.onWay b t) r = ((k.unit b r).sub (k.unit a r)).dot ((k.unit b r).sub (k.unit a r))
      * (t * t) + 2 * k.halfB a b r * t + k.outside a r := by
  unfold outside halfB
  rw [unit_onWay]
  simp only [Vec.onWay, Vec.dot, Vec.scale, Vec.add, Vec.sub]
  ring

/-- Where the ball ends up outside the box from `lo` to `hi` grown by its radius. -/
theorem far_of_not_overlaps (hr : 0 ≤ r) (hq : lo.Le q) (hq' : q.Le hi)
    (hmiss : ¬ k.Overlaps (lo.sub (.splat r)) (hi.add (.splat r))) :
    (k.radius + r) * (k.radius + r) < (q.sub k.pos).dot (q.sub k.pos) := by
  have hpos : 0 ≤ k.radius + r := add_nonneg k.radius_pos.le hr
  obtain ⟨hx, hy, hz⟩ := hq
  obtain ⟨hx', hy', hz'⟩ := hq'
  -- along some axis the rock is further off than both radii
  have haxis (d : K) (hd : k.radius + r < d ∨ k.radius + r < -d) :
      (k.radius + r) * (k.radius + r) < d * d := by
    rcases hd with hd | hd
    · exact mul_self_lt_mul_self hpos hd
    · rw [← neg_mul_neg d d]
      exact mul_self_lt_mul_self hpos hd
  have hsquares (p : Vec K) : p.x * p.x ≤ p.dot p ∧ p.y * p.y ≤ p.dot p ∧ p.z * p.z ≤ p.dot p := by
    have hpx := mul_self_nonneg p.x
    have hpy := mul_self_nonneg p.y
    have hpz := mul_self_nonneg p.z
    unfold Vec.dot
    refine ⟨?_, ?_, ?_⟩ <;> linarith
  obtain ⟨hlex, hley, hlez⟩ := hsquares (q.sub k.pos)
  simp only [Overlaps, Vec.Le, Vec.sub, Vec.add, Vec.splat, not_and_or, not_le] at hmiss
  rcases hmiss with (h | h | h) | (h | h | h)
  · exact (haxis (q.x - k.pos.x) (.inr (by linarith))).trans_le hlex
  · exact (haxis (q.y - k.pos.y) (.inr (by linarith))).trans_le hley
  · exact (haxis (q.z - k.pos.z) (.inr (by linarith))).trans_le hlez
  · exact (haxis (q.x - k.pos.x) (.inl (by linarith))).trans_le hlex
  · exact (haxis (q.y - k.pos.y) (.inl (by linarith))).trans_le hley
  · exact (haxis (q.z - k.pos.z) (.inl (by linarith))).trans_le hlez

/-! ### What a sweep can come to -/

theorem sweep_of_touchedAt (h : k.TouchedAt a b r) : k.sweep sqrt a b r = some 0 := by
  unfold sweep
  rw [if_neg (not_le.mpr h.1), if_pos h.2]

/-- A rock that isn't touched at the start is met later, where the way enters it. -/
theorem sweep_some (hsqrt : IsSqrt sqrt) (htouched : ¬ k.TouchedAt a b r)
    (h : k.sweep sqrt a b r = some t) :
    0 < t ∧ t ≤ 1 ∧ k.outside (a.onWay b t) r = 0 := by
  unfold sweep at h
  split at h
  · cases h
  · rename_i hclosing
    have hhalf := not_le.mp hclosing
    split at h
    · exact absurd ⟨hhalf, ‹_›⟩ htouched
    · rename_i hout
      have hpos : 0 < k.outside a r := lt_trans (by norm_num) (not_le.mp hout)
      dsimp only at h
      split at h
      · cases h
      · rename_i hdisc
        split at h
        · rename_i hle
          cases h
          have hdd := Vec.dot_self_pos hhalf
          refine ⟨firstRoot_pos hsqrt hdd hhalf hpos (not_lt.mp hdisc), hle, ?_⟩
          rw [outside_onWay]
          exact firstRoot_isRoot hsqrt hdd (not_lt.mp hdisc)
        · cases h

theorem sweep_nonneg (hsqrt : IsSqrt sqrt) (h : k.sweep sqrt a b r = some t) : 0 ≤ t := by
  by_cases htouched : k.TouchedAt a b r
  · rw [sweep_of_touchedAt htouched] at h
    cases h
    exact le_rfl
  · exact (sweep_some hsqrt htouched h).1.le

/-- A rock whose bounds the ball's box misses is met at the start or not at all. -/
theorem sweep_of_missed (hsqrt : IsSqrt sqrt) (hr : 0 ≤ r)
    (hmiss : ¬ k.Overlaps ((a.min b).sub (.splat r)) ((a.max b).add (.splat r)))
    (htouched : ¬ k.TouchedAt a b r) : k.sweep sqrt a b r = none := by
  by_contra hmet
  obtain ⟨t, ht⟩ := Option.ne_none_iff_exists'.mp hmet
  obtain ⟨hpos, hle, hzero⟩ := sweep_some hsqrt htouched ht
  obtain ⟨hmin, hmax⟩ := Vec.onWay_between a b hpos.le hle
  have hfar := one_lt_unit hr (far_of_not_overlaps hr hmin hmax hmiss)
  unfold outside at hzero
  linarith

end Rock

end Debris

end BeforeColony
