import Mathlib.Algebra.Ring.Int.Defs
import Mathlib.Logic.Function.Iterate
import Mathlib.Tactic.IntervalCases
import Mathlib.Tactic.Ring

/-!
# Exact points of the square-and-triangle tiling

A building is squares and equilateral triangles with 3 m edges, every edge at a multiple of 30°. Its
vertices, midpoints and centroids are `(a + bζ + cζ² + dζ³)/2` metres, `ζ` a turn of 30°, so a point
has one key and a turn is a shuffle of whole numbers. What lies along a direction is `P + Q√3`, whose
sign is decided in whole numbers, and whether two pieces overlap is asked along six directions.
-/

set_option autoImplicit false

namespace BeforeColony.Pieces

/-- A point of the tiling: `(a + bζ + cζ² + dζ³)/2` metres. -/
@[ext] structure LPt where
  a : ℤ
  b : ℤ
  c : ℤ
  d : ℤ
deriving DecidableEq, Repr

namespace LPt

def zero : LPt := ⟨0, 0, 0, 0⟩

def add (p o : LPt) : LPt := ⟨p.a + o.a, p.b + o.b, p.c + o.c, p.d + o.d⟩

def sub (p o : LPt) : LPt := ⟨p.a - o.a, p.b - o.b, p.c - o.c, p.d - o.d⟩

def rot1 (p : LPt) : LPt := ⟨-p.d, p.a, p.b + p.d, p.c⟩

/-- Turned `k` steps of 30°; twelve is a whole turn. -/
def rot (p : LPt) (k : ℕ) : LPt := rot1^[k % 12] p

def edge (k : ℕ) : LPt := rot ⟨6, 0, 0, 0⟩ k

/-- Coefficients are words of 32 bits. Within this no sum, turn or product of those here comes near
their end, so whole numbers stand for them. -/
def latticeMaxCoef : ℤ := 2 ^ 14

/-- Whether every coefficient is inside `latticeMaxCoef`. -/
def fits (p : LPt) : Bool :=
  p.a.natAbs ≤ latticeMaxCoef ∧ p.b.natAbs ≤ latticeMaxCoef ∧
    p.c.natAbs ≤ latticeMaxCoef ∧ p.d.natAbs ≤ latticeMaxCoef

/-- Four times the projection onto direction `m`, as `(P, Q)` meaning `P + Q√3`. -/
def proj4 (p : LPt) (m : ℕ) : ℤ × ℤ :=
  let q := p.rot (12 - m % 12)
  (2 * q.a + q.c, q.b)

/-! ## Turns -/

theorem rot1_twelve (p : LPt) : rot1^[12] p = p := by
  simp only [Function.iterate_succ, Function.iterate_zero, Function.comp_apply, id, rot1]
  ext <;> ring

theorem rot_mod (p : LPt) (k : ℕ) : p.rot (k % 12) = p.rot k := by
  simp [rot]

/-- A turn is as many steps as it says, however many whole turns are in it. -/
theorem rot_eq (p : LPt) (k : ℕ) : p.rot k = rot1^[k] p := by
  have hwhole : ∀ n, rot1^[12 * n] p = p := by
    intro n
    induction n with
    | zero => rfl
    | succ n ih => rw [Nat.mul_succ, Function.iterate_add_apply, rot1_twelve, ih]
  rw [rot]
  conv_rhs => rw [← Nat.mod_add_div k 12, Function.iterate_add_apply, hwhole]

@[simp] theorem rot_zero (p : LPt) : p.rot 0 = p := rfl

theorem rot_rot (p : LPt) (j k : ℕ) : (p.rot j).rot k = p.rot (j + k) := by
  rw [rot_eq, rot_eq, rot_eq, ← Function.iterate_add_apply, Nat.add_comm]

theorem rot_twelve (p : LPt) (k : ℕ) : p.rot (k + 12) = p.rot k := by
  rw [← rot_mod, Nat.add_mod_right, rot_mod]

theorem rot1_add (p o : LPt) : (p.add o).rot1 = p.rot1.add o.rot1 := by
  ext <;> simp only [rot1, add] <;> ring

theorem rot_add (p o : LPt) (k : ℕ) : (p.add o).rot k = (p.rot k).add (o.rot k) := by
  simp only [rot_eq]
  induction k with
  | zero => rfl
  | succ k ih => simp only [Function.iterate_succ_apply', ih, rot1_add]

end LPt

def signPQ3 (p q : ℤ) : ℤ :=
  if 0 ≤ p ∧ 0 ≤ q then if p ≠ 0 ∨ q ≠ 0 then 1 else 0
  else if p ≤ 0 ∧ q ≤ 0 then if p ≠ 0 ∨ q ≠ 0 then -1 else 0
  else if 0 < p then if p * p > 3 * q * q then 1 else -1
  else if p * p > 3 * q * q then -1 else 1

/-- Two points compared along direction `m`. -/
def cmpAlong (p q : LPt) (m : ℕ) : ℤ :=
  signPQ3 ((p.sub q).proj4 m).1 ((p.sub q).proj4 m).2

def squareCorners (start : LPt) (dir : ℕ) : List LPt :=
  let dir := dir % 12
  let e := LPt.edge dir
  let f := LPt.edge (dir + 3)
  [start, start.add e, (start.add e).add f, start.add f]

def triangleCorners (start : LPt) (dir : ℕ) : List LPt :=
  let dir := dir % 12
  [start, start.add (LPt.edge dir), start.add (LPt.edge (dir + 2))]

/-- The extreme corner of `v :: poly` along direction `m`: `hi` for the furthest, else the
nearest. -/
def extreme (v : LPt) (poly : List LPt) (m : ℕ) (hi : Bool) : LPt :=
  poly.foldl
    (fun best v =>
      let s := cmpAlong v best m
      if (hi ∧ s > 0) ∨ (!hi ∧ s < 0) then v else best) v

/-- Whether two convex pieces overlap in area: along none of six directions is one all before the
other. -/
def overlaps : List LPt → List LPt → Bool
  | [], _ => false
  | _, [] => false
  | a :: as, b :: bs =>
    (List.range 6).all fun m =>
      !(decide (cmpAlong (extreme a as m true) (extreme b bs m false) m ≤ 0) ||
        decide (cmpAlong (extreme b bs m true) (extreme a as m false) m ≤ 0))

end BeforeColony.Pieces
