import Mathlib.Tactic.IntervalCases
import BeforeColony.Pieces.Lattice

/-!
# Footprints

Which part of its building's tiling a piece takes, as an exact key: a square or a triangle by its
middle and the direction of a side, one 3 m edge by its middle and its direction, a flight by the
body it stands on and the way it climbs. A body's sides are edges (`sides`), and what stands on
either side of an edge is named by the edge (`beside`); each undoes the other
(`mem_sides_iff_beside`).
-/

set_option autoImplicit false

namespace BeforeColony.Pieces

inductive Foot where
  | square
  | tri
  | edge
  | riser
  | triRiser
deriving DecidableEq, Repr

def halfSide : LPt := ⟨3, 0, 0, 0⟩

/-- A triangle's apothem, `√3/2` m. -/
def triApothem : LPt := ⟨0, 2, 0, -1⟩

/-- One footprint in a building's lattice: `mid` a body's middle or an edge's. -/
structure Sock where
  foot : Foot
  mid : LPt
  dir : ℕ
deriving DecidableEq, Repr

namespace Sock

def square (mid : LPt) (dir : ℕ) : Sock := ⟨.square, mid, dir % 3⟩

def tri (mid : LPt) (dir : ℕ) : Sock := ⟨.tri, mid, dir % 4⟩

def edge (mid : LPt) (dir : ℕ) : Sock := ⟨.edge, mid, dir % 6⟩

/-- A whole number of sides' thirds, exactly: a side is six half-metres. -/
def third (s : LPt) : LPt := ⟨s.a.tdiv 3, s.b.tdiv 3, s.c.tdiv 3, s.d.tdiv 3⟩

def half (s : LPt) : LPt := ⟨s.a.tdiv 2, s.b.tdiv 2, s.c.tdiv 2, s.d.tdiv 2⟩

def squareFrom (start : LPt) (dir : ℕ) : Sock :=
  square ((start.add (halfSide.rot dir)).add (halfSide.rot (dir + 3))) dir

def edgeFrom (start : LPt) (dir : ℕ) : Sock := edge (start.add (halfSide.rot dir)) dir

/-- The flight on the square centred at `mid`, climbing along `dir`. -/
def riser (mid : LPt) (dir : ℕ) : Sock := ⟨.riser, mid, dir % 12⟩

/-- The flight on the triangle centred at `mid`. -/
def triRiser (mid : LPt) (dir : ℕ) : Sock := ⟨.triRiser, mid, dir % 12⟩

def isRiser (s : Sock) : Bool := s.foot = .riser ∨ s.foot = .triRiser

/-- The body a flight stands on, or the footprint itself. -/
def body (s : Sock) : Sock :=
  match s.foot with
  | .riser => square s.mid s.dir
  | .triRiser => tri s.mid s.dir
  | _ => s

def ownCorners (s : Sock) : List LPt :=
  match s.foot with
  | .square =>
    squareCorners ((s.mid.sub (halfSide.rot s.dir)).sub (halfSide.rot (s.dir + 3))) s.dir
  | .tri =>
    triangleCorners (s.mid.sub (third ((LPt.edge s.dir).add (LPt.edge (s.dir + 2))))) s.dir
  | _ => [s.mid.sub (halfSide.rot s.dir), s.mid.add (halfSide.rot s.dir)]

/-- A body's corners, in order round it, or an edge's two ends. -/
def corners (s : Sock) : List LPt :=
  if s.isRiser then s.body.ownCorners else s.ownCorners

/-- The edge between two adjacent corners. -/
def edgeBetween (p q : LPt) : Sock :=
  edge (half (p.add q)) (((List.range 12).find? fun k => LPt.edge k = q.sub p).getD 12)

/-- A body's sides as edges, in corner order. An edge has none. -/
def sides (s : Sock) : List Sock :=
  if s.foot = .edge then [] else
    let c := s.body.corners
    (List.range c.length).map fun i =>
      edgeBetween (c.getD i .zero) (c.getD ((i + 1) % c.length) .zero)

/-- The two bodies that can stand on `side` of an edge, 1 the anticlockwise side: a square and a
triangle. -/
def beside (edge : Sock) (side : ℤ) : Sock × Sock :=
  let n := if side = 1 then edge.dir + 3 else edge.dir + 9
  (square (edge.mid.add (halfSide.rot n)) edge.dir,
    tri (edge.mid.add (triApothem.rot n)) ((n + 9) % 12))

/-- Whether two footprints overlap in area, or an edge crosses a body. -/
def crosses (a b : Sock) : Bool := overlaps a.corners b.corners

/-- The direction a footprint is named by is the least of those it could be. -/
def Canonical (s : Sock) : Prop :=
  match s.foot with
  | .square => s.dir < 3
  | .tri => s.dir < 4
  | .edge => s.dir < 6
  | .riser => s.dir < 12
  | .triRiser => s.dir < 12

instance (s : Sock) : Decidable s.Canonical := by
  unfold Canonical
  split <;> infer_instance

end Sock

/-- Where a piece is: its building, its level and its footprint. -/
structure PieceAddr where
  bld : ℕ
  level : ℕ
  sock : Sock
deriving DecidableEq, Repr

/-! ## Sides, and what stands beside them -/

namespace LPt

theorem rot_add_six (p : LPt) (k : ℕ) : p.rot (k + 6) = zero.sub (p.rot k) := by
  rw [← rot_rot]
  generalize p.rot k = q
  ext <;> simp only [rot, rot1, sub, zero, Nat.reduceMod, Function.iterate_succ,
    Function.iterate_zero, Function.comp_apply, id] <;> ring

theorem edge_eq (k : ℕ) : edge k = (halfSide.rot k).add (halfSide.rot k) := by
  rw [← rot_add]
  rfl

theorem edge_find : ∀ k < 12, (List.range 12).find? (fun j => edge j = edge k) = some k := by
  decide

end LPt

namespace Sock

open LPt (rot_add_six)

theorem half_twice (p h : LPt) : half (p.add (p.add (h.add h))) = p.add h := by
  have htwo : ∀ x y : ℤ, (x + (x + (y + y))).tdiv 2 = x + y := by
    intro x y
    rw [show x + (x + (y + y)) = 2 * (x + y) by ring, Int.mul_tdiv_cancel_left _ (by decide)]
  ext <;> exact htwo _ _

/-- The edge from a corner to the one a side further along direction `k`. -/
theorem edgeBetween_add {p q : LPt} {k : ℕ} (hk : k < 12) (hq : q = p.add (LPt.edge k)) :
    edgeBetween p q = edge (p.add (halfSide.rot k)) k := by
  have hdiff : q.sub p = LPt.edge k := by
    rw [hq]
    ext <;> simp only [LPt.add, LPt.sub] <;> ring
  rw [edgeBetween, hdiff, LPt.edge_find k hk, hq, LPt.edge_eq, half_twice]
  rfl

theorem sides_of_four {s : Sock} {p q r t : LPt} (hfoot : s.foot ≠ .edge)
    (hcorners : s.body.corners = [p, q, r, t]) :
    s.sides = [edgeBetween p q, edgeBetween q r, edgeBetween r t, edgeBetween t p] := by
  rw [sides, if_neg hfoot, hcorners]
  simp [List.range_succ]

theorem sides_of_three {s : Sock} {p q r : LPt} (hfoot : s.foot ≠ .edge)
    (hcorners : s.body.corners = [p, q, r]) :
    s.sides = [edgeBetween p q, edgeBetween q r, edgeBetween r p] := by
  rw [sides, if_neg hfoot, hcorners]
  simp [List.range_succ]

theorem sides_square (mid : LPt) {d : ℕ} (hd : d < 3) :
    (Sock.mk .square mid d).sides =
      [edge (mid.add (halfSide.rot (d + 9))) d, edge (mid.add (halfSide.rot (d + 12))) (d + 3),
        edge (mid.add (halfSide.rot (d + 15))) (d + 6),
        edge (mid.add (halfSide.rot (d + 18))) (d + 9)] := by
  have hd12 : d % 12 = d := Nat.mod_eq_of_lt (by omega)
  have hsix := rot_add_six halfSide d
  have hnine : halfSide.rot (d + 9) = LPt.zero.sub (halfSide.rot (d + 3)) :=
    rot_add_six halfSide (d + 3)
  have htwelve : halfSide.rot (d + 12) = halfSide.rot d := LPt.rot_twelve halfSide d
  have hfifteen : halfSide.rot (d + 15) = halfSide.rot (d + 3) := LPt.rot_twelve halfSide (d + 3)
  have height : halfSide.rot (d + 18) = halfSide.rot (d + 6) := LPt.rot_twelve halfSide (d + 6)
  have hcorners : (Sock.mk .square mid d).body.corners =
      squareCorners ((mid.sub (halfSide.rot d)).sub (halfSide.rot (d + 3))) d := rfl
  rw [squareCorners, hd12] at hcorners
  rw [sides_of_four (by simp) hcorners, edgeBetween_add (k := d) (by omega) rfl,
    edgeBetween_add (k := d + 3) (by omega) rfl, edgeBetween_add (k := d + 6) (by omega),
    edgeBetween_add (k := d + 9) (by omega)]
  · simp only [LPt.edge_eq, htwelve, hfifteen, height, hsix, hnine]
    generalize halfSide.rot d = x
    generalize halfSide.rot (d + 3) = y
    refine congrArg₂ List.cons (congrArg (edge · d) ?_)
      (congrArg₂ List.cons (congrArg (edge · (d + 3)) ?_)
        (congrArg₂ List.cons (congrArg (edge · (d + 6)) ?_)
          (congrArg₂ List.cons (congrArg (edge · (d + 9)) ?_) rfl))) <;>
      ext <;> simp only [LPt.add, LPt.sub, LPt.zero] <;> ring
  · simp only [LPt.edge_eq, hnine]
    ext <;> simp only [LPt.add, LPt.sub, LPt.zero] <;> ring
  · simp only [LPt.edge_eq, hsix]
    ext <;> simp only [LPt.add, LPt.sub, LPt.zero] <;> ring

/-- From a triangle's first corner, its sides and how far its middle is. -/
theorem triangle_about : ∀ d < 4,
    halfSide.rot d = (third ((LPt.edge d).add (LPt.edge (d + 2)))).add (triApothem.rot (d + 9)) ∧
    (LPt.edge d).add (halfSide.rot (d + 4)) =
      (third ((LPt.edge d).add (LPt.edge (d + 2)))).add (triApothem.rot (d + 13)) ∧
    (LPt.edge (d + 2)).add (halfSide.rot (d + 8)) =
      (third ((LPt.edge d).add (LPt.edge (d + 2)))).add (triApothem.rot (d + 17)) ∧
    LPt.edge (d + 2) = (LPt.edge d).add (LPt.edge (d + 4)) ∧
    (LPt.edge (d + 2)).add (LPt.edge (d + 8)) = LPt.zero := by
  decide

theorem sub_add_of_eq {p t h r : LPt} (heq : h = t.add r) : (p.sub t).add h = p.add r := by
  rw [heq]
  ext <;> simp only [LPt.add, LPt.sub] <;> ring

theorem add_assoc' (p q r : LPt) : (p.add q).add r = p.add (q.add r) := by
  ext <;> simp only [LPt.add] <;> ring

/-- A triangle's sides: each an apothem from its middle. -/
theorem sides_tri (mid : LPt) {d : ℕ} (hd : d < 4) :
    (Sock.mk .tri mid d).sides =
      [edge (mid.add (triApothem.rot (d + 9))) d, edge (mid.add (triApothem.rot (d + 13))) (d + 4),
        edge (mid.add (triApothem.rot (d + 17))) (d + 8)] := by
  have hd12 : d % 12 = d := Nat.mod_eq_of_lt (by omega)
  obtain ⟨hfirst, hsecond, hthird, hturn, hback⟩ := triangle_about d hd
  have hcorners : (Sock.mk .tri mid d).body.corners =
      triangleCorners (mid.sub (third ((LPt.edge d).add (LPt.edge (d + 2))))) d := rfl
  rw [triangleCorners, hd12] at hcorners
  rw [sides_of_three (by simp) hcorners, edgeBetween_add (k := d) (by omega) rfl,
    edgeBetween_add (k := d + 4) (by omega) (by rw [hturn, add_assoc']),
    edgeBetween_add (k := d + 8) (by omega), sub_add_of_eq hfirst, add_assoc', sub_add_of_eq hsecond,
    add_assoc', sub_add_of_eq hthird]
  rw [add_assoc', hback]
  ext <;> simp [LPt.add, LPt.zero]

theorem mem_sides_square {mid : LPt} {d : ℕ} (hd : d < 3) {e : Sock} :
    e ∈ (Sock.mk .square mid d).sides ↔
      ∃ k < 12, k % 3 = d ∧ e = edge (mid.add (halfSide.rot (k + 9))) k := by
  rw [sides_square mid hd]
  simp only [List.mem_cons, List.not_mem_nil, or_false]
  constructor
  · rintro (rfl | rfl | rfl | rfl)
    · exact ⟨d, by omega, by omega, rfl⟩
    · exact ⟨d + 3, by omega, by omega, rfl⟩
    · exact ⟨d + 6, by omega, by omega, rfl⟩
    · exact ⟨d + 9, by omega, by omega, rfl⟩
  · rintro ⟨k, hk, hkd, rfl⟩
    obtain rfl | rfl | rfl | rfl : k = d ∨ k = d + 3 ∨ k = d + 6 ∨ k = d + 9 := by omega
    · exact Or.inl rfl
    · exact Or.inr (Or.inl rfl)
    · exact Or.inr (Or.inr (Or.inl rfl))
    · exact Or.inr (Or.inr (Or.inr rfl))

theorem mem_sides_tri {mid : LPt} {d : ℕ} (hd : d < 4) {e : Sock} :
    e ∈ (Sock.mk .tri mid d).sides ↔
      ∃ k < 12, k % 4 = d ∧ e = edge (mid.add (triApothem.rot (k + 9))) k := by
  rw [sides_tri mid hd]
  simp only [List.mem_cons, List.not_mem_nil, or_false]
  constructor
  · rintro (rfl | rfl | rfl)
    · exact ⟨d, by omega, by omega, rfl⟩
    · exact ⟨d + 4, by omega, by omega, rfl⟩
    · exact ⟨d + 8, by omega, by omega, rfl⟩
  · rintro ⟨k, hk, hkd, rfl⟩
    obtain rfl | rfl | rfl : k = d ∨ k = d + 4 ∨ k = d + 8 := by omega
    · exact Or.inl rfl
    · exact Or.inr (Or.inl rfl)
    · exact Or.inr (Or.inr rfl)

/-- What stands to the left of an edge walked along direction `k`. -/
theorem beside_left (mid : LPt) {k : ℕ} (hk : k < 12) :
    beside (edge mid k) (if k < 6 then 1 else -1) =
      (square (mid.add (halfSide.rot (k + 3))) k, tri (mid.add (triApothem.rot (k + 3))) k) := by
  have hwhole : (k + 3 + 9) % 12 % 4 = k % 4 := by omega
  by_cases hlow : k < 6
  · have hdir : k % 6 = k := Nat.mod_eq_of_lt hlow
    simp only [beside, edge, hlow, if_true, hdir, square, tri, hwhole]
  · have hdir : k % 6 + 9 = k + 3 := by omega
    have hthree : k % 6 % 3 = k % 3 := by omega
    simp only [beside, edge, hlow, if_false, show ¬(-1 : ℤ) = 1 by decide, hdir, square, tri, hwhole,
      hthree]

theorem exists_walk {e : Sock} (he : e.foot = .edge) (hcan : e.Canonical) {side : ℤ}
    (hside : side = 1 ∨ side = -1) :
    ∃ k < 12, e = edge e.mid k ∧ side = if k < 6 then 1 else -1 := by
  obtain ⟨foot, mid, dir⟩ := e
  obtain rfl : foot = .edge := he
  have hdir : dir < 6 := hcan
  rcases hside with rfl | rfl
  · exact ⟨dir, by omega, by rw [edge, Nat.mod_eq_of_lt hdir], by rw [if_pos hdir]⟩
  · refine ⟨dir + 6, by omega, ?_, by rw [if_neg (by omega)]⟩
    rw [edge, Nat.add_mod_right, Nat.mod_eq_of_lt hdir]

theorem add_rot_opposite (p h : LPt) (k : ℕ) : (p.add (h.rot (k + 9))).add (h.rot (k + 3)) = p := by
  rw [show k + 9 = k + 3 + 6 from rfl, rot_add_six]
  ext <;> simp only [LPt.add, LPt.sub, LPt.zero] <;> ring

theorem add_rot_opposite' (p h : LPt) (k : ℕ) :
    (p.add (h.rot (k + 3))).add (h.rot (k + 9)) = p := by
  rw [show k + 9 = k + 3 + 6 from rfl, rot_add_six]
  ext <;> simp only [LPt.add, LPt.sub, LPt.zero] <;> ring

/-- A body has an edge for a side exactly where it is one of those that stand beside it. -/
theorem mem_sides_iff_beside {s e : Sock} (hs : s.foot = .square ∨ s.foot = .tri)
    (hcan : s.Canonical) :
    e ∈ s.sides ↔ e.foot = .edge ∧ e.Canonical ∧ ∃ side : ℤ, (side = 1 ∨ side = -1) ∧
      (s = (beside e side).1 ∨ s = (beside e side).2) := by
  obtain ⟨foot, mid, dir⟩ := s
  have hsign : ∀ k : ℕ, (if k < 6 then (1 : ℤ) else -1) = 1 ∨ (if k < 6 then (1 : ℤ) else -1) = -1 := by
    intro k
    split
    · exact Or.inl rfl
    · exact Or.inr rfl
  rcases hs with rfl | rfl
  · rw [mem_sides_square hcan]
    constructor
    · rintro ⟨k, hk, hkd, rfl⟩
      refine ⟨rfl, Nat.mod_lt k (by decide), _, hsign k, Or.inl ?_⟩
      rw [beside_left _ hk, square, add_rot_opposite, hkd]
    · rintro ⟨he, hecan, side, hside, h⟩
      obtain ⟨k, hk, hek, rfl⟩ := exists_walk he hecan hside
      rw [hek, beside_left _ hk] at h
      rcases h with h | h
      · obtain ⟨-, rfl, rfl⟩ := Sock.mk.inj h
        exact ⟨k, hk, rfl, by rw [add_rot_opposite', ← hek]⟩
      · exact absurd (congrArg foot h) (by simp [tri])
  · rw [mem_sides_tri hcan]
    constructor
    · rintro ⟨k, hk, hkd, rfl⟩
      refine ⟨rfl, Nat.mod_lt k (by decide), _, hsign k, Or.inr ?_⟩
      rw [beside_left _ hk, tri, add_rot_opposite, hkd]
    · rintro ⟨he, hecan, side, hside, h⟩
      obtain ⟨k, hk, hek, rfl⟩ := exists_walk he hecan hside
      rw [hek, beside_left _ hk] at h
      rcases h with h | h
      · exact absurd (congrArg foot h) (by simp [square])
      · obtain ⟨-, rfl, rfl⟩ := Sock.mk.inj h
        exact ⟨k, hk, rfl, by rw [add_rot_opposite', ← hek]⟩

end Sock

end BeforeColony.Pieces
