import Mathlib.Analysis.SpecialFunctions.Trigonometric.Complex
import BeforeColony.Pieces.Overlap
import BeforeColony.Pieces.Sock

/-!
# Squares, triangles and edges on the plane

What lies strictly inside a body, by its corners, and what of an edge lies between its ends. Each is
a region of the tiling, so whether two footprints cross is exact: two bodies cross where a point is
strictly inside both, an edge crosses a body where it passes through its inside, and two edges cross
where they do not run alike and pass through one another (`crosses_iff`).
-/

set_option autoImplicit false

namespace BeforeColony.Pieces

open Real Plane Lib.Separate

/-- Which way round `w` lies from `v`: positive when anticlockwise. -/
def cross (v w : Plane) : ℝ := v.1 * w.2 - v.2 * w.1

/-- Strictly to the left of every side of a polygon, its corners in order round it. -/
def StrictlyInside (corners : List LPt) (x : Plane) : Prop :=
  ∀ i < corners.length,
    0 < cross
      ((corners.getD ((i + 1) % corners.length) .zero).toPlane - (corners.getD i .zero).toPlane)
      (x - (corners.getD i .zero).toPlane)

/-- What lies past a side running along direction `k`. -/
theorem left_of_side {p q : LPt} {k : ℕ} (hside : q.toPlane - p.toPlane = (3 : ℝ) • way k)
    (x : Plane) :
    0 < cross (q.toPlane - p.toPlane) (x - p.toPlane) ↔ x ∈ (Cut.half (k + 3) p).points := by
  have hangle : ((k + 3 : ℕ) : ℝ) * (π / 6) = k * (π / 6) + π / 2 := by
    push_cast
    ring
  have hcross : cross (q.toPlane - p.toPlane) (x - p.toPlane) =
      3 * (along (k + 3) x - along (k + 3) p.toPlane) := by
    rw [hside, along_apply, along_apply, hangle, cos_add_pi_div_two, sin_add_pi_div_two]
    simp only [cross, way, Prod.smul_mk, smul_eq_mul, Prod.fst_sub, Prod.snd_sub]
    ring
  rw [hcross]
  change _ ↔ along (k + 3) p.toPlane < along (k + 3) x
  constructor <;> intro h <;> linarith

/-! ## Along the sides -/

theorem along_edge (m k : ℕ) : along m (LPt.edge k).toPlane = 3 * along m (way k) := by
  rw [LPt.toPlane_edge, map_smul, smul_eq_mul]

theorem along_edge_self (k : ℕ) : along k (LPt.edge k).toPlane = 3 := by
  rw [along_edge, along_way_self, mul_one]

theorem along_edge_left (k : ℕ) : along (k + 3) (LPt.edge k).toPlane = 0 := by
  have hangle : ((k + 3 : ℕ) : ℝ) * (π / 6) - k * (π / 6) = π / 2 := by
    push_cast
    ring
  rw [along_edge, along_way, hangle, cos_pi_div_two, mul_zero]

theorem along_edge_right (k : ℕ) : along k (LPt.edge (k + 3)).toPlane = 0 := by
  have hangle : (k : ℝ) * (π / 6) - ((k + 3 : ℕ) : ℝ) * (π / 6) = -(π / 2) := by
    push_cast
    ring
  rw [along_edge, along_way, hangle, cos_neg, cos_pi_div_two, mul_zero]

/-- No direction is across both of two sides at right angles. -/
theorem along_edge_ne (m d : ℕ) :
    along m (LPt.edge d).toPlane ≠ 0 ∨ along m (LPt.edge (d + 3)).toPlane ≠ 0 := by
  by_contra h
  push Not at h
  have hone := along_way_self m
  rw [eq_add_way d (way m), map_add, map_smul, map_smul] at hone
  rw [along_edge, along_edge] at h
  have he : along m (way d) = 0 := by linarith [h.1]
  have hf : along m (way (d + 3)) = 0 := by linarith [h.2]
  rw [he, hf] at hone
  simp at hone

/-! ## Squares -/

def squareCuts (start : LPt) (dir : ℕ) : Finset Cut :=
  let d := dir % 12
  let e := LPt.edge d
  let f := LPt.edge (d + 3)
  {.half (d + 3) start, .half (d + 6) (start.add e), .half (d + 9) ((start.add e).add f),
    .half (d + 12) (start.add f)}

theorem mem_squareCuts (start : LPt) (dir : ℕ) (x : Plane) :
    x ∈ common Cut.points (squareCuts start dir) ↔
      (0 < along (dir % 12) (x - start.toPlane) ∧ along (dir % 12) (x - start.toPlane) < 3) ∧
      0 < along (dir % 12 + 3) (x - start.toPlane) ∧
        along (dir % 12 + 3) (x - start.toPlane) < 3 := by
  simp only [common, squareCuts, Finset.mem_insert, Finset.mem_singleton, forall_eq_or_imp,
    forall_eq, Cut.points, Set.mem_ofPred_eq, LPt.toPlane_add, map_add, map_sub]
  generalize dir % 12 = d
  have hsix := fun v => along_add_six d v
  have hnine := fun v => along_add_six (d + 3) v
  have htwelve := fun v => along_add_twelve d v
  simp only [Nat.add_assoc, Nat.reduceAdd] at hnine
  simp only [hsix, hnine, htwelve, along_edge_self, along_edge_left, along_edge_right]
  constructor
  · rintro ⟨h1, h2, h3, h4⟩
    refine ⟨⟨?_, ?_⟩, ?_, ?_⟩ <;> linarith
  · rintro ⟨⟨h1, h2⟩, h3, h4⟩
    refine ⟨?_, ?_, ?_, ?_⟩ <;> linarith

theorem along_square {d : ℕ} {v : Plane} (m : ℕ) :
    along m v = along d v / 3 * along m (LPt.edge d).toPlane +
      along (d + 3) v / 3 * along m (LPt.edge (d + 3)).toPlane := by
  conv_lhs => rw [eq_add_way d v]
  rw [map_add, map_smul, map_smul, along_edge, along_edge, smul_eq_mul, smul_eq_mul]
  ring

/-- Inside a parallelogram no value is the largest of the corners'. -/
theorem lt_corner_of_square {r u e f : ℝ} (hr : 0 < r ∧ r < 1) (hu : 0 < u ∧ u < 1)
    (hne : e ≠ 0 ∨ f ≠ 0) :
    r * e + u * f < 0 ∨ r * e + u * f < e ∨ r * e + u * f < e + f ∨ r * e + u * f < f := by
  rcases le_or_gt e 0 with he | he
  · rcases le_or_gt f 0 with hf | hf
    · left
      rcases hne with hne | hne
      · nlinarith [lt_of_le_of_ne he hne]
      · nlinarith [lt_of_le_of_ne hf hne]
    · right; right; right
      nlinarith
  · rcases le_or_gt f 0 with hf | hf
    · right; left
      nlinarith
    · right; right; left
      nlinarith

theorem full_square (start : LPt) (dir m : ℕ) :
    Full (squareCorners start dir) (squareCuts start dir) m := by
  intro x hx
  obtain ⟨hu, hw⟩ := (mem_squareCuts start dir x).mp hx
  have hsum := along_square (d := dir % 12) (v := x - start.toPlane) m
  rw [map_sub] at hsum
  have hcorner := lt_corner_of_square
    (r := along (dir % 12) (x - start.toPlane) / 3)
    (u := along (dir % 12 + 3) (x - start.toPlane) / 3)
    ⟨by linarith [hu.1], by linarith [hu.2]⟩ ⟨by linarith [hw.1], by linarith [hw.2]⟩
    (along_edge_ne m (dir % 12))
  simp only [squareCorners, List.mem_cons, List.not_mem_nil, or_false, exists_eq_or_imp,
    exists_eq_left, LPt.toPlane_add, map_add]
  rcases hcorner with h | h | h | h
  · exact Or.inl (by linarith)
  · exact Or.inr (Or.inl (by linarith))
  · exact Or.inr (Or.inr (Or.inl (by linarith)))
  · exact Or.inr (Or.inr (Or.inr (by linarith)))

theorem square_region (start : LPt) (dir : ℕ) :
    Region (squareCorners start dir) (squareCuts start dir) where
  corners_ne := by simp [squareCorners]
  nonempty := by
    refine ⟨start.toPlane + (1 / 2 : ℝ) • ((LPt.edge (dir % 12)).toPlane +
      (LPt.edge (dir % 12 + 3)).toPlane), ?_⟩
    rw [mem_squareCuts, add_sub_cancel_left]
    simp only [map_smul, map_add, along_edge_self, along_edge_left, along_edge_right, smul_eq_mul]
    norm_num
  bounds := by
    have hsix := fun v => along_add_six (dir % 12) v
    have hnine := fun v => along_add_six (dir % 12 + 3) v
    have htwelve := fun v => along_add_twelve (dir % 12) v
    simp only [Nat.add_assoc, Nat.reduceAdd] at hnine
    simp only [squareCuts, squareCorners, Finset.mem_insert, Finset.mem_singleton,
      forall_eq_or_imp, forall_eq, Cut.Bounds, List.mem_cons, List.not_mem_nil, or_false,
      LPt.toPlane_add, map_add, hsix, hnine, htwelve, along_edge_self, along_edge_left,
      along_edge_right]
    norm_num
  within x hx m := by
    obtain ⟨p, hp, hlt⟩ := full_square start dir m x hx
    exact ⟨p, hp, hlt.le⟩

/-! ## Triangles -/

def triangleCuts (start : LPt) (dir : ℕ) : Finset Cut :=
  let d := dir % 12
  {.half (d + 3) start, .half (d + 7) (start.add (LPt.edge d)),
    .half (d + 11) (start.add (LPt.edge (d + 2)))}

theorem along_seven (d : ℕ) (v : Plane) :
    along (d + 7) v = -(√3 / 2 * along d v + 1 / 2 * along (d + 3) v) := by
  rw [show d + 7 = d + 1 + 6 from rfl, along_add_six, along_add d 1]
  norm_num

theorem along_eleven (d : ℕ) (v : Plane) :
    along (d + 11) v = √3 / 2 * along d v - 1 / 2 * along (d + 3) v := by
  have hangle : ((5 : ℕ) : ℝ) * (π / 6) = π - π / 6 := by
    push_cast
    ring
  rw [show d + 11 = d + 5 + 6 from rfl, along_add_six, along_add d 5, hangle, cos_pi_sub,
    sin_pi_sub, cos_pi_div_six, sin_pi_div_six]
  ring

theorem along_edge_sixty (d : ℕ) : along d (LPt.edge (d + 2)).toPlane = 3 / 2 := by
  have hangle : (d : ℝ) * (π / 6) - ((d + 2 : ℕ) : ℝ) * (π / 6) = -(π / 3) := by
    push_cast
    ring
  rw [along_edge, along_way, hangle, cos_neg, cos_pi_div_three]
  ring

theorem along_edge_thirty (d : ℕ) : along (d + 3) (LPt.edge (d + 2)).toPlane = 3 / 2 * √3 := by
  have hangle : ((d + 3 : ℕ) : ℝ) * (π / 6) - ((d + 2 : ℕ) : ℝ) * (π / 6) = π / 6 := by
    push_cast
    ring
  rw [along_edge, along_way, hangle, cos_pi_div_six]
  ring

theorem mem_triangleCuts (start : LPt) (dir : ℕ) (x : Plane) :
    x ∈ common Cut.points (triangleCuts start dir) ↔
      0 < along (dir % 12 + 3) (x - start.toPlane) ∧
      along (dir % 12 + 3) (x - start.toPlane) < √3 * along (dir % 12) (x - start.toPlane) ∧
      √3 * along (dir % 12) (x - start.toPlane) + along (dir % 12 + 3) (x - start.toPlane) <
        3 * √3 := by
  have hseven := fun v => along_seven (dir % 12) v
  have heleven := fun v => along_eleven (dir % 12) v
  simp only [common, triangleCuts, Finset.mem_insert, Finset.mem_singleton, forall_eq_or_imp,
    forall_eq, Cut.points, Set.mem_ofPred_eq, LPt.toPlane_add, map_add, map_sub, hseven, heleven,
    along_edge_self, along_edge_left, along_edge_sixty, along_edge_thirty]
  constructor
  · rintro ⟨h1, h2, h3⟩
    refine ⟨?_, ?_, ?_⟩ <;> linarith
  · rintro ⟨h1, h2, h3⟩
    refine ⟨?_, ?_, ?_⟩ <;> linarith

theorem along_triangle {d : ℕ} {v : Plane} (m : ℕ) :
    along m v = (along d v - √3 / 3 * along (d + 3) v) / 3 * along m (LPt.edge d).toPlane +
      2 * √3 / 9 * along (d + 3) v * along m (LPt.edge (d + 2)).toPlane := by
  have hthree : √3 * √3 = 3 := mul_self_sqrt (by norm_num)
  have hv := along_square (d := d) (v := v) m
  have hf := along_square (d := d) (v := (LPt.edge (d + 2)).toPlane) m
  rw [along_edge_sixty, along_edge_thirty] at hf
  rw [hv, hf]
  linear_combination -(1 / 9 : ℝ) * along (d + 3) v * along m (LPt.edge (d + 3)).toPlane * hthree

/-- Inside a triangle no value is the largest of the corners'. -/
theorem lt_corner_of_triangle {r u e f : ℝ} (hr : 0 < r) (hu : 0 < u) (hru : r + u < 1)
    (hne : e ≠ 0 ∨ f ≠ 0) : r * e + u * f < 0 ∨ r * e + u * f < e ∨ r * e + u * f < f := by
  rcases le_or_gt e 0 with he | he
  · rcases le_or_gt f 0 with hf | hf
    · left
      rcases hne with hne | hne
      · nlinarith [lt_of_le_of_ne he hne]
      · nlinarith [lt_of_le_of_ne hf hne]
    · right; right
      nlinarith
  · rcases le_or_gt f e with hfe | hef
    · right; left
      nlinarith
    · right; right
      nlinarith

theorem along_edge_ne_sixty (m d : ℕ) :
    along m (LPt.edge d).toPlane ≠ 0 ∨ along m (LPt.edge (d + 2)).toPlane ≠ 0 := by
  by_contra h
  push Not at h
  have hone := along_way_self m
  rw [along_triangle (d := d), h.1, h.2] at hone
  simp at hone

theorem full_triangle (start : LPt) (dir m : ℕ) :
    Full (triangleCorners start dir) (triangleCuts start dir) m := by
  intro x hx
  obtain ⟨hw, hwu, hsum⟩ := (mem_triangleCuts start dir x).mp hx
  have hthree : √3 * √3 = 3 := mul_self_sqrt (by norm_num)
  have hroot : 0 < √3 := sqrt_pos.mpr (by norm_num)
  have hx' := along_triangle (d := dir % 12) (v := x - start.toPlane) m
  rw [map_sub] at hx'
  generalize along (dir % 12) (x - start.toPlane) = u at *
  generalize along (dir % 12 + 3) (x - start.toPlane) = w at *
  have hfirst : √3 * ((u - √3 / 3 * w) / 3) = (√3 * u - w) / 3 := by
    linear_combination -(1 / 9 : ℝ) * w * hthree
  have hboth : √3 * ((u - √3 / 3 * w) / 3 + 2 * √3 / 9 * w) = (√3 * u + w) / 3 := by
    linear_combination (1 / 9 : ℝ) * w * hthree
  have hcorner := lt_corner_of_triangle (r := (u - √3 / 3 * w) / 3) (u := 2 * √3 / 9 * w)
    (pos_of_mul_pos_right (hfirst ▸ by linarith) hroot.le)
    (by positivity)
    (lt_of_mul_lt_mul_left (by linarith) hroot.le)
    (along_edge_ne_sixty m (dir % 12))
  simp only [triangleCorners, List.mem_cons, List.not_mem_nil, or_false, exists_eq_or_imp,
    exists_eq_left, LPt.toPlane_add, map_add]
  rcases hcorner with h | h | h
  · exact Or.inl (by linarith)
  · exact Or.inr (Or.inl (by linarith))
  · exact Or.inr (Or.inr (by linarith))

theorem triangle_region (start : LPt) (dir : ℕ) :
    Region (triangleCorners start dir) (triangleCuts start dir) where
  corners_ne := by simp [triangleCorners]
  nonempty := by
    have hroot : 0 < √3 := sqrt_pos.mpr (by norm_num)
    refine ⟨start.toPlane + (1 / 3 : ℝ) • ((LPt.edge (dir % 12)).toPlane +
      (LPt.edge (dir % 12 + 2)).toPlane), ?_⟩
    rw [mem_triangleCuts, add_sub_cancel_left]
    simp only [map_smul, map_add, along_edge_self, along_edge_left, along_edge_sixty,
      along_edge_thirty, smul_eq_mul]
    refine ⟨?_, ?_, ?_⟩ <;> linarith
  bounds := by
    have hroot : 0 < √3 := sqrt_pos.mpr (by norm_num)
    have hseven := fun v => along_seven (dir % 12) v
    have heleven := fun v => along_eleven (dir % 12) v
    simp only [triangleCuts, triangleCorners, Finset.mem_insert, Finset.mem_singleton,
      forall_eq_or_imp, forall_eq, Cut.Bounds, List.mem_cons, List.not_mem_nil, or_false,
      LPt.toPlane_add, map_add, hseven, heleven, along_edge_self, along_edge_left,
      along_edge_sixty, along_edge_thirty]
    refine ⟨⟨?_, ?_, ?_⟩, ⟨?_, ?_, ?_⟩, ?_, ?_, ?_⟩ <;> linarith
  within x hx m := by
    obtain ⟨p, hp, hlt⟩ := full_triangle start dir m x hx
    exact ⟨p, hp, hlt.le⟩

/-! ## Sides, in order round -/

theorem way_add_six (k : ℕ) : way (k + 6) = -way k := by
  have hangle : ((k + 6 : ℕ) : ℝ) * (π / 6) = k * (π / 6) + π := by
    push_cast
    ring
  ext <;> simp only [way, hangle, cos_add_pi, sin_add_pi, Prod.fst_neg, Prod.snd_neg]

theorem way_add_four (k : ℕ) : way (k + 4) = way (k + 2) - way k := by
  have htwo : ((k + 2 : ℕ) : ℝ) * (π / 6) = k * (π / 6) + π / 3 := by
    push_cast
    ring
  have hfour : ((k + 4 : ℕ) : ℝ) * (π / 6) = k * (π / 6) + (π - π / 3) := by
    push_cast
    ring
  ext
  · simp only [way, htwo, hfour, cos_add, cos_pi_sub, sin_pi_sub, cos_pi_div_three,
      sin_pi_div_three, Prod.fst_sub]
    ring
  · simp only [way, htwo, hfour, sin_add, cos_pi_sub, sin_pi_sub, cos_pi_div_three,
      sin_pi_div_three, Prod.snd_sub]
    ring

theorem strictlyInside_square (start : LPt) (dir : ℕ) (x : Plane) :
    StrictlyInside (squareCorners start dir) x ↔ x ∈ common Cut.points (squareCuts start dir) := by
  have hfirst : (start.add (LPt.edge (dir % 12))).toPlane - start.toPlane =
      (3 : ℝ) • way (dir % 12) := by
    rw [LPt.toPlane_add, LPt.toPlane_edge, add_sub_cancel_left]
  have hsecond : ((start.add (LPt.edge (dir % 12))).add (LPt.edge (dir % 12 + 3))).toPlane -
      (start.add (LPt.edge (dir % 12))).toPlane = (3 : ℝ) • way (dir % 12 + 3) := by
    rw [LPt.toPlane_add, LPt.toPlane_edge, add_sub_cancel_left]
  have hthird : (start.add (LPt.edge (dir % 12 + 3))).toPlane -
      ((start.add (LPt.edge (dir % 12))).add (LPt.edge (dir % 12 + 3))).toPlane =
      (3 : ℝ) • way (dir % 12 + 6) := by
    simp only [LPt.toPlane_add, LPt.toPlane_edge, way_add_six]
    module
  have hfourth : start.toPlane - (start.add (LPt.edge (dir % 12 + 3))).toPlane =
      (3 : ℝ) • way (dir % 12 + 9) := by
    simp only [LPt.toPlane_add, LPt.toPlane_edge, way_add_six (dir % 12 + 3)]
    module
  have hsides : StrictlyInside (squareCorners start dir) x ↔
      x ∈ (Cut.half (dir % 12 + 3) start).points ∧
      x ∈ (Cut.half (dir % 12 + 6) (start.add (LPt.edge (dir % 12)))).points ∧
      x ∈ (Cut.half (dir % 12 + 9)
        ((start.add (LPt.edge (dir % 12))).add (LPt.edge (dir % 12 + 3)))).points ∧
      x ∈ (Cut.half (dir % 12 + 12) (start.add (LPt.edge (dir % 12 + 3)))).points := by
    rw [← left_of_side hfirst, ← left_of_side hsecond, ← left_of_side hthird,
      ← left_of_side hfourth, StrictlyInside, show (squareCorners start dir).length = 4 from rfl]
    constructor
    · intro h
      exact ⟨h 0 (by decide), h 1 (by decide), h 2 (by decide), h 3 (by decide)⟩
    · rintro ⟨h0, h1, h2, h3⟩ i hi
      interval_cases i
      · exact h0
      · exact h1
      · exact h2
      · exact h3
  rw [hsides]
  simp only [common, squareCuts, Finset.mem_insert, Finset.mem_singleton, forall_eq_or_imp,
    forall_eq, Set.mem_ofPred_eq]

theorem strictlyInside_triangle (start : LPt) (dir : ℕ) (x : Plane) :
    StrictlyInside (triangleCorners start dir) x ↔
      x ∈ common Cut.points (triangleCuts start dir) := by
  have hfirst : (start.add (LPt.edge (dir % 12))).toPlane - start.toPlane =
      (3 : ℝ) • way (dir % 12) := by
    rw [LPt.toPlane_add, LPt.toPlane_edge, add_sub_cancel_left]
  have hsecond : (start.add (LPt.edge (dir % 12 + 2))).toPlane -
      (start.add (LPt.edge (dir % 12))).toPlane = (3 : ℝ) • way (dir % 12 + 4) := by
    simp only [LPt.toPlane_add, LPt.toPlane_edge, way_add_four]
    module
  have hthird : start.toPlane - (start.add (LPt.edge (dir % 12 + 2))).toPlane =
      (3 : ℝ) • way (dir % 12 + 8) := by
    simp only [LPt.toPlane_add, LPt.toPlane_edge, way_add_six (dir % 12 + 2)]
    module
  have hsides : StrictlyInside (triangleCorners start dir) x ↔
      x ∈ (Cut.half (dir % 12 + 3) start).points ∧
      x ∈ (Cut.half (dir % 12 + 7) (start.add (LPt.edge (dir % 12)))).points ∧
      x ∈ (Cut.half (dir % 12 + 11) (start.add (LPt.edge (dir % 12 + 2)))).points := by
    rw [← left_of_side hfirst, ← left_of_side hsecond, ← left_of_side hthird, StrictlyInside,
      show (triangleCorners start dir).length = 3 from rfl]
    constructor
    · intro h
      exact ⟨h 0 (by decide), h 1 (by decide), h 2 (by decide)⟩
    · rintro ⟨h0, h1, h2⟩ i hi
      interval_cases i
      · exact h0
      · exact h1
      · exact h2
  rw [hsides]
  simp only [common, triangleCuts, Finset.mem_insert, Finset.mem_singleton, forall_eq_or_imp,
    forall_eq, Set.mem_ofPred_eq]

/-! ## Edges -/

def edgeCuts (mid : LPt) (dir : ℕ) : Finset Cut :=
  {.line (dir + 3) mid, .half dir (mid.sub (halfSide.rot dir)),
    .half (dir + 6) (mid.add (halfSide.rot dir))}

theorem toPlane_halfSide (k : ℕ) : (halfSide.rot k).toPlane = (3 / 2 : ℝ) • way k := by
  have hside : halfSide.toPlane = (3 / 2, 0) := by
    ext
    · simp only [halfSide, LPt.toPlane_eq]
      norm_num
    · simp [halfSide, LPt.toPlane_eq]
  rw [LPt.toPlane_rot, hside]
  simp only [turnBy, way, Prod.smul_mk, smul_eq_mul, mul_zero, sub_zero, add_zero,
    mul_comm (3 / 2 : ℝ)]

theorem mem_edgeCuts (mid : LPt) (dir : ℕ) (x : Plane) :
    x ∈ common Cut.points (edgeCuts mid dir) ↔
      x ∈ openSegment ℝ (mid.sub (halfSide.rot dir)).toPlane
        (mid.add (halfSide.rot dir)).toPlane := by
  have hself : along dir (way dir) = 1 := along_way_self dir
  have hleft : along (dir + 3) (way dir) = 0 := by
    have := along_edge_left dir
    rw [along_edge] at this
    linarith
  simp only [common, edgeCuts, Finset.mem_insert, Finset.mem_singleton, forall_eq_or_imp,
    forall_eq, Cut.points, Set.mem_ofPred_eq, LPt.toPlane_add, LPt.toPlane_sub, toPlane_halfSide,
    along_add_six]
  constructor
  · rintro ⟨hline, hlow, hhigh⟩
    simp only [map_add, map_sub, map_smul, smul_eq_mul, hself] at hlow hhigh
    have hx : x = mid.toPlane + along dir (x - mid.toPlane) • way dir := by
      have := eq_add_way dir (x - mid.toPlane)
      rw [map_sub (along (dir + 3)), hline, sub_self, zero_smul, add_zero] at this
      rw [← this, add_sub_cancel]
    rw [openSegment_eq_image]
    refine ⟨along dir (x - mid.toPlane) / 3 + 1 / 2, ⟨?_, ?_⟩, ?_⟩
    · rw [map_sub]
      linarith
    · rw [map_sub]
      linarith
    · conv_rhs => rw [hx]
      module
  · rw [openSegment_eq_image]
    rintro ⟨r, ⟨hr, hr1⟩, rfl⟩
    simp only [map_add, map_sub, map_smul, smul_eq_mul, hself, hleft]
    refine ⟨by ring, ?_, ?_⟩
    · linarith
    · linarith

theorem edge_region (mid : LPt) (dir : ℕ) :
    Region [mid.sub (halfSide.rot dir), mid.add (halfSide.rot dir)] (edgeCuts mid dir) where
  corners_ne := by simp
  nonempty := by
    refine ⟨mid.toPlane, (mem_edgeCuts mid dir _).mpr ?_⟩
    rw [openSegment_eq_image, LPt.toPlane_sub, LPt.toPlane_add]
    exact ⟨1 / 2, by norm_num, by module⟩
  bounds := by
    have hself : along dir (way dir) = 1 := along_way_self dir
    have hleft : along (dir + 3) (way dir) = 0 := by
      have := along_edge_left dir
      rw [along_edge] at this
      linarith
    simp only [edgeCuts, Finset.mem_insert, Finset.mem_singleton, forall_eq_or_imp, forall_eq,
      Cut.Bounds, List.mem_cons, List.not_mem_nil, or_false, LPt.toPlane_add, LPt.toPlane_sub,
      toPlane_halfSide, along_add_six, map_add, map_sub, map_smul, smul_eq_mul, hself, hleft]
    refine ⟨⟨?_, ?_⟩, ⟨?_, ?_⟩, ?_, ?_⟩ <;> linarith
  within x hx m := by
    rw [mem_edgeCuts, openSegment_eq_image] at hx
    obtain ⟨r, ⟨hr, hr1⟩, rfl⟩ := hx
    simp only [List.mem_cons, List.not_mem_nil, or_false, exists_eq_or_imp, exists_eq_left,
      map_add, map_smul, smul_eq_mul]
    generalize along m (mid.sub (halfSide.rot dir)).toPlane = u
    generalize along m (mid.add (halfSide.rot dir)).toPlane = w
    rcases le_total u w with h | h
    · right
      nlinarith
    · left
      nlinarith

theorem full_edge (mid : LPt) (dir m : ℕ) (hacross : along m (way dir) ≠ 0) :
    Full [mid.sub (halfSide.rot dir), mid.add (halfSide.rot dir)] (edgeCuts mid dir) m := by
  intro x hx
  rw [mem_edgeCuts, openSegment_eq_image] at hx
  obtain ⟨r, ⟨hr, hr1⟩, rfl⟩ := hx
  simp only [List.mem_cons, List.not_mem_nil, or_false, exists_eq_or_imp, exists_eq_left,
    map_add, map_sub, map_smul, smul_eq_mul, LPt.toPlane_add, LPt.toPlane_sub, toPlane_halfSide]
  rcases lt_or_gt_of_ne hacross with h | h
  · left
    nlinarith
  · right
    nlinarith

/-! ## Which footprints cross -/

/-- Two edges with a direction across both run alike. -/
theorem parallel_of_across {m j k : ℕ} (hj : along m (way j) = 0) (hk : along m (way k) = 0) :
    j % 6 = k % 6 := by
  have hodd : ∀ i, along m (way i) = 0 → ∃ n : ℤ, (m : ℤ) - i = 3 * (2 * n + 1) := by
    intro i hi
    rw [along_way, cos_eq_zero_iff] at hi
    obtain ⟨n, hn⟩ := hi
    refine ⟨n, ?_⟩
    have hpi : (π : ℝ) ≠ 0 := pi_ne_zero
    have hreal : (m : ℝ) - i = 3 * (2 * n + 1) := by
      have hscaled : ((m : ℝ) - i) * π = (3 * (2 * n + 1)) * π := by linarith
      exact mul_right_cancel₀ hpi hscaled
    exact_mod_cast hreal
  obtain ⟨p, hp⟩ := hodd j hj
  obtain ⟨q, hq⟩ := hodd k hk
  omega

/-- Edges that run alike have a direction across both. -/
theorem across_of_parallel {j k : ℕ} (h : j % 6 = k % 6) : along (j + 3) (way k) = 0 := by
  have hzero : ∀ i, along (i % 6 + 3) (way i) = 0 := by
    intro i
    have hleft : along (i + 3) (way i) = 0 := by
      have := along_edge_left i
      rw [along_edge] at this
      linarith
    have hwhole : ∀ n, along (i % 6 + 3 + 6 * n) (way i) = 0 → along (i % 6 + 3) (way i) = 0 := by
      intro n
      induction n with
      | zero => exact id
      | succ n ih =>
        intro hn
        apply ih
        rw [Nat.mul_succ, ← Nat.add_assoc, along_add_six, neg_eq_zero] at hn
        exact hn
    apply hwhole (i / 6)
    rw [show i % 6 + 3 + 6 * (i / 6) = i + 3 by omega, hleft]
  have hk : along (j % 6 + 3) (way k) = 0 := by rw [h, hzero]
  have hwhole : ∀ n, along (j % 6 + 3) (way k) = 0 → along (j % 6 + 3 + 6 * n) (way k) = 0 := by
    intro n
    induction n with
    | zero => exact id
    | succ n ih =>
      intro hn
      rw [Nat.mul_succ, ← Nat.add_assoc, along_add_six, ih hn, neg_zero]
  rw [show j + 3 = j % 6 + 3 + 6 * (j / 6) by omega]
  exact hwhole _ hk

namespace Sock

/-- What of the plane a footprint takes: a body's inside, an edge between its ends. -/
def points (s : Sock) : Set Plane :=
  if s.foot = .edge then
    openSegment ℝ (s.mid.sub (halfSide.rot s.dir)).toPlane (s.mid.add (halfSide.rot s.dir)).toPlane
  else {x | StrictlyInside s.corners x}

theorem region_of_body {s : Sock} (hs : s.foot ≠ .edge) : ∃ cuts, Region s.corners cuts ∧
    (∀ m, Full s.corners cuts m) ∧ s.points = common Cut.points cuts := by
  have hsquare : ∀ start dir, s.corners = squareCorners start dir → ∃ cuts,
      Region s.corners cuts ∧ (∀ m, Full s.corners cuts m) ∧
        s.points = common Cut.points cuts := by
    intro start dir h
    rw [points, if_neg hs, h]
    exact ⟨_, square_region start dir, full_square start dir,
      Set.ext (strictlyInside_square start dir)⟩
  have htri : ∀ start dir, s.corners = triangleCorners start dir → ∃ cuts,
      Region s.corners cuts ∧ (∀ m, Full s.corners cuts m) ∧
        s.points = common Cut.points cuts := by
    intro start dir h
    rw [points, if_neg hs, h]
    exact ⟨_, triangle_region start dir, full_triangle start dir,
      Set.ext (strictlyInside_triangle start dir)⟩
  obtain ⟨foot, mid, dir⟩ := s
  cases foot with
  | square => exact hsquare _ _ rfl
  | tri => exact htri _ _ rfl
  | edge => exact absurd rfl hs
  | riser => exact hsquare _ _ rfl
  | triRiser => exact htri _ _ rfl

theorem region_of_edge {s : Sock} (hs : s.foot = .edge) :
    Region s.corners (edgeCuts s.mid s.dir) ∧
      s.points = common Cut.points (edgeCuts s.mid s.dir) := by
  obtain ⟨foot, mid, dir⟩ := s
  obtain rfl : foot = .edge := hs
  exact ⟨edge_region mid dir, Set.ext fun x => (mem_edgeCuts mid dir x).symm⟩

theorem full_of_edge {s : Sock} (hs : s.foot = .edge) {m : ℕ} (hacross : along m (way s.dir) ≠ 0) :
    Full s.corners (edgeCuts s.mid s.dir) m := by
  obtain ⟨foot, mid, dir⟩ := s
  obtain rfl : foot = .edge := hs
  exact full_edge mid dir m hacross

/-- Two edges that run alike are one before the other across the way they run. -/
theorem not_crosses_of_parallel {s t : Sock} (hs : s.foot = .edge) (ht : t.foot = .edge)
    (hparallel : s.dir % 6 = t.dir % 6) : crosses s t = false := by
  obtain ⟨foot, mid, dir⟩ := s
  obtain rfl : foot = .edge := hs
  obtain ⟨foot', mid', dir'⟩ := t
  obtain rfl : foot' = .edge := ht
  have hflat : ∀ (p : LPt) (k : ℕ), dir % 6 = k % 6 →
      ∀ q ∈ [p.sub (halfSide.rot k), p.add (halfSide.rot k)],
        along (dir + 3) q.toPlane = along (dir + 3) p.toPlane := by
    intro p k hk q hq
    have hacross := across_of_parallel hk
    simp only [List.mem_cons, List.not_mem_nil, or_false] at hq
    rcases hq with rfl | rfl
    · rw [LPt.toPlane_sub, toPlane_halfSide, map_sub, map_smul, hacross, smul_zero, sub_zero]
    · rw [LPt.toPlane_add, toPlane_halfSide, map_add, map_smul, hacross, smul_zero, add_zero]
  have hbefore : Before (dir + 3) (corners ⟨.edge, mid, dir⟩) (corners ⟨.edge, mid', dir'⟩) ∨
      Before (dir + 3) (corners ⟨.edge, mid', dir'⟩) (corners ⟨.edge, mid, dir⟩) := by
    rcases le_total (along (dir + 3) mid.toPlane) (along (dir + 3) mid'.toPlane) with h | h
    · left
      intro p hp q hq
      rw [hflat mid dir rfl p hp, hflat mid' dir' hparallel q hq]
      exact h
    · right
      intro p hp q hq
      rw [hflat mid' dir' hparallel p hp, hflat mid dir rfl q hq]
      exact h
  obtain ⟨n, hn, hbefore⟩ := exists_before_lt_six hbefore
  rw [Bool.eq_false_iff]
  intro hcross
  have hnot := (overlaps_iff (edge_region mid dir).corners_ne
    (edge_region mid' dir').corners_ne).mp hcross n hn
  exact hbefore.elim hnot.1 hnot.2

/-- Two edges cross where they meet and do not run alike. -/
theorem crosses_edges {s t : Sock} (hs : s.foot = .edge) (ht : t.foot = .edge) :
    crosses s t = true ↔ (s.points ∩ t.points).Nonempty ∧ s.dir % 6 ≠ t.dir % 6 := by
  obtain ⟨hsregion, hspoints⟩ := region_of_edge hs
  obtain ⟨htregion, htpoints⟩ := region_of_edge ht
  by_cases hparallel : s.dir % 6 = t.dir % 6
  · rw [not_crosses_of_parallel hs ht hparallel]
    simp [hparallel]
  · rw [crosses, hsregion.overlaps_iff_meet htregion, hspoints, htpoints]
    · simp only [ne_eq, hparallel, not_false_eq_true, and_true]
      rfl
    · intro m
      by_contra hboth
      push Not at hboth
      have hsflat : along m (way s.dir) = 0 := by
        by_contra h
        exact hboth.1 (full_of_edge hs h)
      have htflat : along m (way t.dir) = 0 := by
        by_contra h
        refine hboth.2 (full_of_edge ht ?_)
        rwa [along_add_six, neg_ne_zero]
      exact hparallel (parallel_of_across hsflat htflat)

theorem crosses_body {s t : Sock} (h : s.foot ≠ .edge ∨ t.foot ≠ .edge) :
    crosses s t = true ↔ (s.points ∩ t.points).Nonempty := by
  have hregion : ∀ u : Sock, ∃ cuts, Region u.corners cuts ∧
      u.points = common Cut.points cuts ∧ (u.foot ≠ .edge → ∀ m, Full u.corners cuts m) := by
    intro u
    by_cases hu : u.foot = .edge
    · obtain ⟨hedge, hpoints⟩ := region_of_edge hu
      exact ⟨_, hedge, hpoints, fun hbody => absurd hu hbody⟩
    · obtain ⟨cuts, hbody, hfull, hpoints⟩ := region_of_body hu
      exact ⟨cuts, hbody, hpoints, fun _ => hfull⟩
  obtain ⟨scuts, hs, hspoints, hsfull⟩ := hregion s
  obtain ⟨tcuts, ht, htpoints, htfull⟩ := hregion t
  rw [crosses, hs.overlaps_iff_meet ht, hspoints, htpoints]
  · rfl
  · intro m
    rcases h with h | h
    · exact Or.inl (hsfull h m)
    · exact Or.inr (htfull h (m + 6))

/-- Two footprints cross exactly where they share a point of the plane, two edges that run alike
apart. -/
theorem crosses_iff (s t : Sock) :
    crosses s t = true ↔ (s.points ∩ t.points).Nonempty ∧
      (s.foot = .edge → t.foot = .edge → s.dir % 6 ≠ t.dir % 6) := by
  by_cases h : s.foot = .edge ∧ t.foot = .edge
  · rw [crosses_edges h.1 h.2]
    simp [h.1, h.2]
  · rw [crosses_body (not_and_or.mp h)]
    constructor
    · intro hmeet
      exact ⟨hmeet, fun hs ht => absurd ⟨hs, ht⟩ h⟩
    · exact And.left

theorem points_nonempty (s : Sock) : s.points.Nonempty := by
  by_cases hs : s.foot = .edge
  · obtain ⟨hregion, hpoints⟩ := region_of_edge hs
    exact hpoints ▸ hregion.nonempty
  · obtain ⟨cuts, hregion, -, hpoints⟩ := region_of_body hs
    exact hpoints ▸ hregion.nonempty

end Sock

end BeforeColony.Pieces
