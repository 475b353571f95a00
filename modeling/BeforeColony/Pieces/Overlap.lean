import BeforeColony.Lib.Separate
import BeforeColony.Pieces.Plane

/-!
# Overlap is exact

Pieces as they are on the plane: a region is what finitely many half-planes and lines have in common,
each across one of the six directions, and its corners are the extremes of it along every direction.
The six directions find out whether two regions meet (`overlaps_iff_meet`).
-/

set_option autoImplicit false

namespace BeforeColony.Pieces

open Real Plane Lib.Separate

theorem exists_before_lt_six {m : ℕ} {a b : List LPt} (h : Before m a b ∨ Before m b a) :
    ∃ n < 6, Before n a b ∨ Before n b a := by
  have hmod : ∀ {m : ℕ} {a b : List LPt}, Before m a b → Before (m % 12) a b := by
    intro m a b h p hp q hq
    rw [along_mod, along_mod]
    exact h p hp q hq
  have hflip : ∀ {m : ℕ} {a b : List LPt}, Before (m + 6) a b → Before m b a := by
    intro m a b h q hq p hp
    have := h p hp q hq
    rw [along_add_six, along_add_six] at this
    linarith
  have hm : m % 12 < 12 := Nat.mod_lt m (by decide)
  have h' : Before (m % 12) a b ∨ Before (m % 12) b a := h.imp hmod hmod
  rcases Nat.lt_or_ge (m % 12) 6 with hlow | hhigh
  · exact ⟨m % 12, hlow, h'⟩
  · obtain ⟨n, hn⟩ := Nat.exists_eq_add_of_le' hhigh
    rw [hn] at h'
    exact ⟨n, by omega, h'.symm.imp hflip hflip⟩

/-- Half of the plane, past a point along a direction, or the line across it there. -/
inductive Cut where
  | half (m : ℕ) (p : LPt)
  | line (m : ℕ) (p : LPt)
deriving DecidableEq

namespace Cut

def points : Cut → Set Plane
  | half m p => {x | along m p.toPlane < along m x}
  | line m p => {x | along m x = along m p.toPlane}

theorem convex_points (c : Cut) : Convex ℝ c.points := by
  cases c with
  | half m p => exact convex_halfSpace_gt (along m).isLinear _
  | line m p => exact convex_hyperplane (along m).isLinear _

def Bounds (corners : List LPt) : Cut → Prop
  | half m p => ∀ q ∈ corners, along m p.toPlane ≤ along m q.toPlane
  | line m p => ∀ q ∈ corners, along m q.toPlane = along m p.toPlane

end Cut

structure Region (corners : List LPt) (cuts : Finset Cut) : Prop where
  corners_ne : corners ≠ []
  nonempty : (common Cut.points cuts).Nonempty
  bounds : ∀ c ∈ cuts, c.Bounds corners
  within : ∀ x ∈ common Cut.points cuts, ∀ m,
    ∃ p ∈ corners, along m x ≤ along m p.toPlane

/-- A region with an area: no point of it is the furthest along a direction. -/
def Full (corners : List LPt) (cuts : Finset Cut) (m : ℕ) : Prop :=
  ∀ x ∈ common Cut.points cuts, ∃ p ∈ corners, along m x < along m p.toPlane

namespace Region

variable {a b : List LPt} {s t : Finset Cut}

theorem toward_corner (h : Region a s) {x : Plane} (hx : x ∈ common Cut.points s) {q : LPt}
    (hq : q ∈ a) {r : ℝ} (hr : 0 < r) (hr1 : r ≤ 1) :
    q.toPlane + r • (x - q.toPlane) ∈ common Cut.points s := by
  intro c hc
  have hcorner := h.bounds c hc
  have hpoint := hx c hc
  cases c with
  | half m p =>
    have hle := hcorner q hq
    have hlt : along m p.toPlane < along m x := hpoint
    change along m p.toPlane < along m (q.toPlane + r • (x - q.toPlane))
    rw [map_add, map_smul, map_sub, smul_eq_mul]
    nlinarith
  | line m p =>
    have heq := hcorner q hq
    have hon : along m x = along m p.toPlane := hpoint
    change along m (q.toPlane + r • (x - q.toPlane)) = along m p.toPlane
    rw [map_add, map_smul, map_sub, hon, heq, sub_self, smul_zero, add_zero]

/-- What bounds the region's points along a direction bounds its corners. -/
theorem corner_le (h : Region a s) {m : ℕ} {u : ℝ}
    (hbound : ∀ x ∈ common Cut.points s, along m x ≤ u) : ∀ q ∈ a, along m q.toPlane ≤ u := by
  obtain ⟨x, hx⟩ := h.nonempty
  intro q hq
  by_contra hlt
  push Not at hlt
  have hxu := hbound x hx
  have hgap : 0 < along m q.toPlane - along m x := by linarith
  -- a point of the way so near the corner that it is past the bound too
  have hr : 0 < (along m q.toPlane - u) / (2 * (along m q.toPlane - along m x)) := by
    apply div_pos <;> linarith
  have hr1 : (along m q.toPlane - u) / (2 * (along m q.toPlane - along m x)) ≤ 1 := by
    rw [div_le_one (by linarith)]
    linarith
  have hpast := hbound _ (h.toward_corner hx hq hr hr1)
  rw [map_add, map_smul, map_sub, smul_eq_mul] at hpast
  have hstep : (along m q.toPlane - u) / (2 * (along m q.toPlane - along m x)) *
      (along m x - along m q.toPlane) = -((along m q.toPlane - u) / 2) := by
    field_simp
    ring
  linarith

theorem le_corner (h : Region a s) {m : ℕ} {u : ℝ}
    (hbound : ∀ x ∈ common Cut.points s, u ≤ along m x) : ∀ q ∈ a, u ≤ along m q.toPlane := by
  have hneg : ∀ x ∈ common Cut.points s, along (m + 6) x ≤ -u := by
    intro x hx
    rw [along_add_six]
    linarith [hbound x hx]
  intro q hq
  have := h.corner_le hneg q hq
  rw [along_add_six] at this
  linarith

theorem within_low (h : Region a s) {x : Plane} (hx : x ∈ common Cut.points s) (m : ℕ) :
    ∃ p ∈ a, along m p.toPlane ≤ along m x := by
  obtain ⟨p, hp, hle⟩ := h.within x hx (m + 6)
  rw [along_add_six, along_add_six] at hle
  exact ⟨p, hp, by linarith⟩

theorem before_of_disjoint (ha : Region a s) (hb : Region b t) {c : Cut} (hc : c ∈ s)
    (hmiss : Disjoint c.points (common Cut.points t)) : ∃ m, Before m a b ∨ Before m b a := by
  have hbound := ha.bounds c hc
  have hout : ∀ x ∈ common Cut.points t, x ∉ c.points :=
    fun x hx hxc => Set.disjoint_left.mp hmiss hxc hx
  cases c with
  | half m p =>
    have hle := hb.corner_le (m := m) fun x hx => not_lt.mp (hout x hx)
    exact ⟨m, Or.inr fun q hq r hr => (hle q hq).trans (hbound r hr)⟩
  | line m p =>
    have hconvex : Convex ℝ (common Cut.points t) := by
      rw [common_eq]
      exact convex_iInter₂ fun c _ => c.convex_points
    rcases side_of_line hconvex (along m) hout with hlt | hgt
    · have hle := hb.corner_le fun x hx => (hlt x hx).le
      exact ⟨m, Or.inr fun q hq r hr => (hle q hq).trans (hbound r hr).ge⟩
    · have hle := hb.le_corner fun x hx => (hgt x hx).le
      exact ⟨m, Or.inl fun q hq r hr => (hbound q hq).le.trans (hle r hr)⟩

/-- Two regions that do not meet are one before the other along one of six directions. -/
theorem before_of_apart (ha : Region a s) (hb : Region b t)
    (hapart : ¬ ∃ x, x ∈ common Cut.points s ∧ x ∈ common Cut.points t) :
    ∃ m < 6, Before m a b ∨ Before m b a := by
  have hany : ∃ m, Before m a b ∨ Before m b a := by
    rcases exists_disjoint (𝕜 := ℝ) (by simp) (fun c _ => c.convex_points) ha.nonempty hb.nonempty
      hapart with ⟨c, hc, hmiss⟩ | ⟨c, hc, hmiss⟩
    · exact ha.before_of_disjoint hb hc hmiss
    · obtain ⟨m, h⟩ := hb.before_of_disjoint ha hc hmiss
      exact ⟨m, h.symm⟩
  obtain ⟨m, h⟩ := hany
  exact exists_before_lt_six h

/-- Regions that meet, one with an area along the direction, are not one before the other. -/
theorem not_before_of_meet (ha : Region a s) (hb : Region b t) {m : ℕ}
    (hfull : Full a s m ∨ Full b t (m + 6)) {x : Plane} (hxa : x ∈ common Cut.points s)
    (hxb : x ∈ common Cut.points t) : ¬ Before m a b := by
  intro hbefore
  rcases hfull with hfull | hfull
  · obtain ⟨p, hp, hlt⟩ := hfull x hxa
    obtain ⟨q, hq, hle⟩ := hb.within_low hxb m
    exact absurd (hbefore p hp q hq) (by linarith)
  · obtain ⟨p, hp, hle⟩ := ha.within x hxa m
    obtain ⟨q, hq, hlt⟩ := hfull x hxb
    rw [along_add_six, along_add_six] at hlt
    exact absurd (hbefore p hp q hq) (by linarith)

/-- The six directions find out whether two regions meet, one of them with an area along each. -/
theorem overlaps_iff_meet (ha : Region a s) (hb : Region b t)
    (hfull : ∀ m, Full a s m ∨ Full b t (m + 6)) :
    overlaps a b = true ↔ ∃ x, x ∈ common Cut.points s ∧ x ∈ common Cut.points t := by
  rw [overlaps_iff ha.corners_ne hb.corners_ne]
  constructor
  · intro h
    by_contra hapart
    obtain ⟨m, hm, hbefore⟩ := ha.before_of_apart hb hapart
    exact hbefore.elim (h m hm).1 (h m hm).2
  · rintro ⟨x, hxa, hxb⟩ m hm
    have hback : Full b t m ∨ Full a s (m + 6) := by
      rcases hfull (m + 6) with h | h
      · exact Or.inr h
      · refine Or.inl fun y hy => ?_
        obtain ⟨p, hp, hlt⟩ := h y hy
        exact ⟨p, hp, by simpa only [Nat.add_assoc, along_add_twelve] using hlt⟩
    exact ⟨ha.not_before_of_meet hb (hfull m) hxa hxb, hb.not_before_of_meet ha hback hxb hxa⟩

end Region

end BeforeColony.Pieces
