import Mathlib.Analysis.Convex.Radon
import Mathlib.Analysis.Convex.Topology
import Mathlib.Order.CompletePartialOrder

/-!
# Convex sets of a plane kept apart

A convex set of a plane given as what finitely many convex sets have in common. Where two such sets
have a point each and none together, one of those that give the one misses the whole of the other
(`exists_disjoint`): by Helly's theorem three of them already miss, and one of the two families has
but one of the three. A convex set that misses a line lies to one side of it (`side_of_line`).
-/

set_option autoImplicit false

namespace Lib.Separate

open Finset

section Families

variable {ι E : Type*}

def common (F : ι → Set E) (s : Finset ι) : Set E := {x | ∀ i ∈ s, x ∈ F i}

theorem common_eq (F : ι → Set E) (s : Finset ι) : common F s = ⋂ i ∈ s, F i := by
  ext x
  simp [common]

/-- Where all but one of a family are of another that has a common point, they have one too, if the
one left over meets what the other has in common. -/
theorem common_of_few [DecidableEq ι] {F : ι → Set E} {s t I : Finset ι} (hI : I ⊆ s ∪ t)
    (hfew : (I.filter (· ∉ t)).card ≤ 1) (ht : (common F t).Nonempty)
    (hmeet : ∀ i ∈ s, ¬ Disjoint (F i) (common F t)) : (common F I).Nonempty := by
  rcases Nat.le_one_iff_eq_zero_or_eq_one.mp hfew with hzero | hone
  · obtain ⟨x, hx⟩ := ht
    refine ⟨x, fun i hi => hx i ?_⟩
    by_contra hit
    exact absurd (mem_filter.mpr ⟨hi, hit⟩) (card_eq_zero.mp hzero ▸ notMem_empty i)
  · obtain ⟨i, hi⟩ := card_eq_one.mp hone
    have himem : i ∈ I.filter (· ∉ t) := hi ▸ mem_singleton_self i
    obtain ⟨hiI, hit⟩ := mem_filter.mp himem
    have his : i ∈ s := (mem_union.mp (hI hiI)).resolve_right hit
    obtain ⟨x, hxi, hxt⟩ := Set.not_disjoint_iff.mp (hmeet i his)
    refine ⟨x, fun j hj => ?_⟩
    by_cases hjt : j ∈ t
    · exact hxt j hjt
    · have hji : j = i := mem_singleton.mp (hi ▸ mem_filter.mpr ⟨hj, hjt⟩)
      exact hji ▸ hxi

end Families

variable {ι 𝕜 E : Type*} [Field 𝕜] [LinearOrder 𝕜] [IsStrictOrderedRing 𝕜]
  [AddCommGroup E] [Module 𝕜 E]

/-- Two families that have a common point each and none together: a set of the one misses all that
the other has in common. -/
theorem exists_disjoint [DecidableEq ι] [FiniteDimensional 𝕜 E] (hplane : Module.finrank 𝕜 E = 2)
    {F : ι → Set E} {s t : Finset ι} (hconvex : ∀ i ∈ s ∪ t, Convex 𝕜 (F i))
    (hs : (common F s).Nonempty) (ht : (common F t).Nonempty)
    (hnone : ¬ ∃ x, x ∈ common F s ∧ x ∈ common F t) :
    (∃ i ∈ s, Disjoint (F i) (common F t)) ∨ ∃ i ∈ t, Disjoint (F i) (common F s) := by
  by_contra hmeet
  push Not at hmeet
  apply hnone
  have hall : (⋂ i ∈ s ∪ t, F i).Nonempty := by
    apply Convex.helly_theorem' hconvex
    intro I hI hcard
    rw [← common_eq]
    have hapart : Disjoint (I.filter (· ∉ t)) (I.filter (· ∉ s)) := by
      rw [disjoint_filter]
      intro i hi hit his
      exact (mem_union.mp (hI hi)).elim his hit
    have hthree : (I.filter (· ∉ t)).card + (I.filter (· ∉ s)).card ≤ 3 := by
      rw [← card_union_of_disjoint hapart]
      refine (card_le_card (union_subset (filter_subset _ _) (filter_subset _ _))).trans ?_
      omega
    -- of three sets, one family has one at the most
    rcases Nat.lt_or_ge (I.filter (· ∉ t)).card 2 with hfew | hmany
    · exact common_of_few hI (by omega) ht hmeet.1
    · exact common_of_few (union_comm s t ▸ hI) (by omega) hs hmeet.2
  obtain ⟨x, hx⟩ := hall
  rw [← common_eq] at hx
  exact ⟨x, fun i hi => hx i (mem_union_left t hi), fun i hi => hx i (mem_union_right s hi)⟩

theorem side_of_line {C : Set E} (hconvex : Convex 𝕜 C) (f : E →ₗ[𝕜] 𝕜) {c : 𝕜}
    (hmiss : ∀ x ∈ C, f x ≠ c) : (∀ x ∈ C, f x < c) ∨ ∀ x ∈ C, c < f x := by
  by_contra hboth
  push Not at hboth
  obtain ⟨⟨x, hx, hcx⟩, y, hy, hyc⟩ := hboth
  have himage : Convex 𝕜 (f '' C) := hconvex.linear_image f
  have hmem : c ∈ f '' C := himage.ordConnected.out ⟨y, hy, rfl⟩ ⟨x, hx, rfl⟩ ⟨hyc, hcx⟩
  obtain ⟨z, hz, hzc⟩ := hmem
  exact hmiss z hz hzc

end Lib.Separate
