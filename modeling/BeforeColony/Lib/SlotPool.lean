import Mathlib.Logic.Function.Basic
import Mathlib.Data.List.Basic
import Mathlib.Data.List.Range
import Mathlib.Data.Finset.Card
import Mathlib.Data.Finset.Range

/-!
# Pools of slots

A pool of `n` slots remembers which are in use twice: as a set and as the list of those that are
not. `Accounts` says that the two agree, each unused slot being on the list once. Taking the head
of the list, and putting a used slot back on it, both keep that.
-/

set_option autoImplicit false

namespace Lib.SlotPool

variable {n k : ℕ} {used : ℕ → Bool} {free : List ℕ}

def inUse (n : ℕ) (used : ℕ → Bool) : ℕ := ((Finset.range n).filter fun k => used k = true).card

/-- The list holds exactly the unused slots, each once. -/
structure Accounts (n : ℕ) (used : ℕ → Bool) (free : List ℕ) : Prop where
  nodup : free.Nodup
  mem_iff : ∀ k, k ∈ free ↔ k < n ∧ used k = false
  lt : ∀ k, used k = true → k < n

namespace Accounts

theorem start (n : ℕ) : Accounts n (fun _ => false) (List.range n) where
  nodup := List.nodup_range
  mem_iff k := by simp
  lt k hk := by cases hk

theorem taken (h : Accounts n used (k :: free)) : Accounts n (Function.update used k true) free := by
  obtain ⟨hnotin, hnodup⟩ := List.nodup_cons.mp h.nodup
  have hk := (h.mem_iff k).mp List.mem_cons_self
  refine ⟨hnodup, fun q => ?_, fun q hq => ?_⟩
  · by_cases hq : q = k
    · subst hq
      simp [hnotin]
    · have hmem := h.mem_iff q
      rw [List.mem_cons, or_iff_right hq] at hmem
      rw [Function.update_of_ne hq]
      exact hmem
  · by_cases hqk : q = k
    · exact hqk ▸ hk.1
    · rw [Function.update_of_ne hqk] at hq
      exact h.lt q hq

theorem returned (h : Accounts n used free) (hk : used k = true) :
    Accounts n (Function.update used k false) (k :: free) := by
  have hnotin : k ∉ free := by
    intro hmem
    have hunused := ((h.mem_iff k).mp hmem).2
    rw [hk] at hunused
    cases hunused
  refine ⟨List.nodup_cons.mpr ⟨hnotin, h.nodup⟩, fun q => ?_, fun q hq => ?_⟩
  · by_cases hq : q = k
    · subst hq
      simp [h.lt q hk]
    · rw [List.mem_cons, or_iff_right hq, Function.update_of_ne hq]
      exact h.mem_iff q
  · by_cases hqk : q = k
    · subst hqk
      rw [Function.update_self] at hq
      cases hq
    · rw [Function.update_of_ne hqk] at hq
      exact h.lt q hq

theorem length_add_inUse (h : Accounts n used free) : free.length + inUse n used = n := by
  have hfree : free.toFinset = (Finset.range n).filter fun k => ¬ used k = true := by
    ext q
    simp [h.mem_iff]
  have hlength : free.length = ((Finset.range n).filter fun k => ¬ used k = true).card := by
    rw [← hfree, List.toFinset_card_of_nodup h.nodup]
  have hsplit := Finset.card_filter_add_card_filter_not (s := Finset.range n)
    (fun k => used k = true)
  rw [Finset.card_range] at hsplit
  unfold inUse
  omega

theorem room (h : Accounts n used free) (hk : used k = true) : free.length < n := by
  have hsum := h.length_add_inUse
  have hpos : 0 < inUse n used :=
    Finset.card_pos.mpr ⟨k, Finset.mem_filter.mpr ⟨Finset.mem_range.mpr (h.lt k hk), hk⟩⟩
  omega

theorem used_of_nil (h : Accounts n used []) (hk : k < n) : used k = true := by
  by_contra hused
  have hmem := (h.mem_iff k).mpr ⟨hk, Bool.eq_false_iff.mpr hused⟩
  cases hmem

theorem inUse_taken (h : Accounts n used (k :: free)) :
    inUse n (Function.update used k true) = inUse n used + 1 := by
  have hbefore := h.length_add_inUse
  have hafter := h.taken.length_add_inUse
  rw [List.length_cons] at hbefore
  omega

theorem inUse_returned (h : Accounts n used free) (hk : used k = true) :
    inUse n (Function.update used k false) + 1 = inUse n used := by
  have hbefore := h.length_add_inUse
  have hafter := (h.returned hk).length_add_inUse
  rw [List.length_cons] at hafter
  omega

end Accounts

end Lib.SlotPool
