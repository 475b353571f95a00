import Mathlib.Algebra.Order.Group.Nat
import Mathlib.Data.List.TakeWhile
import Mathlib.Tactic.SplitIfs

/-!
# Sliding windows

A limiter that keeps the times of what it let through, forgets those out of the window, and lets
something through while fewer than the limit are left. What it lets through is spread out: from any
one to the one `limit` later is a window at least.
-/

set_option autoImplicit false

namespace Lib

structure Window (limit width : ℕ) where
  recent : List ℕ := []
deriving DecidableEq, Repr

namespace Window

variable {limit width : ℕ}

def forget (w : Window limit width) (now : ℕ) : List ℕ :=
  w.recent.dropWhile fun t => width ≤ now - t

/-- Whether something may go through now, counted if so. -/
def allow (w : Window limit width) (now : ℕ) : Bool × Window limit width :=
  if limit ≤ (w.forget now).length then (false, ⟨w.forget now⟩)
  else (true, ⟨w.forget now ++ [now]⟩)

/-- What a limiter has let through, and what it still holds of it. -/
structure Tracks (w : Window limit width) (through : List ℕ) (now : ℕ) : Prop where
  suffix : ∃ past, through = past ++ w.recent ∧ ∀ t ∈ past, t + width ≤ now
  few : w.recent.length ≤ limit
  spread : ∀ i t u, through[i]? = some t → through[i + limit]? = some u → t + width ≤ u

theorem tracks_nil (now : ℕ) : Tracks ({} : Window limit width) [] now where
  suffix := ⟨[], rfl, fun t h => absurd h List.not_mem_nil⟩
  few := Nat.zero_le _
  spread := fun i t u h => by
    rw [List.getElem?_nil] at h
    exact nomatch h

variable {w : Window limit width} {through : List ℕ} {now : ℕ}

theorem Tracks.later (h : Tracks w through now) {now' : ℕ} (hle : now ≤ now') :
    Tracks w through now' := by
  obtain ⟨past, heq, hold⟩ := h.suffix
  exact ⟨⟨past, heq, fun t ht => (hold t ht).trans hle⟩, h.few, h.spread⟩

theorem Tracks.forget (h : Tracks w through now) (hwidth : 0 < width) :
    Tracks (⟨w.forget now⟩ : Window limit width) through now := by
  obtain ⟨past, heq, hold⟩ := h.suffix
  refine ⟨⟨past ++ w.recent.takeWhile fun t => width ≤ now - t, ?_, fun t ht => ?_⟩,
    (List.dropWhile_sublist _).length_le.trans h.few, h.spread⟩
  · rw [List.append_assoc, Window.forget, List.takeWhile_append_dropWhile]
    exact heq
  · rcases List.mem_append.mp ht with ht | ht
    · exact hold t ht
    · have hout := List.mem_takeWhile_imp ht
      rw [decide_eq_true_eq] at hout
      omega

theorem Tracks.refused (h : Tracks w through now) (hwidth : 0 < width)
    (hno : (w.allow now).1 = false) : Tracks (w.allow now).2 through now := by
  unfold allow at hno ⊢
  split_ifs at hno ⊢
  exact h.forget hwidth

/-- What goes through comes a window after the one `limit` before it. -/
theorem Tracks.allowed (h : Tracks w through now) (hwidth : 0 < width)
    (hyes : (w.allow now).1 = true) : Tracks (w.allow now).2 (through ++ [now]) now := by
  have hkept := h.forget hwidth
  obtain ⟨past, heq, hold⟩ := hkept.suffix
  unfold allow at hyes ⊢
  split_ifs at hyes ⊢ with hfull
  refine ⟨⟨past, ?_, hold⟩, ?_, fun i t u hi hu => ?_⟩
  · rw [heq, List.append_assoc]
  · rw [List.length_append]
    exact not_le.mp hfull
  · have hlen : through.length = past.length + (w.forget now).length := by
      rw [heq, List.length_append]
    rcases Nat.lt_or_ge (i + limit) through.length with hlt | hge
    · rw [List.getElem?_append_left hlt] at hu
      rw [List.getElem?_append_left (by omega)] at hi
      exact h.spread i t u hi hu
    · -- it is the newest: the one before it by `limit` was forgotten
      have hbound := (List.getElem?_eq_some_iff.mp hu).1
      rw [List.length_append, List.length_singleton] at hbound
      have hlast : i + limit = through.length := by omega
      rw [hlast, List.getElem?_concat_length, Option.some.injEq] at hu
      rw [List.getElem?_append_left (by omega), heq, List.getElem?_append_left (by omega)] at hi
      rw [← hu]
      exact hold t (List.mem_of_getElem? hi)

end Window

end Lib
