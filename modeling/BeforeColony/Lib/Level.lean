import Mathlib.Algebra.Order.Ring.Int
import Mathlib.Tactic.Ring
import Mathlib.Tactic.Linarith

/-!
# Levels and what a climb is worth

Over a step height `m k` between each level `k` and the next there is a height function, and a
climb or a fall of `n` levels is `n` times a height that bounds the steps it takes. A walk that
earns no more than it climbs and pays no less than it falls ends a round trip with no gain.
-/

set_option autoImplicit false

namespace Lib.Level

def Rises (m Φ : ℤ → ℤ) : Prop := ∀ k, Φ (k + 1) = Φ k + m k

/-- The height over level zero: the steps up to it, or the steps down to it taken off. -/
def height (m : ℤ → ℤ) : ℤ → ℤ
  | .ofNat n => (List.range n).foldl (fun h (i : ℕ) => h + m i) 0
  | .negSucc n => (List.range (n + 1)).foldl (fun h (i : ℕ) => h - m (-i - 1)) 0

theorem rises_height (m : ℤ → ℤ) : Rises m (height m) := by
  intro k
  cases k with
  | ofNat n =>
    have hnext : (Int.ofNat n + 1) = Int.ofNat (n + 1) := rfl
    rw [hnext, height, height, List.range_succ, List.foldl_append, List.foldl_cons, List.foldl_nil]
    rfl
  | negSucc n =>
    cases n with
    | zero =>
      have hnext : Int.negSucc 0 + 1 = Int.ofNat 0 := rfl
      rw [hnext, height, height]
      simp
    | succ n =>
      have hnext : Int.negSucc (n + 1) + 1 = Int.negSucc n := rfl
      have hlevel : Int.negSucc (n + 1) = -((n + 1 : ℕ) : ℤ) - 1 := by
        rw [Int.negSucc_eq]
        push_cast
        ring
      rw [hnext, height, height, List.range_succ (n := n + 1), List.foldl_append, List.foldl_cons,
        List.foldl_nil, ← hlevel]
      ring

variable {m Φ : ℤ → ℤ}

theorem Rises.climb (h : Rises m Φ) {c : ℤ} (n : ℕ) (k : ℤ)
    (hm : ∀ i : ℕ, i < n → c ≤ m (k + i)) : n * c ≤ Φ (k + n) - Φ k := by
  induction n with
  | zero => simp
  | succ n ih =>
    have hlast := hm n (Nat.lt_succ_self n)
    have hrest := ih fun i hi => hm i (hi.trans (Nat.lt_succ_self n))
    have hstep := h (k + n)
    push_cast at hrest ⊢
    rw [← add_assoc, hstep]
    linarith

theorem Rises.fall (h : Rises m Φ) {c : ℤ} (n : ℕ) (k : ℤ)
    (hm : ∀ i : ℕ, i < n → m (k - 1 - i) ≤ c) : Φ k - Φ (k - n) ≤ n * c := by
  induction n with
  | zero => simp
  | succ n ih =>
    have hlast := hm n (Nat.lt_succ_self n)
    have hrest := ih fun i hi => hm i (hi.trans (Nat.lt_succ_self n))
    have hstep := h (k - 1 - n)
    have hlevel : k - 1 - (n : ℤ) + 1 = k - n := by ring
    have hbottom : k - ((n + 1 : ℕ) : ℤ) = k - 1 - n := by
      push_cast
      ring
    rw [hlevel] at hstep
    rw [hbottom]
    push_cast at hrest ⊢
    linarith

end Lib.Level
