import Mathlib.Algebra.BigOperators.Fin
import Mathlib.Algebra.Order.BigOperators.Ring.Finset
import Mathlib.Tactic.IntervalCases
import Mathlib.Tactic.Linarith
import BeforeColony.Lib.Scalar

/-!
# Odd points of a sphere

Four numbers whose squares come to `n`, told by three: which is the first of the largest, and the odd
numbers nearest the others with its sign made positive. It is put back as the root of what the others
leave of `n`. Where it comes out smaller than one of them, telling the four again names that one: it
goes on between two places at most (`recode_recode_recode`), since no root is whole and so none is
half way between two odd numbers.
-/

set_option autoImplicit false

namespace Lib.OddSphere

open Function

variable {K : Type*} [Scalar K]

/-! ## The first of the largest -/

def firstLargest : {n : ℕ} → (Fin (n + 1) → K) → Fin (n + 1)
  | 0, _ => Fin.last 0
  | n + 1, a =>
    let j := (firstLargest fun i : Fin (n + 1) => a i.castSucc).castSucc
    if |a j| < |a (Fin.last (n + 1))| then Fin.last (n + 1) else j

section

variable {n : ℕ} {a : Fin (n + 1) → K}

theorem le_firstLargest (a : Fin (n + 1) → K) (i : Fin (n + 1)) : |a i| ≤ |a (firstLargest a)| := by
  induction n with
  | zero => rw [Fin.eq_zero i, Fin.eq_zero (firstLargest a)]
  | succ n ih =>
    rw [firstLargest]
    split
    · rename_i hlast
      cases i using Fin.lastCases with
      | last => exact le_rfl
      | cast i => exact (ih (fun i => a i.castSucc) i).trans hlast.le
    · rename_i hlast
      cases i using Fin.lastCases with
      | last => exact not_lt.mp hlast
      | cast i => exact ih (fun i => a i.castSucc) i

theorem lt_firstLargest {i : Fin (n + 1)} (h : i < firstLargest a) :
    |a i| < |a (firstLargest a)| := by
  induction n with
  | zero =>
    rw [Fin.eq_zero i, Fin.eq_zero (firstLargest a)] at h
    exact absurd h (lt_irrefl 0)
  | succ n ih =>
    rw [firstLargest] at h ⊢
    split at h
    · rename_i hlast
      rw [if_pos hlast]
      cases i using Fin.lastCases with
      | last => exact absurd h (lt_irrefl _)
      | cast i => exact (le_firstLargest (fun i => a i.castSucc) i).trans_lt hlast
    · rename_i hlast
      rw [if_neg hlast]
      cases i using Fin.lastCases with
      | last => exact absurd h (Fin.le_last _).not_gt
      | cast i => exact ih (Fin.castSucc_lt_castSucc_iff.mp h)

theorem firstLargest_eq {j : Fin (n + 1)} (hle : ∀ i, |a i| ≤ |a j|) (hlt : ∀ i < j, |a i| < |a j|) :
    firstLargest a = j := by
  rcases lt_trichotomy (firstLargest a) j with h | h | h
  · exact absurd (le_firstLargest a j) (hlt _ h).not_ge
  · exact h
  · exact absurd (hle _) (lt_firstLargest h).not_ge

theorem firstLargest_mul {σ : K} (hσ : 0 < σ) (a : Fin (n + 1) → K) :
    (firstLargest fun i => σ * a i) = firstLargest a := by
  have habs (i : Fin (n + 1)) : |σ * a i| = σ * |a i| := by rw [abs_mul, abs_of_pos hσ]
  apply firstLargest_eq
  · intro i
    rw [habs, habs]
    exact mul_le_mul_of_nonneg_left (le_firstLargest a i) hσ.le
  · intro i hi
    rw [habs, habs]
    exact mul_lt_mul_of_pos_left (lt_firstLargest hi) hσ

end

/-! ## The nearest odd number -/

/-- The odd number nearest to `x`, the one above half way between two. -/
def nearOdd (x : K) : ℤ := 2 * ⌊x / (2 : ℕ)⌋ + 1

def sgn (x : K) : ℤ := if x < 0 then -1 else 1

section

variable {x : K} {y m : ℤ}

theorem nearOdd_odd (x : K) : nearOdd x % 2 = 1 := by
  unfold nearOdd
  omega

theorem lt_nearOdd (x : K) : x - 1 < nearOdd x := by
  have hfloor := Int.lt_floor_add_one (x / (2 : ℕ))
  rw [nearOdd]
  push_cast at hfloor ⊢
  linarith

theorem nearOdd_le (x : K) : nearOdd x ≤ x + 1 := by
  have hfloor := Int.floor_le (x / (2 : ℕ))
  rw [nearOdd]
  push_cast at hfloor ⊢
  linarith

theorem nearOdd_eq (hy : y % 2 = 1) (hlow : y - 1 < x) (hhigh : x < y + 1) : nearOdd x = y := by
  have hlow' := lt_nearOdd x
  have hhigh' := nearOdd_le x
  have hodd := nearOdd_odd x
  have hbelow : (nearOdd x : K) < y + 2 := by linarith
  have habove : (y : K) < nearOdd x + 2 := by linarith
  norm_cast at hbelow habove
  omega

/-- What is within an odd number either way stays within it. -/
theorem abs_nearOdd_le (hm : m % 2 = 1) (hx : |x| ≤ m) : |nearOdd x| ≤ m := by
  obtain ⟨hlow, hhigh⟩ := abs_le.mp hx
  have hlow' := lt_nearOdd x
  have hhigh' := nearOdd_le x
  have hodd := nearOdd_odd x
  have hbelow : (nearOdd x : K) ≤ m + 1 := by linarith
  have habove : (-m - 1 : K) < nearOdd x := by linarith
  norm_cast at hbelow habove
  exact abs_le.mpr (by omega)

theorem abs_nearOdd_le_add (x : K) : |(nearOdd x : K)| ≤ |x| + 1 := by
  have hlow := lt_nearOdd x
  have hhigh := nearOdd_le x
  have habs := neg_abs_le x
  have habs' := le_abs_self x
  exact abs_le.mpr ⟨by linarith, by linarith⟩

theorem sgn_mul_self (x : K) : sgn x * sgn x = 1 := by
  unfold sgn
  split <;> rfl

theorem abs_sgn (x : K) : |sgn x| = 1 := by
  unfold sgn
  split <;> rfl

theorem sgn_of_pos (h : 0 < x) : sgn x = 1 := if_neg h.le.not_gt

theorem sgn_mul_abs (y : ℤ) : sgn (y : K) * |y| = y := by
  unfold sgn
  split
  · rename_i hneg
    rw [abs_of_neg (by exact_mod_cast hneg)]
    ring
  · rename_i hpos
    rw [abs_of_nonneg (by exact_mod_cast not_lt.mp hpos), one_mul]

theorem sgn_sgn_mul (x : K) {u : ℤ} (hu : 0 < u) : sgn ((sgn x * u : ℤ) : K) = sgn x := by
  have hpos : (0 : K) < u := by exact_mod_cast hu
  unfold sgn
  split
  · rw [if_pos]
    push_cast
    linarith
  · rw [if_neg]
    push_cast
    linarith

theorem nearOdd_sgn_mul (s : K) (hy : y % 2 = 1) (hlow : y - 1 < x) (hhigh : x < y + 1) :
    nearOdd (sgn s * x) = sgn s * y := by
  unfold sgn
  split
  · apply nearOdd_eq
    · omega
    · push_cast
      linarith
    · push_cast
      linarith
  · apply nearOdd_eq
    · omega
    · push_cast
      linarith
    · push_cast
      linarith

end

/-! ## Telling and putting back -/

/-- Three odd numbers and the place of a fourth. -/
@[ext]
structure Code where
  hole : Fin 4
  odds : Fin 4 → ℤ

def Code.left (n : ℤ) (c : Code) : ℤ := n - ∑ i, c.odds i * c.odds i

def fill (sqrt : K → K) (n : ℤ) (c : Code) : Fin 4 → K :=
  update (fun i => (c.odds i : K)) c.hole (sqrt (c.left n))

def encode (x : Fin 4 → K) : Code where
  hole := firstLargest x
  odds := update (fun i => nearOdd (sgn (x (firstLargest x)) * x i)) (firstLargest x) 0

def recode (sqrt : K → K) (n : ℤ) (c : Code) : Code := encode (fill sqrt n c)

/-- Odd numbers but in the hole, that leave something of `n`. -/
structure Code.Sound (n : ℤ) (c : Code) : Prop where
  odd : ∀ i, i ≠ c.hole → c.odds i % 2 = 1
  hole : c.odds c.hole = 0
  sum : ∑ i, c.odds i * c.odds i ≤ n

section

variable {sqrt : K → K} {n : ℤ} {c : Code}

@[simp] theorem fill_hole : fill sqrt n c c.hole = sqrt (c.left n) := update_self _ _ _

theorem fill_of_ne {i : Fin 4} (h : i ≠ c.hole) : fill sqrt n c i = c.odds i := update_of_ne h _ _

theorem sum_update_sq (f : Fin 4 → ℤ) (j : Fin 4) (v : ℤ) :
    ∑ i, update f j v i * update f j v i = ∑ i, f i * f i - f j * f j + v * v := by
  have hsq (i : Fin 4) : update f j v i * update f j v i
      = update (fun i => f i * f i) j (v * v) i := by
    rcases eq_or_ne i j with rfl | hne
    · rw [update_self, update_self]
    · rw [update_of_ne hne, update_of_ne hne]
  rw [Finset.sum_congr rfl fun i _ => hsq i, Finset.sum_update_of_mem (Finset.mem_univ j),
    ← Finset.add_sum_erase Finset.univ (fun i => f i * f i) (Finset.mem_univ j),
    Finset.sdiff_singleton_eq_erase]
  ring

namespace Code.Sound

theorem left_nonneg (h : c.Sound n) : (0 : K) ≤ (c.left n : ℤ) := by
  exact_mod_cast sub_nonneg.mpr h.sum

/-- Three odd squares leave seven over an eighth of `n` that is two over. -/
theorem left_emod (h : c.Sound n) (hn : n % 8 = 2) : c.left n % 8 = 7 := by
  have hone (i : Fin 4) : c.odds i * c.odds i % 8 = if i = c.hole then 0 else 1 := by
    split
    · rename_i hi
      rw [hi, h.hole]
      rfl
    · rename_i hi
      obtain ⟨k, hk⟩ : ∃ k, c.odds i = 2 * k + 1 := ⟨c.odds i / 2, by have := h.odd i hi; omega⟩
      have heven : k * (k + 1) % 2 = 0 := Int.even_iff.mp (Int.even_mul_succ_self k)
      have hsq : c.odds i * c.odds i = 4 * (k * (k + 1)) + 1 := by
        rw [hk]
        ring
      omega
  have hsum : (∑ i, c.odds i * c.odds i) % 8 = 3 := by
    rw [Finset.sum_int_mod, Finset.sum_congr rfl fun i _ => hone i]
    simp [Finset.sum_ite, Finset.filter_ne']
  unfold Code.left
  omega

variable (hsqrt : IsSqrt sqrt)

include hsqrt

theorem root_ne (h : c.Sound n) (hn : n % 8 = 2) (z : ℤ) : (z : K) ≠ sqrt (c.left n) := by
  intro hz
  have hsq := hsqrt.mul_self _ (h.left_nonneg (K := K))
  rw [← hz] at hsq
  have hint : z * z = c.left n := by exact_mod_cast hsq
  have hmod := h.left_emod hn
  rw [← hint, Int.mul_emod] at hmod
  have hlow := Int.emod_nonneg z (by decide : (8 : ℤ) ≠ 0)
  have hhigh := Int.emod_lt_of_pos z (by decide : (0 : ℤ) < 8)
  generalize z % 8 = r at hmod hlow hhigh
  interval_cases r <;> omega

theorem root_pos (h : c.Sound n) (hn : n % 8 = 2) : 0 < sqrt (c.left n : K) := by
  have hne := h.root_ne hsqrt hn 0
  rw [Int.cast_zero] at hne
  exact lt_of_le_of_ne (hsqrt.nonneg _ h.left_nonneg) hne

theorem nearOdd_root (h : c.Sound n) (hn : n % 8 = 2) :
    (nearOdd (sqrt (c.left n : K)) : K) - 1 < sqrt (c.left n)
      ∧ sqrt (c.left n : K) < nearOdd (sqrt (c.left n : K)) + 1 := by
  have hlow := lt_nearOdd (sqrt (c.left n : K))
  have hhigh := nearOdd_le (sqrt (c.left n : K))
  have hne := h.root_ne hsqrt hn (nearOdd (sqrt (c.left n : K)) - 1)
  push_cast at hne
  exact ⟨lt_of_le_of_ne (by linarith) hne, by linarith⟩

end Code.Sound

/-- The odd numbers of a code, and the one nearest what is in its hole. -/
def spread (sqrt : K → K) (n : ℤ) (c : Code) : Fin 4 → ℤ :=
  update c.odds c.hole (nearOdd (sqrt (c.left n)))

theorem spread_hole : spread sqrt n c c.hole = nearOdd (sqrt (c.left n)) := update_self _ _ _

theorem spread_of_ne {i : Fin 4} (h : i ≠ c.hole) : spread sqrt n c i = c.odds i := update_of_ne h _ _

theorem spread_odd (h : c.Sound n) (i : Fin 4) : spread sqrt n c i % 2 = 1 := by
  rcases eq_or_ne i c.hole with rfl | hne
  · rw [spread_hole]
    exact nearOdd_odd _
  · rw [spread_of_ne hne]
    exact h.odd i hne

variable (hsqrt : IsSqrt sqrt) (hn : n % 8 = 2)

include hsqrt hn

/-- What a code is put back as is near its odd numbers. -/
theorem fill_near (h : c.Sound n) (i : Fin 4) :
    (spread sqrt n c i : K) - 1 < fill sqrt n c i ∧ fill sqrt n c i < spread sqrt n c i + 1 := by
  rcases eq_or_ne i c.hole with rfl | hne
  · rw [spread_hole, fill_hole]
    exact h.nearOdd_root hsqrt hn
  · rw [spread_of_ne hne, fill_of_ne hne]
    exact ⟨sub_one_lt _, lt_add_one _⟩

/-- A code told again: its odd numbers, with another's place and sign. -/
theorem recode_eq (h : c.Sound n) {j : Fin 4} (hj : firstLargest (fill sqrt n c) = j) :
    recode sqrt n c = ⟨j, update (fun i => sgn (fill sqrt n c j) * spread sqrt n c i) j 0⟩ := by
  unfold recode encode
  rw [hj]
  congr 1
  refine congrArg (update · j 0) (funext fun i => ?_)
  obtain ⟨hlow, hhigh⟩ := fill_near hsqrt hn h i
  exact nearOdd_sgn_mul _ (spread_odd h i) hlow hhigh

theorem recode_of_ne (h : c.Sound n) {i j : Fin 4} (hj : firstLargest (fill sqrt n c) = j)
    (hi : i ≠ j) :
    (recode sqrt n c).odds i = sgn (fill sqrt n c j) * spread sqrt n c i := by
  rw [recode_eq hsqrt hn h hj]
  dsimp only
  rw [update_of_ne hi]

theorem recode_self (h : c.Sound n) {j : Fin 4} (hj : firstLargest (fill sqrt n c) = j) :
    (recode sqrt n c).odds j = 0 := by
  rw [recode_eq hsqrt hn h hj]
  dsimp only
  rw [update_self]

theorem recode_of_hole (h : c.Sound n) (hj : firstLargest (fill sqrt n c) = c.hole) :
    recode sqrt n c = c := by
  ext i
  · rw [recode_eq hsqrt hn h hj]
  · rcases eq_or_ne i c.hole with rfl | hne
    · rw [recode_self hsqrt hn h hj, h.hole]
    · rw [recode_of_ne hsqrt hn h hj hne, fill_hole, sgn_of_pos (h.root_pos hsqrt hn), one_mul,
        spread_of_ne hne]

/-- Another that is the first of the largest is more than what was put back, and at least as much as
the odd number nearest it. -/
structure Moves (sqrt : K → K) (n : ℤ) (c : Code) (j : Fin 4) : Prop where
  ne : j ≠ c.hole
  first : firstLargest (fill sqrt n c) = j

omit hsqrt hn in
theorem Moves.fill_eq {j : Fin 4} (h : Moves sqrt n c j) : fill sqrt n c j = c.odds j := fill_of_ne h.ne

theorem Moves.root_lt (h : c.Sound n) {j : Fin 4} (hj : Moves sqrt n c j) :
    sqrt (c.left n : K) < |c.odds j| := by
  have hle := le_firstLargest (fill sqrt n c) c.hole
  rw [hj.first, fill_hole, hj.fill_eq, abs_of_pos (h.root_pos hsqrt hn)] at hle
  have hne := h.root_ne hsqrt hn |c.odds j|
  push_cast at hne ⊢
  exact lt_of_le_of_ne hle hne.symm

theorem Moves.near_le (h : c.Sound n) {j : Fin 4} (hj : Moves sqrt n c j) :
    0 < nearOdd (sqrt (c.left n : K)) ∧ nearOdd (sqrt (c.left n : K)) ≤ |c.odds j| := by
  have hpos := h.root_pos hsqrt hn
  have hlt := hj.root_lt hsqrt hn h
  have hlow := lt_nearOdd (sqrt (c.left n : K))
  obtain ⟨hbelow, -⟩ := h.nearOdd_root hsqrt hn
  have hodd := nearOdd_odd (sqrt (c.left n : K))
  have habove : (-1 : K) < nearOdd (sqrt (c.left n : K)) := by linarith
  have hless : (nearOdd (sqrt (c.left n : K)) : K) < |c.odds j| + 1 := by linarith
  norm_cast at habove hless
  omega

theorem Moves.left_recode (h : c.Sound n) {j : Fin 4} (hj : Moves sqrt n c j) :
    (recode sqrt n c).left n = c.left n + |c.odds j| * |c.odds j|
      - nearOdd (sqrt (c.left n : K)) * nearOdd (sqrt (c.left n : K)) := by
  have hsq (a : ℤ) : sgn (fill sqrt n c j) * a * (sgn (fill sqrt n c j) * a)
      = a * a := by
    rw [mul_mul_mul_comm, sgn_mul_self, one_mul]
  have hspread := sum_update_sq c.odds c.hole (nearOdd (sqrt (c.left n : K)))
  rw [← spread, h.hole] at hspread
  have hrecode := sum_update_sq
    (fun i => sgn (fill sqrt n c j) * spread sqrt n c i) j 0
  simp only [hsq, spread_of_ne hj.ne] at hrecode
  rw [hspread] at hrecode
  rw [recode_eq hsqrt hn h hj.first, Code.left, hrecode, abs_mul_abs_self, Code.left]
  ring

theorem Moves.sound (h : c.Sound n) {j : Fin 4} (hj : Moves sqrt n c j) :
    (recode sqrt n c).Sound n := by
  have hhole : (recode sqrt n c).hole = j := hj.first
  refine ⟨fun i hi => ?_, ?_, sub_nonneg.mp ?_⟩
  · rw [recode_of_ne hsqrt hn h hj.first (hhole ▸ hi)]
    have hodd : spread sqrt n c i % 2 = 1 := spread_odd h i
    unfold sgn
    split <;> omega
  · rw [hhole, recode_self hsqrt hn h hj.first]
  · change 0 ≤ (recode sqrt n c).left n
    obtain ⟨hpos, hle⟩ := hj.near_le hsqrt hn h
    have hsq := mul_self_le_mul_self hpos.le hle
    have hleft : 0 ≤ c.left n := sub_nonneg.mpr h.sum
    rw [hj.left_recode hsqrt hn h]
    linarith

omit hn in
theorem sum_fill (h : c.Sound n) : ∑ i, fill sqrt n c i * fill sqrt n c i = (n : K) := by
  have hodds := Fin.sum_univ_succAbove (fun i => c.odds i * c.odds i) c.hole
  rw [h.hole, mul_zero, zero_add] at hodds
  rw [Fin.sum_univ_succAbove _ c.hole, fill_hole, hsqrt.mul_self _ h.left_nonneg, Code.left, hodds]
  simp only [fill_of_ne (Fin.succAbove_ne _ _)]
  push_cast
  ring

/-- None of a code's odd numbers is above `u`, and its root is more than one below; of those that are
`u` one may come before the hole. -/
structure Code.Level (sqrt : K → K) (n : ℤ) (c : Code) (u : ℤ) (l : Fin 4) : Prop where
  odd : u % 2 = 1
  le : ∀ i, i ≠ c.hole → |c.odds i| ≤ u
  root : (u : K) - 1 < sqrt (c.left n)
  later : ∀ i, i ≠ c.hole → |c.odds i| = u → i = l ∨ c.hole < i

/-- A code told again from another place is level with what was there. -/
theorem Moves.level (h : c.Sound n) {j : Fin 4} (hj : Moves sqrt n c j) :
    (recode sqrt n c).Level sqrt n |c.odds j| c.hole := by
  have hhole : (recode sqrt n c).hole = j := hj.first
  obtain ⟨hpos, hnear⟩ := hj.near_le hsqrt hn h
  have hodds (i : Fin 4) (hi : i ≠ j) : |(recode sqrt n c).odds i| = |spread sqrt n c i| := by
    rw [recode_of_ne hsqrt hn h hj.first hi, abs_mul, abs_sgn, one_mul]
  have hother (i : Fin 4) (hi : i ≠ c.hole) : ((|c.odds i| : ℤ) : K) = |fill sqrt n c i| := by
    rw [fill_of_ne hi, Int.cast_abs]
  refine ⟨?_, fun i hi => ?_, ?_, fun i hi heq => ?_⟩
  · have hodd := h.odd j hj.ne
    rcases abs_choice (c.odds j) with habs | habs <;> rw [habs] <;> omega
  · rw [hhole] at hi
    rw [hodds i hi]
    rcases eq_or_ne i c.hole with rfl | hne
    · rw [spread_hole, abs_of_pos hpos]
      exact hnear
    · have hle := le_firstLargest (fill sqrt n c) i
      rw [hj.first, ← hother i hne, ← hother j hj.ne] at hle
      rw [spread_of_ne hne]
      exact_mod_cast hle
  · -- the root's square and one less than `u`'s differ by what the two next to odd numbers leave
    have hroot := hsqrt.mul_self _ ((hj.sound hsqrt hn h).left_nonneg (K := K))
    have hold := hsqrt.mul_self _ (h.left_nonneg (K := K))
    have hnonneg := hsqrt.nonneg _ ((hj.sound hsqrt hn h).left_nonneg (K := K))
    obtain ⟨hlow, -⟩ := h.nearOdd_root hsqrt hn
    rw [hj.left_recode hsqrt hn h] at hroot hnonneg ⊢
    push_cast at hroot hnonneg ⊢
    have hnear' : (nearOdd (sqrt (c.left n : K)) : K) ≤ |(c.odds j : K)| := by exact_mod_cast hnear
    have hpos' : (1 : K) ≤ nearOdd (sqrt (c.left n : K)) := by exact_mod_cast hpos
    have hsq := mul_self_lt_mul_self (sub_nonneg.mpr hpos') hlow
    by_contra hle
    have hle' := mul_self_le_mul_self hnonneg (not_lt.mp hle)
    nlinarith
  · rw [hhole] at hi ⊢
    rcases eq_or_ne i c.hole with rfl | hne
    · exact .inl rfl
    · refine .inr (lt_of_le_of_ne (not_lt.mp fun hlt => ?_) hi.symm)
      have hless := lt_firstLargest (hj.first.symm ▸ hlt : i < firstLargest (fill sqrt n c))
      rw [hj.first, ← hother i hne, ← hother j hj.ne] at hless
      rw [hodds i hi, spread_of_ne hne] at heq
      exact absurd heq (by exact_mod_cast hless.ne)

theorem Moves.near_eq {u : ℤ} {k l : Fin 4} (h : c.Sound n) (hu : c.Level sqrt n u l)
    (hk : Moves sqrt n c k) : |c.odds k| = u ∧ nearOdd (sqrt (c.left n : K)) = u := by
  have hlt := hk.root_lt hsqrt hn h
  have hle := hu.le k hk.ne
  have hroot := hu.root
  have hmore : (u : K) - 1 < |c.odds k| := hroot.trans hlt
  norm_cast at hmore
  have heq : |c.odds k| = u := by omega
  rw [heq] at hlt
  exact ⟨heq, nearOdd_eq hu.odd hroot (hlt.trans (lt_add_one _))⟩

/-- Told again from another place, a level code's hole is the first of the largest. -/
theorem Moves.first_recode {u : ℤ} {k l : Fin 4} (h : c.Sound n) (hu : c.Level sqrt n u l)
    (hk : Moves sqrt n c k) : firstLargest (fill sqrt n (recode sqrt n c)) = c.hole := by
  obtain ⟨hodd, hnear⟩ := hk.near_eq hsqrt hn h hu
  have hhole : (recode sqrt n c).hole = k := hk.first
  have hleft : (recode sqrt n c).left n = c.left n := by
    rw [hk.left_recode hsqrt hn h, hodd, hnear, add_sub_cancel_right]
  have hlt := hk.root_lt hsqrt hn h
  rw [hodd] at hlt
  have hroot : |fill sqrt n (recode sqrt n c) k| < u := by
    rw [← hhole, fill_hole, hleft, abs_of_pos (h.root_pos hsqrt hn)]
    exact hlt
  have hother (i : Fin 4) (hi : i ≠ k) :
      |fill sqrt n (recode sqrt n c) i| = (|spread sqrt n c i| : ℤ) := by
    rw [fill_of_ne (hhole ▸ hi), recode_of_ne hsqrt hn h hk.first hi, ← Int.cast_abs, abs_mul, abs_sgn,
      one_mul]
  have hpos : 0 ≤ u := hodd ▸ abs_nonneg _
  have hthere : |fill sqrt n (recode sqrt n c) c.hole| = u := by
    rw [hother _ hk.ne.symm, spread_hole, hnear, abs_of_nonneg hpos]
  apply firstLargest_eq
  · intro i
    rw [hthere]
    rcases eq_or_ne i k with rfl | hi
    · exact hroot.le
    · rw [hother i hi]
      rcases eq_or_ne i c.hole with rfl | hne
      · rw [spread_hole, hnear, abs_of_nonneg hpos]
      · rw [spread_of_ne hne]
        exact_mod_cast hu.le i hne
  · intro i hi
    rw [hthere]
    rcases eq_or_ne i k with rfl | hik
    · exact hroot
    · rw [hother i hik, spread_of_ne hi.ne]
      refine lt_of_le_of_ne (by exact_mod_cast hu.le i hi.ne) fun heq => ?_
      have heq' : |c.odds i| = u := by exact_mod_cast heq
      -- both would be the one that may come before the hole
      have hil : i = l := (hu.later i hi.ne heq').resolve_right hi.not_gt
      have hki : k ≤ i := by
        refine not_lt.mp fun hlt => ?_
        have hless := lt_firstLargest (hk.first.symm ▸ hlt : i < firstLargest (fill sqrt n c))
        rw [hk.first, fill_of_ne hi.ne, fill_of_ne hk.ne, ← Int.cast_abs, ← Int.cast_abs, heq', hodd]
          at hless
        exact lt_irrefl _ hless
      have hkl : k = l := (hu.later k hk.ne hodd).resolve_right (hki.trans_lt hi).not_gt
      exact hik (hil.trans hkl.symm)

theorem Code.Level.recode_recode {u : ℤ} {l : Fin 4} (h : c.Sound n) (hu : c.Level sqrt n u l) :
    recode sqrt n (recode sqrt n c) = c := by
  by_cases hk : firstLargest (fill sqrt n c) = c.hole
  · rw [recode_of_hole hsqrt hn h hk, recode_of_hole hsqrt hn h hk]
  have hmoves : Moves sqrt n c (firstLargest (fill sqrt n c)) := ⟨hk, rfl⟩
  generalize firstLargest (fill sqrt n c) = k at hmoves
  obtain ⟨hodd, hnear⟩ := hmoves.near_eq hsqrt hn h hu
  have hsound := hmoves.sound hsqrt hn h
  have hhole : (recode sqrt n c).hole = k := hmoves.first
  have hfirst := hmoves.first_recode hsqrt hn h hu
  have hleft : (recode sqrt n c).left n = c.left n := by
    rw [hmoves.left_recode hsqrt hn h, hodd, hnear, add_sub_cancel_right]
  have hpos : 0 < u := hnear ▸ (hmoves.near_le hsqrt hn h).1
  have hsign : sgn (fill sqrt n (recode sqrt n c) c.hole) = sgn (fill sqrt n c k) := by
    rw [fill_of_ne (hhole ▸ hmoves.ne.symm), recode_of_ne hsqrt hn h hmoves.first hmoves.ne.symm,
      spread_hole, hnear, sgn_sgn_mul _ hpos]
  ext i
  · exact congrArg Fin.val hfirst
  · rcases eq_or_ne i c.hole with rfl | hi
    · rw [recode_self hsqrt hn hsound hfirst, h.hole]
    · rw [recode_of_ne hsqrt hn hsound hfirst hi, hsign]
      rcases eq_or_ne i k with rfl | hik
      · have hspread : spread sqrt n (recode sqrt n c) i = u := by
          rw [← hhole, spread_hole, hleft, hnear]
        rw [hspread, hmoves.fill_eq, ← hodd, sgn_mul_abs]
      · rw [spread_of_ne (hhole ▸ hik), recode_of_ne hsqrt hn h hmoves.first hik, spread_of_ne hi,
          ← mul_assoc, sgn_mul_self, one_mul]

/-- Told again three times, a code is what it is told as the first. -/
theorem recode_recode_recode (h : c.Sound n) :
    recode sqrt n (recode sqrt n (recode sqrt n c)) = recode sqrt n c := by
  by_cases hj : firstLargest (fill sqrt n c) = c.hole
  · rw [recode_of_hole hsqrt hn h hj, recode_of_hole hsqrt hn h hj, recode_of_hole hsqrt hn h hj]
  · have hmoves : Moves sqrt n c (firstLargest (fill sqrt n c)) := ⟨hj, rfl⟩
    exact (hmoves.level hsqrt hn h).recode_recode hsqrt hn (hmoves.sound hsqrt hn h)

theorem sound_recode (h : c.Sound n) : (recode sqrt n c).Sound n := by
  by_cases hj : firstLargest (fill sqrt n c) = c.hole
  · rwa [recode_of_hole hsqrt hn h hj]
  · exact Moves.sound hsqrt hn h ⟨hj, rfl⟩

/-- No odd number told again is above all there were. -/
theorem recode_within {m : ℤ} (h : c.Sound n) (hm : ∀ i, |c.odds i| ≤ m) (i : Fin 4) :
    |(recode sqrt n c).odds i| ≤ m := by
  by_cases hj : firstLargest (fill sqrt n c) = c.hole
  · rw [recode_of_hole hsqrt hn h hj]
    exact hm i
  · have hmoves : Moves sqrt n c (firstLargest (fill sqrt n c)) := ⟨hj, rfl⟩
    rcases eq_or_ne i (recode sqrt n c).hole with rfl | hi
    · rw [(hmoves.sound hsqrt hn h).hole, abs_zero]
      exact (abs_nonneg _).trans (hm c.hole)
    · exact ((hmoves.level hsqrt hn h).le i hi).trans (hm _)

end

/-! ## Points of the sphere -/

section

variable {x : Fin 4 → K} {n m : ℤ}

theorem encode_of_ne {i : Fin 4} (h : i ≠ firstLargest x) :
    (encode x).odds i = nearOdd (sgn (x (firstLargest x)) * x i) := by
  unfold encode
  dsimp only
  rw [update_of_ne h]

theorem encode_self (x : Fin 4 → K) : (encode x).odds (firstLargest x) = 0 := by
  unfold encode
  dsimp only
  rw [update_self]

/-- All but the largest of four are within the half of their squares' sum. -/
theorem abs_le_of_ne (hx : ∑ i, x i * x i = (2 * (m * m) : ℤ)) (hm : 0 ≤ m) {i : Fin 4}
    (hi : i ≠ firstLargest x) : |x i| ≤ m := by
  have hle := mul_self_le_mul_self (abs_nonneg _) (le_firstLargest x i)
  rw [abs_mul_abs_self, abs_mul_abs_self] at hle
  have hpair : x i * x i + x (firstLargest x) * x (firstLargest x) ≤ ∑ i, x i * x i := by
    rw [← Finset.sum_pair (f := fun i => x i * x i) hi]
    exact Finset.sum_le_univ_sum_of_nonneg fun i => mul_self_nonneg _
  rw [hx] at hpair
  push_cast at hpair
  have hm' : (0 : K) ≤ m := by exact_mod_cast hm
  refine le_of_not_gt fun hlt => ?_
  have hsq := mul_self_lt_mul_self hm' hlt
  rw [abs_mul_abs_self] at hsq
  linarith

/-- The code of four numbers on a sphere that isn't small leaves something of it. -/
theorem sound_encode (hx : ∑ i, x i * x i = (n : ℤ)) (hn : 200 ≤ n) : (encode x).Sound n := by
  refine ⟨fun i hi => ?_, encode_self x, ?_⟩
  · rw [encode_of_ne hi]
    exact nearOdd_odd _
  have ht := abs_nonneg (x (firstLargest x))
  have hle (i : Fin 4) : x i * x i ≤ |x (firstLargest x)| * |x (firstLargest x)| := by
    rw [← abs_mul_abs_self (x i)]
    exact mul_self_le_mul_self (abs_nonneg _) (le_firstLargest x i)
  have hself : |x (firstLargest x)| * |x (firstLargest x)| = x (firstLargest x) * x (firstLargest x) :=
    abs_mul_abs_self _
  generalize hlargest : |x (firstLargest x)| = t at ht hle hself
  have hbig : 7 ≤ t := by
    have hsum : ∑ i, x i * x i ≤ ∑ _i : Fin 4, t * t := Finset.sum_le_sum fun i _ => hle i
    have hn' : (200 : K) ≤ n := by exact_mod_cast hn
    rw [hx, Finset.sum_const, Finset.card_univ, Fintype.card_fin, nsmul_eq_mul] at hsum
    push_cast at hsum
    nlinarith
  have hone (i : Fin 4) : (((encode x).odds i * (encode x).odds i : ℤ) : K)
      ≤ x i * x i + (2 * t + 1) - if i = firstLargest x then t * t + 2 * t + 1 else 0 := by
    split
    · rename_i hi
      rw [hi, encode_self, ← hself]
      push_cast
      linarith
    · rename_i hi
      have hnear := abs_nearOdd_le_add ((sgn (x (firstLargest x)) : K) * x i)
      rw [← encode_of_ne hi, abs_mul, ← Int.cast_abs (a := sgn _), abs_sgn, Int.cast_one, one_mul]
        at hnear
      have hless := le_firstLargest x i
      rw [hlargest] at hless
      have hsq := mul_self_le_mul_self (abs_nonneg _) hnear
      rw [abs_mul_abs_self] at hsq
      have habs := abs_mul_abs_self (x i)
      push_cast
      linarith
  have hsum := Finset.sum_le_sum fun i (_ : i ∈ Finset.univ) => hone i
  rw [Finset.sum_sub_distrib, Finset.sum_add_distrib, Finset.sum_ite_eq', if_pos (Finset.mem_univ _), hx,
    Finset.sum_const, Finset.card_univ, Fintype.card_fin, nsmul_eq_mul, ← Int.cast_sum] at hsum
  push_cast at hsum
  have hroom : (∑ i, (encode x).odds i * (encode x).odds i : ℤ) ≤ (n : K) := by
    push_cast
    nlinarith
  exact_mod_cast hroom

theorem encode_within (hm : m % 2 = 1) (hx : ∀ i, i ≠ firstLargest x → |x i| ≤ m) (hpos : 0 ≤ m)
    (i : Fin 4) : |(encode x).odds i| ≤ m := by
  rcases eq_or_ne i (firstLargest x) with rfl | hi
  · rw [encode_self, abs_zero]
    exact hpos
  · rw [encode_of_ne hi]
    refine abs_nearOdd_le hm ?_
    rw [abs_mul, ← Int.cast_abs, abs_sgn, Int.cast_one, one_mul]
    exact hx i hi

end

end Lib.OddSphere
