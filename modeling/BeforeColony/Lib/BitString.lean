import Mathlib.Algebra.Order.Ring.Nat
import Mathlib.Algebra.Order.Ring.Int
import Mathlib.Tactic.Ring
import Mathlib.Tactic.Positivity

/-!
# Numbers as bit strings

A number's low `n` bits, the lowest first, and the number a bit string stands for. Widths
add up: the bits of a word are those of its low part followed by those of the rest. Signed
numbers take the two's complement of their width.
-/

set_option autoImplicit false

namespace Lib.BitString

/-- The low `n` bits of a number, the lowest first. -/
def bits : ℕ → ℕ → List Bool
  | 0, _ => []
  | n + 1, v => (v % 2 = 1) :: bits n (v / 2)

def value : List Bool → ℕ
  | [] => 0
  | b :: rest => b.toNat + 2 * value rest

@[simp] theorem length_bits (n v : ℕ) : (bits n v).length = n := by
  induction n generalizing v with
  | zero => rfl
  | succ n ih => simp [bits, ih]

theorem value_bits (n v : ℕ) : value (bits n v) = v % 2 ^ n := by
  induction n generalizing v with
  | zero => simp [bits, value, Nat.mod_one]
  | succ n ih =>
    have hbit : (decide (v % 2 = 1)).toNat = v % 2 := by
      rcases Nat.mod_two_eq_zero_or_one v with h | h <;> simp [h]
    rw [bits, value, ih, hbit, Nat.pow_succ', Nat.mod_mul]

theorem value_bits_of_lt {n v : ℕ} (h : v < 2 ^ n) : value (bits n v) = v := by
  rw [value_bits, Nat.mod_eq_of_lt h]

theorem value_lt (l : List Bool) : value l < 2 ^ l.length := by
  induction l with
  | nil => simp [value]
  | cons b rest ih =>
    have hb : b.toNat ≤ 1 := by cases b <;> simp
    rw [value, List.length_cons, Nat.pow_succ']
    omega

theorem bits_value (l : List Bool) : bits l.length (value l) = l := by
  induction l with
  | nil => rfl
  | cons b rest ih =>
    rw [List.length_cons, bits, value]
    have hmod : (b.toNat + 2 * value rest) % 2 = b.toNat := by
      cases b <;> simp [Nat.add_mul_mod_self_left]
    have hdiv : (b.toNat + 2 * value rest) / 2 = value rest := by
      cases b with
      | false => simp
      | true =>
        simp only [Bool.toNat_true]
        omega
    rw [hmod, hdiv, ih]
    cases b <;> rfl

theorem bits_mod (n v : ℕ) : bits n (v % 2 ^ n) = bits n v := by
  rw [← value_bits n v]
  have h := bits_value (bits n v)
  rwa [length_bits] at h

theorem bits_congr {n v v' : ℕ} (h : v % 2 ^ n = v' % 2 ^ n) : bits n v = bits n v' := by
  rw [← bits_mod n v, h, bits_mod]

theorem bits_append (m n v : ℕ) : bits (m + n) v = bits m v ++ bits n (v / 2 ^ m) := by
  induction m generalizing v with
  | zero => simp [bits]
  | succ m ih =>
    rw [Nat.succ_add, bits, ih, bits, List.cons_append, Nat.div_div_eq_div_mul, Nat.pow_succ']

theorem bits_concat {m n v v' : ℕ} (h : v < 2 ^ m) :
    bits (m + n) (v + v' * 2 ^ m) = bits m v ++ bits n v' := by
  rw [bits_append]
  have hlow : bits m (v + v' * 2 ^ m) = bits m v := by
    apply bits_congr
    rw [Nat.add_mul_mod_self_right]
  have hhigh : (v + v' * 2 ^ m) / 2 ^ m = v' := by
    rw [Nat.add_mul_div_right _ _ (Nat.two_pow_pos m), Nat.div_eq_of_lt h, Nat.zero_add]
  rw [hlow, hhigh]

/-- The two's complement of `c` in `n` bits. -/
def unsigned (n : ℕ) (c : ℤ) : ℕ := (c % 2 ^ n).toNat

/-- The signed number a field of `n` bits stands for. -/
def signed (n v : ℕ) : ℤ := if v < 2 ^ (n - 1) then v else v - 2 ^ n

theorem unsigned_lt (n : ℕ) (c : ℤ) : unsigned n c < 2 ^ n := by
  have hpos : (0 : ℤ) < 2 ^ n := by positivity
  have hlt := Int.emod_lt_of_pos c hpos
  have hnonneg := Int.emod_nonneg c hpos.ne'
  unfold unsigned
  rw [← Int.toNat_natCast (2 ^ n), Int.toNat_lt_toNat] <;> push_cast <;> omega

theorem signed_unsigned {n : ℕ} {c : ℤ} (hn : 0 < n) (hlow : -2 ^ (n - 1) ≤ c)
    (hhigh : c < 2 ^ (n - 1)) : signed n (unsigned n c) = c := by
  obtain ⟨m, rfl⟩ := Nat.exists_eq_succ_of_ne_zero hn.ne'
  rw [Nat.succ_sub_one] at hlow hhigh
  have hpow : (2 : ℤ) ^ m.succ = 2 * 2 ^ m := Int.pow_succ' 2 m
  have hpos : (0 : ℤ) < 2 ^ m := by positivity
  unfold signed unsigned
  rw [Nat.succ_sub_one]
  by_cases hc : 0 ≤ c
  · have hmod : c % 2 ^ m.succ = c := Int.emod_eq_of_lt hc (by omega)
    have hlt : c.toNat < 2 ^ m := by
      rw [Int.toNat_lt hc]
      exact_mod_cast hhigh
    rw [hmod, if_pos hlt]
    omega
  · have hmod : c % 2 ^ m.succ = c + 2 ^ m.succ := by
      rw [← Int.add_emod_right, Int.emod_eq_of_lt (by omega) (by omega)]
    have hge : ¬ (c + 2 ^ m.succ).toNat < 2 ^ m := by
      rw [Int.toNat_lt (by omega)]
      push_cast
      omega
    rw [hmod, if_neg hge]
    omega

theorem signed_mem {n v : ℕ} (hn : 0 < n) (h : v < 2 ^ n) :
    -2 ^ (n - 1) ≤ signed n v ∧ signed n v < 2 ^ (n - 1) := by
  obtain ⟨m, rfl⟩ := Nat.exists_eq_succ_of_ne_zero hn.ne'
  have hpow : (2 : ℤ) ^ m.succ = 2 * 2 ^ m := Int.pow_succ' 2 m
  have hpos : (0 : ℤ) < 2 ^ m := by positivity
  have hv : (v : ℤ) < 2 ^ m.succ := by exact_mod_cast h
  unfold signed
  rw [Nat.succ_sub_one]
  split
  · rename_i hlow
    have hcast : (v : ℤ) < 2 ^ m := by exact_mod_cast hlow
    omega
  · rename_i hhigh
    have hcast : (2 : ℤ) ^ m ≤ v := by exact_mod_cast not_lt.mp hhigh
    omega

theorem unsigned_of_nat {n v : ℕ} (h : v < 2 ^ n) : unsigned n v = v := by
  unfold unsigned
  rw [Int.emod_eq_of_lt (by positivity) (by exact_mod_cast h), Int.toNat_natCast]

/-- Narrowing keeps the low bits. -/
theorem bits_unsigned {m n : ℕ} (h : m ≤ n) (c : ℤ) :
    bits m (unsigned n c) = bits m (unsigned m c) := by
  apply bits_congr
  have hdvd : (2 : ℤ) ^ m ∣ 2 ^ n := pow_dvd_pow 2 h
  have hcast (k : ℕ) : ((unsigned k c : ℕ) : ℤ) = c % 2 ^ k :=
    Int.toNat_of_nonneg (Int.emod_nonneg c (by positivity))
  have hz : ((unsigned n c % 2 ^ m : ℕ) : ℤ) = ((unsigned m c % 2 ^ m : ℕ) : ℤ) := by
    push_cast
    rw [hcast, hcast, Int.emod_emod_of_dvd c hdvd, Int.emod_emod_of_dvd c (dvd_refl _)]
  exact_mod_cast hz

end Lib.BitString
