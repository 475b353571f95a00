import Mathlib.Algebra.BigOperators.Fin
import Mathlib.Data.Fin.VecNotation
import BeforeColony.Lib.OddSphere
import BeforeColony.Proto.Entity
import BeforeColony.Proto.Reading

/-!
# Quantising

Numbers as the nearest of evenly spaced codes, in exact arithmetic: over `[-max, max]`, over the
same with zero exact, and over `[0, 1]`. What a code stands for is coded as that code. Directions
go by the octahedral map, which is exact too up to the lengths of vectors; rotations by which of
their components is the largest and the codes of the other three.
-/

set_option autoImplicit false

namespace BeforeColony

namespace Quant

open Lib Lib.OddSphere

section

variable {K : Type*} [Scalar K]

/-- The nearest whole number, halves away from zero. -/
def round (x : K) : ℤ := if 0 ≤ x then ⌊x + 1 / 2⌋ else ⌈x - 1 / 2⌉

def clamp (lo hi x : K) : K := max lo (min hi x)

/-- A number of `[-maxAbs, maxAbs]` over the codes of `bits` bits. -/
def quantizeSigned (v maxAbs : K) (bits : ℕ) : ℕ :=
  (round (clamp 0 1 ((v + maxAbs) / (2 * maxAbs)) * maxCode bits)).toNat

def dequantizeSigned (q : ℕ) (maxAbs : K) (bits : ℕ) : K :=
  (min q (maxCode bits) : ℕ) / maxCode bits * (2 * maxAbs) - maxAbs

def quantizeCentered (v maxAbs : K) (bits : ℕ) : ℤ :=
  round (clamp (-1) 1 (v / maxAbs) * maxCode (bits - 1))

def dequantizeCentered (q : ℤ) (maxAbs : K) (bits : ℕ) : K :=
  clamp (-(maxCode (bits - 1) : K)) (maxCode (bits - 1)) q / maxCode (bits - 1) * maxAbs

/-- A number of `[0, 1]` over the codes of `bits` bits. -/
def quantizeUnit (v : K) (bits : ℕ) : ℕ := (round (clamp 0 1 v * maxCode bits)).toNat

def dequantizeUnit (q bits : ℕ) : K := (min q (maxCode bits) : ℕ) / maxCode bits

variable {x maxAbs : K} {bits : ℕ}

theorem round_intCast (n : ℤ) : round (n : K) = n := by
  unfold round
  split
  · rw [Int.floor_eq_iff]
    constructor <;> linarith
  · rw [Int.ceil_eq_iff]
    constructor <;> linarith

theorem round_mem {lo hi : ℤ} (hlo : (lo : K) ≤ x) (hhi : x ≤ hi) : lo ≤ round x ∧ round x ≤ hi := by
  unfold round
  split
  · constructor
    · exact Int.le_floor.mpr (by linarith)
    · have hlt : ⌊x + 1 / 2⌋ < hi + 1 := Int.floor_lt.mpr (by push_cast; linarith)
      omega
  · constructor
    · have hlt : lo - 1 < ⌈x - 1 / 2⌉ := Int.lt_ceil.mpr (by push_cast; linarith)
      omega
    · exact Int.ceil_le.mpr (by linarith)

theorem clamp_mem {lo hi : K} (h : lo ≤ hi) (x : K) : lo ≤ clamp lo hi x ∧ clamp lo hi x ≤ hi :=
  ⟨le_max_left _ _, max_le h (min_le_left _ _)⟩

theorem clamp_eq {lo hi : K} (hlo : lo ≤ x) (hhi : x ≤ hi) : clamp lo hi x = x := by
  rw [clamp, min_eq_right hhi, max_eq_right hlo]

theorem maxCode_pos (h : 0 < bits) : 0 < maxCode bits := by
  have hpow := Nat.one_lt_two_pow h.ne'
  unfold maxCode
  omega

theorem maxCode_lt (bits : ℕ) : maxCode bits < 2 ^ bits :=
  Nat.sub_lt (Nat.two_pow_pos bits) Nat.one_pos

theorem round_unit_le (h : 0 ≤ x ∧ x ≤ 1) : (round (x * maxCode bits)).toNat ≤ maxCode bits := by
  have hm : (0 : K) ≤ maxCode bits := Nat.cast_nonneg _
  have hmem : 0 ≤ round (x * maxCode bits) ∧ round (x * maxCode bits) ≤ (maxCode bits : ℤ) :=
    round_mem (by push_cast; exact mul_nonneg h.1 hm)
      (by push_cast; exact mul_le_of_le_one_left hm h.2)
  omega

theorem quantizeSigned_le (v maxAbs : K) (bits : ℕ) : quantizeSigned v maxAbs bits ≤ maxCode bits :=
  round_unit_le (clamp_mem zero_le_one _)

theorem quantizeSigned_lt (v maxAbs : K) (bits : ℕ) : quantizeSigned v maxAbs bits < 2 ^ bits :=
  (quantizeSigned_le v maxAbs bits).trans_lt (maxCode_lt bits)

theorem quantizeUnit_lt (v : K) (bits : ℕ) : quantizeUnit v bits < 2 ^ bits :=
  (round_unit_le (clamp_mem zero_le_one v)).trans_lt (maxCode_lt bits)

theorem abs_quantizeCentered_le (v maxAbs : K) (bits : ℕ) :
    |quantizeCentered v maxAbs bits| ≤ maxCode (bits - 1) := by
  have hm : (0 : K) ≤ maxCode (bits - 1) := Nat.cast_nonneg _
  obtain ⟨hlow, hhigh⟩ := clamp_mem (show (-1 : K) ≤ 1 by norm_num) (v / maxAbs)
  exact abs_le.mpr (round_mem (by push_cast; nlinarith)
    (by push_cast; exact mul_le_of_le_one_left hm hhigh))

theorem quantizeCentered_mem (v maxAbs : K) (bits : ℕ) :
    -2 ^ (bits - 1) ≤ quantizeCentered v maxAbs bits
      ∧ quantizeCentered v maxAbs bits < 2 ^ (bits - 1) := by
  have hle := abs_le.mp (abs_quantizeCentered_le v maxAbs bits)
  have hlt : (maxCode (bits - 1) : ℤ) < 2 ^ (bits - 1) := by exact_mod_cast maxCode_lt (bits - 1)
  omega

theorem quantizeSigned_dequantize {q : ℕ} (hmax : 0 < maxAbs) (hbits : 0 < bits)
    (hq : q ≤ maxCode bits) : quantizeSigned (dequantizeSigned q maxAbs bits) maxAbs bits = q := by
  have hm : (0 : K) < maxCode bits := by exact_mod_cast maxCode_pos hbits
  have hle : (q : K) ≤ maxCode bits := by exact_mod_cast hq
  have hcode : (dequantizeSigned q maxAbs bits + maxAbs) / (2 * maxAbs) = q / maxCode bits := by
    rw [dequantizeSigned, min_eq_left hq]
    field_simp
    ring
  rw [quantizeSigned, hcode, clamp_eq (by positivity) ((div_le_one hm).mpr hle),
    div_mul_cancel₀ _ hm.ne']
  have hround := round_intCast (K := K) q
  rw [Int.cast_natCast] at hround
  rw [hround, Int.toNat_natCast]

theorem quantizeCentered_dequantize {q : ℤ} (hmax : 0 < maxAbs) (hbits : 1 < bits)
    (hq : |q| ≤ maxCode (bits - 1)) :
    quantizeCentered (dequantizeCentered q maxAbs bits) maxAbs bits = q := by
  have hm : (0 : K) < maxCode (bits - 1) := by exact_mod_cast maxCode_pos (Nat.sub_pos_of_lt hbits)
  obtain ⟨hlow, hhigh⟩ := abs_le.mp hq
  have hlow' : -(maxCode (bits - 1) : K) ≤ q := by exact_mod_cast hlow
  have hhigh' : (q : K) ≤ maxCode (bits - 1) := by exact_mod_cast hhigh
  have hcode : dequantizeCentered q maxAbs bits / maxAbs = q / maxCode (bits - 1) := by
    rw [dequantizeCentered, clamp_eq hlow' hhigh', mul_div_assoc, div_self hmax.ne', mul_one]
  have hle : (q : K) / maxCode (bits - 1) ≤ 1 := (div_le_one hm).mpr hhigh'
  have hge : -1 ≤ (q : K) / maxCode (bits - 1) := by rw [le_div_iff₀ hm]; linarith
  rw [quantizeCentered, hcode, clamp_eq hge hle, div_mul_cancel₀ _ hm.ne', round_intCast]

end

/-! ## Directions -/

def signNotZero (v : ℚ) : ℚ := if 0 ≤ v then 1 else -1

local instance neZero_three : NeZero 3 := ⟨Nat.succ_ne_zero 2⟩

def sum (n : Fin 3 → ℚ) : ℚ := |n 0| + |n 1| + |n 2|

/-- The octahedral map of a direction onto the square. -/
def octProject (n : Fin 3 → ℚ) : Fin 2 → ℚ :=
  if sum n ≤ 1 / 2 ^ 23 then ![0, 0]
  else
    let x := n 0 / sum n
    let y := n 1 / sum n
    if n 2 < 0 then ![(1 - |y|) * signNotZero x, (1 - |x|) * signNotZero y] else ![x, y]

/-- The direction of a point of the square, not yet brought to its length. -/
def octUnproject (e : Fin 2 → ℚ) : Fin 3 → ℚ :=
  let z := 1 - |e 0| - |e 1|
  let t := clamp 0 1 (-z)
  ![e 0 + (if 0 ≤ e 0 then -t else t), e 1 + (if 0 ≤ e 1 then -t else t), z]

/-- Lengths of vectors, which are square roots. -/
structure Lengths where
  length : (Fin 3 → ℚ) → ℚ
  half_le : ∀ v, sum v / 2 ≤ length v
  le_sum : ∀ v, length v ≤ sum v

/-- A vector brought to its direction, up if it has none. -/
def Lengths.normalized (l : Lengths) (n : Fin 3 → ℚ) : Fin 3 → ℚ :=
  if l.length n ≤ 1 / 2 ^ 23 then ![0, 0, 1] else fun k => n k / l.length n

def Lengths.axial : Lengths where
  length := sum
  half_le v := half_le_self (by unfold sum; positivity)
  le_sum _ := le_rfl

/-- The larger of a code and its mirror image where the other is at the square's edge. -/
def unfold (m other c : ℕ) : ℕ := if other = 0 ∨ other = m then max c (m - c) else c

/-- A direction's code: of the two an edge of the square has for it, always the same. -/
def dirCode (n : Fin 3 → ℚ) (bits : ℕ) : Fin 2 → ℕ :=
  let m := maxCode bits
  let y := quantizeSigned (octProject n 1) 1 bits
  let x := unfold m y (quantizeSigned (octProject n 0) 1 bits)
  ![x, unfold m x y]

def dirFromCode (l : Lengths) (c : Fin 2 → ℕ) (bits : ℕ) : Fin 3 → ℚ :=
  l.normalized (octUnproject fun k => dequantizeSigned (c k) 1 bits)

theorem abs_mul_signNotZero (v : ℚ) : |v| * signNotZero v = v := by
  unfold signNotZero
  split
  next h => rw [abs_of_nonneg h, mul_one]
  next h => rw [abs_of_neg (not_le.mp h), mul_neg_one, neg_neg]

theorem abs_signNotZero_mul (v : ℚ) {u : ℚ} (hu : 0 ≤ u) : |signNotZero v * u| = u := by
  unfold signNotZero
  split
  · rw [one_mul, abs_of_nonneg hu]
  · rw [neg_one_mul, abs_neg, abs_of_nonneg hu]

theorem signNotZero_mul {v u : ℚ} (hu : 0 ≤ u) (h : u = 0 → 0 ≤ v) :
    signNotZero (signNotZero v * u) = signNotZero v := by
  rcases hu.eq_or_lt with rfl | hpos
  · rw [mul_zero, signNotZero, signNotZero, if_pos le_rfl, if_pos (h rfl)]
  · unfold signNotZero
    split
    · rw [one_mul, if_pos hu]
    · rw [neg_one_mul, if_neg (by linarith)]

theorem add_toward_zero (v t : ℚ) :
    v + (if 0 ≤ v then -t else t) = signNotZero v * (|v| - t) := by
  unfold signNotZero
  split
  next h => rw [abs_of_nonneg h]; ring
  next h => rw [abs_of_neg (not_le.mp h)]; ring

/-- Above the horizon a point is its direction's x and y. -/
theorem octUnproject_upper {e : Fin 2 → ℚ} (h : |e 0| + |e 1| ≤ 1) :
    octUnproject e = ![e 0, e 1, 1 - |e 0| - |e 1|] := by
  have ht : clamp 0 1 (-(1 - |e 0| - |e 1|)) = 0 := by
    rw [clamp, max_eq_left ((min_le_right _ _).trans (by linarith))]
  simp only [octUnproject, add_toward_zero, ht, sub_zero]
  rw [mul_comm, abs_mul_signNotZero, mul_comm, abs_mul_signNotZero]

theorem octUnproject_lower {e : Fin 2 → ℚ} (hx : |e 0| ≤ 1) (hy : |e 1| ≤ 1)
    (h : 1 < |e 0| + |e 1|) : octUnproject e
      = ![signNotZero (e 0) * (1 - |e 1|), signNotZero (e 1) * (1 - |e 0|), 1 - |e 0| - |e 1|] := by
  have ht : clamp 0 1 (-(1 - |e 0| - |e 1|)) = |e 0| + |e 1| - 1 := by
    rw [clamp_eq (by linarith) (by linarith)]
    ring
  have hx1 : |e 0| - (|e 0| + |e 1| - 1) = 1 - |e 1| := by ring
  have hy1 : |e 1| - (|e 0| + |e 1| - 1) = 1 - |e 0| := by ring
  simp only [octUnproject, add_toward_zero, ht, hx1, hy1]

/-- The direction of a point of the square: its components add up to one. -/
theorem sum_octUnproject {e : Fin 2 → ℚ} (hx : |e 0| ≤ 1) (hy : |e 1| ≤ 1) :
    sum (octUnproject e) = 1 := by
  rcases le_or_gt (|e 0| + |e 1|) 1 with hupper | hlower
  · rw [octUnproject_upper hupper]
    have hz : abs (1 - |e 0| - |e 1|) = 1 - |e 0| - |e 1| := abs_of_nonneg (by linarith)
    simp only [sum, Matrix.cons_val_zero, Matrix.cons_val_one, Matrix.cons_val, hz]
    ring
  · rw [octUnproject_lower hx hy hlower]
    have hz : abs (1 - |e 0| - |e 1|) = |e 0| + |e 1| - 1 := by
      rw [abs_of_neg (by linarith)]
      ring
    simp only [sum, Matrix.cons_val_zero, Matrix.cons_val_one, Matrix.cons_val, hz,
      abs_signNotZero_mul _ (show 0 ≤ 1 - |e 0| by linarith),
      abs_signNotZero_mul _ (show 0 ≤ 1 - |e 1| by linarith)]
    ring

/-- A point that is its direction's: at an edge the one of its two. -/
theorem octProject_unproject {e : Fin 2 → ℚ} (hx : |e 0| ≤ 1) (hy : |e 1| ≤ 1)
    (hx' : |e 1| = 1 → 0 ≤ e 0) (hy' : |e 0| = 1 → 0 ≤ e 1) : octProject (octUnproject e) = e := by
  have hne : ¬(1 : ℚ) ≤ 1 / 2 ^ 23 := by norm_num
  have hpoint (u v : ℚ) (hu : u = e 0) (hv : v = e 1) : ![u, v] = e := by
    funext k
    cases k using Fin.cases with
    | zero => exact hu
    | succ k =>
      rw [Subsingleton.elim k 0]
      exact hv
  rw [octProject, sum_octUnproject hx hy, if_neg hne]
  rcases le_or_gt (|e 0| + |e 1|) 1 with hupper | hlower
  · have hz : ¬octUnproject e 2 < 0 := by
      rw [octUnproject_upper hupper]
      simp only [Matrix.cons_val, not_lt]
      linarith
    rw [if_neg hz, octUnproject_upper hupper]
    exact hpoint _ _ (div_one _) (div_one _)
  · have hz : octUnproject e 2 < 0 := by
      rw [octUnproject_lower hx hy hlower]
      simp only [Matrix.cons_val]
      linarith
    have hu : 0 ≤ 1 - |e 1| := by linarith
    have hv : 0 ≤ 1 - |e 0| := by linarith
    rw [if_pos hz, octUnproject_lower hx hy hlower]
    simp only [Matrix.cons_val_zero, Matrix.cons_val_one, div_one]
    rw [abs_signNotZero_mul _ hu, abs_signNotZero_mul _ hv,
      signNotZero_mul hu fun h => hx' (by linarith), signNotZero_mul hv fun h => hy' (by linarith),
      sub_sub_cancel, sub_sub_cancel]
    exact hpoint _ _ (abs_mul_signNotZero _) (abs_mul_signNotZero _)

theorem octProject_div {n : Fin 3 → ℚ} {len : ℚ} (hlen : 0 < len) (hle : len ≤ sum n)
    (hsum : 1 / 2 ^ 23 < sum n) : octProject (fun k => n k / len) = octProject n := by
  have hdiv : sum (fun k => n k / len) = sum n / len := by
    simp only [sum, abs_div, abs_of_pos hlen]
    ring
  have hbig : ¬sum n / len ≤ 1 / 2 ^ 23 := by
    have hone : 1 ≤ sum n / len := (one_le_div hlen).mpr hle
    have hsmall : (1 : ℚ) / 2 ^ 23 < 1 := by norm_num
    linarith
  have hsum' : sum n ≠ 0 := (lt_trans (by norm_num) hsum).ne'
  have hcancel (k : Fin 3) : n k / len / (sum n / len) = n k / sum n := by
    field_simp
  have hneg : n 2 / len < 0 ↔ n 2 < 0 := by rw [div_lt_iff₀ hlen, zero_mul]
  simp only [octProject, hdiv, if_neg hbig, if_neg (not_le.mpr hsum), hcancel, hneg]

theorem octProject_normalized (l : Lengths) {n : Fin 3 → ℚ} (h : sum n = 1) :
    octProject (l.normalized n) = octProject n := by
  have hhalf := l.half_le n
  have hle := l.le_sum n
  have hlen : ¬l.length n ≤ 1 / 2 ^ 23 := by
    have hsmall : (1 : ℚ) / 2 ^ 23 < 1 / 2 := by norm_num
    rw [h] at hhalf
    linarith
  rw [Lengths.normalized, if_neg hlen]
  exact octProject_div (lt_of_lt_of_le (by rw [h]; norm_num) hhalf) hle (by rw [h]; norm_num)

/-- A code of which an edge has no other for the same direction. -/
structure Unfolded (m : ℕ) (c : Fin 2 → ℕ) : Prop where
  x_le : c 0 ≤ m
  y_le : c 1 ≤ m
  x : c 1 = 0 ∨ c 1 = m → m ≤ 2 * c 0
  y : c 0 = 0 ∨ c 0 = m → m ≤ 2 * c 1

theorem unfolded_dirCode (n : Fin 3 → ℚ) (bits : ℕ) : Unfolded (maxCode bits) (dirCode n bits) := by
  have hx := quantizeSigned_le (octProject n 0) 1 bits
  have hy := quantizeSigned_le (octProject n 1) 1 bits
  simp only [dirCode]
  generalize quantizeSigned (octProject n 0) 1 bits = x at *
  generalize quantizeSigned (octProject n 1) 1 bits = y at *
  constructor <;> simp only [unfold, Matrix.cons_val_zero, Matrix.cons_val_one] <;> grind

theorem dirCode_fromCode (l : Lengths) {bits : ℕ} {c : Fin 2 → ℕ} (hbits : 0 < bits)
    (h : Unfolded (maxCode bits) c) : dirCode (dirFromCode l c bits) bits = c := by
  have hm : (0 : ℚ) < maxCode bits := by exact_mod_cast maxCode_pos hbits
  have hvalue (q : ℕ) (hq : q ≤ maxCode bits) :
      dequantizeSigned q (1 : ℚ) bits = (2 * q - maxCode bits) / maxCode bits := by
    rw [dequantizeSigned, min_eq_left hq]
    field_simp
  have habs (q : ℕ) (hq : q ≤ maxCode bits) : |dequantizeSigned q (1 : ℚ) bits| ≤ 1 := by
    have hle : (q : ℚ) ≤ maxCode bits := by exact_mod_cast hq
    rw [hvalue q hq, abs_le, le_div_iff₀ hm, div_le_one hm]
    constructor <;> linarith
  have hedge (q : ℕ) (hq : q ≤ maxCode bits) (h1 : |dequantizeSigned q (1 : ℚ) bits| = 1) :
      q = 0 ∨ q = maxCode bits := by
    rw [hvalue q hq, abs_div, abs_of_pos hm, div_eq_one_iff_eq hm.ne'] at h1
    rcases abs_choice (2 * (q : ℚ) - maxCode bits) with h | h <;> rw [h] at h1
    · exact .inr (by exact_mod_cast (show (q : ℚ) = maxCode bits by linarith))
    · exact .inl (by exact_mod_cast (show (q : ℚ) = 0 by linarith))
  have hsign (q : ℕ) (hq : q ≤ maxCode bits) (hhalf : maxCode bits ≤ 2 * q) :
      0 ≤ dequantizeSigned q (1 : ℚ) bits := by
    have hle : (maxCode bits : ℚ) ≤ 2 * q := by exact_mod_cast hhalf
    rw [hvalue q hq]
    exact div_nonneg (by linarith) hm.le
  have hsum := sum_octUnproject (e := fun k => dequantizeSigned (c k) (1 : ℚ) bits)
    (habs _ h.x_le) (habs _ h.y_le)
  have hproject : octProject (dirFromCode l c bits) = fun k => dequantizeSigned (c k) (1 : ℚ) bits := by
    rw [dirFromCode, octProject_normalized l hsum]
    exact octProject_unproject (habs _ h.x_le) (habs _ h.y_le)
      (fun h1 => hsign _ h.x_le (h.x (hedge _ h.y_le h1)))
      (fun h1 => hsign _ h.y_le (h.y (hedge _ h.x_le h1)))
  have hx : unfold (maxCode bits) (c 1) (c 0) = c 0 := by
    unfold unfold
    split
    next hat => exact max_eq_left (by have := h.x hat; omega)
    next => rfl
  have hy : unfold (maxCode bits) (c 0) (c 1) = c 1 := by
    unfold unfold
    split
    next hat => exact max_eq_left (by have := h.y hat; omega)
    next => rfl
  simp only [dirCode, hproject, quantizeSigned_dequantize one_pos hbits h.x_le,
    quantizeSigned_dequantize one_pos hbits h.y_le, hx, hy]
  funext k
  cases k using Fin.cases with
  | zero => rfl
  | succ k =>
    rw [Subsingleton.elim k 0]
    rfl

theorem dirCode_settled (l : Lengths) (n : Fin 3 → ℚ) {bits : ℕ} (hbits : 0 < bits) :
    dirCode (dirFromCode l (dirCode n bits) bits) bits = dirCode n bits :=
  dirCode_fromCode l hbits (unfolded_dirCode n bits)

theorem dirCode_lt (n : Fin 3 → ℚ) (bits : ℕ) (k : Fin 2) : dirCode n bits k < 2 ^ bits := by
  have h := unfolded_dirCode n bits
  have hlt := maxCode_lt bits
  cases k using Fin.cases with
  | zero => exact h.x_le.trans_lt hlt
  | succ k =>
    rw [Subsingleton.elim k 0]
    exact h.y_le.trans_lt hlt

/-! ## Rotations -/

section

variable {K : Type*} [Scalar K]

/-- Square roots, and what the root of a half is taken to be: no component of a rotation but the
largest is larger. -/
structure Roots (K : Type*) where
  sqrt : K → K
  half : K

structure Roots.Exact (r : Roots K) : Prop where
  sqrt : IsSqrt r.sqrt
  half : r.half = r.sqrt (1 / 2)

noncomputable def Roots.real : Roots ℝ := ⟨Real.sqrt, Real.sqrt (1 / 2)⟩

theorem Roots.exact_real : Roots.real.Exact := ⟨isSqrt_real, rfl⟩

def Roots.float (sqrt : ℚ → ℚ) : Roots ℚ := ⟨sqrt, 11863283 / 16777216⟩

/-- The least step of a 32-bit float above one. -/
def epsilon : K := 1 / 2 ^ 23

def identity : Fin 4 → K := ![0, 0, 0, 1]

variable (r : Roots K)

/-- The code of a quaternion by its largest component as it stands: the first of them if some tie,
and the others in their order, as if it were positive. -/
def largestCode (q : Fin 4 → K) (bits : ℕ) : Quat :=
  let largest := firstLargest q
  let sign : K := if q largest < 0 then -1 else 1
  { largest
    codes := fun k => quantizeSigned (q (largest.succAbove k) * sign) r.half bits }

def quatFromCode (code : Quat) (bits : ℕ) : Fin 4 → K :=
  let largest : Fin 4 := ⟨code.largest % 4, Nat.mod_lt _ (Nat.succ_pos 3)⟩
  let a : Fin 3 → K := fun k => dequantizeSigned (code.codes k) r.half bits
  let sum := ∑ k, a k * a k
  let q : Fin 4 → K := largest.insertNth (r.sqrt (max (1 - sum) 0)) a
  let len := r.sqrt (∑ i, q i * q i)
  if len ≤ epsilon then identity else fun i => q i / len

def again (bits : ℕ) (code : Quat) : Quat := largestCode r (quatFromCode r code bits) bits

/-- Codes again what a code decodes to, `n` times or until it holds still. -/
def settle (bits : ℕ) : ℕ → Quat → Quat
  | 0, code => code
  | n + 1, code => if again r bits code = code then code else settle bits n (again r bits code)

def quatCode (q : Fin 4 → K) (bits : ℕ) : Quat := settle r bits 3 (largestCode r q bits)

theorem settle_eq (bits n : ℕ) (code : Quat) : settle r bits n code = (again r bits)^[n] code := by
  induction n generalizing code with
  | zero => rfl
  | succ n ih =>
    rw [settle]
    split
    · rename_i hstill
      exact (Function.iterate_fixed hstill (n + 1)).symm
    · rw [ih, Function.iterate_succ_apply]

theorem largestCode_lt (q : Fin 4 → K) (bits : ℕ) :
    (largestCode r q bits).largest < 2 ^ 2 ∧ ∀ k, (largestCode r q bits).codes k < 2 ^ bits :=
  ⟨(firstLargest q).isLt, fun _ => quantizeSigned_lt _ _ _⟩

theorem settle_lt {bits : ℕ} {c : Quat} (h : c.largest < 2 ^ 2 ∧ ∀ k, c.codes k < 2 ^ bits)
    (n : ℕ) : (settle r bits n c).largest < 2 ^ 2 ∧ ∀ k, (settle r bits n c).codes k < 2 ^ bits := by
  induction n generalizing c with
  | zero => exact h
  | succ n ih =>
    rw [settle]
    split
    · exact h
    · exact ih (largestCode_lt r _ _)

theorem quatCode_lt (q : Fin 4 → K) (bits : ℕ) :
    (quatCode r q bits).largest < 2 ^ 2 ∧ ∀ k, (quatCode r q bits).codes k < 2 ^ bits :=
  settle_lt r (largestCode_lt r q bits) 3

end

end Quant

end BeforeColony
