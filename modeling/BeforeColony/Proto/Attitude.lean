import Mathlib.Algebra.BigOperators.Field
import Mathlib.Tactic.NormNum
import BeforeColony.Proto.Quant

/-!
# Attitudes as codes

A unit quaternion goes as which of its components is the largest and the codes of the other three;
the reader puts the largest back from those. Where two or more all but tie it may come back smaller
than one of the rest, so coding what was decoded names that one; the writer codes again what its
code decodes to, three times at most, and sends what it has then. In exact numbers a code is three
odd points of a sphere, and telling them again goes back and forth between two at most; so after
three times what is sent is coded as itself. The numbers are those of any field with square roots.
-/

set_option autoImplicit false

namespace BeforeColony

namespace Attitude

open Lib Lib.OddSphere Quant

variable {K : Type*} [Scalar K] {r : Roots K}

/-! ## Codes as odd points -/

/-- Three odd numbers within `m` either way, as codes. -/
def ofOdds (m : ℕ) (c : Code) : Quat where
  largest := c.hole
  codes k := ((c.odds (c.hole.succAbove k) + m) / 2).toNat

section

variable {bits : ℕ} (hr : r.Exact)

theorem maxCode_odd (h : 0 < bits) : maxCode bits % 2 = 1 := by
  obtain ⟨n, rfl⟩ := Nat.exists_eq_succ_of_ne_zero h.ne'
  have hpos := Nat.two_pow_pos n
  rw [maxCode, Nat.pow_succ]
  omega

theorem cast_maxCode_pos (h : 0 < bits) : (0 : K) < maxCode bits :=
  Nat.cast_pos.mpr (maxCode_pos h)

include hr

theorem sqrt_mul_self {x : K} (hx : 0 ≤ x) : r.sqrt (x * x) = x := by
  have hnonneg := hr.sqrt.nonneg _ (mul_self_nonneg x)
  have hsq := hr.sqrt.mul_self _ (mul_self_nonneg x)
  exact (mul_self_inj hnonneg hx).mp hsq

theorem root_half_mul_self : r.half * r.half = 1 / 2 := by
  rw [hr.half]
  exact hr.sqrt.mul_self _ (by positivity)

theorem root_half_pos : 0 < r.half := by
  have hsq := root_half_mul_self hr
  have hnonneg : 0 ≤ r.half := hr.half ▸ hr.sqrt.nonneg _ (by positivity)
  refine lt_of_le_of_ne hnonneg fun hzero => ?_
  rw [← hzero, zero_mul] at hsq
  norm_num at hsq

end

section

variable {bits : ℕ}

/-- Half a step of the codes of the three smallest. -/
def unit (r : Roots K) (bits : ℕ) : K := r.half / maxCode bits

/-- What the squares of a unit quaternion come to in half steps. -/
def whole (bits : ℕ) : ℤ := 2 * ((maxCode bits : ℤ) * maxCode bits)

theorem whole_emod (h : 0 < bits) : whole bits % 8 = 2 := by
  obtain ⟨k, hk⟩ : ∃ k : ℤ, (maxCode bits : ℤ) = 2 * k + 1 :=
    ⟨(maxCode bits : ℤ) / 2, by have := maxCode_odd h; omega⟩
  have heven : k * (k + 1) % 2 = 0 := Int.even_iff.mp (Int.even_mul_succ_self k)
  have hwhole : whole bits = 8 * (k * (k + 1)) + 2 := by
    rw [whole, hk]
    ring
  omega

theorem whole_big (h : 8 ≤ bits) : 200 ≤ whole bits := by
  have hpow : 2 ^ 8 ≤ 2 ^ bits := Nat.pow_le_pow_right (by decide) h
  have hcode : (255 : ℤ) ≤ maxCode bits := by
    rw [maxCode]
    omega
  rw [whole]
  nlinarith

theorem dequantizeSigned_odd (h : 0 < bits) {y : ℤ} (hy : y % 2 = 1) (hm : |y| ≤ maxCode bits) :
    dequantizeSigned ((y + maxCode bits) / 2).toNat (r.half) bits
      = unit r bits * (y : K) := by
  have hodd := maxCode_odd h
  obtain ⟨hlow, hhigh⟩ := abs_le.mp hm
  obtain ⟨q, hq⟩ : ∃ q : ℕ, y = 2 * q - maxCode bits := ⟨((y + maxCode bits) / 2).toNat, by omega⟩
  have hcode : ((y + maxCode bits) / 2).toNat = q := by omega
  have hle : q ≤ maxCode bits := by omega
  have hne : (maxCode bits : K) ≠ 0 := (cast_maxCode_pos h).ne'
  rw [hcode, dequantizeSigned, min_eq_left hle, hq, unit]
  push_cast
  field_simp

variable (hr : r.Exact)

include hr

theorem unit_pos (h : 0 < bits) : 0 < unit r bits :=
  div_pos (root_half_pos hr) (cast_maxCode_pos h)

theorem unit_mul_whole (h : 0 < bits) : unit r bits * unit r bits * (whole bits : ℤ) = (1 : K) := by
  have hm : (maxCode bits : K) ≠ 0 := (cast_maxCode_pos h).ne'
  have hhalf := root_half_mul_self hr
  have hsq : unit r bits * unit r bits * (whole bits : ℤ)
      = 2 * (r.half * r.half) := by
    rw [unit, whole]
    push_cast
    field_simp
  rw [hsq, hhalf]
  norm_num

/-- A number of half steps is coded as the odd number nearest it. -/
theorem quantizeSigned_near (h : 0 < bits) {x : K} (hx : |x| ≤ maxCode bits) :
    quantizeSigned (unit r bits * x) (r.half) bits
      = ((nearOdd x + maxCode bits) / 2).toNat := by
  obtain ⟨hlow, hhigh⟩ := abs_le.mp hx
  have hm := cast_maxCode_pos (K := K) h
  have hhalf := root_half_pos hr
  obtain ⟨k, hk⟩ : ∃ k : ℕ, maxCode bits = 2 * k + 1 :=
    ⟨maxCode bits / 2, by have := maxCode_odd h; omega⟩
  have hplace : (unit r bits * x + r.half) / (2 * r.half)
      = (x + maxCode bits) / (2 * maxCode bits) := by
    rw [unit]
    field_simp
  have hmem : 0 ≤ (x + maxCode bits) / (2 * maxCode bits)
      ∧ (x + maxCode bits) / (2 * maxCode bits) ≤ 1 := by
    constructor
    · exact div_nonneg (by linarith) (by linarith)
    · rw [div_le_one (by linarith)]
      linarith
  have hsteps : (x + maxCode bits) / (2 * maxCode bits) * maxCode bits = (x + maxCode bits) / 2 := by
    field_simp
  have hfloor : (x + maxCode bits) / 2 + 1 / 2 = x / (2 : ℕ) + ((k + 1 : ℤ) : K) := by
    rw [hk]
    push_cast
    ring
  rw [quantizeSigned, hplace, Quant.clamp, min_eq_right hmem.2, max_eq_right hmem.1, hsteps, Quant.round,
    if_pos (div_nonneg (by linarith) two_pos.le), hfloor, Int.floor_add_intCast, nearOdd, hk]
  congr 1
  push_cast
  omega

/-- Four numbers of half steps are coded as their odd points. -/
theorem largestCode_eq (h : 0 < bits) {x : Fin 4 → K}
    (hx : ∀ i, i ≠ firstLargest x → |x i| ≤ (maxCode bits : ℤ)) :
    largestCode r (fun i => unit r bits * x i) bits = ofOdds (maxCode bits) (encode x) := by
  have hunit := unit_pos hr h
  have hlargest := firstLargest_mul hunit x
  have hsign : (if unit r bits * x (firstLargest x) < 0 then -1 else 1 : K)
      = (sgn (x (firstLargest x)) : ℤ) := by
    have hneg : unit r bits * x (firstLargest x) < 0 ↔ x (firstLargest x) < 0 := by
      constructor
      · intro hlt
        exact lt_of_not_ge fun hge => (mul_nonneg hunit.le hge).not_gt hlt
      · exact mul_neg_of_pos_of_neg hunit
    unfold sgn
    split
    · rename_i hlt
      rw [if_pos (hneg.mp hlt)]
      push_cast
      rfl
    · rename_i hlt
      rw [if_neg fun hlt' => hlt (hneg.mpr hlt')]
      push_cast
      rfl
  unfold largestCode ofOdds
  simp only [hlargest, hsign]
  congr 1
  funext k
  have hne : (firstLargest x).succAbove k ≠ firstLargest x := Fin.succAbove_ne _ _
  have hsigned : unit r bits * x ((firstLargest x).succAbove k) * (sgn (x (firstLargest x)) : ℤ)
      = unit r bits * ((sgn (x (firstLargest x)) : ℤ) * x ((firstLargest x).succAbove k)) := by
    ring
  have habs : |((sgn (x (firstLargest x)) : ℤ) : K) * x ((firstLargest x).succAbove k)|
      ≤ maxCode bits := by
    have hle := hx _ hne
    rw [Int.cast_natCast] at hle
    rwa [abs_mul, ← Int.cast_abs, abs_sgn, Int.cast_one, one_mul]
  rw [hsigned, quantizeSigned_near hr h habs]
  change _ = (((encode x).odds ((firstLargest x).succAbove k) + maxCode bits) / 2).toNat
  rw [encode_of_ne hne]

/-- The codes of odd points decode to the points put back, in half steps. -/
theorem quatFromCode_ofOdds (h : 0 < bits) {c : Code} (hc : c.Sound (whole bits))
    (hm : ∀ i, |c.odds i| ≤ maxCode bits) :
    quatFromCode r (ofOdds (maxCode bits) c) bits
      = fun i => unit r bits * fill r.sqrt (whole bits) c i := by
  have hunit := unit_pos hr h
  have hone := unit_mul_whole hr h
  have hlargest : (⟨(ofOdds (maxCode bits) c).largest % 4, Nat.mod_lt _ (Nat.succ_pos 3)⟩ : Fin 4)
      = c.hole := Fin.ext (Nat.mod_eq_of_lt c.hole.isLt)
  have hcodes (k : Fin 3) :
      dequantizeSigned ((ofOdds (maxCode bits) c).codes k) (r.half) bits
        = unit r bits * (c.odds (c.hole.succAbove k) : K) :=
    dequantizeSigned_odd h (hc.odd _ (Fin.succAbove_ne _ _)) (hm _)
  have hsum : ∑ k, unit r bits * (c.odds (c.hole.succAbove k) : K)
        * (unit r bits * (c.odds (c.hole.succAbove k) : K))
      = unit r bits * unit r bits * (∑ i, c.odds i * c.odds i : ℤ) := by
    have hall := Fin.sum_univ_succAbove (fun i => c.odds i * c.odds i) c.hole
    rw [hc.hole, mul_zero, zero_add] at hall
    rw [hall, Int.cast_sum, Finset.mul_sum]
    refine Finset.sum_congr rfl fun k _ => ?_
    push_cast
    ring
  have hleft : 1 - unit r bits * unit r bits * (∑ i, c.odds i * c.odds i : ℤ)
      = unit r bits * unit r bits * (c.left (whole bits) : ℤ) := by
    rw [Code.left, ← hone]
    push_cast
    ring
  have hroot : r.sqrt (max (unit r bits * unit r bits * (c.left (whole bits) : ℤ)) 0)
      = unit r bits * r.sqrt (c.left (whole bits) : ℤ) := by
    have hnonneg := hc.left_nonneg (K := K)
    have hsq := hr.sqrt.mul_self _ hnonneg
    rw [max_eq_left (mul_nonneg (mul_self_nonneg _) hnonneg)]
    rw [show unit r bits * unit r bits * ((c.left (whole bits) : ℤ) : K)
      = unit r bits * r.sqrt (c.left (whole bits) : ℤ) * (unit r bits * r.sqrt (c.left (whole bits) : ℤ))
      by rw [mul_mul_mul_comm, hsq]]
    exact sqrt_mul_self hr (mul_nonneg hunit.le (hr.sqrt.nonneg _ hnonneg))
  have hplace : (c.hole.insertNth (unit r bits * r.sqrt (c.left (whole bits) : ℤ))
        (fun k => unit r bits * (c.odds (c.hole.succAbove k) : K)) : Fin 4 → K)
      = fun i => unit r bits * fill r.sqrt (whole bits) c i := by
    refine Fin.insertNth_eq_iff.mpr ⟨by rw [fill_hole], funext fun k => ?_⟩
    change _ = unit r bits * fill r.sqrt (whole bits) c (c.hole.succAbove k)
    rw [fill_of_ne (Fin.succAbove_ne _ _)]
  have hlen : ∑ i, unit r bits * fill r.sqrt (whole bits) c i
      * (unit r bits * fill r.sqrt (whole bits) c i) = 1 := by
    have hsphere := sum_fill hr.sqrt hc
    rw [Finset.sum_congr rfl fun i _ => mul_mul_mul_comm _ _ _ _, ← Finset.mul_sum, hsphere]
    exact hone
  have hsqrtOne : r.sqrt (1 : K) = 1 := by
    have hself := sqrt_mul_self hr (zero_le_one (α := K))
    rwa [one_mul] at hself
  have heps : ¬ (1 : K) ≤ epsilon := by
    rw [epsilon, not_le]
    norm_num
  unfold quatFromCode
  simp only [hlargest, hcodes, hsum, hleft, hroot, hplace, hlen, hsqrtOne]
  rw [if_neg heps]
  simp only [div_one]

theorem sum_quatFromCode (code : Quat) (bits : ℕ) :
    ∑ i, quatFromCode r code bits i * quatFromCode r code bits i = (1 : K) := by
  unfold quatFromCode
  dsimp only
  split
  · simp [identity, Fin.sum_univ_four]
  · rename_i hlen
    generalize Fin.insertNth (α := fun _ => K) _ _ _ = q at hlen ⊢
    have hnonneg : 0 ≤ ∑ i, q i * q i := Finset.sum_nonneg fun i _ => mul_self_nonneg _
    have hsq := hr.sqrt.mul_self _ hnonneg
    have heps : (0 : K) < epsilon := by
      rw [epsilon]
      positivity
    have hpos := heps.trans (not_le.mp hlen)
    rw [Finset.sum_congr rfl fun i _ => div_mul_div_comm _ _ _ _, ← Finset.sum_div, hsq]
    refine div_self fun hzero => ?_
    exact hpos.ne' (mul_self_eq_zero.mp (hsq.trans hzero))

/-! ## Settling -/

/-- Codes of odd points are told again as the points are. -/
theorem iterate_ofOdds (h : 0 < bits) (n : ℕ) {c : Code} (hc : c.Sound (whole bits))
    (hm : ∀ i, |c.odds i| ≤ maxCode bits) :
    (again r bits)^[n] (ofOdds (maxCode bits) c)
      = ofOdds (maxCode bits) ((recode r.sqrt (whole bits))^[n] c) := by
  induction n generalizing c with
  | zero => rfl
  | succ n ih =>
    have hmod := whole_emod h
    have hwithin (i : Fin 4) (hi : i ≠ firstLargest (fill r.sqrt (whole bits) c)) :
        |fill r.sqrt (whole bits) c i| ≤ (maxCode bits : ℤ) := by
      refine abs_le_of_ne ?_ (Int.natCast_nonneg _) hi
      exact sum_fill hr.sqrt hc
    rw [Function.iterate_succ_apply, Function.iterate_succ_apply, again,
      quatFromCode_ofOdds hr h hc hm, largestCode_eq hr h hwithin]
    exact ih (sound_recode hr.sqrt hmod hc) (recode_within hr.sqrt hmod hc hm)

/-- A coded attitude is its own code, however many components tie for the largest; and every decoded
quaternion is a unit one. -/
theorem quat_code_holds_still {q : Fin 4 → K} (hq : ∑ i, q i * q i = 1) (hbits : 8 ≤ bits) :
    quatCode r (quatFromCode r (quatCode r q bits) bits) bits = quatCode r q bits
      ∧ ∀ (code : Quat) (n : ℕ),
        ∑ i, quatFromCode r code n i * quatFromCode r code n i = (1 : K) := by
  refine ⟨?_, fun code n => sum_quatFromCode hr code n⟩
  have h : 0 < bits := hbits.trans_lt' (by decide)
  have hunit := unit_pos hr h
  have hmod := whole_emod h
  obtain ⟨x, rfl⟩ : ∃ x : Fin 4 → K, q = fun i => unit r bits * x i :=
    ⟨fun i => q i / unit r bits, funext fun i => (mul_div_cancel₀ _ hunit.ne').symm⟩
  have hx : ∑ i, x i * x i = (whole bits : ℤ) := by
    rw [Finset.sum_congr rfl fun i _ => mul_mul_mul_comm _ _ _ _, ← Finset.mul_sum] at hq
    have hsq : unit r bits * unit r bits ≠ 0 := (mul_pos hunit hunit).ne'
    exact mul_left_cancel₀ hsq (hq.trans (unit_mul_whole hr h).symm)
  have hwithin (i : Fin 4) (hi : i ≠ firstLargest x) : |x i| ≤ (maxCode bits : ℤ) :=
    abs_le_of_ne hx (Int.natCast_nonneg _) hi
  have hsound := sound_encode hx (whole_big hbits)
  have hodd : (maxCode bits : ℤ) % 2 = 1 := by exact_mod_cast maxCode_odd h
  have hm := encode_within hodd hwithin (Int.natCast_nonneg _)
  have hthrice := recode_recode_recode hr.sqrt hmod hsound
  have hcode : quatCode r (fun i => unit r bits * x i) bits
      = (again r bits)^[3] (ofOdds (maxCode bits) (encode x)) := by
    rw [quatCode, settle_eq, largestCode_eq hr h hwithin]
  have hrecode : quatCode r (quatFromCode r (quatCode r (fun i => unit r bits * x i) bits)
      bits) bits = (again r bits)^[3 + 4] (ofOdds (maxCode bits) (encode x)) := by
    have hagain : largestCode r (quatFromCode r (quatCode r (fun i => unit r bits * x i) bits)
        bits) bits = (again r bits)^[4] (ofOdds (maxCode bits) (encode x)) := by
      rw [Function.iterate_succ_apply', ← hcode, again]
    rw [Function.iterate_add_apply, ← hagain, quatCode, settle_eq]
  have hseven : (recode r.sqrt (whole bits))^[3 + 4] (encode x)
      = (recode r.sqrt (whole bits))^[3] (encode x) := by
    simp only [Function.iterate_succ_apply', Function.iterate_zero_apply, hthrice]
  rw [hrecode, hcode, iterate_ofOdds hr h _ hsound hm, iterate_ofOdds hr h _ hsound hm, hseven]

end

/-- Four components that tie. -/
theorem quat_code_holds_still_tied :
    quatCode Roots.real (quatFromCode Roots.real (quatCode Roots.real (fun _ => 1 / 2) 10) 10) 10
        = quatCode Roots.real (fun _ => 1 / 2) 10
      ∧ ∀ (code : Quat) (n : ℕ),
        ∑ i, quatFromCode Roots.real code n i * quatFromCode Roots.real code n i = (1 : ℝ) :=
  quat_code_holds_still Roots.exact_real (by norm_num) (by decide)

end Attitude

end BeforeColony
