import Mathlib.Data.Nat.Digits.Lemmas

/-!
# Numbers from one base to another

A number is written in base `b`, least digit first. Taking in one more digit of base `m` multiplies
by `m` and adds, digit by digit with a carry; a row of digits either grows by what is carried out or
has a fixed length that it must not leave. The number itself is read off the other way round, the
greatest digit first.
-/

set_option autoImplicit false

namespace Lib.Radix

variable {b m : ℕ}

/-- `m` times a number plus `c`, in as many digits as it had; and what is carried out. -/
def mulAdd (b m : ℕ) : ℕ → List ℕ → List ℕ × ℕ
  | c, [] => ([], c)
  | c, d :: ds =>
    let rest := mulAdd b m ((c + d * m) / b) ds
    ((c + d * m) % b :: rest.1, rest.2)

/-- The digits of a carry, at most `room` of them. -/
def push (b : ℕ) : ℕ → ℕ → List ℕ
  | 0, _ => []
  | room + 1, c => if c = 0 then [] else c % b :: push b room (c / b)

def grow (b m room : ℕ) (ds : List ℕ) (c : ℕ) : List ℕ :=
  (mulAdd b m c ds).1 ++ push b (room - ds.length) (mulAdd b m c ds).2

/-- The number whose digits in base `m` follow those of `v`, greatest first. -/
def horner (m v : ℕ) (cs : List ℕ) : ℕ := cs.foldl (fun v c => m * v + c) v

@[simp] theorem length_mulAdd (c : ℕ) (ds : List ℕ) : (mulAdd b m c ds).1.length = ds.length := by
  induction ds generalizing c with
  | nil => rfl
  | cons d ds ih => simp only [mulAdd, List.length_cons, ih]

theorem ofDigits_mulAdd (c : ℕ) (ds : List ℕ) :
    Nat.ofDigits b (mulAdd b m c ds).1 + b ^ ds.length * (mulAdd b m c ds).2
      = m * Nat.ofDigits b ds + c := by
  induction ds generalizing c with
  | nil => simp [mulAdd]
  | cons d ds ih =>
    have hrest := ih ((c + d * m) / b)
    have hdigit := Nat.mod_add_div (c + d * m) b
    simp only [mulAdd, Nat.ofDigits_cons, List.length_cons, pow_succ]
    calc (c + d * m) % b + b * Nat.ofDigits b (mulAdd b m ((c + d * m) / b) ds).1
          + b ^ ds.length * b * (mulAdd b m ((c + d * m) / b) ds).2
        = (c + d * m) % b + b * (Nat.ofDigits b (mulAdd b m ((c + d * m) / b) ds).1
          + b ^ ds.length * (mulAdd b m ((c + d * m) / b) ds).2) := by ring
      _ = (c + d * m) % b + b * ((c + d * m) / b) + b * (m * Nat.ofDigits b ds) := by
          rw [hrest]
          ring
      _ = m * (d + b * Nat.ofDigits b ds) + c := by
          rw [hdigit]
          ring

theorem mulAdd_lt (hb : 0 < b) (c : ℕ) (ds : List ℕ) : ∀ d ∈ (mulAdd b m c ds).1, d < b := by
  induction ds generalizing c with
  | nil => simp [mulAdd]
  | cons d ds ih =>
    intro e he
    rcases List.mem_cons.mp he with rfl | he
    · exact Nat.mod_lt _ hb
    · exact ih _ e he

/-- Nothing is carried out of digits with room for the number. -/
theorem carry_eq_zero {c : ℕ} {ds : List ℕ} (h : m * Nat.ofDigits b ds + c < b ^ ds.length) :
    (mulAdd b m c ds).2 = 0 := by
  rw [← ofDigits_mulAdd] at h
  by_contra hcarry
  have hpow : b ^ ds.length ≤ b ^ ds.length * (mulAdd b m c ds).2 :=
    Nat.le_mul_of_pos_right _ (Nat.pos_of_ne_zero hcarry)
  omega

theorem push_eq (hb : 1 < b) {room c : ℕ} (h : c < b ^ room) : push b room c = Nat.digits b c := by
  induction room generalizing c with
  | zero =>
    rw [pow_zero, Nat.lt_one_iff] at h
    rw [h, Nat.digits_zero]
    rfl
  | succ room ih =>
    rw [push]
    split
    · rename_i hzero
      rw [hzero, Nat.digits_zero]
    · rename_i hpos
      rw [Nat.digits_def' hb (Nat.pos_of_ne_zero hpos)]
      rw [pow_succ] at h
      rw [ih (Nat.div_lt_of_lt_mul (by rwa [mul_comm] at h))]

theorem mulAdd_digits (hb : 1 < b) (hm : 0 < m) (v c : ℕ) :
    (mulAdd b m c (Nat.digits b v)).1 ++ Nat.digits b (mulAdd b m c (Nat.digits b v)).2
      = Nat.digits b (m * v + c) := by
  induction v using Nat.strong_induction_on generalizing c with
  | _ v ih =>
    rcases Nat.eq_zero_or_pos v with rfl | hv
    · simp [mulAdd]
    · have hpos : 0 < m * v + c := Nat.add_pos_left (Nat.mul_pos hm hv) c
      have hsplit : m * v + c = (c + v % b * m) + b * (m * (v / b)) := by
        have hdiv := Nat.mod_add_div v b
        calc m * v + c = m * (v % b + b * (v / b)) + c := by rw [hdiv]
          _ = (c + v % b * m) + b * (m * (v / b)) := by ring
      have hmod : (m * v + c) % b = (c + v % b * m) % b := by
        rw [hsplit, Nat.add_mul_mod_self_left]
      have hquot : (m * v + c) / b = m * (v / b) + (c + v % b * m) / b := by
        rw [hsplit, Nat.add_mul_div_left _ _ (by omega), Nat.add_comm]
      rw [Nat.digits_def' hb hv, Nat.digits_def' hb hpos, hmod, hquot]
      simp only [mulAdd, List.cons_append]
      rw [ih (v / b) (Nat.div_lt_self hv hb)]

theorem grow_digits (hb : 1 < b) (hm : 0 < m) {room v c : ℕ} (h : m * v + c < b ^ room) :
    grow b m room (Nat.digits b v) c = Nat.digits b (m * v + c) := by
  have hlength := (Nat.digits_length_le_iff hb (m * v + c)).mpr h
  rw [← mulAdd_digits hb hm, List.length_append, length_mulAdd] at hlength
  have hcarry := (Nat.digits_length_le_iff hb (mulAdd b m c (Nat.digits b v)).2).mp
    (show _ ≤ room - (Nat.digits b v).length by omega)
  rw [grow, push_eq hb hcarry, mulAdd_digits hb hm]

theorem le_horner (hm : 0 < m) (v : ℕ) (cs : List ℕ) : v ≤ horner m v cs := by
  induction cs generalizing v with
  | nil => exact le_rfl
  | cons c cs ih =>
    have hstep : v ≤ m * v + c := (Nat.le_mul_of_pos_left v hm).trans (Nat.le_add_right _ _)
    exact hstep.trans (ih (m * v + c))

theorem horner_append (v : ℕ) (cs ds : List ℕ) : horner m v (cs ++ ds) = horner m (horner m v cs) ds :=
  List.foldl_append

theorem horner_reverse (ds : List ℕ) : horner m 0 ds.reverse = Nat.ofDigits m ds := by
  induction ds with
  | nil => rfl
  | cons d ds ih =>
    rw [List.reverse_cons, horner_append, ih, Nat.ofDigits_cons]
    exact Nat.add_comm _ _

theorem horner_zeros (n : ℕ) : horner m 0 (List.replicate n 0) = 0 := by
  induction n with
  | zero => rfl
  | succ n ih => exact ih

theorem pow_mul_le_horner (v : ℕ) (cs : List ℕ) : m ^ cs.length * v ≤ horner m v cs := by
  induction cs generalizing v with
  | nil => simp [horner]
  | cons c cs ih =>
    calc m ^ (cs.length + 1) * v = m ^ cs.length * (m * v) := by ring
      _ ≤ m ^ cs.length * (m * v + c) := Nat.mul_le_mul_left _ (Nat.le_add_right _ _)
      _ ≤ horner m v (c :: cs) := ih (m * v + c)

theorem horner_lt (v : ℕ) {cs : List ℕ} (hcs : ∀ c ∈ cs, c < m) :
    horner m v cs < m ^ cs.length * (v + 1) := by
  induction cs generalizing v with
  | nil => simp [horner]
  | cons c cs ih =>
    have hc : m * v + c + 1 ≤ m * (v + 1) := by
      have := hcs c List.mem_cons_self
      rw [Nat.mul_add_one]
      omega
    calc horner m v (c :: cs) < m ^ cs.length * (m * v + c + 1) :=
          ih (m * v + c) fun d hd => hcs d (List.mem_cons_of_mem c hd)
      _ ≤ m ^ cs.length * (m * (v + 1)) := Nat.mul_le_mul_left _ hc
      _ = m ^ (cs.length + 1) * (v + 1) := by ring

/-- As many digits, spelling the same number, are the same. -/
theorem horner_inj (hm : 1 < m) {cs ds : List ℕ} (hlength : cs.length = ds.length)
    (hcs : ∀ c ∈ cs, c < m) (hds : ∀ d ∈ ds, d < m) (h : horner m 0 cs = horner m 0 ds) : cs = ds := by
  rw [← cs.reverse_reverse, ← ds.reverse_reverse, horner_reverse, horner_reverse] at h
  refine List.reverse_inj.mp (Nat.ofDigits_inj_of_len_eq hm ?_ ?_ ?_ h)
  · rw [List.length_reverse, List.length_reverse, hlength]
  · exact fun c hc => hcs c (List.mem_reverse.mp hc)
  · exact fun d hd => hds d (List.mem_reverse.mp hd)

/-- Digits with `z` zeros in front spell a number of as many digits as there are others. -/
theorem horner_bounds {cs : List ℕ} (hcs : ∀ c ∈ cs, c < m) :
    horner m 0 cs < m ^ (cs.length - (cs.takeWhile (· = 0)).length)
      ∧ ((cs.takeWhile (· = 0)).length < cs.length →
        m ^ (cs.length - (cs.takeWhile (· = 0)).length - 1) ≤ horner m 0 cs) := by
  induction cs with
  | nil => simp [horner]
  | cons c cs ih =>
    obtain ⟨hupper, hlower⟩ := ih fun d hd => hcs d (List.mem_cons_of_mem c hd)
    by_cases hzero : c = 0
    · subst hzero
      have hsame : horner m 0 (0 :: cs) = horner m 0 cs := rfl
      rw [List.takeWhile_cons_of_pos (by simp), hsame, List.length_cons, List.length_cons,
        Nat.add_sub_add_right]
      exact ⟨hupper, fun hlt => hlower (Nat.lt_of_add_lt_add_right hlt)⟩
    · have hsame : horner m 0 (c :: cs) = horner m c cs := by
        simp only [horner, List.foldl_cons, Nat.mul_zero, Nat.zero_add]
      rw [List.takeWhile_cons_of_neg (by simpa using hzero), List.length_nil, Nat.sub_zero,
        List.length_cons, Nat.add_sub_cancel]
      refine ⟨by simpa using horner_lt 0 hcs, fun _ => ?_⟩
      rw [hsame]
      exact (Nat.le_mul_of_pos_right _ (Nat.pos_of_ne_zero hzero)).trans (pow_mul_le_horner c cs)

/-- Taking in digits one after another, with room for the number they spell. -/
theorem foldl_grow (hb : 1 < b) (hm : 0 < m) {room v : ℕ} {cs : List ℕ}
    (h : horner m v cs < b ^ room) :
    cs.foldl (grow b m room) (Nat.digits b v) = Nat.digits b (horner m v cs) := by
  induction cs generalizing v with
  | nil => rfl
  | cons c cs ih =>
    have hroom : m * v + c < b ^ room := (le_horner hm _ cs).trans_lt h
    rw [List.foldl_cons, grow_digits hb hm hroom]
    exact ih h

end Lib.Radix
