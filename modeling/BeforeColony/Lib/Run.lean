import Mathlib.Algebra.Order.Monoid.Unbundled.Basic
import Mathlib.Algebra.GroupWithZero.Nat
import Mathlib.Algebra.Order.Group.Nat

/-!
# Runs of a step function

A run folds a step function over a list of labels. `Along` says that every step of a
run meets a condition on its state and label; `invariant` carries a property through
such a run, and `measure_eq` adds up what each step does to a quantity.
-/

set_option autoImplicit false

namespace Lib.Run

variable {σ ι : Type*} (step : σ → ι → σ)

/-- Every step of the run from `s` meets `C`. -/
def Along (C : σ → ι → Prop) : σ → List ι → Prop
  | _, [] => True
  | s, i :: rest => C s i ∧ Along C (step s i) rest

theorem along_append {C : σ → ι → Prop} {s : σ} {l l' : List ι} :
    Along step C s (l ++ l') ↔ Along step C s l ∧ Along step C (l.foldl step s) l' := by
  induction l generalizing s with
  | nil => simp [Along]
  | cons i rest ih => simp [Along, ih, and_assoc]

theorem along_of_forall {C : σ → ι → Prop} (h : ∀ s i, C s i) (s : σ) (l : List ι) :
    Along step C s l := by
  induction l generalizing s with
  | nil => trivial
  | cons i rest ih => exact ⟨h s i, ih _⟩

variable {step}

theorem along_and {C C' : σ → ι → Prop} {s : σ} {l : List ι} (h : Along step C s l)
    (h' : Along step C' s l) : Along step (fun s i => C s i ∧ C' s i) s l := by
  induction l generalizing s with
  | nil => trivial
  | cons i rest ih => exact ⟨⟨h.1, h'.1⟩, ih h.2 h'.2⟩

/-- What holds at the start and is kept by every step that meets the condition, holds at
the end. -/
theorem invariant {I : σ → Prop} {C : σ → ι → Prop}
    (hstep : ∀ s i, I s → C s i → I (step s i)) {s : σ} {l : List ι}
    (hs : I s) (hl : Along step C s l) : I (l.foldl step s) := by
  induction l generalizing s with
  | nil => exact hs
  | cons i rest ih => exact ih (hstep s i hs hl.1) hl.2

theorem of_end {P : σ → Prop} (hback : ∀ s i, P (step s i) → P s) {s : σ} {l : List ι}
    (h : P (l.foldl step s)) : P s := by
  induction l generalizing s with
  | nil => exact h
  | cons i rest ih => exact hback s i (ih h)

theorem along_of_end {P : σ → Prop} (hback : ∀ s i, P (step s i) → P s) {s : σ} {l : List ι}
    (h : P (l.foldl step s)) : Along step (fun s i => P (step s i)) s l := by
  induction l generalizing s with
  | nil => trivial
  | cons i rest ih => exact ⟨of_end hback h, ih h⟩

theorem along_mono {C D : σ → ι → Prop} (himp : ∀ s i, C s i → D s i) {s : σ} {l : List ι}
    (h : Along step C s l) : Along step D s l := by
  induction l generalizing s with
  | nil => trivial
  | cons i rest ih => exact ⟨himp s i h.1, ih h.2⟩

/-- Two conditions that agree where an invariant holds hold along the same runs, if those that
meet one keep it. -/
theorem along_congr {I : σ → Prop} {C D : σ → ι → Prop} (hiff : ∀ s i, I s → (C s i ↔ D s i))
    (hstep : ∀ s i, I s → D s i → I (step s i)) {s : σ} (hs : I s) {l : List ι} :
    Along step C s l ↔ Along step D s l := by
  induction l generalizing s with
  | nil => exact Iff.rfl
  | cons i rest ih =>
    constructor
    · intro hC
      have hD := (hiff s i hs).mp hC.1
      exact ⟨hD, (ih (hstep s i hs hD)).mp hC.2⟩
    · intro hD
      exact ⟨(hiff s i hs).mpr hD.1, (ih (hstep s i hs hD.1)).mpr hD.2⟩

/-- What a step keeps exactly when it meets the condition holds at every point of a run exactly
when every step of it does. -/
theorem forall_take_iff_along {I : σ → Prop} {C : σ → ι → Prop}
    (hstep : ∀ s i, I s → (I (step s i) ↔ C s i)) {s : σ} {l : List ι} (hs : I s) :
    (∀ n, I ((l.take n).foldl step s)) ↔ Along step C s l := by
  induction l generalizing s with
  | nil =>
    constructor
    · exact fun _ => trivial
    · intro _ n
      rw [List.take_nil]
      exact hs
  | cons i rest ih =>
    constructor
    · intro hall
      have hi : I (step s i) := hall 1
      exact ⟨(hstep s i hs).mp hi, (ih hi).mp fun n => hall (n + 1)⟩
    · intro halong n
      cases n with
      | zero => exact hs
      | succ n => exact (ih ((hstep s i hs).mpr halong.1)).mpr halong.2 n

/-- A property that an invariant gives holds at every point of a run exactly when every step meets
the condition, if those that do keep the invariant and no other step keeps the property. -/
theorem forall_take_iff {I P : σ → Prop} {C : σ → ι → Prop} (hgives : ∀ s, I s → P s)
    (hkeeps : ∀ s i, I s → C s i → I (step s i)) (honly : ∀ s i, I s → P (step s i) → C s i)
    {s : σ} {l : List ι} (hs : I s) : (∀ n, P ((l.take n).foldl step s)) ↔ Along step C s l := by
  induction l generalizing s with
  | nil =>
    refine iff_of_true (fun n => ?_) trivial
    rw [List.take_nil]
    exact hgives s hs
  | cons i rest ih =>
    constructor
    · intro hall
      have hi := honly s i hs (hall 1)
      exact ⟨hi, (ih (hkeeps s i hs hi)).mp fun n => hall (n + 1)⟩
    · intro halong n
      cases n with
      | zero => exact hgives s hs
      | succ n => exact (ih (hkeeps s i hs halong.1)).mpr halong.2 n

/-- The sum of what each step of a run contributes. -/
def total {M : Type*} [Add M] [Zero M] (step : σ → ι → σ) (δ : σ → ι → M) : σ → List ι → M
  | _, [] => 0
  | s, i :: rest => δ s i + total step δ (step s i) rest

theorem total_append {M : Type*} [AddMonoid M] (δ : σ → ι → M) (s : σ) (l l' : List ι) :
    total step δ s (l ++ l') = total step δ s l + total step δ (l.foldl step s) l' := by
  induction l generalizing s with
  | nil => rw [total, zero_add, List.nil_append, List.foldl_nil]
  | cons i rest ih => rw [List.cons_append, total, total, ih, List.foldl_cons, add_assoc]

theorem total_concat {M : Type*} [AddMonoid M] (δ : σ → ι → M) (s : σ) (l : List ι) (i : ι) :
    total step δ s (l ++ [i]) = total step δ s l + δ (l.foldl step s) i := by
  rw [total_append, total, total, add_zero]

/-- A quantity each step changes by `δ` is changed by a run by the sum of the `δ`s. -/
theorem measure_eq {M : Type*} [AddMonoid M] {μ : σ → M} {δ : σ → ι → M}
    {I : σ → Prop} {C : σ → ι → Prop}
    (hinv : ∀ s i, I s → C s i → I (step s i))
    (hstep : ∀ s i, I s → C s i → μ (step s i) = μ s + δ s i) {s : σ} {l : List ι}
    (hs : I s) (hl : Along step C s l) :
    μ (l.foldl step s) = μ s + total step δ s l := by
  induction l generalizing s with
  | nil => simp [total]
  | cons i rest ih =>
    rw [List.foldl_cons, ih (hinv s i hs hl.1) hl.2, hstep s i hs hl.1, total, add_assoc]

/-- Where each step's gains are what it leaves and gives, so are a run's. -/
theorem total_balance {M : Type*} [AddCommMonoid M] (μ : σ → M) {into out : σ → ι → M}
    (hstep : ∀ s i, μ (step s i) + out s i = μ s + into s i) (s : σ) (l : List ι) :
    μ (l.foldl step s) + total step out s l = μ s + total step into s l := by
  induction l generalizing s with
  | nil => rfl
  | cons i rest ih =>
    rw [List.foldl_cons, total, total]
    calc μ (rest.foldl step (step s i)) + (out s i + total step out (step s i) rest)
        = (μ (rest.foldl step (step s i)) + total step out (step s i) rest) + out s i := by
          rw [add_comm (out s i), add_assoc]
      _ = (μ s + into s i) + total step into (step s i) rest := by
          rw [ih, add_right_comm, hstep]
      _ = μ s + (into s i + total step into (step s i) rest) := add_assoc _ _ _

/-- Where each step's gains cover what it leaves and gives, so do a run's. -/
theorem total_balance_le {M : Type*} [AddCommMonoid M] [PartialOrder M] [IsOrderedAddMonoid M]
    (μ : σ → M) {into out : σ → ι → M} (hstep : ∀ s i, μ (step s i) + out s i ≤ μ s + into s i)
    (s : σ) (l : List ι) : μ (l.foldl step s) + total step out s l ≤ μ s + total step into s l := by
  induction l generalizing s with
  | nil => exact le_rfl
  | cons i rest ih =>
    rw [List.foldl_cons, total, total]
    calc μ (rest.foldl step (step s i)) + (out s i + total step out (step s i) rest)
        = (μ (rest.foldl step (step s i)) + total step out (step s i) rest) + out s i := by
          rw [add_comm (out s i), add_assoc]
      _ ≤ (μ (step s i) + total step into (step s i) rest) + out s i := add_le_add_left (ih _) _
      _ = (μ (step s i) + out s i) + total step into (step s i) rest := add_right_comm _ _ _
      _ ≤ (μ s + into s i) + total step into (step s i) rest := add_le_add_left (hstep s i) _
      _ = μ s + (into s i + total step into (step s i) rest) := add_assoc _ _ _

theorem total_add_fun {M : Type*} [AddCommMonoid M] (δ δ' : σ → ι → M) (s : σ) (l : List ι) :
    total step (fun s i => δ s i + δ' s i) s l = total step δ s l + total step δ' s l := by
  induction l generalizing s with
  | nil => exact (add_zero 0).symm
  | cons i rest ih => rw [total, total, total, ih, add_add_add_comm]

/-- Where the sum is bounded, so is each step's part. -/
theorem along_of_total_le {δ : σ → ι → ℕ} {bound : ℕ} {s : σ} {l : List ι}
    (h : total step δ s l ≤ bound) : Along step (fun s i => δ s i ≤ bound) s l := by
  induction l generalizing s with
  | nil => trivial
  | cons i rest ih =>
    rw [total] at h
    exact ⟨(Nat.le_add_right _ _).trans h, ih ((Nat.le_add_left _ _).trans h)⟩

/-! ## Steps that may not be possible -/

section Partial

variable (step? : σ → ι → Option σ)

/-- Every step of the run from `s`, as far as it goes, meets `C`. -/
def AlongSome (C : σ → ι → Prop) : σ → List ι → Prop
  | _, [] => True
  | s, i :: rest => C s i ∧ ∀ s', step? s i = some s' → AlongSome C s' rest

variable {step?}

theorem alongSome_and {C C' : σ → ι → Prop} {s : σ} {l : List ι} (h : AlongSome step? C s l)
    (h' : AlongSome step? C' s l) : AlongSome step? (fun s i => C s i ∧ C' s i) s l := by
  induction l generalizing s with
  | nil => trivial
  | cons i rest ih => exact ⟨⟨h.1, h'.1⟩, fun s' hs' => ih (h.2 s' hs') (h'.2 s' hs')⟩

theorem alongSome_of_none {C : σ → ι → Prop} {s : σ} {i : ι} {rest : List ι}
    (h : step? s i = none) : AlongSome step? C s (i :: rest) ↔ C s i := by
  rw [AlongSome, h]
  exact and_iff_left nofun

theorem alongSome_of_some {C : σ → ι → Prop} {s s' : σ} {i : ι} {rest : List ι}
    (h : step? s i = some s') :
    AlongSome step? C s (i :: rest) ↔ C s i ∧ AlongSome step? C s' rest := by
  rw [AlongSome, h]
  simp only [Option.some.injEq, forall_eq']

instance decidableAlongSome {C : σ → ι → Prop} [∀ s i, Decidable (C s i)] :
    (s : σ) → (l : List ι) → Decidable (AlongSome step? C s l)
  | _, [] => isTrue trivial
  | s, i :: rest =>
    match h : step? s i with
    | none => decidable_of_iff (C s i) (alongSome_of_none h).symm
    | some s' =>
      have := decidableAlongSome (C := C) s' rest
      decidable_of_iff (C s i ∧ AlongSome step? C s' rest) (alongSome_of_some h).symm

/-- What holds at the start and is kept by every step that meets the condition, holds at the end of
a run that comes to its end. -/
theorem invariant_some {I : σ → Prop} {C : σ → ι → Prop}
    (hstep : ∀ s i s', I s → C s i → step? s i = some s' → I s') {s s' : σ} {l : List ι}
    (hs : I s) (hl : AlongSome step? C s l) (hrun : l.foldlM step? s = some s') : I s' := by
  induction l generalizing s with
  | nil =>
    cases hrun
    exact hs
  | cons i rest ih =>
    rw [List.foldlM_cons] at hrun
    obtain ⟨s₁, hone, hrest⟩ := Option.bind_eq_some_iff.mp hrun
    exact ih (hstep s i s₁ hs hl.1 hone) (hl.2 s₁ hone) hrest

end Partial

end Lib.Run
