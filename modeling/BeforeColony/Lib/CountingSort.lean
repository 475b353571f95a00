import Mathlib.Logic.Function.Basic
import Mathlib.Data.List.Basic
import Mathlib.Data.List.Count
import Mathlib.Data.List.Range
import Mathlib.Order.Monotone.Basic

/-!
# Counting sort

Entries with keys are put into one array, those of a key together and in their own order: the
keys are counted (`foldl_tally`), each key's place starts after those of the smaller ones
(`below`), and each entry goes to its key's next place (`Filling.put`). A key's slice of the array
then holds its entries (`slice_scatter`), and the whole array is the slices one after another
(`slice_zero`).
-/

set_option autoImplicit false

namespace Lib.CountingSort

variable {α : Type*}

/-! ### Slices of an array -/

def slice (items : ℕ → α) (lo hi : ℕ) : List α := (List.range' lo (hi - lo)).map items

variable {items : ℕ → α} {lo mid hi b k B : ℕ}

@[simp] theorem slice_self (items : ℕ → α) (lo : ℕ) : slice items lo lo = [] := by
  simp [slice]

theorem slice_append (hlo : lo ≤ mid) (hhi : mid ≤ hi) :
    slice items lo mid ++ slice items mid hi = slice items lo hi := by
  obtain ⟨m, rfl⟩ := Nat.exists_eq_add_of_le hlo
  obtain ⟨n, rfl⟩ := Nat.exists_eq_add_of_le hhi
  have hsplit := List.range'_append_1 (s := lo) (m := m) (n := n)
  have hrest : lo + m + n - (lo + m) = n := Nat.add_sub_cancel_left _ _
  have hwhole : lo + m + n - lo = m + n := by
    omega
  rw [slice, slice, slice, Nat.add_sub_cancel_left, hrest, hwhole, ← List.map_append, hsplit]

theorem slice_succ (h : lo ≤ hi) : slice items lo (hi + 1) = slice items lo hi ++ [items hi] := by
  rw [← slice_append h (Nat.le_succ hi)]
  simp [slice]

theorem slice_congr {items' : ℕ → α} (h : ∀ k, lo ≤ k → k < hi → items' k = items k) :
    slice items' lo hi = slice items lo hi := by
  refine List.map_congr_left fun k hk => ?_
  obtain ⟨hlo, hhi⟩ := List.mem_range'_1.mp hk
  exact h k hlo (by omega)

/-! ### Counting the keys -/

def tally (count : ℕ → ℕ) (b : ℕ) : ℕ → ℕ := Function.update count b (count b + 1)

theorem foldl_tally (keys : List ℕ) (count : ℕ → ℕ) (b : ℕ) :
    keys.foldl tally count b = count b + keys.count b := by
  induction keys generalizing count with
  | nil => rfl
  | cons k rest ih =>
    rw [List.foldl_cons, ih]
    by_cases hk : b = k
    · subst hk
      rw [tally, Function.update_self, List.count_cons_self]
      omega
    · rw [tally, Function.update_of_ne hk, List.count_cons_of_ne (Ne.symm hk)]

def below (keys : List ℕ) (b : ℕ) : ℕ := keys.countP (· < b)

@[simp] theorem below_zero (keys : List ℕ) : below keys 0 = 0 := by
  simp [below]

theorem below_succ (keys : List ℕ) (b : ℕ) : below keys (b + 1) = below keys b + keys.count b := by
  induction keys with
  | nil => rfl
  | cons k rest ih =>
    simp only [below, List.countP_cons, List.count_cons] at ih ⊢
    rw [ih]
    simp only [decide_eq_true_eq, beq_iff_eq]
    rcases Nat.lt_trichotomy k b with hlt | rfl | hgt
    · rw [if_pos (by omega), if_pos hlt, if_neg (by omega)]
      omega
    · rw [if_pos (by omega), if_neg (by omega), if_pos rfl]
      omega
    · rw [if_neg (by omega), if_neg (by omega), if_neg (by omega)]
      omega

theorem below_mono (keys : List ℕ) : Monotone (below keys) := by
  refine monotone_nat_of_le_succ fun b => ?_
  rw [below_succ]
  exact Nat.le_add_right _ _

/-! ### Putting the entries in their places -/

/-- The array so far, and each key's next place. -/
structure Filling (α : Type*) where
  fill : ℕ → ℕ
  items : ℕ → α

/-- An entry goes to its key's next place. -/
def Filling.put (s : Filling α) (e : ℕ × α) : Filling α where
  fill := tally s.fill e.1
  items := Function.update s.items (s.fill e.1) e.2

def withKey (entries : List (ℕ × α)) (b : ℕ) : List α :=
  (entries.filter fun e => e.1 = b).map (·.2)

theorem mem_withKey {entries : List (ℕ × α)} {a : α} : a ∈ withKey entries b ↔ (b, a) ∈ entries := by
  simp only [withKey, List.mem_map, List.mem_filter, decide_eq_true_eq]
  constructor
  · rintro ⟨⟨k, v⟩, ⟨hmem, rfl⟩, rfl⟩
    exact hmem
  · intro hmem
    exact ⟨(b, a), ⟨hmem, rfl⟩, rfl⟩

theorem count_withKey [DecidableEq α] (entries : List (ℕ × α)) (b : ℕ) (a : α) :
    (withKey entries b).count a = entries.count (b, a) := by
  rw [withKey, List.count, List.countP_map, List.countP_filter, List.count]
  refine List.countP_congr fun e _ => ?_
  simp [Prod.ext_iff, and_comm]

/-- Each key's entries land after what its slice holds, as long as the slices keep apart. -/
theorem slice_foldl_put {start : ℕ → ℕ} (hstart : Monotone start) (entries : List (ℕ × α))
    (s : Filling α) (hkeys : ∀ e ∈ entries, e.1 < B)
    (hroom : ∀ b < B, start b ≤ s.fill b
      ∧ s.fill b + (entries.map (·.1)).count b ≤ start (b + 1)) (hb : b < B) :
    slice (entries.foldl Filling.put s).items (start b)
        (s.fill b + (entries.map (·.1)).count b) =
      slice s.items (start b) (s.fill b) ++ withKey entries b := by
  induction entries generalizing s with
  | nil => simp [withKey]
  | cons e rest ih =>
    obtain ⟨k, a⟩ := e
    have hk : k < B := hkeys (k, a) List.mem_cons_self
    obtain ⟨hlok, hhik⟩ := hroom k hk
    rw [List.map_cons, List.count_cons_self] at hhik
    have hrest : ∀ b < B, start b ≤ (s.put (k, a)).fill b
        ∧ (s.put (k, a)).fill b + (rest.map (·.1)).count b ≤ start (b + 1) := by
      intro b hb
      have hb' := hroom b hb
      rw [List.map_cons] at hb'
      show start b ≤ tally s.fill k b ∧ tally s.fill k b + _ ≤ _
      by_cases hbk : b = k
      · subst hbk
        rw [tally, Function.update_self]
        omega
      · rw [List.count_cons_of_ne (Ne.symm hbk)] at hb'
        rw [tally, Function.update_of_ne hbk]
        exact hb'
    have hstep := ih (s.put (k, a)) (fun e he => hkeys e (List.mem_cons_of_mem _ he)) hrest
    rw [List.foldl_cons, List.map_cons]
    obtain ⟨hlo, hhi⟩ := hroom b hb
    rw [List.map_cons] at hhi
    by_cases hbk : b = k
    · subst hbk
      have hfill : (s.put (b, a)).fill b = s.fill b + 1 := Function.update_self _ _ _
      have hnew : slice (s.put (b, a)).items (start b) (s.fill b + 1)
          = slice s.items (start b) (s.fill b) ++ [a] := by
        have hold : slice (s.put (b, a)).items (start b) (s.fill b)
            = slice s.items (start b) (s.fill b) := by
          refine slice_congr fun q _ hq => ?_
          exact Function.update_of_ne hq.ne _ _
        rw [slice_succ hlo, hold]
        exact congrArg (fun x => _ ++ [x]) (Function.update_self _ _ _)
      rw [hfill, hnew] at hstep
      rw [List.count_cons_self]
      have hplace : s.fill b + 1 + (rest.map (·.1)).count b
          = s.fill b + ((rest.map (·.1)).count b + 1) := by
        omega
      rw [hplace] at hstep
      rw [hstep]
      simp [withKey]
    · have hfill : (s.put (k, a)).fill b = s.fill b := Function.update_of_ne hbk _ _
      rw [List.count_cons_of_ne (Ne.symm hbk)] at hhi ⊢
      -- the entry's place is in its own key's slice
      have hold : slice (s.put (k, a)).items (start b) (s.fill b)
          = slice s.items (start b) (s.fill b) := by
        refine slice_congr fun q hq hq' => Function.update_of_ne ?_ _ _
        intro hplace
        have hqk : q = s.fill k := hplace
        rcases Nat.lt_or_gt_of_ne hbk with hlt | hgt
        · have hle : start (b + 1) ≤ start k := hstart hlt
          omega
        · have hle : start (k + 1) ≤ start b := hstart hgt
          omega
      rw [hfill, hold] at hstep
      rw [hstep]
      simp [withKey, Ne.symm hbk]

theorem slice_scatter {entries : List (ℕ × α)} {s : Filling α} (hkeys : ∀ e ∈ entries, e.1 < B)
    (hfill : ∀ b < B, s.fill b = below (entries.map (·.1)) b) (hb : b < B) :
    slice (entries.foldl Filling.put s).items (below (entries.map (·.1)) b)
      (below (entries.map (·.1)) (b + 1)) = withKey entries b := by
  have hroom : ∀ b < B, below (entries.map (·.1)) b ≤ s.fill b
      ∧ s.fill b + (entries.map (·.1)).count b ≤ below (entries.map (·.1)) (b + 1) := by
    intro b hb
    rw [hfill b hb, below_succ]
    exact ⟨le_rfl, le_rfl⟩
  have hslice := slice_foldl_put (below_mono _) entries s hkeys hroom hb
  rw [hfill b hb, slice_self, List.nil_append, ← below_succ] at hslice
  exact hslice

/-- The array is the keys' slices, one after another. -/
theorem slice_zero {start : ℕ → ℕ} (hstart : Monotone start) (items : ℕ → α) (B : ℕ) :
    slice items (start 0) (start B)
      = (List.range B).flatMap fun b => slice items (start b) (start (b + 1)) := by
  induction B with
  | zero => simp
  | succ B ih =>
    rw [List.range_succ, List.flatMap_append, ← ih, List.flatMap_singleton]
    exact (slice_append (hstart (Nat.zero_le B)) (hstart (Nat.le_succ B))).symm

end Lib.CountingSort
