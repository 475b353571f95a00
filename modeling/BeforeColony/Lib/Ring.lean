import Mathlib.Logic.Function.Basic
import Mathlib.Data.List.Basic
import Mathlib.Data.Nat.ModEq

/-!
# Rings of slots

A ring keeps the value numbered `i` in slot `i % n`, so a value lasts until the one `n` later
comes. `Mirrors` says that a ring holds the end of a log. A history is a ring with a head, read
from the newest back: a push puts a value in front and drops all past the `n`th.
-/

set_option autoImplicit false

namespace Lib

structure Ring (α : Type*) (n : ℕ) where
  slot : ℕ → α

namespace Ring

variable {α : Type*} {n i j : ℕ}

def get (r : Ring α n) (i : ℕ) : α := r.slot (i % n)

def set (r : Ring α n) (i : ℕ) (a : α) : Ring α n := ⟨Function.update r.slot (i % n) a⟩

def map (r : Ring α n) (f : α → α) : Ring α n := ⟨fun k => f (r.slot k)⟩

@[simp] theorem get_set_self (r : Ring α n) (i : ℕ) (a : α) : (r.set i a).get i = a := by
  simp [get, set]

@[simp] theorem get_map (r : Ring α n) (f : α → α) (i : ℕ) : (r.map f).get i = f (r.get i) := rfl

theorem get_set (r : Ring α n) (i j : ℕ) (a : α) :
    (r.set i a).get j = if j % n = i % n then a else r.get j := by
  simp only [get, set, Function.update_apply]

theorem mod_ne_of_near (hij : i < j) (hnear : j < i + n) : i % n ≠ j % n := by
  intro hmod
  have hdvd := (Nat.modEq_iff_dvd' hij.le).mp hmod
  have hle := Nat.le_of_dvd (by omega) hdvd
  omega

theorem get_set_of_lt {r : Ring α n} {a : α} (hij : i < j) (hnear : j < i + n) :
    (r.set j a).get i = r.get i := by
  rw [get_set, if_neg (mod_ne_of_near hij hnear)]

def Mirrors (r : Ring α n) (log : List α) : Prop :=
  ∀ i a, log[i]? = some a → log.length ≤ i + n → r.get i = a

theorem mirrors_nil (r : Ring α n) : r.Mirrors [] := by
  intro i a h
  simp at h

theorem Mirrors.push {r : Ring α n} {log : List α} (h : r.Mirrors log) (a : α) :
    (r.set log.length a).Mirrors (log ++ [a]) := by
  intro i b hb hlen
  rw [List.length_append, List.length_singleton] at hlen
  rcases Nat.lt_trichotomy i log.length with hlt | rfl | hgt
  · rw [get_set_of_lt hlt (by omega)]
    rw [List.getElem?_append_left hlt] at hb
    exact h i b hb (by omega)
  · rw [get_set_self]
    simpa using hb
  · have hnone : (log ++ [a])[i]? = none := by
      apply List.getElem?_eq_none
      simp
      omega
    rw [hnone] at hb
    cases hb

end Ring

/-- A ring with the slot the next value goes to and how many are held. -/
structure History (α : Type*) (n : ℕ) where
  ring : Ring α n
  head : ℕ
  count : ℕ
  head_lt : head < n
  count_le : count ≤ n

namespace History

variable {α : Type*} {n : ℕ}

def empty (hn : 0 < n) (a : α) : History α n := ⟨⟨fun _ => a⟩, 0, 0, hn, Nat.zero_le _⟩

def push (h : History α n) (a : α) : History α n where
  ring := h.ring.set h.head a
  head := (h.head + 1) % n
  count := min (h.count + 1) n
  head_lt := Nat.mod_lt _ (Nat.zero_lt_of_lt h.head_lt)
  count_le := Nat.min_le_right _ _

def newest (h : History α n) : List α :=
  (List.range h.count).map fun k => h.ring.get (h.head + n - 1 - k)

@[simp] theorem length_newest (h : History α n) : h.newest.length = h.count := by
  simp [newest]

@[simp] theorem newest_empty (hn : 0 < n) (a : α) : (empty hn a).newest = [] := rfl

theorem newest_getElem? (h : History α n) {k : ℕ} (hk : k < h.count) :
    h.newest[k]? = some (h.ring.get (h.head + n - 1 - k)) := by
  simp [newest, hk]

theorem push_get (h : History α n) (a : α) {k : ℕ} (hk : k < n) :
    (h.push a).ring.get ((h.push a).head + n - 1 - k)
      = if k = 0 then a else h.ring.get (h.head + n - 1 - (k - 1)) := by
  have hlt := h.head_lt
  have hindex : ((h.head + 1) % n + n - 1 - k) % n = (h.head + n - k) % n := by
    rcases Nat.lt_or_ge (h.head + 1) n with hless | hmore
    · rw [Nat.mod_eq_of_lt hless]
      congr 1
      omega
    · rw [show h.head + 1 = n by omega, Nat.mod_self,
        show h.head + n - k = 0 + n - 1 - k + n by omega, Nat.add_mod_right]
  simp only [push, Ring.get_set, hindex]
  rcases Nat.eq_zero_or_pos k with rfl | hpos
  · simp
  · rw [if_neg hpos.ne', if_neg]
    · simp only [Ring.get, hindex]
      congr 2
      omega
    · have hne : (h.head + n - k) % n ≠ (h.head + n) % n :=
        Ring.mod_ne_of_near (by omega) (by omega)
      rwa [Nat.add_mod_right] at hne

theorem newest_push (h : History α n) (a : α) : (h.push a).newest = (a :: h.newest).take n := by
  have hle := h.count_le
  have hlt := h.head_lt
  have hcount : (h.push a).count = min (h.count + 1) n := rfl
  apply List.ext_getElem?
  intro k
  rw [List.getElem?_take]
  rcases Nat.lt_or_ge k n with hkn | hkn
  · rw [if_pos hkn]
    rcases Nat.lt_or_ge k (h.count + 1) with hk | hk
    · rw [newest_getElem? _ (by omega), push_get h a hkn]
      cases k with
      | zero => rfl
      | succ k =>
        rw [List.getElem?_cons_succ, newest_getElem? h (by omega), if_neg (Nat.succ_ne_zero k)]
        rfl
    · rw [List.getElem?_eq_none (by simp; omega), List.getElem?_eq_none (by simp; omega)]
  · rw [if_neg (by omega), List.getElem?_eq_none (by simp; omega)]

/-- A history that takes a log's values one by one holds the last `n` of them. -/
theorem newest_foldl_push (l : List α) (h : History α n) :
    (l.foldl push h).newest = (l.reverse ++ h.newest).take n := by
  induction l generalizing h with
  | nil =>
    rw [List.foldl_nil, List.reverse_nil, List.nil_append, List.take_of_length_le]
    rw [length_newest]
    exact h.count_le
  | cons a rest ih =>
    rw [List.foldl_cons, ih, newest_push, List.reverse_cons, List.append_assoc,
      List.singleton_append, List.take_append, List.take_append, List.take_take]
    congr 2
    omega

end History

/-! ## The last of values that increase -/

section Increasing

variable {α : Type*} {f : α → ℕ} {l : List α} {a : α}

theorem length_lt_of_increasing {lo hi : ℕ} (hlt : lo < hi)
    (h : l.Pairwise fun a b => f a < f b) (hl : ∀ a ∈ l, lo < f a ∧ f a < hi) :
    l.length < hi - lo := by
  induction l generalizing lo with
  | nil =>
    rw [List.length_nil]
    omega
  | cons b rest ih =>
    obtain ⟨hfirst, hrest⟩ := List.pairwise_cons.mp h
    obtain ⟨hlow, hhigh⟩ := hl b List.mem_cons_self
    have hlen := ih hhigh hrest fun c hc => ⟨hfirst c hc, (hl c (List.mem_cons_of_mem _ hc)).2⟩
    rw [List.length_cons]
    omega

/-- Of values that increase, one less than `n` below all that come after is among the last `n`. -/
theorem mem_take_reverse {n : ℕ} (h : l.Pairwise fun a b => f a < f b) (ha : a ∈ l)
    (hn : 0 < n) (hnear : ∀ b ∈ l, f b < f a + n) : a ∈ l.reverse.take n := by
  obtain ⟨before, after, rfl⟩ := List.append_of_mem ha
  obtain ⟨-, hafter, -⟩ := List.pairwise_append.mp h
  obtain ⟨hlow, hafter⟩ := List.pairwise_cons.mp hafter
  have hlen := length_lt_of_increasing (f := f) (Nat.lt_add_of_pos_right (n := f a) hn) hafter
    fun b hb => ⟨hlow b hb, hnear b (List.mem_append_right _ (List.mem_cons_of_mem _ hb))⟩
  rw [List.reverse_append, List.reverse_cons, List.take_append]
  apply List.mem_append_left
  rw [List.take_of_length_le]
  · exact List.mem_append_right _ (List.mem_singleton_self a)
  · simp only [List.length_append, List.length_reverse, List.length_singleton]
    omega

theorem find?_of_unique {p : α → Bool} (ha : a ∈ l) (hp : p a = true)
    (hunique : ∀ b ∈ l, p b = true → b = a) : l.find? p = some a := by
  cases hfind : l.find? p with
  | none => exact absurd hp (List.find?_eq_none.mp hfind a ha)
  | some b => rw [hunique b (List.mem_of_find?_eq_some hfind) (List.find?_some hfind)]

end Increasing

end Lib
