import Mathlib.Data.List.Basic
import Mathlib.Algebra.Order.Group.Nat

/-!
# A bounded queue of items

Slices go into a queue of a given capacity at its end and come off at its front, each whole or not
at all.
-/

set_option autoImplicit false

namespace Lib.Fifo

variable {α : Type*}

def slots (cap : ℕ) (queue : List α) : ℕ := cap - queue.length

def push (cap : ℕ) (queue slice : List α) : List α :=
  if slots cap queue < slice.length then queue else queue ++ slice

/-- The first `n` items and what is left, if there are so many. -/
def pop? (queue : List α) (n : ℕ) : Option (List α × List α) :=
  if queue.length < n then none else some (queue.take n, queue.drop n)

variable {cap n : ℕ} {queue slice front rest : List α}

theorem push_of_le (h : slice.length ≤ slots cap queue) : push cap queue slice = queue ++ slice :=
  if_neg (Nat.not_lt.mpr h)

theorem slots_append (cap : ℕ) (queue slice : List α) :
    slots cap (queue ++ slice) = slots cap queue - slice.length := by
  rw [slots, slots, List.length_append, Nat.sub_add_eq]

theorem pop?_eq_none : pop? queue n = none ↔ queue.length < n := by
  unfold pop?
  split
  · exact iff_of_true rfl ‹_›
  · exact iff_of_false nofun ‹_›

theorem pop?_eq_some : pop? queue n = some (front, rest) ↔
    front.length = n ∧ queue = front ++ rest := by
  unfold pop?
  constructor
  · intro h
    split at h
    · cases h
    · rename_i hlen
      cases h
      exact ⟨List.length_take_of_le (Nat.not_lt.mp hlen), (List.take_append_drop n queue).symm⟩
  · rintro ⟨rfl, rfl⟩
    rw [if_neg (by rw [List.length_append]; omega), List.take_left, List.drop_left]

theorem slots_pop (h : queue = front ++ rest) : slots cap queue ≤ slots cap rest := by
  rw [slots, slots, h, List.length_append]
  omega

end Lib.Fifo
