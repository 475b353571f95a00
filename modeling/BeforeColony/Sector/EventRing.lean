import BeforeColony.Lib.Ring
import BeforeColony.Proto.Ack
import BeforeColony.Proto.Events

/-!
# The simulation's ring of events

Events are numbered as they happen and kept in a ring, each slot with the number it holds, so one
that was overwritten is known to be. Numbers are of 32 bits and come round; until they do, `Holds`
relates the ring to all that ever happened.
-/

set_option autoImplicit false

namespace BeforeColony

open Lib

structure EventRing (cap : ℕ) where
  buf : Ring Event cap
  /-- The number of the event in each slot, `seqMax` where there is none yet. -/
  seqs : Ring ℕ cap
  next : ℕ

namespace EventRing

variable {cap : ℕ}

def new (cap : ℕ) : EventRing cap := ⟨⟨fun _ => .leave 0 0⟩, ⟨fun _ => seqMax⟩, 0⟩

/-- Stores an event, stamped with the low 16 bits of its number. -/
def push (r : EventRing cap) (e : Event) : EventRing cap where
  buf := r.buf.set r.next (e.withId (r.next % 2 ^ 16))
  seqs := r.seqs.set r.next r.next
  next := (r.next + 1) % 2 ^ 32

/-- The event numbered `seq`, if it hasn't been overwritten. -/
def get (r : EventRing cap) (seq : ℕ) : Option Event :=
  if r.seqs.get seq = seq then some (r.buf.get seq) else none

def oldest (r : EventRing cap) : ℕ := r.next - cap

structure Holds (r : EventRing cap) (happened : List Event) : Prop where
  few : happened.length ≤ seqMax
  next_eq : r.next = happened.length
  slots : ∀ i seq, r.seqs.slot i = seq → seq ≠ seqMax → happened[seq]? = some (r.buf.slot i)
  recent : r.seqs.Mirrors (List.range happened.length)

theorem holds_new (cap : ℕ) : (new cap).Holds [] where
  few := Nat.zero_le _
  next_eq := rfl
  slots _ _ h hseq := absurd h.symm hseq
  recent := Ring.mirrors_nil _

theorem Holds.push {r : EventRing cap} {happened : List Event} (h : r.Holds happened)
    (e : Event) (hroom : happened.length < seqMax) :
    (r.push e).Holds (happened ++ [e.withId (r.next % 2 ^ 16)]) where
  few := by
    rw [List.length_append, List.length_singleton]
    exact hroom
  next_eq := by
    rw [List.length_append, List.length_singleton, EventRing.push, h.next_eq]
    simp only [seqMax] at hroom
    exact Nat.mod_eq_of_lt (by omega)
  slots := by
    intro i seq hseq hnone
    simp only [EventRing.push, Ring.set, Function.update_apply] at hseq ⊢
    split at hseq
    · rename_i hi
      rw [if_pos hi, ← hseq, h.next_eq, List.getElem?_append_right (le_refl _), Nat.sub_self]
      rfl
    · rename_i hi
      have hold := h.slots i seq hseq hnone
      have hlt := (List.getElem?_eq_some_iff.mp hold).1
      rw [if_neg hi, List.getElem?_append_left hlt, hold]
  recent := by
    have hpush := h.recent.push happened.length
    rw [List.length_range] at hpush
    rw [List.length_append, List.length_singleton, List.range_succ, EventRing.push, h.next_eq]
    exact hpush

theorem Holds.get_eq {r : EventRing cap} {happened : List Event} (h : r.Holds happened)
    {seq : ℕ} (hseq : seq < r.next) {e : Event} (hget : r.get seq = some e) :
    happened[seq]? = some e := by
  have hfew := h.few
  rw [h.next_eq] at hseq
  unfold get at hget
  split at hget
  · rename_i hstored
    rw [h.slots _ _ hstored (by omega)]
    exact hget
  · cases hget

theorem Holds.overwritten {r : EventRing cap} {happened : List Event} (h : r.Holds happened)
    {seq : ℕ} (hseq : seq < r.next) (hget : r.get seq = none) : seq < r.oldest := by
  by_contra hnot
  rw [oldest, h.next_eq] at hnot
  rw [h.next_eq] at hseq
  have hstored := h.recent seq seq (by simp [hseq]) (by simp; omega)
  unfold get at hget
  rw [if_pos hstored] at hget
  cases hget

end EventRing

end BeforeColony
