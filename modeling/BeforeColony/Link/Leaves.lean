import BeforeColony.Link.Retire

/-!
# Leaves are never lost

A notice leaves a client's queue only with an ack that names a datagram which carried it, whatever
acks arrive; and each outstanding datagram's count of notices names those it carried and that are
still queued, however often the queue's front has moved.
-/

set_option autoImplicit false

namespace BeforeColony

open Lib

namespace Link

variable {z : Sizes} {s : Link z}

theorem queued_grows (s : Link z) (a : LinkAct z) : s.queued <+: (s.step a).queued := by
  rcases s.step_cases a with - | ⟨ack, -, hstep⟩
  · cases a with
    | build deltas v room =>
      simp only [Link.step]
      split
      · exact List.prefix_refl _
      · exact List.prefix_append _ _
    | more deltas room =>
      simp only [Link.step]
      split
      · exact List.prefix_refl _
      · exact List.prefix_append _ _
    | deliver n =>
      simp only [Link.step]
      split <;> exact List.prefix_refl _
    | ackArrives j =>
      simp only [Link.step]
      split
      · rw [(sameRun_ackBy s _).queued]
      · exact List.prefix_refl _
    | forged a => exact (sameRun_ackBy s a).queued ▸ List.prefix_refl _
    | happen e => exact List.prefix_refl _
    | sendAck => exact List.prefix_refl _
  · rw [hstep, (sameRun_ackBy s ack).queued]

theorem Wf.leave_carried (h : s.Wf) {n i : ℕ} {o : Outgoing z} (ho : s.Sent n o)
    (hi : o.CarriesLeave i) :
    ∃ l, s.queued[i]? = some l ∧ leaveEvent l ∈ o.datagram.events := by
  obtain ⟨-, hfit, es, hes⟩ := h.carried n o ho
  obtain ⟨hlow, hhigh⟩ := hi
  have hlt : i < s.queued.length := by omega
  refine ⟨s.queued[i], List.getElem?_eq_getElem hlt, ?_⟩
  rw [hes]
  apply List.mem_append_left
  apply List.mem_map.mpr
  refine ⟨s.queued[i], ?_, rfl⟩
  apply List.mem_of_getElem? (i := i - o.gone)
  rw [List.getElem?_take, if_pos (by omega), List.getElem?_drop,
    show o.gone + (i - o.gone) = i by omega, List.getElem?_eq_getElem hlt]

/-- An outstanding datagram's count names the notices it carried that are still queued. -/
theorem Wf.count_exact (h : s.Wf) {n : ℕ} {o : Outgoing z} (ho : s.Sent n o)
    (hfloor : s.net.ackFloor ≤ n) (hintact : (s.net.sent.get n).seq = n) (i : ℕ) :
    (s.gone ≤ i ∧ o.CarriesLeave i) ↔ s.gone ≤ i ∧ i < s.gone + (s.net.sent.get n).leaves := by
  obtain ⟨hgone, -, -⟩ := h.carried n o ho
  have hcount := (h.intact n o ho hintact).2 (by rwa [hintact])
  rw [hcount]
  constructor
  · rintro ⟨hi, -, hhigh⟩
    exact ⟨hi, by omega⟩
  · rintro ⟨hi, hhigh⟩
    exact ⟨hi, hgone.trans hi, by omega⟩

/-- Whatever arrives, in whatever order: the queue is the notices not gone; one goes only with an
ack naming a datagram that carried it; and the counts of the datagrams still outstanding name
exactly the notices those carried. -/
theorem leaves_never_lost (seat : Seat z) (acts : List (LinkAct z)) :
    let s := (start seat).run acts
    s.net.leaves = s.queued.drop s.gone
      ∧ (∀ a, s.queued <+: (s.step a).queued
        ∧ ∀ i, s.gone ≤ i → i < (s.step a).gone → ∃ ack, s.Receives a ack
          ∧ ∃ n ∈ s.net.names ack, ∃ o, s.Sent n o ∧ o.CarriesLeave i)
      ∧ (∀ n o i, s.Sent n o → o.CarriesLeave i →
        ∃ l, s.queued[i]? = some l ∧ leaveEvent l ∈ o.datagram.events)
      ∧ ∀ n o, s.Sent n o → s.net.ackFloor ≤ n → (s.net.sent.get n).seq = n →
        ∀ i, s.gone ≤ i → (o.CarriesLeave i ↔ i < s.gone + (s.net.sent.get n).leaves) := by
  intro s
  have h : s.Wf := wf_run seat acts
  refine ⟨h.queue, fun a => ⟨queued_grows s a, fun i hi hi' => ?_⟩,
    fun n o i => h.leave_carried, fun n o ho hfloor hintact i hi => ?_⟩
  · rcases s.step_cases a with ⟨-, hgone, -⟩ | ⟨ack, hrec, hstep⟩
    · rw [hgone] at hi'
      omega
    · rw [hstep] at hi'
      exact ⟨ack, hrec, (h.ackBy ack).2.leaves i hi hi'⟩
  · have hcount := h.count_exact ho hfloor hintact i
    constructor
    · exact fun hc => (hcount.mp ⟨hi, hc⟩).2
    · exact fun hlt => (hcount.mpr ⟨hi, hlt⟩).2

end Link

end BeforeColony
