import BeforeColony.Sector.Replicate

/-!
# What a datagram says of the events

A datagram's mark stands for every event below it: each was carried, or was passed over as of no
concern to the client, stale, or overwritten in the simulation's ring.
-/

set_option autoImplicit false

namespace BeforeColony

variable {z : Sizes}

/-- Event `i` goes to waste at tick `t`: overwritten, of no concern to the client, or stale. -/
def Unneeded {cap : ℕ} (ring : EventRing cap) (relevant : Event → Bool) (t i : ℕ) : Prop :=
  i < ring.oldest ∨ ∃ e, ring.get i = some e ∧ (relevant e = false ∨ eventMaxAge < t - e.tick)

namespace Outgoing

variable (o : Outgoing z)

def CarriesEvent (i : ℕ) : Prop :=
  i < o.ring.next ∧ ∃ e, o.ring.get i = some e ∧ e ∈ o.datagram.events

def PassesOver (i : ℕ) : Prop := Unneeded o.ring o.relevant o.datagram.tick i

def SpeaksFor (i : ℕ) : Prop := o.CarriesEvent i ∨ o.PassesOver i

end Outgoing

section Carry

variable {cap : ℕ} {ring : EventRing cap} {relevant : Event → Bool} {fits : ℕ → Bool}

theorem skipStale_le (ring : EventRing cap) (t n seq : ℕ) : skipStale ring t n seq ≤ seq + n := by
  induction n generalizing seq with
  | zero => exact le_rfl
  | succ n ih =>
    have hnext := ih (seq + 1)
    simp only [skipStale]
    split
    · split <;> omega
    · omega

theorem skipStale_unneeded {t n seq i : ℕ} (hlow : seq ≤ i) (hhigh : i < skipStale ring t n seq) :
    ring.get i = none ∨ ∃ e, ring.get i = some e ∧ eventMaxAge < t - e.tick := by
  induction n generalizing seq with
  | zero =>
    simp only [skipStale] at hhigh
    omega
  | succ n ih =>
    simp only [skipStale] at hhigh
    split at hhigh
    · rename_i e hget
      split at hhigh
      · rename_i hold
        rcases Nat.eq_or_lt_of_le hlow with rfl | hlt
        · exact Or.inr ⟨e, hget, hold⟩
        · exact ih hlt hhigh
      · omega
    · rename_i hget
      rcases Nat.eq_or_lt_of_le hlow with rfl | hlt
      · exact Or.inl hget
      · exact ih hlt hhigh

structure Carried.Upto (ring : EventRing cap) (relevant : Event → Bool) (seq next : ℕ)
    (a : Carried) : Prop where
  le : a.done ≤ next
  full : a.contiguous = true → a.done = next
  marked : ∀ i, seq ≤ i → i < a.done →
    ring.get i = none ∨ ∃ e, ring.get i = some e ∧ (relevant e = false ∨ e ∈ a.events)

theorem Carried.Upto.pass {seq next : ℕ} {a : Carried} (h : a.Upto ring relevant seq next)
    {events : List Event} (hmore : ∀ e ∈ a.events, e ∈ events)
    (hnext : ring.get next = none
      ∨ ∃ e, ring.get next = some e ∧ (relevant e = false ∨ e ∈ events)) :
    ({ a with events := events }.pass next).Upto ring relevant seq (next + 1) := by
  have hle := h.le
  have hmarked : ∀ i, seq ≤ i → i < a.done →
      ring.get i = none ∨ ∃ e, ring.get i = some e ∧ (relevant e = false ∨ e ∈ events) := by
    intro i hlow hhigh
    rcases h.marked i hlow hhigh with hnone | ⟨e, hget, hwhy⟩
    · exact Or.inl hnone
    · exact Or.inr ⟨e, hget, hwhy.imp_right (hmore e)⟩
  unfold Carried.pass
  split
  · rename_i hcont
    refine ⟨le_rfl, fun _ => rfl, fun i hlow hhigh => ?_⟩
    have hdone := h.full hcont
    rcases Nat.lt_succ_iff_lt_or_eq.mp hhigh with hlt | rfl
    · exact hmarked i hlow (by omega)
    · exact hnext
  · rename_i hcont
    refine ⟨?_, fun hc => absurd hc hcont, hmarked⟩
    exact hle.trans (Nat.le_succ _)

theorem Carried.Upto.carry {seq next : ℕ} {a : Carried} (h : a.Upto ring relevant seq next) :
    (carryEvent ring relevant fits a next).Upto ring relevant seq (next + 1) := by
  unfold carryEvent
  split
  · rename_i hget
    exact h.pass (fun _ => id) (Or.inl hget)
  · rename_i e hget
    split
    · split
      · refine h.pass (fun _ => List.mem_append_left _) (Or.inr ⟨e, hget, Or.inr ?_⟩)
        exact List.mem_append_right _ (List.mem_singleton.mpr rfl)
      · exact ⟨h.le.trans (Nat.le_succ _), fun hc => (nomatch hc), h.marked⟩
    · rename_i hrel
      exact h.pass (fun _ => id) (Or.inr ⟨e, hget, Or.inl (Bool.eq_false_iff.mpr hrel)⟩)

theorem Carried.Upto.run {seq next : ℕ} {a : Carried} (h : a.Upto ring relevant seq next)
    (fits : ℕ → Bool) (n : ℕ) :
    ((List.range' next n).foldl (carryEvent ring relevant fits) a).Upto ring relevant seq
      (next + n) := by
  induction n generalizing next a with
  | zero => exact h
  | succ n ih =>
    rw [List.range'_succ, List.foldl_cons, ← Nat.add_assoc, Nat.add_right_comm]
    exact ih h.carry

/-- The mark of a datagram stands for what it carried and what it passed over. -/
theorem carryEvents_marks {happened : List Event} (hring : ring.Holds happened)
    (relevant : Event → Bool) (fits : ℕ → Bool) (t : ℕ) {acked : ℕ} (hacked : acked ≤ ring.next) :
    (carryEvents ring relevant fits t acked).done ≤ ring.next
      ∧ ∀ i, acked ≤ i → i < (carryEvents ring relevant fits t acked).done →
        (∃ e, ring.get i = some e ∧ e ∈ (carryEvents ring relevant fits t acked).events)
          ∨ Unneeded ring relevant t i := by
  have holdest : ring.oldest ≤ ring.next := Nat.sub_le _ _
  have hskip := skipStale_le ring t (ring.next - max acked ring.oldest)
    (max acked ring.oldest)
  have hstart : ∀ seq, Carried.Upto ring relevant seq seq ⟨seq, true, []⟩ := by
    intro seq
    exact ⟨le_rfl, fun _ => rfl, fun i hlow hhigh => absurd hhigh (not_lt.mpr hlow)⟩
  have hend := (hstart (skipStale ring t (ring.next - max acked ring.oldest)
    (max acked ring.oldest))).run fits (ring.next
      - skipStale ring t (ring.next - max acked ring.oldest) (max acked ring.oldest))
  change (carryEvents ring relevant fits t acked).Upto ring relevant _ _ at hend
  have hle := hend.le
  refine ⟨by omega, fun i hlow hhigh => ?_⟩
  have hmissing : ring.get i = none → Unneeded ring relevant t i :=
    fun hnone => Or.inl (hring.overwritten (by omega) hnone)
  rcases Nat.lt_or_ge i (skipStale ring t (ring.next - max acked ring.oldest)
    (max acked ring.oldest)) with hskipped | hkept
  · right
    rcases Nat.lt_or_ge i ring.oldest with hgone | hstored
    · exact Or.inl hgone
    · rcases skipStale_unneeded (max_le hlow hstored) hskipped with hnone | ⟨e, hget, hold⟩
      · exact hmissing hnone
      · exact Or.inr ⟨e, hget, Or.inr hold⟩
  · rcases hend.marked i hkept hhigh with hnone | ⟨e, hget, hrel | hmem⟩
    · exact Or.inr (hmissing hnone)
    · exact Or.inr (Or.inr ⟨e, hget, Or.inl hrel⟩)
    · exact Or.inl ⟨e, hget, hmem⟩

theorem carry_fold (hfits : ∀ i, fits i = true) (es : List Event) {seq n : ℕ}
    (hget : ∀ i < n, ring.get (seq + i) = es[i]?) (hlen : es.length = n) (a : Carried) :
    ((List.range' seq n).foldl (carryEvent ring relevant fits) a).events
      = a.events ++ es.filter relevant := by
  induction n generalizing seq es a with
  | zero =>
    rw [List.length_eq_zero_iff.mp hlen]
    simp
  | succ n ih =>
    obtain ⟨e, rest, rfl⟩ := List.exists_cons_of_length_eq_add_one hlen
    have hhead : ring.get seq = some e := hget 0 (Nat.succ_pos n)
    have hrest : ∀ i < n, ring.get (seq + 1 + i) = rest[i]? := by
      intro i hi
      have := hget (i + 1) (by omega)
      rwa [List.getElem?_cons_succ, ← Nat.add_assoc, Nat.add_right_comm] at this
    have hevents : ∀ (b : Carried) (k : ℕ), (b.pass k).events = b.events := by
      intro b k
      unfold Carried.pass
      split <;> rfl
    rw [List.range'_succ, List.foldl_cons, ih rest hrest (by simpa using hlen)]
    unfold carryEvent
    rw [hhead]
    simp only [hfits, if_true]
    split
    · rename_i hrel
      rw [hevents, List.filter_cons_of_pos hrel, List.append_assoc, List.singleton_append]
    · rename_i hrel
      rw [hevents, List.filter_cons_of_neg hrel]

/-- With room for all, every event not yet acked that concerns the client is carried, unless the
oldest of them is stale. -/
theorem carryEvents_all (fits : ℕ → Bool) (hfits : ∀ i, fits i = true) {happened : List Event}
    (hring : ring.Holds happened) {t acked : ℕ} (hold : ring.oldest ≤ acked)
    (hfresh : ∀ e ∈ happened, t - e.tick ≤ eventMaxAge) :
    (carryEvents ring relevant fits t acked).events = (happened.drop acked).filter relevant := by
  have hnext := hring.next_eq
  have hget : ∀ i, acked ≤ i → i < ring.next → ring.get i = happened[i]? := by
    intro i hlow hhigh
    cases hi : ring.get i with
    | none =>
      have := hring.overwritten hhigh hi
      omega
    | some e => exact (hring.get_eq hhigh hi).symm
  have hskip : skipStale ring t (ring.next - acked) acked = acked := by
    cases hn : ring.next - acked with
    | zero => rfl
    | succ n =>
      have hlt : acked < happened.length := by omega
      have hacked := hget acked le_rfl (by omega)
      rw [List.getElem?_eq_getElem hlt] at hacked
      have := hfresh _ (List.getElem_mem hlt)
      simp only [skipStale, hacked]
      rw [if_neg (by omega)]
  rw [carryEvents, max_eq_left hold]
  simp only [hskip]
  rw [carry_fold hfits (happened.drop acked), List.nil_append]
  · intro i hi
    rw [List.getElem?_drop, hget _ (Nat.le_add_right _ _) (by omega)]
  · rw [List.length_drop, hnext]

end Carry

/-- What went out as a tick's first datagram speaks for each event from the client's mark to its
own. -/
theorem buildSnapshot_speaks {deltas : Bool} {ring : EventRing z.events} {happened : List Event}
    (hring : ring.Holds happened) {v : View z} {room : Space} {gone : ℕ} {c : ClientState}
    (hacked : c.eventAcked ≤ ring.next) {o : Outgoing z}
    (ho : (buildSnapshot deltas ring v room gone c).out = some o) :
    o.eventsFrom = c.eventAcked ∧ o.ring = ring ∧ o.carries.eventsDone ≤ ring.next
      ∧ ∀ i, o.eventsFrom ≤ i → i < o.carries.eventsDone → o.SpeaksFor i := by
  unfold buildSnapshot at ho
  simp only at ho
  split at ho
  · obtain ⟨hle, hmarks⟩ := carryEvents_marks hring v.relevant room.event v.tick hacked
    rw [← Option.some.inj ho]
    refine ⟨rfl, rfl, hle, fun i hlow hhigh => ?_⟩
    rcases hmarks i hlow hhigh with ⟨e, hget, hmem⟩ | hpass
    · exact Or.inl ⟨hhigh.trans_le hle, e, hget, List.mem_append_right _ hmem⟩
    · exact Or.inr hpass
  · cases ho

theorem buildMore_speaks {deltas : Bool} {ring : EventRing z.events} {t : ℕ}
    {suits : List (SeenSuit z)} {room : Space} {gone : ℕ} {c : ClientState} {o : Outgoing z}
    (ho : (buildMore deltas ring t suits room gone c).out = some o) :
    o.eventsFrom = c.eventAcked ∧ o.ring = ring ∧ o.carries.eventsDone = 0 := by
  unfold buildMore at ho
  simp only at ho
  split at ho
  · split at ho
    · cases ho
    · rw [← Option.some.inj ho]
      exact ⟨rfl, rfl, rfl⟩
  · cases ho

end BeforeColony
