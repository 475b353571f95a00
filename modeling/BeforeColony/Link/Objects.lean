import BeforeColony.Link.Believes

/-!
# What a client is shown of chunks

A datagram says of each chunk it names what the client holds of it after: a version, or nothing. The
sector remembers what a datagram said until its place in the ring is taken, and an ack names, oldest
first, those the client took.
-/

set_option autoImplicit false

namespace BeforeColony

open Lib

/-! ### Maps set at the pairs of a list -/

section Updates

variable {α : Type} {l : List (ℕ × α)} {i : ℕ}

theorem foldl_update_of_notMem (hi : i ∉ l.map Prod.fst) (f : ℕ → α) :
    l.foldl (fun f p => Function.update f p.1 p.2) f i = f i := by
  rcases foldl_update_cases l f i with heq | hmem
  · exact heq
  · exact absurd (List.mem_map_of_mem hmem) hi

theorem foldl_update_of_mem (hi : i ∈ l.map Prod.fst) (f : ℕ → α) :
    (i, l.foldl (fun f p => Function.update f p.1 p.2) f i) ∈ l := by
  induction l generalizing f with
  | nil => cases hi
  | cons p rest ih =>
    rw [List.foldl_cons]
    by_cases hrest : i ∈ rest.map Prod.fst
    · exact List.mem_cons_of_mem p (ih hrest _)
    · rw [foldl_update_of_notMem hrest]
      obtain rfl : i = p.1 := by
        rw [List.map_cons] at hi
        exact (List.mem_cons.mp hi).resolve_right hrest
      rw [Function.update_self]
      exact List.mem_cons_self

end Updates

theorem named_sorted (newest bits : ℕ) : (named newest bits).Pairwise (· < ·) := by
  have hrange : (List.range 32).reverse.Pairwise (· > ·) :=
    List.pairwise_reverse.mpr List.pairwise_lt_range
  unfold named
  refine List.pairwise_append.mpr ⟨?_, List.pairwise_singleton _ _, ?_⟩
  · refine List.pairwise_map.mpr ((hrange.filter _).imp_of_mem ?_)
    intro i j hi hj hij
    obtain ⟨-, hi⟩ := List.mem_filter.mp hi
    have hle := (of_decide_eq_true hi).2
    omega
  · intro n hn m hm
    obtain ⟨i, hi, rfl⟩ := List.mem_map.mp hn
    obtain ⟨-, hi⟩ := List.mem_filter.mp hi
    have hle := (of_decide_eq_true hi).2
    rw [List.mem_singleton.mp hm]
    omega

theorem ClientState.names_sorted (c : ClientState) (a : Ack) : (c.names a).Pairwise (· < ·) := by
  unfold ClientState.names
  split
  · exact .nil
  · dsimp only
    split
    · exact .nil
    · exact named_sorted _ _

/-! ### What a datagram says of a chunk -/

section Objects

variable {z : Sizes} {c : ClientState} {v : View z} {k : ℕ} {held : Option ℕ}

theorem mem_objectCandidates :
    (k, held) ∈ objectCandidates c v ↔ k ∈ v.near ∧ objectFor v (c.objAcked k) k = some held := by
  unfold objectCandidates
  have hfound : ∀ {o : ℕ × Option ℕ}, o ∈ (v.near.filterMap fun k =>
      (objectFor v (c.objAcked k) k).map fun holds => (k, holds)) ↔
      o.1 ∈ v.near ∧ objectFor v (c.objAcked o.1) o.1 = some o.2 := by
    intro o
    simp only [List.mem_filterMap, Option.map_eq_some_iff]
    constructor
    · rintro ⟨k, hk, held, hheld, rfl⟩
      exact ⟨hk, hheld⟩
    · rintro ⟨hk, hheld⟩
      exact ⟨o.1, hk, o.2, hheld, rfl⟩
  simp only [List.mem_append, List.mem_filter, hfound]
  cases held <;> simp

theorem mem_objectsFor {room : Space} {o : ℕ × Option ℕ} (h : o ∈ objectsFor c v room) :
    o ∈ objectCandidates c v :=
  List.mem_of_mem_take (List.mem_of_mem_take h)

/-- Of a chunk a client holds and shouldn't, every datagram with the room says that it's gone. -/
theorem mem_objectsFor_gone (hnear : k < maxChunks) (hacked : c.objAcked k ≠ none)
    (hgone : ∀ chunk, v.chunk k = some chunk → chunk.wanted true = false) {room : Space}
    (hroom : ((objectCandidates c v).filter fun o => o.2.isNone).length
      ≤ min objsPerSnapshot room.objects) : (k, none) ∈ objectsFor c v room := by
  have hobject : objectFor v (c.objAcked k) k = some none := by
    have hsome : (c.objAcked k).isSome = true := Option.isSome_iff_ne_none.mpr hacked
    have hnone : ((v.chunk k).filter fun chunk => chunk.wanted (c.objAcked k).isSome) = none := by
      rw [hsome]
      cases hchunk : v.chunk k with
      | none => rfl
      | some chunk =>
        rw [Option.filter_some, if_neg]
        rw [hgone chunk hchunk]
        exact Bool.false_ne_true
    unfold objectFor
    rw [hnone, hsome]
    rfl
  have hmem : (k, none) ∈ objectCandidates c v :=
    mem_objectCandidates.mpr ⟨v.near_perm.mem_iff.mpr (List.mem_range.mpr hnear), hobject⟩
  unfold objectsFor
  rw [List.take_take, Nat.min_comm]
  unfold objectCandidates at hmem hroom ⊢
  dsimp only at hmem hroom ⊢
  rw [List.filter_append] at hroom
  have hgones : (k, none) ∈ (v.near.filterMap fun k =>
      (objectFor v (c.objAcked k) k).map fun holds => (k, holds)).filter fun o => o.2.isNone := by
    rcases List.mem_append.mp hmem with hmem | hmem
    · exact hmem
    · exact absurd (List.mem_filter.mp hmem).2 Bool.false_ne_true
  rw [List.filter_filter, List.filter_congr (fun o _ => Bool.and_self o.2.isNone),
    List.length_append] at hroom
  rw [List.take_append]
  apply List.mem_append_left
  rw [List.take_of_length_le (by omega)]
  exact hgones

end Objects

theorem buildSnapshot_objects {z : Sizes} {deltas : Bool} {ring : EventRing z.events} {v : View z}
    {room : Space} {gone : ℕ} {c : ClientState} {o : Outgoing z}
    (h : (buildSnapshot deltas ring v room gone c).out = some o) :
    o.datagram.objects = objectsFor c v room := by
  unfold buildSnapshot at h
  dsimp only at h
  split at h
  · rw [← Option.some.inj h]
    rfl
  · cases h

theorem buildMore_objects {z : Sizes} {deltas : Bool} {ring : EventRing z.events} {t : ℕ}
    {suits : List (SeenSuit z)} {room : Space} {gone : ℕ} {c : ClientState} {o : Outgoing z}
    (h : (buildMore deltas ring t suits room gone c).out = some o) : o.datagram.objects = [] := by
  unfold buildMore at h
  dsimp only at h
  split at h
  · split at h
    · cases h
    · rw [← Option.some.inj h]
      rfl
  · cases h

namespace Link

variable {z : Sizes} {s : Link z} {n k : ℕ} {held : Option ℕ}

def Says (s : Link z) (n k : ℕ) (held : Option ℕ) : Prop :=
  ∃ o, s.Sent n o ∧ (k, held) ∈ o.datagram.objects

def Shows (s : Link z) (n k : ℕ) : Prop := ∃ held, s.Says n k (some held)

/-- An ack that the client sends now and that arrives now tells the sector that datagram `n` was
taken, and the sector still remembers it. -/
def CanBeAcked (s : Link z) (n : ℕ) : Prop :=
  n ∈ s.net.names s.client.acks.ack ∧ s.net.ackFloor ≤ n ∧ (s.net.sent.get n).seq = n

/-! ### What is remembered of it -/

theorem says_step (a : LinkAct z) (hn : n < s.log.length) :
    (s.step a).Says n k held ↔ s.Says n k held := by
  unfold Says Sent
  rw [getElem?_log_step a hn]

theorem Says.lt (h : s.Says n k held) : n < s.log.length := by
  obtain ⟨o, ho, -⟩ := h
  exact sent_lt ho

theorem seq_sent_retire (c : ClientState) (n m : ℕ) :
    ((c.retire n).sent.get m).seq = (c.sent.get m).seq := by
  rcases c.retire_cases n with heq | ⟨-, -, heq⟩
  · rw [heq]
  · rw [heq]
    unfold ClientState.retired
    dsimp only
    rw [Ring.get_map]
    split
    · rfl
    · rfl

theorem seq_sent_onAck (c : ClientState) (a : Ack) (m : ℕ) :
    ((c.onAck a).sent.get m).seq = (c.sent.get m).seq := by
  have hfold : ∀ (ns : List ℕ) (c : ClientState),
      ((ns.foldl ClientState.retire c).sent.get m).seq = (c.sent.get m).seq := by
    intro ns
    induction ns with
    | nil => exact fun _ => rfl
    | cons n rest ih => exact fun c => (ih _).trans (seq_sent_retire c n m)
  exact hfold _ c

/-- A datagram says one thing of a chunk, and the sector remembers what the last it sent said. -/
structure Remembers (s : Link z) : Prop where
  one : ∀ {n k held held'}, s.Says n k held → s.Says n k held' → held = held'
  kept : ∀ n o, s.Sent n o → s.net.seq ≤ n + sentRing → (s.net.sent.get n).seq = n

theorem remembers_start (seat : Seat z) : (start seat).Remembers where
  one := by
    intro n k held held' h
    exact absurd h.lt (Nat.not_lt_zero n)
  kept n o h := absurd (sent_lt h) (Nat.not_lt_zero n)

theorem Remembers.of_same (h : s.Remembers) {t : Link z} (hlog : t.log = s.log)
    (hseq : t.net.seq = s.net.seq)
    (hsent : ∀ m, (t.net.sent.get m).seq = (s.net.sent.get m).seq) : t.Remembers where
  one hheld hheld' := by
    unfold Says Sent at hheld hheld'
    rw [hlog] at hheld hheld'
    exact h.one hheld hheld'
  kept n o ho hn := by
    rw [Sent, hlog] at ho
    rw [hseq] at hn
    rw [hsent]
    exact h.kept n o ho hn

/-- Sending a datagram takes the place of the one sent so many before it, and of no other. -/
theorem Remembers.send (h : s.Remembers) (hwf : s.Wf) {now : ℕ} {fresh : List (ℕ × ℕ)}
    {b : Built z} (hb : Builds s.net (s.net.leaves ++ fresh) s.gone b)
    (hone : ∀ o, b.out = some o → ∀ k held held', (k, held) ∈ o.datagram.objects →
      (k, held') ∈ o.datagram.objects → held = held') : (s.send now fresh b).Remembers where
  one := by
    rintro n k held held' ⟨o, ho, hmem⟩ ⟨o', ho', hmem'⟩
    obtain rfl : o = o' := Option.some.inj (Option.some.inj (ho.symm.trans ho'))
    rcases sent_send.mp ho with hold | ⟨-, hout⟩
    · exact h.one ⟨o, hold, hmem⟩ ⟨o, hold, hmem'⟩
    · exact hone o hout k held held' hmem hmem'
  kept n o ho hn := by
    change (b.client.sent.get n).seq = n
    change b.client.seq ≤ n + sentRing at hn
    rw [hb.seq] at hn
    rcases sent_send.mp ho with hold | ⟨rfl, hout⟩
    · have hlt := sent_lt hold
      rw [hwf.length] at hlt
      have hkept := h.kept n o hold (by omega)
      rcases hb.sent with hsame | ⟨r, hset, -, -⟩
      · rw [hsame]
        exact hkept
      · rw [hset, Ring.get_set_of_lt hlt (by omega)]
        exact hkept
    · rw [hb.out_sent o hout, hwf.length, Ring.get_set_self]
      exact (hb.out_ok o hout).seq

theorem Remembers.ackBy (h : s.Remembers) (ack : Ack) : (s.ackBy ack).Remembers := by
  have hrun := sameRun_ackBy s ack
  refine h.of_same hrun.log hrun.seq fun m => ?_
  rw [net_ackBy]
  exact seq_sent_onAck s.net ack m

theorem Remembers.step (h : s.Remembers) (hwf : s.Wf) (a : LinkAct z) : (s.step a).Remembers := by
  cases a with
  | build deltas v room =>
    simp only [Link.step]
    split
    · exact h
    · have hprefix := (openSnapshot_frame v s.net).2.2.2.1
      apply h.send hwf
      · rw [List.prefix_iff_eq_append.mp hprefix]
        exact buildSnapshot_builds deltas s.ring v room s.gone s.net
      · intro o hout k held held' hmem hmem'
        rw [buildSnapshot_objects hout] at hmem hmem'
        have hobject := (mem_objectCandidates.mp (mem_objectsFor hmem)).2
        have hobject' := (mem_objectCandidates.mp (mem_objectsFor hmem')).2
        rw [hobject] at hobject'
        exact Option.some.inj hobject'
  | more deltas room =>
    simp only [Link.step]
    split
    · exact h
    · apply h.send hwf
      · rw [List.append_nil]
        exact buildMore_builds deltas s.ring _ s.pending room s.gone s.net
      · intro o hout k held held' hmem
        rw [buildMore_objects hout] at hmem
        cases hmem
  | happen e => exact h.of_same rfl rfl fun _ => rfl
  | sendAck => exact h.of_same rfl rfl fun _ => rfl
  | deliver m =>
    simp only [Link.step]
    split
    · exact h.of_same rfl rfl fun _ => rfl
    · exact h
  | ackArrives j =>
    simp only [Link.step]
    split
    · exact h.ackBy _
    · exact h
  | forged ack => exact h.ackBy ack

end Link

end BeforeColony
