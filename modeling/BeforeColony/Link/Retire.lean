import BeforeColony.Link.System

/-!
# What an ack does

Each datagram an ack names is retired on its own. `Learned` says that all the sector learns between
two states was carried by datagrams of a list; it is what one retirement gives, and it composes.
-/

set_option autoImplicit false

namespace BeforeColony

open Lib

namespace Link

variable {z : Sizes} {s t u : Link z}

/-- Only what acks change has changed: nothing was sent or queued. -/
structure SameRun (s t : Link z) : Prop where
  log : t.log = s.log
  queued : t.queued = s.queued
  noted : t.noted = s.noted
  client : t.client = s.client
  taken : t.taken = s.taken
  acks : t.acks = s.acks
  happened : t.happened = s.happened
  ring : t.ring = s.ring
  now : t.now = s.now
  pending : t.pending = s.pending
  stream : t.net.stream = s.net.stream
  seq : t.net.seq = s.net.seq
  sends : t.net.sends = s.net.sends
  sentEnts : t.net.sentEnts = s.net.sentEnts
  entsHead : t.net.entsHead = s.net.entsHead

theorem SameRun.refl (s : Link z) : SameRun s s :=
  ⟨rfl, rfl, rfl, rfl, rfl, rfl, rfl, rfl, rfl, rfl, rfl, rfl, rfl, rfl, rfl⟩

theorem SameRun.trans (h : SameRun s t) (h' : SameRun t u) : SameRun s u :=
  ⟨h'.1.trans h.1, h'.2.trans h.2, h'.3.trans h.3, h'.4.trans h.4, h'.5.trans h.5, h'.6.trans h.6,
    h'.7.trans h.7, h'.8.trans h.8, h'.9.trans h.9, h'.10.trans h.10, h'.11.trans h.11,
    h'.12.trans h.12, h'.13.trans h.13, h'.14.trans h.14, h'.15.trans h.15⟩

theorem SameRun.sent (h : SameRun s t) (n : ℕ) (o : Outgoing z) : t.Sent n o ↔ s.Sent n o := by
  rw [Sent, Sent, h.log]

structure Learned (s : Link z) (ns : List ℕ) (t : Link z) : Prop where
  objs : ∀ c, t.net.objAcked c = s.net.objAcked c
    ∨ ∃ n ∈ ns, ∃ o, s.Sent n o ∧ (c, t.net.objAcked c) ∈ o.datagram.objects
  rocks : ∀ r, t.net.rockAcked r = s.net.rockAcked r
    ∨ ∃ n ∈ ns, ∃ o, s.Sent n o ∧ (r, t.net.rockAcked r) ∈ o.datagram.rocks
  leaves : ∀ i, s.gone ≤ i → i < t.gone → ∃ n ∈ ns, ∃ o, s.Sent n o ∧ o.CarriesLeave i
  events : t.net.eventAcked = s.net.eventAcked
    ∨ ∃ n ∈ ns, ∃ o, s.Sent n o ∧ t.net.eventAcked = o.carries.eventsDone
  bases : ∀ j, t.net.base j = s.net.base j
    ∨ ∃ n ∈ ns, ∃ o, s.Sent n o ∧ ∃ e, o.CarriesRecord e ∧ e.q.slot = j ∧ t.net.base j = some e
  floor_le : s.net.ackFloor ≤ t.net.ackFloor
  events_le : s.net.eventAcked ≤ t.net.eventAcked
  gone_le : s.gone ≤ t.gone

theorem Learned.of_same (h : SameAcks s.net t.net) (hgone : t.gone = s.gone) (ns : List ℕ) :
    Learned s ns t where
  objs c := Or.inl (congrFun h.objAcked c)
  rocks r := Or.inl (congrFun h.rockAcked r)
  leaves i hi hi' := absurd (hi.trans_lt hi') (by omega)
  events := Or.inl h.eventAcked
  bases j := Or.inl (congrFun h.base j)
  floor_le := h.ackFloor.ge
  events_le := h.eventAcked.ge
  gone_le := hgone.ge

theorem Learned.trans {ns ns' : List ℕ} (hsame : SameRun s t) (h : Learned s ns t)
    (h' : Learned t ns' u) : Learned s (ns ++ ns') u := by
  have hback : ∀ {P : Outgoing z → Prop}, (∃ n ∈ ns', ∃ o, t.Sent n o ∧ P o)
      → ∃ n ∈ ns ++ ns', ∃ o, s.Sent n o ∧ P o := by
    rintro P ⟨n, hn, o, ho, hP⟩
    exact ⟨n, List.mem_append_right _ hn, o, (hsame.sent n o).mp ho, hP⟩
  have hfront : ∀ {P : Outgoing z → Prop}, (∃ n ∈ ns, ∃ o, s.Sent n o ∧ P o)
      → ∃ n ∈ ns ++ ns', ∃ o, s.Sent n o ∧ P o := by
    rintro P ⟨n, hn, o, ho, hP⟩
    exact ⟨n, List.mem_append_left _ hn, o, ho, hP⟩
  constructor
  · intro c
    rcases h'.objs c with heq | hex
    · rw [heq]
      exact (h.objs c).imp_right hfront
    · exact Or.inr (hback hex)
  · intro r
    rcases h'.rocks r with heq | hex
    · rw [heq]
      exact (h.rocks r).imp_right hfront
    · exact Or.inr (hback hex)
  · intro i hi hi'
    rcases Nat.lt_or_ge i t.gone with hlt | hge
    · exact hfront (h.leaves i hi hlt)
    · exact hback (h'.leaves i hge hi')
  · rcases h'.events with heq | hex
    · rw [heq]
      exact h.events.imp_right hfront
    · exact Or.inr (hback hex)
  · intro j
    rcases h'.bases j with heq | hex
    · rw [heq]
      exact (h.bases j).imp_right hfront
    · exact Or.inr (hback hex)
  · exact h.floor_le.trans h'.floor_le
  · exact h.events_le.trans h'.events_le
  · exact h.gone_le.trans h'.gone_le

theorem sameRun_retire (s : Link z) (n : ℕ) : SameRun s (s.retire n) := by
  have hnet : (s.net.retire n).stream = s.net.stream ∧ (s.net.retire n).seq = s.net.seq
      ∧ (s.net.retire n).sends = s.net.sends ∧ (s.net.retire n).sentEnts = s.net.sentEnts
      ∧ (s.net.retire n).entsHead = s.net.entsHead := by
    rcases s.net.retire_cases n with h | ⟨-, -, h⟩
    · rw [h]
      exact ⟨rfl, rfl, rfl, rfl, rfl⟩
    · rw [h]
      exact ⟨rfl, rfl, rfl, rfl, rfl⟩
  obtain ⟨h1, h2, h3, h4, h5⟩ := hnet
  exact ⟨rfl, rfl, rfl, rfl, rfl, rfl, rfl, rfl, rfl, rfl, h1, h2, h3, h4, h5⟩

theorem retire_of_net_eq {n : ℕ} (h : s.net.retire n = s.net) : s.retire n = s := by
  cases s
  simp only [retire] at *
  rw [h]
  simp

theorem Wf.entsOf (h : s.Wf) {o : Outgoing z} {n k : ℕ} (ho : s.Sent n o) :
    s.net.entsOf { o.carries with leaves := k } = [] ∨
      s.net.entsOf { o.carries with leaves := k } = o.ents := by
  obtain ⟨hfit, hents⟩ := h.noted n o ho
  have hcount := (h.ok n o ho).nEnts
  unfold ClientState.entsOf
  split
  · rename_i hnear
    right
    rw [h.head] at hnear
    apply List.ext_getElem?
    intro i
    simp only [List.getElem?_map]
    rcases Nat.lt_or_ge i o.ents.length with hi | hi
    · rw [List.getElem?_range (by omega), hents, List.getElem?_take, if_pos hi, List.getElem?_drop]
      have hlt : o.carries.entsFrom + i < s.noted.length := by omega
      rw [Option.map_some, List.getElem?_eq_getElem hlt]
      congr 1
      exact h.ents _ _ (List.getElem?_eq_getElem hlt) (by simp only at hnear; omega)
    · rw [List.getElem?_eq_none (by simpa [hcount] using hi), List.getElem?_eq_none hi]
      rfl
  · exact Or.inl rfl

theorem gone_retire {n : ℕ} (hnet : s.net.retire n = s.net.retired n (s.net.sent.get n)) :
    (s.retire n).gone = s.gone + s.net.leavesDone (s.net.sent.get n) := by
  have hle : s.net.leavesDone (s.net.sent.get n) ≤ s.net.leaves.length := Nat.min_le_right _ _
  rw [Link.retire, hnet]
  simp only [ClientState.retired, List.length_drop]
  omega

section Retire

variable (h : s.Wf) {n : ℕ} (hfloor : s.net.ackFloor ≤ n) (hseq : (s.net.sent.get n).seq = n)
  (hnet : s.net.retire n = s.net.retired n (s.net.sent.get n))
include h hfloor hnet

theorem Wf.retired : (s.retire n).Wf := by
  have hsame := sameRun_retire s n
  have hgone := gone_retire hnet
  have hdone : s.net.leavesDone (s.net.sent.get n) ≤ s.net.leaves.length := Nat.min_le_right _ _
  have hlen : s.net.leaves.length = s.queued.length - s.gone := by
    rw [h.queue, List.length_drop]
  have hle := h.gone_le
  have hslot := h.recorded (n % sentRing)
  change s.Recorded (s.net.sent.get n) at hslot
  have hobj : ∀ o ∈ (s.net.sent.get n).objs, o.1 < maxChunks := by
    rcases hslot with hbare | ⟨o, hsent, ⟨k, hshape⟩, -⟩
    · rw [hbare.objs]
      intro o ho
      cases ho
    · rw [hshape]
      exact (h.ok _ o hsent).chunk_lt
  have hfloor' : (s.retire n).net.ackFloor = n + 1 := by
    change (s.net.retire n).ackFloor = n + 1
    rw [hnet]
    rfl
  -- The counts of later datagrams move with the queue; the others are done with.
  have hmoved : ∀ {r : SentRecord} {o : Outgoing z}, s.RecordOf r o → (s.retire n).RecordOf
      (if n < r.seq then { r with leaves := r.leaves - s.net.leavesDone (s.net.sent.get n) } else r)
      o := by
    rintro r o ⟨⟨k, hshape⟩, hleaves⟩
    split
    · rename_i hlater
      refine ⟨⟨_, by rw [hshape]⟩, fun _ => ?_⟩
      have hcount := hleaves (hfloor.trans hlater.le)
      simp only at hcount ⊢
      rw [hgone, hcount]
      omega
    · rename_i hnot
      refine ⟨⟨k, hshape⟩, fun hge => ?_⟩
      rw [hfloor'] at hge
      omega
  constructor
  · rw [hsame.stream]
    exact h.stream
  · rw [hsame.log, hsame.seq]
    exact h.length
  · intro m o ho
    rw [hsame.stream]
    exact h.ok m o ((hsame.sent m o).mp ho)
  · intro k
    change (s.retire n).Recorded ((s.net.retire n).sent.slot k)
    rw [hnet]
    change (s.retire n).Recorded (if n < (s.net.sent.slot k).seq then
      { s.net.sent.slot k with
        leaves := (s.net.sent.slot k).leaves - s.net.leavesDone (s.net.sent.get n) }
      else s.net.sent.slot k)
    rcases h.recorded k with hbare | ⟨o, hsent, hrec⟩
    · left
      split
      · exact ⟨hbare.eventsDone, by simp [hbare.leaves], hbare.objs, hbare.rocks, hbare.nEnts⟩
      · exact hbare
    · right
      refine ⟨o, (hsame.sent _ o).mpr ?_, hmoved hrec⟩
      split <;> exact hsent
  · intro m o ho hm
    change ((s.net.retire n).sent.get m).seq = m at hm
    change (s.retire n).RecordOf ((s.net.retire n).sent.get m) o
    rw [hnet] at hm ⊢
    refine hmoved (h.intact m o ((hsame.sent m o).mp ho) ?_)
    simp only [ClientState.retired, Ring.get_map] at hm
    split at hm <;> exact hm
  · change (s.net.retire n).leaves = _
    rw [hnet, hsame.queued, hgone, ← List.drop_drop, ← h.queue]
    rfl
  · rw [hsame.queued, hgone]
    omega
  · intro m o ho
    obtain ⟨hle', hfit, hes⟩ := h.carried m o ((hsame.sent m o).mp ho)
    rw [hsame.queued]
    exact ⟨by omega, hfit, hes⟩
  · change (s.net.retire n).objKnown = BeforeColony.known (s.net.retire n).objAcked
    rw [hnet]
    exact ackObjs_known h.counts hobj
  · rw [hsame.sentEnts, hsame.noted]
    exact h.ents
  · rw [hsame.entsHead, hsame.noted]
    exact h.head
  · intro m o ho
    rw [hsame.noted]
    exact h.noted m o ((hsame.sent m o).mp ho)
  · rw [hsame.noted]
    exact h.entOk
  · rw [Few, hsame.ring, hsame.happened]
    exact h.ring

include hseq in
theorem Wf.learned_retired : Learned s [n] (s.retire n) := by
  have hgone := gone_retire hnet
  have hslot := h.recorded (n % sentRing)
  change s.Recorded (s.net.sent.get n) at hslot
  have hobjs := foldl_update_cases (s.net.sent.get n).objs s.net.objAcked
  have hrocks := foldl_update_cases (s.net.sent.get n).rocks s.net.rockAcked
  have hbases := ackEnts_cases (s.net.entsOf (s.net.sent.get n)) s.net.base
  have hfields : (s.retire n).net = s.net.retired n (s.net.sent.get n) := hnet
  have hacked : (s.retire n).net.objAcked
      = (s.net.sent.get n).objs.foldl (fun f o => Function.update f o.1 o.2) s.net.objAcked := by
    rw [hfields]
    exact ackObjs_fst _ _
  rcases hslot with hbare | ⟨o, hsent, ⟨k, hshape⟩, hleaves⟩
  · constructor
    · intro c
      rw [hacked, hbare.objs]
      exact Or.inl rfl
    · intro r
      rw [hfields]
      simp only [ClientState.retired, hbare.rocks]
      exact Or.inl rfl
    · intro i hi hi'
      rw [hgone, ClientState.leavesDone, hbare.leaves] at hi'
      omega
    · left
      rw [hfields]
      simp [ClientState.retired, hbare.eventsDone]
    · intro j
      left
      rw [hfields]
      simp [ClientState.retired, ClientState.entsOf, hbare.nEnts]
    · rw [hfields]
      exact hfloor.trans (Nat.le_succ n)
    · rw [hfields]
      exact Nat.le_max_left _ _
    · omega
  · rw [hseq] at hsent hleaves
    have hok := h.ok n o hsent
    have hmem : ∀ {P : Outgoing z → Prop}, P o → ∃ m ∈ [n], ∃ o, s.Sent m o ∧ P o :=
      fun hP => ⟨n, List.mem_singleton_self n, o, hsent, hP⟩
    constructor
    · intro c
      rw [hacked]
      refine (hobjs c).imp_right fun hin => hmem ?_
      rw [hok.objects]
      rwa [hshape] at hin ⊢
    · intro r
      rw [hfields]
      refine (hrocks r).imp_right fun hin => hmem ?_
      rw [hok.rocks]
      rwa [hshape] at hin ⊢
    · intro i hi hi'
      obtain ⟨hle, -, -⟩ := h.carried n o hsent
      have hcount := hleaves hfloor
      have hdone : s.net.leavesDone (s.net.sent.get n) ≤ (s.net.sent.get n).leaves :=
        Nat.min_le_left _ _
      refine hmem (P := fun o => o.CarriesLeave i) ⟨hle.trans hi, ?_⟩
      omega
    · rw [hfields]
      simp only [ClientState.retired]
      rcases Nat.le_total (s.net.sent.get n).eventsDone s.net.eventAcked with hmax | hmax
      · left
        exact Nat.max_eq_left hmax
      · right
        rw [Nat.max_eq_right hmax]
        exact hmem (by rw [hshape])
    · intro j
      rw [hfields]
      refine (hbases j).imp_right ?_
      rintro ⟨e, he, hslot, hbase⟩
      refine hmem ⟨e, hok.carriesRecord ?_, hslot.symm, hbase⟩
      rw [hshape] at he
      rcases h.entsOf hsent (k := k) with hnone | hall
      · rw [hnone] at he
        cases he
      · rwa [hall] at he
    · rw [hfields]
      exact hfloor.trans (Nat.le_succ n)
    · rw [hfields]
      exact Nat.le_max_left _ _
    · omega

end Retire

theorem Wf.retire (h : s.Wf) (n : ℕ) : (s.retire n).Wf ∧ Learned s [n] (s.retire n) := by
  rcases s.net.retire_cases n with hnet | ⟨hfloor, hseq, hnet⟩
  · rw [retire_of_net_eq hnet]
    exact ⟨h, .of_same (.refl _) rfl _⟩
  · exact ⟨h.retired hfloor hnet, h.learned_retired hfloor hseq hnet⟩

theorem sameRun_retireAll (s : Link z) (ns : List ℕ) : SameRun s (ns.foldl Link.retire s) := by
  induction ns generalizing s with
  | nil => exact .refl s
  | cons n rest ih => exact (sameRun_retire s n).trans (ih _)

theorem Wf.retireAll (h : s.Wf) (ns : List ℕ) :
    (ns.foldl Link.retire s).Wf ∧ Learned s ns (ns.foldl Link.retire s) := by
  induction ns generalizing s with
  | nil => exact ⟨h, .of_same (.refl _) rfl _⟩
  | cons n rest ih =>
    obtain ⟨hwf, hone⟩ := h.retire n
    obtain ⟨hrest, hmore⟩ := ih hwf
    exact ⟨hrest, hone.trans (sameRun_retire s n) hmore⟩

theorem net_retireAll (s : Link z) (ns : List ℕ) :
    (ns.foldl Link.retire s).net = ns.foldl ClientState.retire s.net := by
  induction ns generalizing s with
  | nil => rfl
  | cons n rest ih => exact ih _

theorem net_ackBy (s : Link z) (a : Ack) : (s.ackBy a).net = s.net.onAck a :=
  net_retireAll s _

theorem Wf.withAcked (h : s.Wf) (ns : List ℕ) : Wf { s with acked := ns } :=
  ⟨h.1, h.2, h.3, h.4, h.5, h.6, h.7, h.8, h.9, h.10, h.11, h.12,
    h.13, h.14⟩

theorem Wf.ackBy (h : s.Wf) (a : Ack) :
    (s.ackBy a).Wf ∧ Learned s (s.net.names a) (s.ackBy a) := by
  obtain ⟨hwf, h1, h2, h3, h4, h5, h6, h7, h8⟩ := h.retireAll (s.net.names a)
  exact ⟨hwf.withAcked _, ⟨h1, h2, h3, h4, h5, h6, h7, h8⟩⟩

theorem sameRun_ackBy (s : Link z) (a : Ack) : SameRun s (s.ackBy a) := by
  obtain ⟨h1, h2, h3, h4, h5, h6, h7, h8, h9, h10, h11, h12, h13, h14, h15⟩ :=
    sameRun_retireAll s (s.net.names a)
  exact ⟨h1, h2, h3, h4, h5, h6, h7, h8, h9, h10, h11, h12, h13, h14, h15⟩

/-! ## Steps and runs -/

theorem Wf.step (h : s.Wf) (a : LinkAct z) : (s.step a).Wf := by
  cases a with
  | happen e =>
    refine ⟨h.1, h.2, h.3, h.4, h.5, h.6, h.7, h.8, h.9, h.10, h.11, h.12, h.13, fun hfew => ?_⟩
    simp only [Few, Link.step, List.length_append, List.length_singleton] at hfew
    exact (h.ring (Nat.le_of_succ_le hfew)).push e hfew
  | build deltas v room =>
    simp only [Link.step]
    split
    · exact h
    · have hprefix := (openSnapshot_frame v s.net).2.2.2.1
      apply h.send
      rw [List.prefix_iff_eq_append.mp hprefix]
      exact buildSnapshot_builds deltas s.ring v room s.gone s.net
  | more deltas room =>
    simp only [Link.step]
    split
    · exact h
    · apply h.send
      rw [List.append_nil]
      exact buildMore_builds deltas s.ring _ s.pending room s.gone s.net
  | deliver n =>
    simp only [Link.step]
    split
    · exact ⟨h.1, h.2, h.3, h.4, h.5, h.6, h.7, h.8, h.9, h.10, h.11, h.12,
    h.13, h.14⟩
    · exact h
  | sendAck => exact ⟨h.1, h.2, h.3, h.4, h.5, h.6, h.7, h.8, h.9, h.10, h.11, h.12,
    h.13, h.14⟩
  | ackArrives j =>
    simp only [Link.step]
    split
    · exact (h.ackBy _).1
    · exact h
  | forged a => exact (h.ackBy a).1

theorem Wf.run (h : s.Wf) (acts : List (LinkAct z)) : (s.run acts).Wf :=
  Run.invariant (C := fun _ _ => True) (fun _ a hs _ => hs.step a) h
    (Run.along_of_forall _ (fun _ _ => trivial) _ _)

theorem wf_run (seat : Seat z) (acts : List (LinkAct z)) : ((start seat).run acts).Wf :=
  (wf_start seat).run acts

theorem sent_step (a : LinkAct z) {n : ℕ} {o : Outgoing z} (h : s.Sent n o) : (s.step a).Sent n o := by
  cases a with
  | happen e => exact h
  | build deltas v room =>
    simp only [Link.step]
    split
    · exact h
    · exact sent_send.mpr (Or.inl h)
  | more deltas room =>
    simp only [Link.step]
    split
    · exact h
    · exact sent_send.mpr (Or.inl h)
  | deliver m =>
    simp only [Link.step]
    split
    · exact h
    · exact h
  | sendAck => exact h
  | ackArrives j =>
    simp only [Link.step]
    split
    · exact ((sameRun_ackBy s _).sent n o).mpr h
    · exact h
  | forged a => exact ((sameRun_ackBy s a).sent n o).mpr h

def Receives (s : Link z) (a : LinkAct z) (ack : Ack) : Prop :=
  match a with
  | .ackArrives j => ∃ w, s.acks[j]? = some w ∧ w.ack = ack
  | .forged b => b = ack
  | _ => False

/-- What a step does to what the sector knows: nothing, or what an ack it receives says. -/
theorem step_cases (s : Link z) (a : LinkAct z) :
    (SameAcks s.net (s.step a).net ∧ (s.step a).gone = s.gone ∧ (s.step a).acked = s.acked)
      ∨ ∃ ack, s.Receives a ack ∧ s.step a = s.ackBy ack := by
  cases a with
  | happen e => exact Or.inl ⟨.refl _, rfl, rfl⟩
  | build deltas v room =>
    left
    simp only [Link.step]
    split
    · exact ⟨.refl _, rfl, rfl⟩
    · exact ⟨(buildSnapshot_builds deltas s.ring v room s.gone s.net).same, rfl, rfl⟩
  | more deltas room =>
    left
    simp only [Link.step]
    split
    · exact ⟨.refl _, rfl, rfl⟩
    · exact ⟨(buildMore_builds deltas s.ring _ s.pending room s.gone s.net).same, rfl, rfl⟩
  | deliver n =>
    left
    simp only [Link.step]
    split
    · exact ⟨.refl _, rfl, rfl⟩
    · exact ⟨.refl _, rfl, rfl⟩
  | sendAck => exact Or.inl ⟨.refl _, rfl, rfl⟩
  | ackArrives j =>
    cases hj : s.acks[j]? with
    | none =>
      have hstep : s.step (.ackArrives j) = s := by
        simp only [Link.step, hj]
      rw [hstep]
      exact Or.inl ⟨.refl _, rfl, rfl⟩
    | some w =>
      have hstep : s.step (.ackArrives j) = s.ackBy w.ack := by
        simp only [Link.step, hj]
      exact Or.inr ⟨w.ack, ⟨w, hj, rfl⟩, hstep⟩
  | forged a => exact Or.inr ⟨a, rfl, rfl⟩

end Link

end BeforeColony
