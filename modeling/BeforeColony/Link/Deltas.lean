import BeforeColony.Link.Believes

/-!
# Deltas are undone exactly

Each suit's records are numbered and dated in the order they go out, and a client that takes
datagrams in order keeps the newest. So a record the sector knows the client took, and fewer than
`kept` records ago, is still the client's when a delta against it arrives.
-/

set_option autoImplicit false

namespace BeforeColony

open Lib

variable {z : Sizes}

/-! ## What a datagram notes -/

/-- The records noted in building a datagram at tick `t` of `suits`: each later of its slot than
any before it. -/
structure Notes (c : ClientState) (t : ℕ) (suits : List (SeenSuit z)) (b : Built z) : Prop where
  tick : ∀ e ∈ b.ents, e.tick = t
  of_suits : ∃ done : List (SeenSuit z),
    b.ents.map (fun e => e.q.slot) = done.map (fun p => p.q.slot) ∧ done ++ b.rest <+: suits
  nth : ∀ e ∈ b.ents, c.sends e.q.slot ≤ e.nth ∧ e.nth < b.client.sends e.q.slot
  sends_le : ∀ j, c.sends j ≤ b.client.sends j
  out_tick : ∀ o, b.out = some o → o.datagram.tick = t

theorem sends_noteSent (c : ClientState) (j generation t : ℕ) (q : QEntity) (k : ℕ) :
    (c.noteSent j generation t q).sends k = if k = j then c.sends k + 1 else c.sends k := by
  simp only [ClientState.noteSent, Function.update_apply]
  split
  · rename_i hk
    rw [hk]
  · rfl

theorem writeSuits_notes (deltas : Bool) (t n : ℕ) (suits : List (SeenSuit z)) (c : ClientState) :
    (∀ e ∈ (writeSuits deltas t n suits c).ents, e.tick = t)
      ∧ (∃ done : List (SeenSuit z),
        (writeSuits deltas t n suits c).ents.map (fun e => e.q.slot)
            = done.map (fun p => p.q.slot)
          ∧ done ++ (writeSuits deltas t n suits c).rest = suits)
      ∧ (∀ e ∈ (writeSuits deltas t n suits c).ents, c.sends e.q.slot ≤ e.nth
        ∧ e.nth < (writeSuits deltas t n suits c).client.sends e.q.slot)
      ∧ ∀ j, c.sends j ≤ (writeSuits deltas t n suits c).client.sends j := by
  induction suits generalizing n c with
  | nil =>
    cases n <;> exact ⟨fun e he => (nomatch he), ⟨[], rfl, rfl⟩, fun e he => (nomatch he),
      fun _ => le_rfl⟩
  | cons p rest ih =>
    cases n with
    | zero => exact ⟨fun e he => (nomatch he), ⟨[], rfl, rfl⟩, fun e he => (nomatch he),
        fun _ => le_rfl⟩
    | succ n =>
      obtain ⟨htick, ⟨done, hslots, hdone⟩, hnth, hsends⟩ :=
        ih n (c.noteSent p.q.slot p.generation t p.q)
      have hstep : ∀ j, c.sends j ≤ (c.noteSent p.q.slot p.generation t p.q).sends j := by
        intro j
        rw [sends_noteSent]
        split <;> omega
      refine ⟨?_, ⟨p :: done, ?_, ?_⟩, ?_, fun j => (hstep j).trans (hsends j)⟩
      · intro e he
        rcases List.mem_cons.mp he with rfl | he
        · rfl
        · exact htick e he
      · exact congrArg (p.q.slot :: ·) hslots
      · exact congrArg (p :: ·) hdone
      · intro e he
        rcases List.mem_cons.mp he with rfl | he
        · refine ⟨le_rfl, lt_of_lt_of_le ?_ (hsends _)⟩
          rw [sends_noteSent, if_pos rfl]
          exact Nat.lt_succ_self _
        · obtain ⟨hlow, hhigh⟩ := hnth e he
          exact ⟨(hstep _).trans hlow, hhigh⟩

theorem buildSnapshot_notes (deltas : Bool) (ring : EventRing z.events) (v : View z) (room : Space)
    (gone : ℕ) (c : ClientState) :
    Notes c v.tick v.suits (buildSnapshot deltas ring v room gone c) := by
  have hopen := (openSnapshot_frame v c).2.2.2.2.1
  obtain ⟨htick, ⟨done, hslots, hdone⟩, hnth, hsends⟩ :=
    writeSuits_notes deltas v.tick room.suits v.suits (openSnapshot v c)
  rw [hopen] at hnth hsends
  unfold buildSnapshot
  cases hroom : room.finishes with
  | true =>
    rw [if_pos rfl]
    exact ⟨htick, ⟨done, hslots, [], (List.append_nil _).trans hdone⟩, hnth, hsends,
      fun o ho => by rw [← Option.some.inj ho]; rfl⟩
  | false =>
    rw [if_neg (by simp)]
    refine ⟨htick, ⟨done, hslots, ?_⟩, hnth, hsends, fun _ ho => (nomatch ho)⟩
    rw [List.append_nil, ← hdone]
    exact List.prefix_append _ _

theorem buildMore_notes (deltas : Bool) (ring : EventRing z.events) (t : ℕ)
    (suits : List (SeenSuit z)) (room : Space) (gone : ℕ) (c : ClientState) :
    Notes c t suits (buildMore deltas ring t suits room gone c) := by
  obtain ⟨htick, ⟨done, hslots, hdone⟩, hnth, hsends⟩ :=
    writeSuits_notes deltas t room.suits suits { c with seq := c.seq + 1 }
  have hprefix : done ++ [] <+: suits := by
    rw [List.append_nil, ← hdone]
    exact List.prefix_append _ _
  unfold buildMore
  cases hroom : room.finishes with
  | true =>
    rw [if_pos rfl]
    refine ⟨htick, ⟨done, hslots, ?_⟩, hnth, hsends, ?_⟩
    · dsimp only
      split
      · exact hprefix
      · exact ⟨[], (List.append_nil _).trans hdone⟩
    · intro o ho
      dsimp only at ho
      split at ho
      · cases ho
      · rw [← Option.some.inj ho]
        rfl
  | false =>
    rw [if_neg (by simp)]
    exact ⟨htick, ⟨done, hslots, hprefix⟩, hnth, hsends, fun _ ho => (nomatch ho)⟩

/-! ## Records in order -/

/-- Record `a` comes before `b`, if they are of one slot. -/
def SentEnt.Before (a b : SentEnt) : Prop :=
  a.q.slot = b.q.slot → a.nth < b.nth ∧ a.tick < b.tick

namespace Link

variable {s t : Link z}

/-- The records of each slot were noted in order, and what is left to see of a tick wasn't in it. -/
structure Numbered (s : Link z) : Prop where
  order : s.noted.Pairwise SentEnt.Before
  nth : ∀ e ∈ s.noted, e.nth < s.net.sends e.q.slot
  past : ∀ e ∈ s.noted, e.tick < s.now
  started : s.pending ≠ [] → 0 < s.now
  pending : ∀ p ∈ s.pending, ∀ e ∈ s.noted, e.q.slot = p.q.slot → e.tick + 1 < s.now
  distinct : (s.pending.map fun p => p.q.slot).Nodup
  apart : ∀ m n om on, s.Sent m om → s.Sent n on → m < n →
    om.carries.entsFrom + om.ents.length ≤ on.carries.entsFrom
  ticks : ∀ n o, s.Sent n o → ∀ e ∈ o.ents, e.tick = o.datagram.tick

theorem numbered_start (seat : Seat z) : (start seat).Numbered where
  order := .nil
  nth e he := nomatch he
  past e he := nomatch he
  started h := absurd rfl h
  pending p hp := nomatch hp
  distinct := .nil
  apart m n om on hm := by simp [Sent, start] at hm
  ticks n o h := by simp [Sent, start] at h

theorem Numbered.of_same (h : s.Numbered) (hnoted : t.noted = s.noted)
    (hsends : t.net.sends = s.net.sends) (hnow : t.now = s.now) (hpending : t.pending = s.pending)
    (hsent : ∀ n o, t.Sent n o → s.Sent n o) : t.Numbered where
  order := by rw [hnoted]; exact h.order
  nth := by rw [hnoted, hsends]; exact h.nth
  past := by rw [hnoted, hnow]; exact h.past
  started := by rw [hpending, hnow]; exact h.started
  pending := by rw [hpending, hnoted, hnow]; exact h.pending
  distinct := by rw [hpending]; exact h.distinct
  apart m n om on hm hn := h.apart m n om on (hsent m om hm) (hsent n on hn)
  ticks n o ho := h.ticks n o (hsent n o ho)

/-- Sending keeps the order, if none of the suits built from was noted at this tick or later. -/
theorem Numbered.send (h : s.Numbered) (hwf : s.Wf) {t : ℕ} {fresh leaves : List (ℕ × ℕ)}
    {suits : List (SeenSuit z)} {b : Built z} (hb : Builds s.net leaves s.gone b)
    (hnotes : Notes s.net t suits b) (hnow : s.now ≤ t + 1)
    (hdistinct : (suits.map fun p => p.q.slot).Nodup)
    (hold : ∀ p ∈ suits, ∀ e ∈ s.noted, e.q.slot = p.q.slot → e.tick < t) :
    (s.send (t + 1) fresh b).Numbered := by
  obtain ⟨done, hslots, hsuits⟩ := hnotes.of_suits
  have hnodup : ((done ++ b.rest).map fun p => p.q.slot).Nodup :=
    hdistinct.sublist ((hsuits.sublist).map _)
  rw [List.map_append, List.nodup_append] at hnodup
  obtain ⟨hdone, hrest, hapart⟩ := hnodup
  have hseen : ∀ e ∈ b.ents, ∃ p ∈ done, p.q.slot = e.q.slot := by
    intro e he
    have hmem : e.q.slot ∈ done.map fun p => p.q.slot := by
      rw [← hslots]
      exact List.mem_map_of_mem he
    exact List.mem_map.mp hmem
  constructor
  · change (s.noted ++ b.ents).Pairwise SentEnt.Before
    rw [List.pairwise_append]
    refine ⟨h.order, ?_, ?_⟩
    · rw [← hslots, List.Nodup, List.pairwise_map] at hdone
      exact hdone.imp fun hne hslot => absurd hslot hne
    · intro e he e' he' hslot
      obtain ⟨p, hp, hpslot⟩ := hseen e' he'
      have hlt := hold p (hsuits.subset (List.mem_append_left _ hp)) e he (hslot.trans hpslot.symm)
      rw [hnotes.tick e' he']
      refine ⟨(h.nth e he).trans_le ?_, hlt⟩
      rw [hslot]
      exact (hnotes.nth e' he').1
  · intro e he
    change e.nth < b.client.sends e.q.slot
    rcases List.mem_append.mp he with he | he
    · exact (h.nth e he).trans_le (hnotes.sends_le _)
    · exact (hnotes.nth e he).2
  · intro e he
    change e.tick < t + 1
    rcases List.mem_append.mp he with he | he
    · exact (h.past e he).trans_le hnow
    · rw [hnotes.tick e he]
      exact Nat.lt_succ_self t
  · exact fun _ => Nat.succ_pos t
  · intro p hp e he hslot
    change e.tick + 1 < t + 1
    rcases List.mem_append.mp he with he | he
    · exact Nat.succ_lt_succ
        (hold p (hsuits.subset (List.mem_append_right _ hp)) e he hslot)
    · obtain ⟨p', hp', hpslot⟩ := hseen e he
      exact absurd (hpslot.trans hslot) (hapart _ (List.mem_map_of_mem hp') _
        (List.mem_map_of_mem hp))
  · exact hrest
  · intro m n om on hm hn hlt
    rcases sent_send.mp hn with hn | ⟨rfl, hout⟩
    · rcases sent_send.mp hm with hm | ⟨rfl, -⟩
      · exact h.apart m n om on hm hn hlt
      · exact absurd (sent_lt hn) (by omega)
    · rcases sent_send.mp hm with hm | ⟨rfl, -⟩
      · rw [(hb.out_ents on hout).2, hwf.head]
        exact (hwf.noted m om hm).1
      · exact absurd hlt (lt_irrefl _)
  · intro n o ho e he
    rcases sent_send.mp ho with ho | ⟨-, hout⟩
    · exact h.ticks n o ho e he
    · rw [hnotes.out_tick o hout]
      rw [(hb.out_ents o hout).1] at he
      exact hnotes.tick e he

theorem Numbered.step (h : s.Numbered) (hwf : s.Wf) (a : LinkAct z) : (s.step a).Numbered := by
  have hack : ∀ ack, (s.ackBy ack).Numbered := by
    intro ack
    have hsame := sameRun_ackBy s ack
    exact h.of_same hsame.noted hsame.sends hsame.now hsame.pending
      fun n o => (hsame.sent n o).mp
  cases a with
  | happen e => exact h.of_same rfl rfl rfl rfl fun _ _ => id
  | build deltas v room =>
    simp only [Link.step]
    split
    · exact h
    · rename_i hnow
      refine h.send hwf (buildSnapshot_builds deltas s.ring v room s.gone s.net)
        (buildSnapshot_notes deltas s.ring v room s.gone s.net) (by omega) v.distinct ?_
      intro p _ e he _
      exact (h.past e he).trans_le (not_lt.mp hnow)
  | more deltas room =>
    simp only [Link.step]
    split
    · exact h
    · rename_i hpending
      have hpos := h.started hpending
      have hsend : (s.send (s.now - 1 + 1) []
          (buildMore deltas s.ring (s.now - 1) s.pending room s.gone s.net)).Numbered := by
        refine h.send hwf (buildMore_builds deltas s.ring _ s.pending room s.gone s.net)
          (buildMore_notes deltas s.ring _ s.pending room s.gone s.net) (by omega) h.distinct ?_
        intro p hp e he hslot
        have := h.pending p hp e he hslot
        omega
      rwa [Nat.sub_add_cancel hpos] at hsend
  | deliver n =>
    simp only [Link.step]
    split
    · exact h.of_same rfl rfl rfl rfl fun _ _ => id
    · exact h
  | sendAck => exact h.of_same rfl rfl rfl rfl fun _ _ => id
  | ackArrives j =>
    simp only [Link.step]
    split
    · exact hack _
    · exact h
  | forged ack => exact hack ack

/-- Of a datagram and a later one, the records of a slot are in order. -/
theorem Numbered.before (h : s.Numbered) (hwf : s.Wf) {m n : ℕ} {om on : Outgoing z}
    (hm : s.Sent m om) (hn : s.Sent n on) (hlt : m < n) {e e' : SentEnt} (he : e ∈ om.ents)
    (he' : e' ∈ on.ents) : e.Before e' := by
  have hapart := h.apart m n om on hm hn hlt
  rw [(hwf.noted m om hm).2] at he
  rw [(hwf.noted n on hn).2] at he'
  have hsplit : s.noted = s.noted.take on.carries.entsFrom ++ s.noted.drop on.carries.entsFrom :=
    (List.take_append_drop _ _).symm
  have horder := h.order
  rw [hsplit, List.pairwise_append] at horder
  refine horder.2.2 e ?_ e' (List.mem_of_mem_take he')
  have hmem : e ∈ (s.noted.take (om.carries.entsFrom + om.ents.length)) := by
    rw [List.take_add]
    exact List.mem_append_right _ he
  exact (List.take_sublist_take_left hapart).subset hmem

theorem Numbered.within (h : s.Numbered) (hwf : s.Wf) {n : ℕ} {o : Outgoing z} (ho : s.Sent n o) :
    o.ents.Pairwise SentEnt.Before := by
  rw [(hwf.noted n o ho).2]
  exact h.order.sublist ((List.take_sublist _ _).trans (List.drop_sublist _ _))

/-! ## What the client keeps -/

def entsAt (s : Link z) (n : ℕ) : List SentEnt := (s.log[n]?).join.elim [] Outgoing.ents

theorem entsAt_of_sent {n : ℕ} {o : Outgoing z} (h : s.Sent n o) : s.entsAt n = o.ents := by
  rw [entsAt, h]
  rfl

theorem sent_of_mem_entsAt {n : ℕ} {e : SentEnt} (h : e ∈ s.entsAt n) :
    ∃ o, s.Sent n o ∧ e ∈ o.ents := by
  unfold entsAt at h
  cases hn : (s.log[n]?).join with
  | none =>
    rw [hn] at h
    cases h
  | some o =>
    rw [hn] at h
    exact ⟨o, Option.join_eq_some_iff.mp hn, h⟩

/-- The records of slot `j` the client took, oldest first. -/
def tookOf (s : Link z) (j : ℕ) : List SentEnt :=
  (s.taken.flatMap s.entsAt).filter fun e => e.q.slot = j

theorem mem_tookOf {j : ℕ} {e : SentEnt} :
    e ∈ s.tookOf j ↔ (∃ n ∈ s.taken, ∃ o, s.Sent n o ∧ e ∈ o.ents) ∧ e.q.slot = j := by
  rw [tookOf, List.mem_filter, List.mem_flatMap, decide_eq_true_eq]
  apply and_congr_left
  intro _
  constructor
  · rintro ⟨n, hn, he⟩
    exact ⟨n, hn, sent_of_mem_entsAt he⟩
  · rintro ⟨n, hn, o, ho, he⟩
    exact ⟨n, hn, by rwa [entsAt_of_sent ho]⟩

theorem Numbered.tookOf (h : s.Numbered) (hwf : s.Wf) (hheard : s.Heard) (j : ℕ) :
    (s.tookOf j).Pairwise fun a b => a.nth < b.nth ∧ a.tick < b.tick := by
  have hall : (s.taken.flatMap s.entsAt).Pairwise SentEnt.Before := by
    rw [List.pairwise_flatMap]
    constructor
    · intro n hn
      obtain ⟨o, ho⟩ := hheard.sent n hn
      rw [entsAt_of_sent ho]
      exact h.within hwf ho
    · apply hheard.tracks.increasing.imp
      intro m n hlt e he e' he'
      obtain ⟨om, hm, hem⟩ := sent_of_mem_entsAt he
      obtain ⟨on, hn, hen⟩ := sent_of_mem_entsAt he'
      exact h.before hwf hm hn hlt hem hen
  refine (hall.sublist List.filter_sublist).imp_of_mem ?_
  intro a b ha hb hbefore
  have haj := of_decide_eq_true (List.mem_filter.mp ha).2
  have hbj := of_decide_eq_true (List.mem_filter.mp hb).2
  exact hbefore (haj.trans hbj.symm)

end Link

/-- A reader that has `baseline` rebuilds record `e` from `bits`: it is whole, or a delta against
a record of the suit the reader has. -/
def Undoes (baseline : ℕ → ℕ → Option QEntity) (e : SentEnt) (bits : List Bool) : Prop :=
  bits = Field.all (recordFields e.q none)
    ∨ ∃ (b : SentEnt) (d : Delta), baseline e.q.slot b.tick = some b.q ∧ b.q.slot = e.q.slot ∧ b.tick < e.tick
      ∧ Delta.plan e.q b.q (e.tick - b.tick) = some d ∧ bits = Field.all (recordFields e.q (some d))

theorem Undoes.readRecord {baseline : ℕ → ℕ → Option QEntity} {e : SentEnt} {bits : List Bool}
    (h : Undoes baseline e bits) (hq : e.q.InRange) :
    Client.readRecord baseline e.tick bits = .ok e.q := by
  have hreads : Reads (readEntity baseline e.tick) bits e.q := by
    rcases h with rfl | ⟨b, d, hget, hslot, hlt, hplan, rfl⟩
    · exact reads_whole hq
    · obtain ⟨-, hback, -⟩ := Delta.plan_eq hplan
      apply reads_delta hq hplan
      have hthen : ticksBack e.tick (e.tick - b.tick) = b.tick := by
        rw [ticksBack, if_pos (Nat.sub_le _ _)]
        omega
      rw [baselineFor, if_pos (by omega), hthen, hget, Option.filter_some, hslot]
      simp
  have hread := hreads []
  rw [List.append_nil] at hread
  rw [Client.readRecord, hread]
  rfl

theorem mapM_readRecord {baseline : ℕ → ℕ → Option QEntity} {tick : ℕ} {es : List SentEnt}
    {suits : List (List Bool)} (h : List.Forall₂ (Undoes baseline) es suits)
    (hes : ∀ e ∈ es, e.q.InRange ∧ e.tick = tick) :
    suits.mapM (Client.readRecord baseline tick) = .ok (es.map SentEnt.q) := by
  induction h with
  | nil => rfl
  | @cons e bits es suits hhead _ ih =>
    obtain ⟨hq, htick⟩ := hes e List.mem_cons_self
    have hone := hhead.readRecord hq
    rw [htick] at hone
    rw [List.mapM_cons, hone, ih fun e' he' => hes e' (List.mem_cons_of_mem _ he')]
    rfl

theorem Baselines.foldl_put (tick : ℕ) (qs : List QEntity) (b : Baselines) (j : ℕ) :
    (qs.foldl (fun b q => b.put tick q) b) j
      = ((qs.filter fun q => q.slot = j).map fun q => (tick, q)).foldl History.push (b j) := by
  induction qs generalizing b with
  | nil => rfl
  | cons q rest ih =>
    rw [List.foldl_cons, ih]
    by_cases hj : q.slot = j
    · rw [List.filter_cons_of_pos (by simpa using hj), List.map_cons, List.foldl_cons,
        Baselines.put, hj, Function.update_self]
    · rw [List.filter_cons_of_neg (by simpa using hj), Baselines.put,
        Function.update_of_ne (Ne.symm hj)]

/-- A client that keeps the newest of the records `old` keeps the newest of them and `new` after
taking a datagram of these. -/
theorem Baselines.newest_put {b : Baselines} {old new : List SentEnt} {tick j : ℕ}
    (h : (b j).newest = (old.map fun e => (e.tick, e.q)).reverse.take kept)
    (hnew : ∀ e ∈ new, e.tick = tick) :
    (((new.map SentEnt.q).foldl (fun b q => b.put tick q) b) j).newest
      = ((old ++ new.filter fun e => e.q.slot = j).map fun e => (e.tick, e.q)).reverse.take kept := by
  have hpairs : ((new.map SentEnt.q).filter fun q => q.slot = j).map (fun q => (tick, q))
      = (new.filter fun e => e.q.slot = j).map fun e => (e.tick, e.q) := by
    rw [List.filter_map, List.map_map]
    apply List.map_congr_left
    intro e he
    rw [hnew e (List.mem_of_mem_filter he)]
    rfl
  rw [foldl_put, hpairs, History.newest_foldl_push, h, List.map_append, List.reverse_append,
    List.take_append, List.take_append, List.take_take]
  congr 2
  omega

namespace Link

variable {s t : Link z}

/-- The client keeps the newest records it took of each slot, it could read every datagram it was
given, and each datagram stands on records it took before the datagram was built. -/
structure Held (s : Link z) : Prop where
  newest : ∀ j, (s.client.baselines j).newest
    = ((s.tookOf j).map fun e => (e.tick, e.q)).reverse.take kept
  stands : ∀ n o, s.Sent n o → ∃ base : ℕ → Option SentEnt,
    List.Forall₂ (EncodedAs base) o.ents o.datagram.suits ∧ ∀ j b, base j = some b → b ∈ s.tookOf j
  clean : s.client.decodeErrors = 0

theorem held_start (seat : Seat z) : (start seat).Held where
  newest j := rfl
  stands n o h := by simp [Sent, start] at h
  clean := rfl

/-- A record of a slot the client took is kept until `kept` more have come. -/
theorem Held.get (h : s.Held) (hwf : s.Wf) (hheard : s.Heard) (hnum : s.Numbered) {j : ℕ}
    {b : SentEnt} (hb : b ∈ s.tookOf j) (hnear : ∀ e ∈ s.tookOf j, e.nth < b.nth + kept) :
    s.client.baselines.get j b.tick = some b.q := by
  have horder := hnum.tookOf hwf hheard j
  have hmem : b ∈ (s.tookOf j).reverse.take kept :=
    mem_take_reverse (horder.imp fun h => h.1) hb (by decide) hnear
  have hfind : (s.client.baselines j).newest.find? (fun e => e.1 = b.tick) = some (b.tick, b.q) := by
    rw [h.newest j, ← List.map_reverse, ← List.map_take]
    apply find?_of_unique
    · exact List.mem_map_of_mem hmem
    · simp
    · intro p hp htick
      obtain ⟨e, he, rfl⟩ := List.mem_map.mp hp
      have hej := List.mem_reverse.mp (List.mem_of_mem_take he)
      have hticks : ((s.tookOf j).map SentEnt.tick).Nodup := by
        rw [List.Nodup, List.pairwise_map]
        exact horder.imp fun h => h.2.ne
      rw [List.inj_on_of_nodup_map hticks hej hb (of_decide_eq_true htick)]
  rw [Baselines.get, hfind]
  rfl

/-- A datagram newer than all the client took is made of records the client can rebuild. -/
theorem Held.undoes (h : s.Held) (hwf : s.Wf) (hheard : s.Heard) (hnum : s.Numbered) {n : ℕ}
    {o : Outgoing z} (ho : s.Sent n o) (hnew : ∀ m ∈ s.taken, m < n) (fresh : Bool)
    (hfresh : fresh = true → s.taken = []) :
    List.Forall₂ (Undoes fun slot tick => if fresh then none else s.client.baselines.get slot tick)
      o.ents o.datagram.suits := by
  obtain ⟨base, hall, hbase⟩ := h.stands n o ho
  refine ((List.forall₂_and_left _ _).mpr ⟨fun e he => he, hall⟩).imp ?_
  rintro e bits ⟨he, hwhole | ⟨b, d, hb, hnear, hlt, hplan, hbits⟩⟩
  · exact Or.inl hwhole
  · right
    have hmem := hbase _ b hb
    obtain ⟨⟨m, hm, -⟩, hslot⟩ := mem_tookOf.mp hmem
    have hheld : s.client.baselines.get e.q.slot b.tick = some b.q := by
      apply h.get hwf hheard hnum hmem
      intro x hx
      obtain ⟨⟨k, hk, ok, hok, hxk⟩, hxslot⟩ := mem_tookOf.mp hx
      have hbefore := hnum.before hwf hok ho (hnew k hk) hxk he hxslot
      omega
    have hold : fresh = false := by
      cases fresh with
      | false => rfl
      | true => exact absurd hm (by simp [hfresh rfl])
    refine ⟨b, d, ?_, hslot, hlt, hplan, hbits⟩
    rw [hold]
    exact hheld

theorem Held.records (h : s.Held) (hwf : s.Wf) (hheard : s.Heard) (hnum : s.Numbered) {n : ℕ}
    {o : Outgoing z} (ho : s.Sent n o) (hnew : ∀ m ∈ s.taken, m < n) (fresh : Bool)
    (hfresh : fresh = true → s.taken = []) :
    s.client.records fresh o.datagram = .ok (o.ents.map SentEnt.q) := by
  apply mapM_readRecord (h.undoes hwf hheard hnum ho hnew fresh hfresh)
  intro e he
  refine ⟨?_, hnum.ticks n o ho e he⟩
  rw [(hwf.noted n o ho).2] at he
  exact (hwf.entOk e (List.mem_of_mem_drop (List.mem_of_mem_take he))).1

/-- A new stream is one the client has taken nothing of. -/
theorem Heard.fresh_iff (h : s.Heard) (hwf : s.Wf) {n : ℕ} {o : Outgoing z} (ho : s.Sent n o)
    (hreach : s.InReach (.deliver n)) :
    (Client.isFresh (s.client.acks.check o.datagram.stream o.datagram.seq o.datagram.tick) = true
        → s.taken = [])
      ∧ s.client.acks.check o.datagram.stream o.datagram.seq o.datagram.tick ≠ .unsequenced
      ∧ (s.taken = [] → Client.isFresh
        (s.client.acks.check o.datagram.stream o.datagram.seq o.datagram.tick) = true) := by
  rw [h.check_eq hwf ho hreach]
  by_cases ht : s.taken = []
  · rw [if_pos ht]
    exact ⟨fun _ => ht, by simp, fun _ => rfl⟩
  · rw [if_neg ht]
    refine ⟨fun hfresh => ?_, ?_, fun h => absurd h ht⟩
    · split at hfresh <;> cases hfresh
    · split <;> simp

theorem tookOf_congr (htaken : t.taken = s.taken) (hheard : s.Heard)
    (hsent : ∀ n o, s.Sent n o → t.Sent n o) (j : ℕ) : t.tookOf j = s.tookOf j := by
  rw [tookOf, tookOf, htaken]
  congr 1
  apply List.flatMap_congr
  intro n hn
  obtain ⟨o, ho⟩ := hheard.sent n hn
  rw [entsAt_of_sent ho, entsAt_of_sent (hsent n o ho)]

/-- What the sector sends stands on what it knows was taken. -/
theorem Held.of_sent (h : s.Held) (hheard : s.Heard) (hclient : t.client = s.client)
    (htaken : t.taken = s.taken) (hsent : ∀ n o, s.Sent n o → t.Sent n o)
    (hbase : ∀ j b, s.net.base j = some b → b ∈ s.tookOf j)
    (hnew : ∀ n o, t.Sent n o →
      s.Sent n o ∨ List.Forall₂ (EncodedAs s.net.base) o.ents o.datagram.suits) : t.Held where
  newest j := by rw [hclient, tookOf_congr htaken hheard hsent j]; exact h.newest j
  stands n o ho := by
    rw [show t.tookOf = s.tookOf from funext (tookOf_congr htaken hheard hsent)]
    rcases hnew n o ho with hold | hall
    · exact h.stands n o hold
    · exact ⟨s.net.base, hall, hbase⟩
  clean := by rw [hclient]; exact h.clean

theorem Held.deliver (h : s.Held) (hwf : s.Wf) (hheard : s.Heard) (hnum : s.Numbered) {n : ℕ}
    (hreach : s.InReach (.deliver n)) : (s.step (.deliver n)).Held := by
  cases hn : s.log[n]? with
  | none =>
    have hstep : s.step (.deliver n) = s := by simp only [Link.step, hn]
    rwa [hstep]
  | some entry =>
    cases entry with
    | none =>
      have hstep : s.step (.deliver n) = s := by simp only [Link.step, hn]
      rwa [hstep]
    | some o =>
      have hstep : s.step (.deliver n) = { s with
          client := (s.client.onDatagram o.datagram).1
          taken := if (s.client.onDatagram o.datagram).2 then s.taken ++ [n] else s.taken } := by
        simp only [Link.step, hn]
      obtain ⟨hfresh, hseq, hfirst⟩ := hheard.fresh_iff hwf hn hreach
      rw [hstep]
      rcases s.client.onDatagram_cases o.datagram with
        ⟨-, heq⟩ | ⟨hnew, ⟨err, herr⟩, -⟩ | ⟨hnew, qs, hqs, heq⟩
      · rw [heq]
        exact ⟨h.newest, h.stands, h.clean⟩
      · have hok := h.records hwf hheard hnum hn (hheard.take hwf hn hreach hnew).1 _ hfresh
        rw [herr] at hok
        cases hok
      · have hok := h.records hwf hheard hnum hn (hheard.take hwf hn hreach hnew).1 _ hfresh
        rw [hqs] at hok
        cases hok
        rw [heq]
        have htook : ∀ j, tookOf { s with
            client := s.client.take (s.client.acks.check o.datagram.stream o.datagram.seq
              o.datagram.tick) o.datagram (o.ents.map SentEnt.q)
            taken := s.taken ++ [n] } j = s.tookOf j ++ o.ents.filter fun e => e.q.slot = j := by
          intro j
          have hat : s.entsAt n = o.ents := entsAt_of_sent hn
          rw [tookOf, List.flatMap_append, List.filter_append, List.flatMap_singleton]
          change s.tookOf j ++ (s.entsAt n).filter _ = _
          rw [hat]
        constructor
        · intro j
          rw [if_pos rfl, htook j, Client.take_baselines _ _ _ _ hseq]
          refine Baselines.newest_put ?_ (hnum.ticks n o hn)
          split
          · rename_i hnone
            rw [show s.tookOf j = [] by rw [tookOf, hfresh hnone]; rfl]
            rfl
          · exact h.newest j
        · intro m om hm
          obtain ⟨base, hall, hbase⟩ := h.stands m om hm
          refine ⟨base, hall, fun j b hb => ?_⟩
          rw [if_pos rfl, htook j]
          exact List.mem_append_left _ (hbase j b hb)
        · change (s.client.take _ _ _).decodeErrors = 0
          rw [Client.take_decodeErrors]
          exact h.clean

theorem Held.step (h : s.Held) (hwf : s.Wf) (hheard : s.Heard) (hnum : s.Numbered) {since : ℕ}
    (hbelieves : s.Believes since s.taken) {a : LinkAct z} (hreach : s.InReach a) :
    (s.step a).Held := by
  have hsent : ∀ n o, s.Sent n o → (s.step a).Sent n o := fun n o => sent_step a
  have hbase : ∀ j b, s.net.base j = some b → b ∈ s.tookOf j := by
    intro j b hb
    obtain ⟨n, hn, o, ho, hcarries, hslot⟩ := hbelieves.bases j b hb
    exact mem_tookOf.mpr ⟨⟨n, hn, o, ho, hcarries.1⟩, hslot⟩
  have hack : ∀ ack, (s.ackBy ack).Held := by
    intro ack
    have hsame := sameRun_ackBy s ack
    exact h.of_sent hheard hsame.client hsame.taken (fun n o => (hsame.sent n o).mpr) hbase
      fun n o ho => Or.inl ((hsame.sent n o).mp ho)
  have hsend : ∀ {now : ℕ} {fresh leaves : List (ℕ × ℕ)} {b : Built z},
      Builds s.net leaves s.gone b → (s.send now fresh b).Held := by
    intro now fresh leaves b hb
    refine h.of_sent hheard rfl rfl (fun n o ho => sent_send.mpr (Or.inl ho)) hbase ?_
    intro n o ho
    exact (sent_send.mp ho).imp_right fun hout => hb.out_encoded o hout.2
  cases a with
  | happen e => exact ⟨h.newest, h.stands, h.clean⟩
  | build deltas v room =>
    simp only [Link.step]
    split
    · exact h
    · exact hsend (buildSnapshot_builds deltas s.ring v room s.gone s.net)
  | more deltas room =>
    simp only [Link.step]
    split
    · exact h
    · exact hsend (buildMore_builds deltas s.ring (s.now - 1) s.pending room s.gone s.net)
  | deliver n => exact h.deliver hwf hheard hnum hreach
  | sendAck => exact ⟨h.newest, h.stands, h.clean⟩
  | ackArrives j =>
    simp only [Link.step]
    split
    · exact hack _
    · exact h
  | forged ack => exact absurd hreach.2 id

theorem held_run (seat : Seat z) {acts : List (LinkAct z)}
    (h : Run.Along step InReach (start seat) acts) :
    ((start seat).run acts).Heard ∧ ((start seat).run acts).Numbered
      ∧ ((start seat).run acts).Held := by
  have hall := Run.invariant
    (I := fun s : Link z => s.Wf ∧ s.Heard ∧ (s.Few → s.Spoken) ∧ s.Believes seat.ring.next s.acked
      ∧ (∀ n ∈ s.acked, n ∈ s.taken) ∧ s.Numbered ∧ s.Held)
    (fun s a hs hreach => by
      obtain ⟨hwf, hheard, hspoken, hbelieves, hacked, hnum, hheld⟩ := hs
      have hfew := s.few_of_step a hreach.1.2
      exact ⟨hwf.step a, hheard.step hwf hreach, fun _ => (hspoken hfew).step hwf hfew a,
        hbelieves.step hwf (hspoken hfew) a, hheard.acked_step hwf hacked hreach, hnum.step hwf a,
        hheld.step hwf hheard hnum (hbelieves.mono hacked) hreach⟩)
    ⟨wf_start seat, heard_start seat, spoken_start seat, believes_start seat,
      fun _ hn => (nomatch hn), numbered_start seat, held_start seat⟩ h
  exact ⟨hall.2.1, hall.2.2.2.2.2⟩

/-- As long as numbers keep naming what they should, deltas are exact: each the client is given in a
datagram it isn't past stands on a record it still keeps, the datagram is read as just the records
the sector put in it, and so the client has met no missing baseline and keeps only records sent. -/
theorem deltas_exact (seat : Seat z) (acts : List (LinkAct z))
    (h : Run.Along step InReach (start seat) acts) :
    let s := (start seat).run acts
    s.client.decodeErrors = 0
      ∧ (∀ j, ∀ p ∈ (s.client.baselines j).newest, ∃ n ∈ s.taken, ∃ o, s.Sent n o
        ∧ ∃ e ∈ o.ents, e.q.slot = j ∧ p = (e.tick, e.q))
      ∧ ∀ n o, s.Sent n o → s.InReach (.deliver n) →
        s.client.acks.check o.datagram.stream o.datagram.seq o.datagram.tick ≠ .stale →
        List.Forall₂ (Undoes s.client.baselines.get) o.ents o.datagram.suits
          ∧ (s.client.onDatagram o.datagram).2 = true
          ∧ s.client.records (Client.isFresh
              (s.client.acks.check o.datagram.stream o.datagram.seq o.datagram.tick)) o.datagram
            = .ok (o.ents.map SentEnt.q) := by
  intro s
  have hwf : s.Wf := wf_run seat acts
  obtain ⟨hheard, hnum, hheld⟩ := held_run seat h
  refine ⟨hheld.clean, fun j p hp => ?_, fun n o ho hreach hcheck => ?_⟩
  · rw [hheld.newest j] at hp
    obtain ⟨e, he, rfl⟩ := List.mem_map.mp (List.mem_reverse.mp (List.mem_of_mem_take hp))
    obtain ⟨⟨n, hn, o, ho, hmem⟩, hslot⟩ := mem_tookOf.mp he
    exact ⟨n, hn, o, ho, e, hmem, hslot, rfl⟩
  · have hnew := (hheard.take hwf ho hreach hcheck).1
    have hrecords := hheld.records hwf hheard hnum ho hnew _ (hheard.fresh_iff hwf ho hreach).1
    refine ⟨?_, ?_, hrecords⟩
    · simpa using hheld.undoes hwf hheard hnum ho hnew false (by simp)
    · rcases s.client.onDatagram_cases o.datagram with
        ⟨hstale, -⟩ | ⟨-, ⟨err, herr⟩, -⟩ | ⟨-, qs, -, heq⟩
      · exact absurd hstale hcheck
      · rw [hrecords] at herr
        cases herr
      · rw [heq]

/-! ## A delta against a record never taken -/

theorem blank_inRange : Baselines.blank.InRange where
  slot := by decide
  generation := by decide
  on on h := by cases h
  pos k := Nat.zero_le _
  vel k := by decide +revert
  rotLargest := by decide
  rot k := Nat.two_pow_pos _
  aim k := Nat.two_pow_pos _
  flags := by decide
  parts k := Nat.zero_le _

def restingSuit : SeenSuit ⟨1, 1, 16⟩ where
  generation := 0
  q := Baselines.blank
  inRange := blank_inRange
  slot_lt := by decide

theorem idle_rock_lt (t : ℕ) :
    ∀ r ∈ (idleView ⟨1, 1, 16⟩ t).rocks, r.1 < (⟨1, 1, 16⟩ : Sizes).rocks := (idleView _ t).rock_lt

theorem idle_near_perm (t : ℕ) : (idleView ⟨1, 1, 16⟩ t).near.Perm (List.range maxChunks) :=
  (idleView _ t).near_perm

theorem one_suit_distinct : ([restingSuit].map fun s => s.q.slot).Nodup := List.nodup_singleton _

def suitView (t : ℕ) : View ⟨1, 1, 16⟩ :=
  { idleView _ t with
    suits := [restingSuit]
    rock_lt := idle_rock_lt t
    near_perm := idle_near_perm t
    distinct := one_suit_distinct }

/-- The suit is sent whole, taken and acked, and then sent as a delta. -/
def pairActs : List (LinkAct ⟨1, 1, 16⟩) :=
  [.build true (suitView 0) wide, .deliver 0, .sendAck, .ackArrives 0,
    .build true (suitView 1) wide, .deliver 1]

theorem deltas_exact_pair :
    ((start (firstSeat ⟨1, 1, 16⟩)).run pairActs).client.decodeErrors = 0
      ∧ ((start (firstSeat ⟨1, 1, 16⟩)).run pairActs).taken = [0, 1]
      ∧ ((start (firstSeat ⟨1, 1, 16⟩)).run pairActs).net.base 0 = some ⟨0, 0, 0, Baselines.blank⟩ := by
  refine ⟨(deltas_exact (firstSeat ⟨1, 1, 16⟩) pairActs ?_).1, by decide +kernel, by decide +kernel⟩
  refine ⟨⟨by decide +kernel, trivial⟩, ⟨by decide +kernel, ?_⟩, ⟨by decide +kernel, trivial⟩,
    ⟨by decide +kernel, ?_⟩, ⟨by decide +kernel, trivial⟩, ⟨by decide +kernel, ?_⟩, trivial⟩
  · change ite _ _ _
    decide +kernel
  · intro w _ _
    apply Nat.le_add_left_of_le
    decide +kernel
  · change ite _ _ _
    decide +kernel

theorem build_suit (s : Link ⟨1, 1, 16⟩) {t : ℕ} (ht : s.now ≤ t) :
    s.step (.build true (suitView t) wide)
      = s.send (t + 1) ((openSnapshot (suitView t) s.net).leaves.drop s.net.leaves.length)
        (buildSnapshot true s.ring (suitView t) wide s.gone s.net) := by
  simp only [Link.step]
  exact if_neg (not_lt.mpr ht)

/-- After an ack that named the datagram the suit's whole record went in, its next is a delta. -/
structure Misled (s : Link ⟨1, 1, 16⟩) : Prop where
  base : s.net.base 0 = some ⟨0, 0, 0x10000, Baselines.blank⟩
  sends : s.net.sends 0 = 1
  seq : s.net.seq = 0x10001
  stream : s.net.stream = 1
  now : s.now = 0x10001
  filled : s.log.length = 0x10001
  window : s.client.acks = firstWindow
  baselines : s.client.baselines = Baselines.clear
  errors : s.client.decodeErrors = 0

theorem misled_of_awaits {t : Link ⟨1, 1, 16⟩} (h : Awaits 0xFFFF t) :
    Misled (t.run [.build true (suitView 0x10000) wide, .ackArrives 0]) := by
  set u := t.step (.build true (suitView 0x10000) wide) with hu
  set b := buildSnapshot true t.ring (suitView 0x10000) wide t.gone t.net with hb
  have hbuild : u = t.send 0x10001 _ b := build_suit t h.now.le
  have hbuilds : Builds t.net _ t.gone b :=
    buildSnapshot_builds true t.ring (suitView 0x10000) wide t.gone t.net
  have hnet : u.net = b.client := by rw [hbuild]; rfl
  have hstream : u.net.stream = 1 := by rw [hnet, hbuilds.same.stream, h.acks.stream]; rfl
  have hseq : u.net.seq = 0x10001 := by rw [hnet, hbuilds.seq, h.seq]
  obtain ⟨o, hout, hnumber, hfrom, hcount⟩ : ∃ o, b.out = some o ∧ o.carries.seq = 0x10000
      ∧ o.carries.entsFrom = 0 ∧ o.carries.nEnts = 1 := ⟨_, rfl, h.seq, h.entsHead, rfl⟩
  have hsends : b.client.sends = Function.update t.net.sends 0 (t.net.sends 0 + 1) := rfl
  have hhead : b.client.entsHead = t.net.entsHead + 1 := rfl
  have hents : b.client.sentEnts
      = t.net.sentEnts.set t.net.entsHead ⟨0, t.net.sends 0, 0x10000, Baselines.blank⟩ := rfl
  have hnames : u.net.names firstWindow.ack = [0x10000] := by
    rw [ClientState.names, hstream, hseq]
    decide
  have hget : u.net.sent.get 0x10000 = o.carries := by
    rw [hnet, hbuilds.out_sent o hout, h.seq, Ring.get_set_self]
  have hfloor : u.net.ackFloor = 0 := by rw [hnet, hbuilds.same.ackFloor, h.acks.ackFloor]; rfl
  have hcarried : u.net.entsOf o.carries = [⟨0, 0, 0x10000, Baselines.blank⟩] := by
    rw [ClientState.entsOf, hnet, hfrom, hcount, hhead, hents, h.entsHead, h.sends]
    rfl
  have hwindow : u.acks[0]? = some firstWindow := by
    rw [hbuild]
    change t.acks[0]? = _
    rw [h.windows]
    rfl
  have hack : u.step (.ackArrives 0) = u.ackBy firstWindow.ack := by
    simp only [Link.step, hwindow]
  have hsame := sameRun_ackBy u firstWindow.ack
  change Misled (u.step (.ackArrives 0))
  rw [hack]
  constructor
  · rw [net_ackBy, ClientState.onAck, hnames, List.foldl_cons, List.foldl_nil, ClientState.retire,
      hget, hnumber, hfloor, if_neg (by simp)]
    simp only [ClientState.retired, hcarried, List.foldl_cons, List.foldl_nil]
    rw [hnet, ackEnt, hbuilds.same.base, h.acks.base]
    rfl
  · rw [hsame.sends, hnet, hsends, h.sends]
    rfl
  · rw [hsame.seq, hseq]
  · rw [hsame.stream, hstream]
  · rw [hsame.now, hbuild]
    rfl
  · rw [hsame.log, hbuild]
    change (t.log ++ [b.out]).length = _
    rw [List.length_append, h.filled]
    rfl
  · rw [hsame.client, hbuild]
    exact h.window
  · rw [hsame.client, hbuild]
    exact h.baselines
  · rw [hsame.client, hbuild]
    exact h.errors

theorem Misled.meets_no_baseline {s : Link ⟨1, 1, 16⟩} (h : Misled s) :
    let v := s.step (.build true (suitView 0x10001) wide)
    (∃ o, v.Sent 0x10001 o ∧ v.client.records false o.datagram = .error .noBaseline)
      ∧ (v.step (.deliver 0x10001)).client.decodeErrors = 1 := by
  intro v
  obtain ⟨d, hplan⟩ : ∃ d, Delta.plan Baselines.blank Baselines.blank 1 = some d := ⟨_, rfl⟩
  set b := buildSnapshot true s.ring (suitView 0x10001) wide s.gone s.net with hb
  have hbuild : v = s.send 0x10002 _ b := build_suit s h.now.le
  have hdelta : deltaFor (openSnapshot (suitView 0x10001) s.net) true 0x10001 restingSuit
      = some d := by
    have hbase : (openSnapshot (suitView 0x10001) s.net).baseline 0 0 Baselines.blank 0x10001
        = some (Baselines.blank, 1) := by
      have hopen : (openSnapshot (suitView 0x10001) s.net).base 0 = s.net.base 0 := rfl
      have hopenSends : (openSnapshot (suitView 0x10001) s.net).sends 0 = s.net.sends 0 := rfl
      rw [ClientState.baseline, hopen, h.base, hopenSends, h.sends]
      decide +kernel
    rw [deltaFor, if_pos rfl]
    change ((openSnapshot (suitView 0x10001) s.net).baseline 0 0 Baselines.blank 0x10001).bind _ = _
    rw [hbase]
    exact hplan
  obtain ⟨o, hout, hstream, hnumber, htick, hsuits⟩ : ∃ o, b.out = some o
      ∧ o.datagram.stream = s.net.stream ∧ o.datagram.seq = s.net.seq % 0x10000
      ∧ o.datagram.tick = 0x10001 ∧ o.datagram.suits = [Field.all (recordFields restingSuit.q
        (deltaFor (openSnapshot (suitView 0x10001) s.net) true 0x10001 restingSuit))] :=
    ⟨_, rfl, rfl, rfl, rfl, rfl⟩
  rw [h.stream] at hstream
  rw [h.seq] at hnumber
  rw [hdelta] at hsuits
  have hlog : v.log[0x10001]? = some (some o) := by
    rw [hbuild]
    change (s.log ++ [b.out])[0x10001]? = _
    rw [List.getElem?_append_right h.filled.le, h.filled, hout]
    rfl
  have hclient : v.client = s.client := by
    rw [hbuild]
    rfl
  have hcheck : s.client.acks.check o.datagram.stream o.datagram.seq o.datagram.tick = .next 1 := by
    rw [h.window, hstream, hnumber, htick]
    decide +kernel
  have hread : (readEntity s.client.baselines.get 0x10001
      ⟨Field.all (recordFields Baselines.blank (some d)) ++ [], false⟩).1 = .error .noBaseline :=
    readEntity_noBaseline blank_inRange.slot hplan (by rw [h.baselines]; rfl) []
  rw [List.append_nil] at hread
  have hrecord : Client.readRecord s.client.baselines.get 0x10001
      (Field.all (recordFields Baselines.blank (some d))) = .error .noBaseline := by
    rw [Client.readRecord]
    split
    · rename_i heq
      rw [heq] at hread
      cases hread
    · rename_i heq
      rw [heq] at hread
      exact hread
  have hrecords : s.client.records false o.datagram = .error .noBaseline := by
    rw [Client.records, hsuits, htick, List.mapM_cons]
    simp only [Bool.false_eq_true, if_false]
    change (Client.readRecord s.client.baselines.get 0x10001
      (Field.all (recordFields Baselines.blank (some d))) >>= _) = _
    rw [hrecord]
    rfl
  have hdeliver : (s.client.onDatagram o.datagram).1.decodeErrors = s.client.decodeErrors + 1 := by
    simp only [Client.onDatagram, hcheck, Client.isFresh, hrecords]
    rfl
  have hstep : (v.step (.deliver 0x10001)).client = (v.client.onDatagram o.datagram).1 := by
    simp only [Link.step, hlog]
  refine ⟨⟨o, hlog, ?_⟩, ?_⟩
  · rw [hclient]
    exact hrecords
  · rw [hstep, hclient, hdeliver, h.errors]

/-- An ack so late that its number has gone round names a datagram the client never took, and the
next delta stands on a record in that. -/
theorem late_ack_loses_baseline :
    let s := ((start (firstSeat ⟨1, 1, 16⟩)).run (awaitActs _ 0xFFFF)).run
      [.build true (suitView 0x10000) wide, .ackArrives 0]
    let v := s.step (.build true (suitView 0x10001) wide)
    (∃ o, v.Sent 0x10001 o ∧ v.client.records false o.datagram = .error .noBaseline)
      ∧ (v.step (.deliver 0x10001)).client.decodeErrors = 1 :=
  (misled_of_awaits (awaits 0xFFFF)).meets_no_baseline

end Link

end BeforeColony
