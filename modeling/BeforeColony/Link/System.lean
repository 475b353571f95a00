import BeforeColony.Client.World
import BeforeColony.Lib.Run
import BeforeColony.Sector.Replicate

/-!
# A sector and a client on one stream

The network delivers any datagram that went out any number of times, in any order, or never, and
so with the client's acks. Beside the two parties the state logs what was sent, taken and
acknowledged, all notices ever queued, how many are gone, and all suits' records ever noted.
-/

set_option autoImplicit false

namespace BeforeColony

open Lib

structure Link (z : Sizes) where
  net : ClientState
  client : Client
  ring : EventRing z.events
  happened : List Event
  now : ℕ
  pending : List (SeenSuit z)
  log : List (Option (Outgoing z))
  taken : List ℕ
  acks : List AckWindow
  acked : List ℕ
  queued : List (ℕ × ℕ)
  gone : ℕ
  noted : List SentEnt

/-- What can happen: an event, a tick's first datagram or a further one, a datagram reaching the
client, an input packet with its ack sent or arriving, or an ack the client never sent arriving. -/
inductive LinkAct (z : Sizes) where
  | happen (e : Event)
  | build (deltas : Bool) (v : View z) (room : Space)
  | more (deltas : Bool) (room : Space)
  | deliver (n : ℕ)
  | sendAck
  | ackArrives (j : ℕ)
  | forged (a : Ack)

def ackStream (sector epoch : ℕ) : ℕ := sector % 4 * 64 + max 1 (min epoch 63)

theorem ackStream_ne_zero (sector epoch : ℕ) : ackStream sector epoch ≠ 0 := by
  have hone : 1 ≤ max 1 (min epoch 63) := le_max_left _ _
  rw [ackStream]
  omega

/-- A seat given: the sector, the seat's count, the slot as it was left, and the simulation's
events so far. -/
structure Seat (z : Sizes) where
  sector : ℕ
  epoch : ℕ
  slot : ClientState
  ring : EventRing z.events
  happened : List Event
  holds : happened.length ≤ seqMax → ring.Holds happened

namespace Link

variable {z : Sizes}

def start (seat : Seat z) : Link z where
  net := seat.slot.seat (ackStream seat.sector seat.epoch) seat.ring.next
  client := Client.new
  ring := seat.ring
  happened := seat.happened
  now := 0
  pending := []
  log := []
  taken := []
  acks := []
  acked := []
  queued := []
  gone := 0
  noted := []

variable (s : Link z)

/-- Sends what was built at a tick, notices `fresh` having been queued. -/
def send (now : ℕ) (fresh : List (ℕ × ℕ)) (b : Built z) : Link z :=
  { s with
    net := b.client
    now
    pending := b.rest
    log := s.log ++ [b.out]
    queued := s.queued ++ fresh
    noted := s.noted ++ b.ents }

/-- Retires datagram `n`, counting the notices it removes. -/
def retire (n : ℕ) : Link z :=
  { s with
    net := s.net.retire n
    gone := s.gone + (s.net.leaves.length - (s.net.retire n).leaves.length) }

def ackBy (a : Ack) : Link z :=
  { (s.net.names a).foldl retire s with acked := s.acked ++ s.net.names a }

def step : LinkAct z → Link z
  | .happen e =>
    { s with
      ring := s.ring.push e
      happened := s.happened ++ [e.withId (s.ring.next % 2 ^ 16)] }
  | .build deltas v room =>
    if v.tick < s.now then s
    else
      s.send (v.tick + 1) ((openSnapshot v s.net).leaves.drop s.net.leaves.length)
        (buildSnapshot deltas s.ring v room s.gone s.net)
  | .more deltas room =>
    if s.pending = [] then s
    else s.send s.now [] (buildMore deltas s.ring (s.now - 1) s.pending room s.gone s.net)
  | .deliver n =>
    match s.log[n]? with
    | some (some o) =>
      let (client, took) := s.client.onDatagram o.datagram
      { s with client, taken := if took then s.taken ++ [n] else s.taken }
    | _ => s
  | .sendAck => { s with acks := s.acks ++ [s.client.acks] }
  | .ackArrives j =>
    match s.acks[j]? with
    | some w => s.ackBy w.ack
    | none => s
  | .forged a => s.ackBy a

def run (s : Link z) (acts : List (LinkAct z)) : Link z := acts.foldl step s

def Sent (n : ℕ) (o : Outgoing z) : Prop := s.log[n]? = some (some o)

/-- The sector's record `r` is of the datagram that went out as `o`, its count of notices moved with
the queue while the datagram can still be acked. -/
def RecordOf (r : SentRecord) (o : Outgoing z) : Prop :=
  (∃ k, r = { o.carries with leaves := k })
    ∧ (s.net.ackFloor ≤ r.seq → r.leaves = o.gone + o.carries.leaves - s.gone)

def Recorded (r : SentRecord) : Prop := r.Bare ∨ ∃ o, s.Sent r.seq o ∧ s.RecordOf r o

/-- No number of an event has come round. -/
def Few : Prop := s.happened.length ≤ seqMax

instance : Decidable s.Few := inferInstanceAs (Decidable (_ ≤ _))

/-- What holds whatever is lost, repeated, reordered or forged. -/
structure Wf : Prop where
  stream : s.net.stream ≠ 0
  length : s.log.length = s.net.seq
  ok : ∀ n o, s.Sent n o → o.Ok s.net.stream n
  recorded : ∀ k, s.Recorded (s.net.sent.slot k)
  intact : ∀ n o, s.Sent n o → (s.net.sent.get n).seq = n → s.RecordOf (s.net.sent.get n) o
  queue : s.net.leaves = s.queued.drop s.gone
  gone_le : s.gone ≤ s.queued.length
  carried : ∀ n o, s.Sent n o → o.gone ≤ s.gone ∧ o.gone + o.carries.leaves ≤ s.queued.length
    ∧ ∃ es, o.datagram.events
      = ((s.queued.drop o.gone).take o.carries.leaves).map leaveEvent ++ es
  counts : s.net.objKnown = known s.net.objAcked
  ents : s.net.sentEnts.Mirrors s.noted
  head : s.net.entsHead = s.noted.length
  noted : ∀ n o, s.Sent n o →
    o.carries.entsFrom + o.ents.length ≤ s.noted.length
      ∧ o.ents = (s.noted.drop o.carries.entsFrom).take o.ents.length
  entOk : ∀ e ∈ s.noted, e.q.InRange ∧ e.q.slot < z.suits
  ring : s.Few → s.ring.Holds s.happened

end Link

section Start

variable {z : Sizes}

theorem known_none : known (fun _ => none) = 0 := by
  simp [known]

theorem Link.wf_start (seat : Seat z) : (Link.start seat).Wf where
  stream := ackStream_ne_zero _ _
  length := rfl
  ok n o h := by simp [Link.Sent, Link.start] at h
  recorded k := Or.inl ⟨rfl, rfl, rfl, rfl, rfl⟩
  intact n o h := by simp [Link.Sent, Link.start] at h
  queue := rfl
  gone_le := le_rfl
  carried n o h := by simp [Link.Sent, Link.start] at h
  counts := known_none.symm
  ents := Ring.mirrors_nil _
  head := rfl
  noted n o h := by simp [Link.Sent, Link.start] at h
  entOk e h := by simp [Link.start] at h
  ring := seat.holds

end Start

namespace Link

variable {z : Sizes} {s : Link z}

/-! ## Building keeps it -/

theorem sent_lt {n : ℕ} {o : Outgoing z} (h : s.Sent n o) : n < s.log.length :=
  (List.getElem?_eq_some_iff.mp h).1

theorem sent_send {now : ℕ} {fresh : List (ℕ × ℕ)} {b : Built z} {n : ℕ} {o : Outgoing z} :
    (s.send now fresh b).Sent n o ↔ s.Sent n o ∨ (n = s.log.length ∧ b.out = some o) := by
  simp only [Sent, send, List.getElem?_append]
  split
  · rename_i hlt
    constructor
    · exact Or.inl
    · rintro (h | ⟨rfl, -⟩)
      · exact h
      · exact absurd hlt (lt_irrefl _)
  · rename_i hge
    have hnone : s.log[n]? = none := List.getElem?_eq_none (not_lt.mp hge)
    rw [hnone]
    constructor
    · intro h
      have hn := (List.getElem?_eq_some_iff.mp h).1
      rw [List.length_singleton] at hn
      refine Or.inr ⟨by omega, ?_⟩
      rw [show n - s.log.length = 0 by omega] at h
      simpa using h
    · rintro (h | ⟨rfl, h⟩)
      · cases h
      · simp [h]

section

variable {now : ℕ} {fresh : List (ℕ × ℕ)} {b : Built z}
  (hb : Builds s.net (s.net.leaves ++ fresh) s.gone b)

include hb

theorem RecordOf.send {r : SentRecord} {o : Outgoing z} (h : s.RecordOf r o) :
    (s.send now fresh b).RecordOf r o := by
  obtain ⟨hshape, hleaves⟩ := h
  refine ⟨hshape, fun hfloor => hleaves ?_⟩
  rwa [Link.send, hb.same.ackFloor] at hfloor

theorem recordOf_built {o : Outgoing z} (hout : b.out = some o) :
    (s.send now fresh b).RecordOf o.carries o := by
  obtain ⟨hogone, -, -⟩ := hb.out_leaves o hout
  refine ⟨⟨_, rfl⟩, fun _ => ?_⟩
  change _ = o.gone + o.carries.leaves - s.gone
  omega

theorem Recorded.send {r : SentRecord} (h : s.Recorded r) : (s.send now fresh b).Recorded r := by
  rcases h with hbare | ⟨o, hsent, hrec⟩
  · exact Or.inl hbare
  · exact Or.inr ⟨o, sent_send.mpr (Or.inl hsent), hrec.send hb⟩

/-- A slot of the sent ring holds what it held, or the datagram just built. -/
theorem Wf.recorded_send (h : s.Wf) (k : ℕ) :
    (s.send now fresh b).Recorded ((s.send now fresh b).net.sent.slot k) := by
  rcases hb.sent with hsame | ⟨r, hset, -, hr⟩
  · rw [Link.send, hsame]
    exact (h.recorded k).send hb
  · change (s.send now fresh b).Recorded (b.client.sent.slot k)
    rw [hset, Ring.set]
    simp only [Function.update_apply]
    split
    · rcases hr with hbare | ⟨o, hout, rfl⟩
      · exact Or.inl hbare
      · refine Or.inr ⟨o, sent_send.mpr (Or.inr ⟨?_, hout⟩), recordOf_built hb hout⟩
        rw [(hb.out_ok o hout).seq, h.length]
    · exact (h.recorded k).send hb

/-- A number's slot still of that number is of the datagram that went out under it. -/
theorem Wf.intact_send (h : s.Wf) {n : ℕ} {o : Outgoing z} (ho : (s.send now fresh b).Sent n o)
    (hseq : (b.client.sent.get n).seq = n) :
    (s.send now fresh b).RecordOf (b.client.sent.get n) o := by
  rcases sent_send.mp ho with hsent | ⟨rfl, hout⟩
  · have hlt : n < s.net.seq := by
      rw [← h.length]
      exact sent_lt hsent
    rcases hb.sent with hsame | ⟨r, hset, hr, -⟩
    · rw [hsame] at hseq ⊢
      exact (h.intact n o hsent hseq).send hb
    · rw [hset, Ring.get_set] at hseq ⊢
      split
      · rename_i hslot
        rw [if_pos hslot] at hseq
        omega
      · rename_i hslot
        rw [if_neg hslot] at hseq
        exact (h.intact n o hsent hseq).send hb
  · rw [hb.out_sent o hout, h.length, Ring.get_set_self]
    exact recordOf_built hb hout

/-- The notices a datagram carries are those at its place in the queue. -/
theorem Wf.carried_send (h : s.Wf) {n : ℕ} {o : Outgoing z} (ho : (s.send now fresh b).Sent n o) :
    o.gone ≤ s.gone ∧ o.gone + o.carries.leaves ≤ (s.queued ++ fresh).length ∧ ∃ es,
      o.datagram.events
        = (((s.queued ++ fresh).drop o.gone).take o.carries.leaves).map leaveEvent ++ es := by
  have hgone := h.gone_le
  have hlen : s.net.leaves.length = s.queued.length - s.gone := by
    rw [h.queue, List.length_drop]
  rcases sent_send.mp ho with hold | ⟨rfl, hnew⟩
  · obtain ⟨hle, hfit, es, hes⟩ := h.carried n o hold
    refine ⟨hle, by rw [List.length_append]; omega, es, ?_⟩
    rw [hes, List.drop_append_of_le_length (by omega), List.take_append_of_le_length]
    rw [List.length_drop]
    omega
  · obtain ⟨hogone, hfit, es, hes⟩ := hb.out_leaves o hnew
    rw [List.length_append] at hfit
    refine ⟨hogone.le, by rw [List.length_append]; omega, es, ?_⟩
    rw [hes, h.queue, hogone, List.drop_append_of_le_length hgone]

/-- The records a datagram carries are those at its place among all noted. -/
theorem Wf.noted_send (h : s.Wf) {n : ℕ} {o : Outgoing z} (ho : (s.send now fresh b).Sent n o) :
    o.carries.entsFrom + o.ents.length ≤ (s.noted ++ b.ents).length
      ∧ o.ents = ((s.noted ++ b.ents).drop o.carries.entsFrom).take o.ents.length := by
  rcases sent_send.mp ho with hold | ⟨rfl, hnew⟩
  · obtain ⟨hle, heq⟩ := h.noted n o hold
    refine ⟨by rw [List.length_append]; omega, ?_⟩
    rw [List.drop_append_of_le_length (by omega), List.take_append_of_le_length]
    · exact heq
    · rw [List.length_drop]
      omega
  · obtain ⟨heq, hfrom⟩ := hb.out_ents o hnew
    rw [hfrom, h.head, heq]
    refine ⟨by rw [List.length_append], ?_⟩
    simp

/-- Sending keeps what holds, if the datagram was built from this state. -/
theorem Wf.send (h : s.Wf) : (s.send now fresh b).Wf := by
  have hgone := h.gone_le
  have hlen : s.net.leaves.length = s.queued.length - s.gone := by
    rw [h.queue, List.length_drop]
  obtain ⟨hents, hhead⟩ := hb.ents s.noted h.ents h.head
  exact
    { stream := (congrArg (· ≠ 0) hb.same.stream).mpr h.stream
      length := by simp [Link.send, hb.seq, h.length]
      ok := by
        intro n o ho
        rcases sent_send.mp ho with hold | ⟨rfl, hnew⟩
        · have hok := h.ok n o hold
          rwa [← hb.same.stream] at hok
        · have hok := hb.out_ok o hnew
          rwa [← h.length, ← hb.same.stream] at hok
      recorded := h.recorded_send hb
      intact := fun n o ho hseq => h.intact_send hb ho hseq
      queue := by
        change b.client.leaves = (s.queued ++ fresh).drop s.gone
        rw [hb.leaves_eq, h.queue, List.drop_append_of_le_length hgone]
      gone_le := by
        change s.gone ≤ (s.queued ++ fresh).length
        rw [List.length_append]
        omega
      carried := fun n o ho => h.carried_send hb ho
      counts := by
        change b.client.objKnown = known b.client.objAcked
        rw [hb.same.objKnown, hb.same.objAcked, h.counts]
      ents := hents
      head := hhead
      noted := fun n o ho => h.noted_send hb ho
      entOk := by
        intro e he
        rcases List.mem_append.mp he with hold | hnew
        · exact h.entOk e hold
        · exact hb.ents_ok e hnew
      ring := h.ring }

end

end Link

end BeforeColony
