import BeforeColony.Link.Acks

/-!
# Ticks in which nothing happens

However many datagrams the sector sends a client that sees nothing, the numbers go on and all else
stays: these runs bring a number back round to where it was.
-/

set_option autoImplicit false

namespace BeforeColony

open Lib

variable {z : Sizes}

def idleView (z : Sizes) (t : ℕ) : View z where
  tick := t
  left := []
  relevant := fun _ => false
  rocks := []
  near := List.range maxChunks
  chunk := fun _ => none
  suits := []
  rock_lt := fun _ h => (List.not_mem_nil h).elim
  near_perm := .refl _
  distinct := .nil

/-- Space for all a datagram ever carries. -/
def wide : Space where
  leaves := leaveQueue
  event := fun _ => true
  rocks := rocksPerSnapshot
  suits := 96
  objects := objsPerSnapshot
  finishes := true

/-- The sector knows nothing held by the client, and has no event left to send. -/
structure Quiet (s : Link z) : Prop where
  objs : ∀ k, s.net.objAcked k = none
  events : s.ring.next ≤ s.net.eventAcked
  leaves : s.net.leaves = []

structure Idled (s t : Link z) (n : ℕ) : Prop where
  acks : SameAcks s.net t.net
  seq : t.net.seq = s.net.seq + n
  leaves : t.net.leaves = s.net.leaves
  sends : t.net.sends = s.net.sends
  entsHead : t.net.entsHead = s.net.entsHead
  client : t.client = s.client
  ring : t.ring = s.ring
  now : t.now = s.now + n
  taken : t.taken = s.taken
  windows : t.acks = s.acks
  sent : ∀ m o, t.Sent m o → s.Sent m o ∨ (s.log.length ≤ m ∧ o.ents = [] ∧ o.datagram.suits = []
    ∧ o.datagram.rocks = [] ∧ o.datagram.objects = [] ∧ o.datagram.events = []
    ∧ o.datagram.tick = s.now + (m - s.log.length))
  log : ∀ m < s.log.length, t.log[m]? = s.log[m]?
  filled : t.log.length = s.log.length + n
  all : ∀ m, s.log.length ≤ m → m < s.log.length + n → ∃ o, t.Sent m o

theorem Idled.refl (s : Link z) : Idled s s 0 :=
  ⟨.refl _, rfl, rfl, rfl, rfl, rfl, rfl, rfl, rfl, rfl, fun _ _ h => Or.inl h, fun _ _ => rfl, rfl,
    fun _ h h' => absurd (h.trans_lt h') (lt_irrefl _)⟩

theorem Idled.trans {s t u : Link z} {n n' : ℕ} (h : Idled s t n) (h' : Idled t u n') :
    Idled s u (n + n') := by
  have hfilled := h.filled
  constructor
  · exact h.acks.trans h'.acks
  · rw [h'.seq, h.seq, Nat.add_assoc]
  · exact h'.leaves.trans h.leaves
  · exact h'.sends.trans h.sends
  · exact h'.entsHead.trans h.entsHead
  · exact h'.client.trans h.client
  · exact h'.ring.trans h.ring
  · rw [h'.now, h.now, Nat.add_assoc]
  · exact h'.taken.trans h.taken
  · exact h'.windows.trans h.windows
  · intro m o ho
    rcases h'.sent m o ho with hmid | ⟨hge, h1, h2, h3, h4, h5, htick⟩
    · exact h.sent m o hmid
    · have hnow := h.now
      exact Or.inr ⟨by omega, h1, h2, h3, h4, h5, by omega⟩
  · intro m hm
    rw [h'.log m (by omega), h.log m hm]
  · rw [h'.filled, hfilled, Nat.add_assoc]
  · intro m hge hlt
    rcases Nat.lt_or_ge m (s.log.length + n) with hmid | hmid
    · obtain ⟨o, ho⟩ := h.all m hge hmid
      exact ⟨o, (h'.log m (by omega)).trans ho⟩
    · exact h'.all m (by omega) (by omega)

theorem objectsFor_idle {c : ClientState} (h : ∀ k, c.objAcked k = none) (t : ℕ) (room : Space) :
    objectsFor c (idleView z t) room = [] := by
  have hnone : ∀ k, objectFor (idleView z t) (c.objAcked k) k = none := by
    intro k
    rw [h k]
    rfl
  simp [objectsFor, objectCandidates, hnone]

theorem carryEvents_idle {cap : ℕ} {ring : EventRing cap} {acked : ℕ} (h : ring.next ≤ acked)
    (relevant : Event → Bool) (fits : ℕ → Bool) (t : ℕ) :
    (carryEvents ring relevant fits t acked).events = [] := by
  have hmax : ring.next ≤ max acked ring.oldest := h.trans (Nat.le_max_left _ _)
  rw [carryEvents]
  simp only [Nat.sub_eq_zero_of_le hmax, skipStale, List.range'_zero, List.foldl_nil]

theorem idled_step {s : Link z} (h : Quiet s) :
    Idled s (s.step (.build true (idleView z s.now) wide)) 1 := by
  have hobjs := objectsFor_idle (z := z) h.objs s.now wide
  have hevents := carryEvents_idle h.events (idleView z s.now).relevant wide.event s.now
  have hstep : s.step (.build true (idleView z s.now) wide)
      = s.send (s.now + 1) ((openSnapshot (idleView z s.now) s.net).leaves.drop s.net.leaves.length)
        (buildSnapshot true s.ring (idleView z s.now) wide s.gone s.net) := by
    simp only [Link.step]
    exact if_neg (lt_irrefl _)
  have hb := buildSnapshot_builds true s.ring (idleView z s.now) wide s.gone s.net
  rw [hstep]
  constructor
  · exact hb.same
  · rfl
  · rfl
  · rfl
  · rfl
  · rfl
  · rfl
  · rfl
  · rfl
  · rfl
  · intro m o ho
    rcases Link.sent_send.mp ho with hold | ⟨rfl, hnew⟩
    · exact Or.inl hold
    · right
      cases hnew
      refine ⟨le_rfl, rfl, rfl, rfl, ?_, ?_, by rw [Nat.sub_self]; rfl⟩
      · simp only [snapshotDatagram, hobjs]
      · simp only [snapshotDatagram]
        rw [show (idleView z s.now).tick = s.now from rfl, hevents, List.append_nil,
          List.map_eq_nil_iff]
        change List.take _ s.net.leaves = []
        rw [h.leaves, List.take_nil]
  · intro m hm
    exact List.getElem?_append_left hm
  · simp [Link.send]
  · intro m hge hlt
    have hm : m = s.log.length := by omega
    exact ⟨_, Link.sent_send.mpr (Or.inr ⟨hm, rfl⟩)⟩

theorem Idled.quiet {s t : Link z} {n : ℕ} (h : Idled s t n) (hs : Quiet s) : Quiet t where
  objs k := (congrFun h.acks.objAcked k).trans (hs.objs k)
  events := by rw [h.ring, h.acks.eventAcked]; exact hs.events
  leaves := h.leaves.trans hs.leaves

def idleActs (z : Sizes) (t n : ℕ) : List (LinkAct z) :=
  (List.range' t n).map fun t => .build true (idleView z t) wide

theorem idled_run {s : Link z} (h : Quiet s) (n : ℕ) : Idled s (s.run (idleActs z s.now n)) n := by
  induction n generalizing s with
  | zero => exact .refl s
  | succ n ih =>
    have hone := idled_step h
    have hrest := ih (hone.quiet h)
    rw [hone.now] at hrest
    rw [Nat.add_comm n 1]
    rw [show idleActs z s.now (1 + n) = .build true (idleView z s.now) wide :: idleActs z (s.now + 1) n
      from by rw [Nat.add_comm, idleActs, List.range'_succ]; rfl]
    exact hone.trans hrest

/-! ## A number that goes round -/

def emptySlot : ClientState where
  stream := 0
  seq := 0
  ackFloor := 0
  eventAcked := 0
  sent := ⟨fun _ => {}⟩
  leaves := []
  objAcked := fun _ => none
  objKnown := 0
  rockAcked := fun _ => 0
  sends := fun _ => 0
  base := fun _ => none
  sentEnts := ⟨fun _ => ⟨0, 0, 0, Baselines.blank⟩⟩
  entsHead := 0

def firstSeat (z : Sizes) : Seat z := ⟨0, 1, emptySlot, EventRing.new _, [], fun _ => EventRing.holds_new _⟩

/-- The client takes the first of `n + 1` idle datagrams and sends its ack; the others are lost. -/
def awaitActs (z : Sizes) (n : ℕ) : List (LinkAct z) :=
  [.build true (idleView z 0) wide, .deliver 0, .sendAck] ++ idleActs z 1 n

/-- The window of a client that took datagram 0 of tick 0. -/
def firstWindow : AckWindow := ⟨1, 0, 1, 0, true⟩

/-- The client took the first of `n + 1` idle datagrams, and its ack is under way. -/
structure Awaits (n : ℕ) (s : Link z) : Prop where
  acks : SameAcks (Link.start (firstSeat z)).net s.net
  seq : s.net.seq = n + 1
  sends : s.net.sends = fun _ => 0
  entsHead : s.net.entsHead = 0
  leaves : s.net.leaves = []
  window : s.client.acks = firstWindow
  errors : s.client.decodeErrors = 0
  baselines : s.client.baselines = Baselines.clear
  ring : s.ring = EventRing.new _
  now : s.now = n + 1
  taken : s.taken = [0]
  windows : s.acks = [firstWindow]
  filled : s.log.length = n + 1
  idle : ∀ m o, s.Sent m o → o.datagram.suits = [] ∧ o.datagram.rocks = []

theorem quiet_start : Quiet (Link.start (firstSeat z)) where
  objs _ := rfl
  events := le_rfl
  leaves := rfl

theorem Client.new_takes {d : Datagram} {n : ℕ} (hstream : d.stream ≠ 0) (hseq : d.seq = n)
    (hsuits : d.suits = []) :
    Client.new.onDatagram d = (Client.new.take (.newStream n) d [], true) := by
  have hcheck : Client.new.acks.check d.stream d.seq d.tick = .newStream n := by
    simp [AckWindow.check, Client.new, hstream, hseq]
  have hrecords : Client.new.records (Client.isFresh (.newStream n)) d = .ok [] := by
    rw [Client.records, hsuits]
    rfl
  simp only [Client.onDatagram, hcheck, hrecords]
  rfl

theorem awaits (n : ℕ) : Awaits n ((Link.start (firstSeat z)).run (awaitActs z n)) := by
  have hone : Idled (Link.start (firstSeat z))
      ((Link.start (firstSeat z)).step (.build true (idleView z 0) wide)) 1 := idled_step quiet_start
  have hwf := (Link.wf_start (firstSeat z)).step (.build true (idleView z 0) wide)
  obtain ⟨o, ho⟩ := hone.all 0 le_rfl Nat.zero_lt_one
  have hok := hwf.ok 0 o ho
  have hstream : o.datagram.stream = 1 := hok.stream_eq
  obtain hnone | ⟨-, -, hsuits, -, -, -, htick⟩ := hone.sent 0 o ho
  · cases hnone
  change o.datagram.tick = 0 at htick
  have htakes := Client.new_takes (d := o.datagram) (n := 0) (by rw [hstream]; decide) hok.number
    hsuits
  set s1 := (Link.start (firstSeat z)).step (.build true (idleView z 0) wide) with hs1
  have hdeliver : s1.step (.deliver 0) = { s1 with
      client := Client.new.take (.newStream 0) o.datagram [], taken := [0] } := by
    have hclient : s1.client = Client.new := hone.client
    have htaken : s1.taken = [] := hone.taken
    have hlog : s1.log[0]? = some (some o) := ho
    simp only [Link.step, hlog, hclient, htakes, htaken]
    rfl
  set s3 := (s1.step (.deliver 0)).step .sendAck with hs3
  have hwindow : s3.client.acks = firstWindow := by
    rw [hs3, hdeliver]
    change (Client.new.take _ o.datagram []).acks = _
    rw [Client.take_acks, hstream, htick]
    rfl
  have hquiet : Quiet s3 := by
    have hq := hone.quiet quiet_start
    rw [hs3, hdeliver]
    exact ⟨hq.objs, hq.events, hq.leaves⟩
  have hnow : s3.now = 1 := by
    rw [hs3, hdeliver]
    exact hone.now
  have hidle := idled_run hquiet n
  rw [hnow] at hidle
  have hrun : (Link.start (firstSeat z)).run (awaitActs z n) = s3.run (idleActs z 1 n) := by
    rw [Link.run, awaitActs, List.foldl_append]
    rfl
  rw [hrun]
  have hnet : s3.net = s1.net := by
    rw [hs3, hdeliver]
    rfl
  have hlog : s3.log = s1.log := by
    rw [hs3, hdeliver]
    rfl
  have hlen : s1.log.length = 1 := hone.filled
  constructor
  · exact hone.acks.trans (hnet ▸ hidle.acks)
  · rw [hidle.seq, hnet, hone.seq]
    exact Nat.add_comm _ _
  · rw [hidle.sends, hnet, hone.sends]
    rfl
  · rw [hidle.entsHead, hnet, hone.entsHead]
    rfl
  · rw [hidle.leaves, hnet, hone.leaves]
    rfl
  · rw [hidle.client, hwindow]
  · rw [hidle.client, hs3, hdeliver]
    exact Client.take_decodeErrors _ _ _ _
  · rw [hidle.client, hs3, hdeliver]
    exact Client.take_baselines _ _ _ _ (by decide)
  · rw [hidle.ring, hs3, hdeliver]
    exact hone.ring
  · rw [hidle.now, hnow, Nat.add_comm]
  · rw [hidle.taken, hs3, hdeliver]
    rfl
  · rw [hidle.windows, ← hwindow, hs3]
    have hacks : s1.acks = [] := hone.windows
    rw [hdeliver]
    simp only [Link.step, hacks]
    rfl
  · rw [hidle.filled, hlog, hlen, Nat.add_comm]
  · intro m o' ho'
    rcases hidle.sent m o' ho' with hold | ⟨-, -, hsuits', hrocks', -⟩
    · rw [Link.Sent, hlog] at hold
      rcases hone.sent m o' hold with hnone | ⟨-, -, hsuits', hrocks', -⟩
      · cases hnone
      · exact ⟨hsuits', hrocks'⟩
    · exact ⟨hsuits', hrocks'⟩

end BeforeColony
