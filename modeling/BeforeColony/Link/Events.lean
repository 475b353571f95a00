import BeforeColony.Link.Believes

/-!
# Events arrive once, and none is skipped

The sector's mark passes an event only with an ack of a datagram that carried it, or that was built
when the event was of no use to the client. The client applies an event again only once it has
heard more than it remembers.
-/

set_option autoImplicit false

namespace BeforeColony

open Lib

namespace Client

structure Remembers (c : Client) : Prop where
  seen_eq : c.seen = c.applied.drop (c.applied.length - seenEvents)
  apart : ∀ i, ((c.applied.drop i).take (seenEvents + 1)).Nodup

theorem remembers_new : Client.new.Remembers := ⟨rfl, by simp [Client.new]⟩

variable {c : Client}

theorem Remembers.hear (h : c.Remembers) {id : ℕ} (hid : id ∉ c.seen) :
    Remembers { c with seen := (firstTime c.seen id).2, applied := c.applied ++ [id] } := by
  have hlen : c.seen.length = min c.applied.length seenEvents := by
    rw [h.seen_eq, List.length_drop]
    omega
  constructor
  · simp only [firstTime, if_neg hid, List.length_append, List.length_singleton]
    rw [hlen, List.drop_append_of_le_length (by simp only [seenEvents]; omega)]
    split
    · rename_i hfull
      rw [show c.applied.length + 1 - seenEvents = c.applied.length - seenEvents + 1 by omega,
        ← List.drop_drop, ← h.seen_eq, List.tail_append_of_ne_nil, ← List.drop_one]
      intro hnil
      rw [hnil, List.length_nil] at hlen
      simp only [seenEvents] at hfull hlen
      omega
    · rename_i hroom
      rw [h.seen_eq, show c.applied.length + 1 - seenEvents = c.applied.length - seenEvents by omega]
  · intro i
    rcases Nat.lt_or_ge c.applied.length i with hpast | hi
    · rw [List.drop_eq_nil_of_le (by simp; omega)]
      exact List.nodup_nil
    · have hold := h.apart i
      rw [List.drop_append_of_le_length hi]
      rcases Nat.lt_or_ge seenEvents (c.applied.drop i).length with hlong | hshort
      · rwa [List.take_append_of_le_length hlong]
      · rw [List.take_of_length_le (by simp at hshort ⊢; omega)]
        rw [List.take_of_length_le (hshort.trans (Nat.le_succ _))] at hold
        rw [List.nodup_append]
        refine ⟨hold, List.nodup_singleton _, fun x hx y hy heq => hid ?_⟩
        rw [← List.mem_singleton.mp hy, ← heq, h.seen_eq]
        rw [List.length_drop] at hshort
        have hsub : c.applied.drop i <:+ c.applied.drop (c.applied.length - seenEvents) := by
          rw [show i = c.applied.length - seenEvents + (i - (c.applied.length - seenEvents)) by omega,
            ← List.drop_drop]
          exact List.drop_suffix _ _
        exact hsub.subset hx

theorem Remembers.applyEvent (h : c.Remembers) (e : Event) : (c.applyEvent e).Remembers := by
  unfold Client.applyEvent
  split
  · exact h
  · exact h
  · rename_i id _ _ _
    by_cases hid : id ∈ c.seen
    · simp only [firstTime, if_pos hid]
      exact h
    · have hear := h.hear hid
      simp only [firstTime, if_neg hid] at hear ⊢
      exact hear

theorem Remembers.of_same {c' : Client} (h : c.Remembers) (hseen : c'.seen = c.seen)
    (happlied : c'.applied = c.applied) : c'.Remembers := by
  constructor
  · rw [hseen, happlied]
    exact h.seen_eq
  · rw [happlied]
    exact h.apart

theorem Remembers.apply (h : c.Remembers) (tick : ℕ) (es : List Event) :
    (c.apply tick es).Remembers := by
  unfold Client.apply
  split
  · exact h
  · have hstart : Remembers { c with tick } := h.of_same rfl rfl
    generalize ({ c with tick } : Client) = c' at hstart
    induction es generalizing c' with
    | nil => exact hstart
    | cons e rest ih => exact ih _ (hstart.applyEvent e)

theorem Remembers.onDatagram (h : c.Remembers) (d : Datagram) : (c.onDatagram d).1.Remembers := by
  rcases c.onDatagram_cases d with ⟨-, heq⟩ | ⟨-, -, heq⟩ | ⟨-, qs, -, heq⟩
  · rw [heq]
    exact h.of_same rfl rfl
  · rw [heq]
    exact h.of_same rfl rfl
  · rw [heq]
    unfold Client.take
    simp only
    split
    · exact h.of_same rfl rfl
    · refine Remembers.of_same (Remembers.apply ?_ d.tick d.events) rfl rfl
      exact h.of_same rfl rfl

end Client

namespace Link

variable {z : Sizes} {s : Link z}

theorem remembers_step (h : s.client.Remembers) (a : LinkAct z) : (s.step a).client.Remembers := by
  cases a with
  | deliver n =>
    simp only [Link.step]
    split
    · exact h.onDatagram _
    · exact h
  | happen e => exact h
  | sendAck => exact h
  | build deltas v room =>
    simp only [Link.step]
    split <;> exact h
  | more deltas room =>
    simp only [Link.step]
    split <;> exact h
  | ackArrives j =>
    simp only [Link.step]
    split
    · rw [(sameRun_ackBy s _).client]
      exact h
    · exact h
  | forged a =>
    rw [Link.step, (sameRun_ackBy s a).client]
    exact h

/-- Whatever is lost, repeated, reordered or forged: until the numbers of events come round, each event
the mark passed was carried by a datagram an ack named, or was overwritten, of no concern or stale
when one was built, and what a datagram carries under an event's number is that event; and between
two times the client applies the same id lie all the ids it remembers. -/
theorem events_arrive_once (seat : Seat z) (acts : List (LinkAct z)) :
    let s := (start seat).run acts
    (s.happened.length < 2 ^ 32 →
      (∀ i, seat.ring.next ≤ i → i < s.net.eventAcked →
          ∃ n ∈ s.acked, ∃ o, s.Sent n o ∧ (o.CarriesEvent i ∨ o.PassesOver i))
        ∧ ∀ n o i, s.Sent n o → o.CarriesEvent i →
          ∃ e, s.happened[i]? = some e ∧ e ∈ o.datagram.events)
      ∧ ∀ i, ((s.client.applied.drop i).take (seenEvents + 1)).Nodup := by
  intro s
  have hremembers : s.client.Remembers :=
    Run.invariant (I := fun s : Link z => s.client.Remembers) (C := fun _ _ => True)
      (fun _ a hs _ => remembers_step hs a) Client.remembers_new
      (Run.along_of_forall _ (fun _ _ => trivial) _ _)
  refine ⟨fun hlength => ?_, hremembers.apart⟩
  have hfew : s.Few := Nat.le_of_lt_succ hlength
  obtain ⟨hspoken, hbelieves⟩ := believes_run seat (Run.along_of_end few_of_step hfew)
  refine ⟨hbelieves.events, fun n o i ho hcarries => ?_⟩
  obtain ⟨-, -, ⟨past, hpast, hring⟩, -⟩ := (hspoken hfew).speaks n o ho
  obtain ⟨hi, e, hget, hmem⟩ := hcarries
  have hold := hring.get_eq hi hget
  refine ⟨e, ?_, hmem⟩
  rw [List.prefix_iff_eq_take.mp hpast] at hold
  exact (List.getElem?_take_of_lt (by
    by_contra hge
    rw [List.getElem?_take, if_neg hge] at hold
    cases hold)).symm.trans hold

/-! ## What is skipped, and what comes twice -/

def clashAt (i : ℕ) : Event := .sim i 0 (.clash 0 0)

/-- Nothing to see but the events numbered `a` to `b`. -/
def pickView (cap t a b : ℕ) : View ⟨1, 1, cap⟩ :=
  { idleView _ t with relevant := fun e => e.id.any fun i => decide (a ≤ i ∧ i < b) }

/-- Seventeen events that concern the client, in a ring of sixteen. -/
def floodActs : List (LinkAct ⟨1, 1, 16⟩) :=
  List.replicate 17 (.happen (clashAt 0))
    ++ [.build true (pickView 16 0 0 17) wide, .deliver 0, .sendAck, .ackArrives 0]

theorem events_arrive_once_flood :
    let s := (start (firstSeat ⟨1, 1, 16⟩)).run floodActs
    s.net.eventAcked = 17
      ∧ ∀ i < 17, ∃ n ∈ s.acked, ∃ o, s.Sent n o ∧ (o.CarriesEvent i ∨ o.PassesOver i) := by
  intro s
  have hmark : s.net.eventAcked = 17 := by decide +kernel
  have hfew : s.happened.length < 2 ^ 32 := by decide +kernel
  have hpassed := ((events_arrive_once (firstSeat ⟨1, 1, 16⟩) floodActs).1 hfew).1
  exact ⟨hmark, fun i hi => hpassed i (Nat.zero_le i) (hmark ▸ hi)⟩

theorem happen_run (s : Link z) (n : ℕ) (hroom : s.ring.next + n < 2 ^ 32) :
    ∃ ring happened, s.run (List.replicate n (.happen (clashAt 0))) = { s with ring, happened }
      ∧ ring.next = s.ring.next + n
      ∧ happened = s.happened ++ (List.range' s.ring.next n).map fun i => clashAt (i % 2 ^ 16) := by
  induction n generalizing s with
  | zero => exact ⟨s.ring, s.happened, rfl, rfl, by simp⟩
  | succ n ih =>
    have hone : (s.step (.happen (clashAt 0))).ring.next = s.ring.next + 1 :=
      Nat.mod_eq_of_lt (by omega)
    obtain ⟨ring, happened, hrun, hnext, hhappened⟩ :=
      ih (s.step (.happen (clashAt 0))) (by omega)
    refine ⟨ring, happened, ?_, ?_, ?_⟩
    · rw [List.replicate_succ]
      exact hrun
    · rw [hnext, hone]
      omega
    · rw [hhappened, hone, List.range'_succ]
      simp only [Link.step, List.map_cons, List.append_assoc, List.singleton_append]
      rfl

/-- `m` datagrams were built, each taken as it was, of `n` events that all happened at first, and
the client applied `ids`. -/
structure Round (n m : ℕ) (ids : List ℕ) (s : Link ⟨1, 1, 1024⟩) : Prop where
  wf : s.Wf
  heard : s.Heard
  remembers : s.client.Remembers
  happened : s.happened = (List.range n).map clashAt
  mark : s.net.eventAcked = 0
  leaves : s.net.leaves = []
  seq : s.net.seq = m
  now : s.now = m
  tick : s.client.tick ≤ m
  taken : s.taken = List.range m
  applied : s.client.applied = ids

theorem Round.few {n m : ℕ} {ids : List ℕ} {s : Link ⟨1, 1, 1024⟩} (h : Round n m ids s)
    (hn : n ≤ 1024) : s.Few := by
  rw [Few, h.happened, List.length_map, List.length_range]
  exact hn.trans (by decide)

theorem filter_clashes {n a b : ℕ} (hab : a ≤ b) (hb : b ≤ n) (t cap : ℕ) :
    ((List.range n).map clashAt).filter (pickView cap t a b).relevant
      = (List.range' a (b - a)).map clashAt := by
  have hsplit : List.range n = List.range' 0 a ++ (List.range' a (b - a) ++ List.range' b (n - b)) := by
    have hmid : List.range' a (b - a) ++ List.range' b (n - b) = List.range' a (n - a) := by
      rw [show n - a = b - a + (n - b) by omega, ← List.range'_append_1,
        show a + (b - a) = b by omega]
    have hall : List.range' 0 a ++ List.range' a (n - a) = List.range' 0 n := by
      conv_rhs => rw [show n = a + (n - a) by omega, ← List.range'_append_1, Nat.zero_add]
    rw [hmid, hall, List.range_eq_range']
  have hpick : ∀ i, (pickView cap t a b).relevant (clashAt i) = decide (a ≤ i ∧ i < b) := by
    intro i
    rfl
  rw [hsplit]
  simp only [List.map_append, List.filter_append, List.filter_map]
  rw [List.filter_eq_nil_iff.mpr, List.filter_eq_self.mpr, List.filter_eq_nil_iff.mpr]
  · simp
  · intro i hi
    rw [List.mem_range'_1] at hi
    simp [hpick]
    omega
  · intro i hi
    rw [List.mem_range'_1] at hi
    simp [hpick]
    omega
  · intro i hi
    rw [List.mem_range'_1] at hi
    simp [hpick]
    omega

/-- Events not remembered, each different, are all applied. -/
theorem hear_all {c : Client} {ids : List ℕ} (hids : ids.Nodup) (hnew : ∀ i ∈ ids, i ∉ c.seen) :
    ((ids.map clashAt).foldl Client.applyEvent c).applied = c.applied ++ ids
      ∧ ((ids.map clashAt).foldl Client.applyEvent c).tick = c.tick := by
  induction ids generalizing c with
  | nil => simp
  | cons i rest ih =>
    have hi := hnew i List.mem_cons_self
    rw [List.nodup_cons] at hids
    have hhear : c.applyEvent (clashAt i)
        = { c with seen := (Client.firstTime c.seen i).2, applied := c.applied ++ [i] } := by
      simp only [Client.applyEvent, clashAt, Client.firstTime, if_neg hi]
      rfl
    have hseen : ∀ j ∈ (Client.firstTime c.seen i).2, j ∈ c.seen ∨ j = i := by
      intro j hj
      simp only [Client.firstTime, if_neg hi] at hj
      have hmem : j ∈ c.seen ++ [i] := by
        split at hj
        · exact List.mem_of_mem_tail hj
        · exact hj
      simpa using hmem
    rw [List.map_cons, List.foldl_cons, hhear]
    obtain ⟨happlied, htick⟩ := ih (c := { c with
        seen := (Client.firstTime c.seen i).2, applied := c.applied ++ [i] }) hids.2 (by
      intro j hj hmem
      rcases hseen j hmem with hold | rfl
      · exact hnew j (List.mem_cons_of_mem _ hj) hold
      · exact hids.1 hj)
    rw [happlied, htick]
    exact ⟨by rw [List.append_assoc, List.singleton_append], rfl⟩

theorem Round.out {n m a b : ℕ} {ids : List ℕ} {s : Link ⟨1, 1, 1024⟩} (h : Round n m ids s)
    (hab : a ≤ b) (hb : b ≤ n) (hn : n ≤ 1024) (hm : m ≤ eventMaxAge) :
    ∃ o, (buildSnapshot true s.ring (pickView 1024 m a b) wide s.gone s.net).out = some o
      ∧ o.datagram.suits = [] ∧ o.datagram.tick = m ∧ o.datagram.more = false
      ∧ o.datagram.events = (List.range' a (b - a)).map clashAt := by
  refine ⟨_, rfl, rfl, rfl, rfl, ?_⟩
  have hring := h.wf.ring (h.few hn)
  have hnext := hring.next_eq
  rw [h.happened, List.length_map, List.length_range] at hnext
  simp only [snapshotDatagram]
  rw [carryEvents_all wide.event (fun _ => rfl) hring, h.mark, h.happened,
    List.drop_zero, filter_clashes hab hb]
  · change List.map _ (List.take _ s.net.leaves) ++ _ = _
    rw [h.leaves]
    rfl
  · rw [EventRing.oldest, h.mark, hnext]
    exact (Nat.sub_eq_zero_of_le hn).le
  · intro e he
    rw [h.happened] at he
    obtain ⟨i, -, rfl⟩ := List.mem_map.mp he
    exact (Nat.sub_le _ _).trans hm

/-- One more datagram is built, of the events numbered `a` to `b` and not yet delivered. -/
structure Underway (n m a b : ℕ) (ids : List ℕ) (o : Outgoing ⟨1, 1, 1024⟩)
    (s : Link ⟨1, 1, 1024⟩) : Prop where
  wf : s.Wf
  heard : s.Heard
  remembers : s.client.Remembers
  happened : s.happened = (List.range n).map clashAt
  mark : s.net.eventAcked = 0
  leaves : s.net.leaves = []
  seq : s.net.seq = m + 1
  now : s.now = m + 1
  tick : s.client.tick ≤ m
  taken : s.taken = List.range m
  applied : s.client.applied = ids
  sent : s.Sent m o
  suits : o.datagram.suits = []
  stamped : o.datagram.tick = m
  more : o.datagram.more = false
  events : o.datagram.events = (List.range' a (b - a)).map clashAt
  few : s.Few

theorem Round.build {n m a b : ℕ} {ids : List ℕ} {s : Link ⟨1, 1, 1024⟩} (h : Round n m ids s)
    (hab : a ≤ b) (hb : b ≤ n) (hn : n ≤ 1024) (hm : m ≤ eventMaxAge) :
    ∃ o, Underway n m a b ids o (s.step (.build true (pickView 1024 m a b) wide)) := by
  obtain ⟨o, hout, hsuits, htick, hmore, hevents⟩ := h.out hab hb hn hm
  have hbuilds := buildSnapshot_builds true s.ring (pickView 1024 m a b) wide s.gone s.net
  have hbuild : s.step (.build true (pickView 1024 m a b) wide)
      = s.send (m + 1) ((openSnapshot (pickView 1024 m a b) s.net).leaves.drop s.net.leaves.length)
        (buildSnapshot true s.ring (pickView 1024 m a b) wide s.gone s.net) := by
    have hnow := h.now
    simp only [Link.step]
    rw [if_neg (by rw [hnow]; exact lt_irrefl m)]
    rfl
  have hmax : m ≤ seqMax := hm.trans (by decide)
  have hreach : s.InReach (.build true (pickView 1024 m a b) wide) :=
    ⟨⟨by rw [h.seq]; exact hmax, s.few_step (fun _ h => by cases h) (h.few hn)⟩, trivial⟩
  have hwf := h.wf.step (.build true (pickView 1024 m a b) wide)
  have hheard := h.heard.step h.wf hreach
  rw [hbuild] at hwf hheard ⊢
  exact ⟨o,
    { wf := hwf
      heard := hheard
      remembers := h.remembers
      happened := h.happened
      mark := hbuilds.same.eventAcked.trans h.mark
      leaves := hbuilds.leaves_eq.trans h.leaves
      seq := hbuilds.seq.trans (congrArg (· + 1) h.seq)
      now := rfl
      tick := h.tick
      taken := h.taken
      applied := h.applied
      sent := sent_send.mpr (Or.inr ⟨by rw [h.wf.length, h.seq], hout⟩)
      suits := hsuits
      stamped := htick
      more := hmore
      events := hevents
      few := h.few hn }⟩

section

variable {n m a b : ℕ} {ids : List ℕ} {o : Outgoing ⟨1, 1, 1024⟩} {s : Link ⟨1, 1, 1024⟩}

theorem Underway.inReach (h : Underway n m a b ids o s) (hm : m ≤ eventMaxAge) :
    s.InReach (.deliver m) := by
  have hmax : m + 1 ≤ seqMax := (Nat.succ_le_succ hm).trans (by decide)
  refine ⟨⟨by rw [h.seq]; exact hmax, s.few_step (fun _ h => by cases h) h.few⟩, ?_⟩
  have hnewest := h.heard.tracks.newest_eq
  rw [h.taken] at hnewest
  simp only [h.taken, List.range_eq_nil] at hnewest ⊢
  simp only [eventMaxAge] at hm
  split
  · omega
  · rename_i hpos
    rw [if_neg hpos, List.getLast?_range, if_neg hpos] at hnewest
    have hlast := Option.some.inj hnewest
    constructor <;> omega

/-- The client takes it: it is newer than all it has taken, and carries no suit that could fail to be
read. -/
theorem Underway.took (h : Underway n m a b ids o s) (hm : m ≤ eventMaxAge) :
    ∃ verdict, s.client.onDatagram o.datagram = (s.client.take verdict o.datagram [], true) := by
  rcases s.client.onDatagram_cases o.datagram with ⟨hstale, -⟩ | ⟨-, ⟨e, he⟩, -⟩ | ⟨-, qs, hqs, heq⟩
  · rw [h.heard.check_eq h.wf h.sent (h.inReach hm)] at hstale
    have hnewest := h.heard.tracks.newest_mem
    rw [h.taken] at hnewest hstale
    split at hstale
    · exact Verdict.noConfusion hstale
    · rename_i hne
      rw [if_pos (List.mem_range.mp (hnewest hne))] at hstale
      exact Verdict.noConfusion hstale
  · rw [Client.records, h.suits] at he
    cases he
  · rw [Client.records, h.suits] at hqs
    cases hqs
    exact ⟨_, heq⟩

theorem Underway.take (h : Underway n m a b ids o s) (hnew : ∀ i, a ≤ i → i < b → i ∉ s.client.seen)
    (verdict : Verdict) :
    (s.client.take verdict o.datagram []).applied = ids ++ List.range' a (b - a)
      ∧ (s.client.take verdict o.datagram []).tick = m := by
  have hcalls : ∀ i ∈ List.range' a (b - a), i ∉ s.client.seen := by
    intro i hi
    rw [List.mem_range'_1] at hi
    exact hnew i hi.1 (by omega)
  have hlate : ¬ m < s.client.tick := not_lt.mpr h.tick
  simp only [Client.take, h.more, Bool.false_eq_true, if_false, Client.applySalvage,
    Client.apply, h.stamped, if_neg hlate, h.events]
  obtain ⟨happlied, htick⟩ := hear_all (c := { s.client with
      acks := s.client.acks.commit o.datagram.stream verdict m
      baselines := _
      tick := m }) (List.nodup_range' ..) hcalls
  exact ⟨happlied.trans (by rw [h.applied]), htick⟩

theorem Underway.deliver (h : Underway n m a b ids o s) (hm : m ≤ eventMaxAge)
    (hnew : ∀ i, a ≤ i → i < b → i ∉ s.client.seen) :
    Round n (m + 1) (ids ++ List.range' a (b - a)) (s.step (.deliver m)) := by
  obtain ⟨verdict, htook⟩ := h.took hm
  obtain ⟨happlied, htick⟩ := h.take hnew verdict
  have hwf := h.wf.step (.deliver m)
  have hheard := h.heard.step h.wf (h.inReach hm)
  have hremembers := remembers_step h.remembers (.deliver m)
  have hstep : s.step (.deliver m) = { s with
      client := s.client.take verdict o.datagram []
      taken := s.taken ++ [m] } := by
    have hlog : s.log[m]? = some (some o) := h.sent
    simp only [Link.step, hlog, htook, if_true]
  rw [hstep] at hwf hheard hremembers ⊢
  exact
    { wf := hwf
      heard := hheard
      remembers := hremembers
      happened := h.happened
      mark := h.mark
      leaves := h.leaves
      seq := h.seq
      now := h.now
      tick := htick.le.trans (Nat.le_succ m)
      taken := by rw [h.taken, List.range_succ]
      applied := happlied }

end

theorem Round.step {n m a b : ℕ} {ids : List ℕ} {s : Link ⟨1, 1, 1024⟩} (h : Round n m ids s)
    (hab : a ≤ b) (hb : b ≤ n) (hn : n ≤ 1024) (hm : m ≤ eventMaxAge)
    (hnew : ∀ i, a ≤ i → i < b → i ∉ s.client.seen) :
    Round n (m + 1) (ids ++ List.range' a (b - a))
      (s.run [.build true (pickView 1024 m a b) wide, .deliver m]) := by
  obtain ⟨o, hunder⟩ := h.build hab hb hn hm
  refine hunder.deliver hm fun i hlow hhigh => ?_
  have hclient : (s.step (.build true (pickView 1024 m a b) wide)).client = s.client := by
    simp only [Link.step]
    split <;> rfl
  rw [hclient]
  exact hnew i hlow hhigh

theorem Round.steps {n : ℕ} (size k : ℕ) (hn : 1 + size * k ≤ n) (hcap : n ≤ 1024)
    (hk : k < eventMaxAge) {s : Link ⟨1, 1, 1024⟩} (h : Round n 1 [0] s) :
    Round n (k + 1) (List.range (1 + size * k))
      (s.run ((List.range' 0 k).flatMap fun j =>
        [.build true (pickView 1024 (j + 1) (1 + size * j) (1 + size * (j + 1))) wide,
          .deliver (j + 1)])) := by
  induction k with
  | zero => exact h
  | succ k ih =>
    have hmul : size * (k + 1) = size * k + size := Nat.mul_succ _ _
    have hprev := ih (by omega) (by omega)
    rw [List.range'_concat, List.flatMap_append, Link.run, List.foldl_append]
    simp only [Nat.zero_add, Nat.one_mul]
    have hall : List.range (1 + size * (k + 1)) = List.range (1 + size * k)
        ++ List.range' (1 + size * k) (1 + size * (k + 1) - (1 + size * k)) := by
      rw [show 1 + size * (k + 1) - (1 + size * k) = size by omega, List.range_eq_range',
        List.range_eq_range', hmul, ← Nat.add_assoc, ← List.range'_append_1, Nat.zero_add]
    rw [hall]
    apply hprev.step (by omega) hn hcap (by omega)
    intro i hlow hhigh hmem
    rw [hprev.remembers.seen_eq, hprev.applied] at hmem
    have := List.mem_range.mp (List.mem_of_mem_drop hmem)
    omega

theorem inReach_happen (s : Link z) (h : s.net.seq ≤ seqMax) (n : ℕ)
    (hroom : s.happened.length + n ≤ seqMax) :
    Run.Along step InReach s (List.replicate n (.happen (clashAt 0))) := by
  induction n generalizing s with
  | zero => trivial
  | succ n ih =>
    have hone : (s.step (.happen (clashAt 0))).happened.length = s.happened.length + 1 :=
      List.length_append
    refine ⟨⟨⟨h, ?_⟩, trivial⟩, ih _ h (by omega)⟩
    rw [Few, hone]
    omega

theorem round_start : Round 521 0 []
    ((start (firstSeat ⟨1, 1, 1024⟩)).run (List.replicate 521 (.happen (clashAt 0)))) := by
  obtain ⟨ring, happened, hrun, -, hhappened⟩ :=
    happen_run (start (firstSeat ⟨1, 1, 1024⟩)) 521 (by decide)
  have hwf := wf_run (firstSeat ⟨1, 1, 1024⟩) (List.replicate 521 (.happen (clashAt 0)))
  have hheard := heard_run (firstSeat ⟨1, 1, 1024⟩)
    (inReach_happen (start (firstSeat ⟨1, 1, 1024⟩)) (Nat.zero_le _) 521 (by decide))
  rw [hrun] at hwf hheard ⊢
  refine ⟨hwf, hheard, Client.remembers_new, ?_, rfl, rfl, rfl, rfl, le_rfl, rfl, rfl⟩
  change happened = _
  rw [hhappened, List.range_eq_range']
  apply List.map_congr_left
  intro i hi
  rw [List.mem_range'_1] at hi
  have hlt : i < 0 + 521 := hi.2
  rw [Nat.mod_eq_of_lt (by omega)]

/-- Of 521 events the first concerns the client, then forty more at a time, then the first again. -/
def twiceActs : List (LinkAct ⟨1, 1, 1024⟩) :=
  List.replicate 521 (.happen (clashAt 0))
    ++ [.build true (pickView 1024 0 0 1) wide, .deliver 0]
    ++ ((List.range' 0 13).flatMap fun j =>
      [.build true (pickView 1024 (j + 1) (1 + 40 * j) (1 + 40 * (j + 1))) wide, .deliver (j + 1)])
    ++ [.build true (pickView 1024 14 0 1) wide, .deliver 14]

theorem round_twice : Round 521 15 (List.range 521 ++ [0])
    ((start (firstSeat ⟨1, 1, 1024⟩)).run twiceActs) := by
  have hone := round_start.step (a := 0) (b := 1) (by decide) (by decide) (by decide) (by decide)
    (fun i _ _ h => by
      rw [round_start.remembers.seen_eq, round_start.applied] at h
      cases h)
  have hmany := Round.steps 40 13 (by decide) (by decide) (by decide) hone
  have htwo := hmany.step (a := 0) (b := 1) (by decide) (by decide) (by decide) (by decide) (by
    intro i _ hi h
    rw [hmany.remembers.seen_eq, hmany.applied, Nat.lt_one_iff.mp hi] at h
    revert h
    decide +kernel)
  simp only [Link.run, ← List.foldl_append] at htwo
  exact htwo

/-- The mark passes an event of concern to the client, and not stale, that no datagram carried; and
the client applies one event twice. -/
theorem event_skipped_and_doubled :
    (let s := (start (firstSeat ⟨1, 1, 16⟩)).run floodActs
     s.net.eventAcked = 17 ∧ s.happened[0]? = some (clashAt 0)
       ∧ ∀ n o, s.Sent n o → o.relevant (clashAt 0) = true ∧ o.datagram.tick = 0
         ∧ clashAt 0 ∉ o.datagram.events)
    ∧ let s := (start (firstSeat ⟨1, 1, 1024⟩)).run twiceActs
      s.happened.length = 521 ∧ s.client.applied.count 0 = 2 := by
  refine ⟨⟨by decide +kernel, by decide +kernel, fun n o ho => ?_⟩, ?_, ?_⟩
  · have hlog : ((start (firstSeat ⟨1, 1, 16⟩)).run floodActs).log.map (fun o => o.map fun o =>
        (o.relevant (clashAt 0), o.datagram.tick, decide (clashAt 0 ∈ o.datagram.events)))
          = [some (true, 0, false)] := by
      decide +kernel
    have hn := congrArg (fun l => l[n]?) hlog
    simp only [List.getElem?_map] at hn
    rw [ho] at hn
    cases n with
    | zero => simpa using hn
    | succ n => simp at hn
  · rw [round_twice.happened]
    simp
  · rw [round_twice.applied]
    decide +kernel

end Link

end BeforeColony
