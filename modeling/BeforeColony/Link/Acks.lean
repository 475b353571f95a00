import BeforeColony.Link.Leaves

/-!
# What the sector believes was taken

An honest ack that isn't too old names only datagrams the client took, so all the sector learns
was carried by one of them. What an ack does never depends on its being honest: marks only move
forward, the count of objects known is exact, and no access goes out of bounds.
-/

set_option autoImplicit false

namespace BeforeColony

open Lib

namespace Client

/-- What becomes of a datagram: it is stale, or can't be read, or is taken. -/
theorem onDatagram_cases (c : Client) (d : Datagram) :
    (c.acks.check d.stream d.seq d.tick = .stale
        ∧ c.onDatagram d = ({ c with stale := c.stale + 1 }, false))
      ∨ (c.acks.check d.stream d.seq d.tick ≠ .stale
        ∧ (∃ e, c.records (isFresh (c.acks.check d.stream d.seq d.tick)) d = .error e)
        ∧ c.onDatagram d = ({ c with decodeErrors := c.decodeErrors + 1 }, false))
      ∨ (c.acks.check d.stream d.seq d.tick ≠ .stale
        ∧ ∃ qs, c.records (isFresh (c.acks.check d.stream d.seq d.tick)) d = .ok qs
          ∧ c.onDatagram d = (c.take (c.acks.check d.stream d.seq d.tick) d qs, true)) := by
  by_cases hstale : c.acks.check d.stream d.seq d.tick = .stale
  · exact Or.inl ⟨hstale, by simp [onDatagram, hstale]⟩
  · right
    cases hrec : c.records (isFresh (c.acks.check d.stream d.seq d.tick)) d with
    | error e => exact Or.inl ⟨hstale, ⟨e, rfl⟩, by simp [onDatagram, hstale, hrec]⟩
    | ok qs => exact Or.inr ⟨hstale, qs, rfl, by simp [onDatagram, hstale, hrec]⟩

end Client

namespace Link

variable {z : Sizes} {s : Link z}

/-- A step in whose course numbers keep naming what they should: there are numbers left, of datagrams
and of events, a datagram arrives within half the numbers' span of the newest the client took (the first, before
the numbers have gone round), an ack within half of it after the newest it names was sent, and no
ack is forged. -/
def InReach (s : Link z) (a : LinkAct z) : Prop :=
  (s.net.seq ≤ seqMax ∧ (s.step a).Few) ∧
    match a with
    | .deliver n => if s.taken = [] then n < 0x10000 else InWindow s.client.acks.newest n
    | .ackArrives j => ∀ w, s.acks[j]? = some w → w.mask ≠ 0 → s.net.seq ≤ w.newest + 0x8001
    | .forged _ => False
    | _ => True

/-- The client's window tracks what it took, and so did the window of each ack it sent. -/
structure Heard (s : Link z) : Prop where
  tracks : s.client.acks.Tracks s.net.stream s.taken
  fresh : s.taken = [] → s.client.acks.any = false
  sent : ∀ n ∈ s.taken, ∃ o, s.Sent n o
  acks : ∀ w ∈ s.acks, ∃ l, l <+: s.taken ∧ w.Tracks s.net.stream l

theorem heard_start (seat : Seat z) : (start seat).Heard where
  tracks := AckWindow.tracks_nil _
  fresh _ := rfl
  sent n h := by cases h
  acks w h := by cases h

theorem Heard.check_eq (h : s.Heard) (hwf : s.Wf) {n : ℕ} {o : Outgoing z} (ho : s.Sent n o)
    (hreach : s.InReach (.deliver n)) :
    s.client.acks.check o.datagram.stream o.datagram.seq o.datagram.tick
      = if s.taken = [] then .newStream n
        else if s.client.acks.newest < n then .next n else .stale := by
  have hok := hwf.ok n o ho
  have hlt : ∀ m o', s.Sent m o' → m < seqMax := by
    intro m o' hm
    have hlog := sent_lt hm
    rw [hwf.length] at hlog
    exact hlog.trans_le hreach.1.1
  rw [hok.stream_eq, hok.number]
  apply h.tracks.check_eq hwf.stream (hlt n o ho)
  · intro m hm
    obtain ⟨o', ho'⟩ := h.sent m hm
    exact hlt m o' ho'
  · intro ht
    exact ⟨h.fresh ht, by simpa [InReach, ht] using hreach.2⟩
  · intro ht
    simpa [InReach, ht] using hreach.2

/-- A datagram taken is newer than every one taken before, and goes into the window. -/
theorem Heard.take (h : s.Heard) (hwf : s.Wf) {n : ℕ} {o : Outgoing z} (ho : s.Sent n o)
    (hreach : s.InReach (.deliver n))
    (hcheck : s.client.acks.check o.datagram.stream o.datagram.seq o.datagram.tick ≠ .stale) :
    (∀ m ∈ s.taken, m < n)
      ∧ (s.client.acks.commit o.datagram.stream
          (s.client.acks.check o.datagram.stream o.datagram.seq o.datagram.tick)
          o.datagram.tick).Tracks s.net.stream (s.taken ++ [n]) := by
  have heq := h.check_eq hwf ho hreach
  rw [heq] at hcheck ⊢
  rw [(hwf.ok n o ho).stream_eq]
  by_cases ht : s.taken = []
  · rw [if_pos ht] at hcheck ⊢
    refine ⟨by simp [ht], ?_⟩
    rw [ht]
    exact .commit_newStream _ _ _ _
  · rw [if_neg ht] at hcheck ⊢
    by_cases hnew : s.client.acks.newest < n
    · rw [if_pos hnew]
      exact ⟨fun m hm => (h.tracks.le_newest m hm).trans_lt hnew, h.tracks.commit_next ht hnew _⟩
    · rw [if_neg hnew] at hcheck
      exact absurd rfl hcheck

theorem stream_step (a : LinkAct z) : (s.step a).net.stream = s.net.stream := by
  rcases s.step_cases a with ⟨hsame, -, -⟩ | ⟨ack, -, hstep⟩
  · exact hsame.stream
  · rw [hstep]
    exact (sameRun_ackBy s ack).stream

theorem Heard.of_same (h : s.Heard) {t : Link z} (hstream : t.net.stream = s.net.stream)
    (hclient : t.client.acks = s.client.acks) (htaken : t.taken = s.taken) (hacks : t.acks = s.acks)
    (hsent : ∀ n o, s.Sent n o → t.Sent n o) : t.Heard where
  tracks := by rw [hstream, hclient, htaken]; exact h.tracks
  fresh := by rw [hclient, htaken]; exact h.fresh
  sent n hn := by
    rw [htaken] at hn
    obtain ⟨o, ho⟩ := h.sent n hn
    exact ⟨o, hsent n o ho⟩
  acks w hw := by
    rw [hacks] at hw
    rw [hstream, htaken]
    exact h.acks w hw

theorem Heard.step (h : s.Heard) (hwf : s.Wf) {a : LinkAct z} (hreach : s.InReach a) :
    (s.step a).Heard := by
  have hsent : ∀ n o, s.Sent n o → (s.step a).Sent n o := fun n o => sent_step a
  cases a with
  | deliver n =>
    cases hn : s.log[n]? with
    | none =>
      have hstep : s.step (.deliver n) = s := by simp only [Link.step, hn]
      rwa [hstep]
    | some entry =>
      cases entry with
      | none =>
        have hstep : s.step (.deliver n) = s := by simp only [Link.step, hn]
        rwa [hstep]
      | some o =>
        have hstep : s.step (.deliver n) = { s with
            client := (s.client.onDatagram o.datagram).1
            taken := if (s.client.onDatagram o.datagram).2 then s.taken ++ [n] else s.taken } := by
          simp only [Link.step, hn]
        rw [hstep]
        rcases s.client.onDatagram_cases o.datagram with ⟨-, heq⟩ | ⟨-, -, heq⟩ | ⟨hnew, qs, -, heq⟩
        · rw [heq]
          exact h.of_same rfl rfl rfl rfl fun _ _ => id
        · rw [heq]
          exact h.of_same rfl rfl rfl rfl fun _ _ => id
        · rw [heq]
          obtain ⟨-, htracks⟩ := h.take hwf hn hreach hnew
          constructor
          · simp only [Client.take_acks, if_true]
            exact htracks
          · intro ht
            simp at ht
          · intro m hm
            rcases List.mem_append.mp hm with hm | hm
            · exact h.sent m hm
            · exact ⟨o, List.mem_singleton.mp hm ▸ hn⟩
          · intro w hw
            obtain ⟨l, hl, htrack⟩ := h.acks w hw
            exact ⟨l, hl.trans (List.prefix_append _ _), htrack⟩
  | sendAck =>
    refine ⟨h.tracks, h.fresh, h.sent, fun w hw => ?_⟩
    rcases List.mem_append.mp hw with hw | hw
    · exact h.acks w hw
    · rw [List.mem_singleton.mp hw]
      exact ⟨s.taken, List.prefix_refl _, h.tracks⟩
  | forged ack => exact absurd hreach.2 id
  | ackArrives j =>
    cases hj : s.acks[j]? with
    | none =>
      have hstep : s.step (.ackArrives j) = s := by simp only [Link.step, hj]
      rwa [hstep]
    | some w =>
      have hstep : s.step (.ackArrives j) = s.ackBy w.ack := by simp only [Link.step, hj]
      rw [hstep] at hsent ⊢
      have hsame := sameRun_ackBy s w.ack
      exact h.of_same hsame.stream (by rw [hsame.client]) hsame.taken hsame.acks hsent
  | happen e => exact h.of_same rfl rfl rfl rfl hsent
  | build deltas v room =>
    apply h.of_same (stream_step _) _ _ _ hsent
    all_goals
      simp only [Link.step]
      split <;> rfl
  | more deltas room =>
    apply h.of_same (stream_step _) _ _ _ hsent
    all_goals
      simp only [Link.step]
      split <;> rfl

theorem heard_run (seat : Seat z) {acts : List (LinkAct z)}
    (h : Run.Along step InReach (start seat) acts) : ((start seat).run acts).Heard :=
  (Run.invariant (I := fun s : Link z => s.Wf ∧ s.Heard)
    (fun _ _ hs hreach => ⟨hs.1.step _, hs.2.step hs.1 hreach⟩)
    ⟨wf_start seat, heard_start seat⟩ h).2

theorem Heard.lt_seq (h : s.Heard) (hwf : s.Wf) {n : ℕ} (hn : n ∈ s.taken) : n < s.net.seq := by
  obtain ⟨o, ho⟩ := h.sent n hn
  rw [← hwf.length]
  exact sent_lt ho

/-- What an honest ack within reach names: what the client had taken when it sent it, near the
newest of that. -/
theorem Heard.mem_names (h : s.Heard) (hwf : s.Wf) {j : ℕ} {w : AckWindow}
    (hj : s.acks[j]? = some w) (hreach : s.InReach (.ackArrives j)) :
    ∃ l later, s.taken = l ++ later ∧ w.Tracks s.net.stream l
      ∧ ∀ n, n ∈ s.net.names w.ack ↔ n ∈ l ∧ w.newest ≤ n + 32 := by
  obtain ⟨l, ⟨later, hsplit⟩, htracks⟩ := h.acks w (List.mem_of_getElem? hj)
  refine ⟨l, later, hsplit.symm, htracks, ?_⟩
  apply ClientState.names_ack htracks hwf.stream hreach.1.1
  · exact fun n hn => h.lt_seq hwf (hsplit ▸ List.mem_append_left later hn)
  · exact fun hne => hreach.2 w hj (htracks.mask_ne_zero hne)

theorem Heard.names_taken (h : s.Heard) (hwf : s.Wf) {j : ℕ} {w : AckWindow}
    (hj : s.acks[j]? = some w) (hreach : s.InReach (.ackArrives j)) :
    ∀ n ∈ s.net.names w.ack, n ∈ s.taken := by
  intro n hn
  obtain ⟨l, later, hsplit, -, hnames⟩ := h.mem_names hwf hj hreach
  rw [hsplit]
  exact List.mem_append_left later ((hnames n).mp hn).1

end Link

end BeforeColony
