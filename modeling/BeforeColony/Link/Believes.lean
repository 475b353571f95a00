import BeforeColony.Link.Idle
import BeforeColony.Sector.EventMark

/-!
# What the sector believes of the client

All the sector believes a client has was carried by a datagram an ack named, and each event its
mark passed was carried or passed over by one. When numbers keep naming what they should, the
client took every datagram an ack named.
-/

set_option autoImplicit false

namespace BeforeColony

open Lib

namespace Link

variable {z : Sizes} {s : Link z}

theorem sent_step_cases (a : LinkAct z) {n : ℕ} {o : Outgoing z} (h : (s.step a).Sent n o) :
    s.Sent n o
      ∨ (n = s.log.length ∧ ∃ deltas v room, a = .build deltas v room ∧ ¬ v.tick < s.now
        ∧ (buildSnapshot deltas s.ring v room s.gone s.net).out = some o)
      ∨ (n = s.log.length ∧ ∃ deltas room, a = .more deltas room
        ∧ (buildMore deltas s.ring (s.now - 1) s.pending room s.gone s.net).out = some o) := by
  cases a with
  | happen e => exact Or.inl h
  | build deltas v room =>
    simp only [Link.step] at h
    split at h
    · exact Or.inl h
    · rename_i hnow
      rcases sent_send.mp h with hold | ⟨hn, hout⟩
      · exact Or.inl hold
      · exact Or.inr (Or.inl ⟨hn, deltas, v, room, rfl, hnow, hout⟩)
  | more deltas room =>
    simp only [Link.step] at h
    split at h
    · exact Or.inl h
    · rcases sent_send.mp h with hold | ⟨hn, hout⟩
      · exact Or.inl hold
      · exact Or.inr (Or.inr ⟨hn, deltas, room, rfl, hout⟩)
  | deliver m =>
    simp only [Link.step] at h
    split at h
    · exact Or.inl h
    · exact Or.inl h
  | sendAck => exact Or.inl h
  | ackArrives j =>
    simp only [Link.step] at h
    split at h
    · exact Or.inl (((sameRun_ackBy s _).sent n o).mp h)
    · exact Or.inl h
  | forged b => exact Or.inl (((sameRun_ackBy s b).sent n o).mp h)

theorem log_step (s : Link z) (a : LinkAct z) :
    (s.step a).log = s.log ∨ ∃ x, (s.step a).log = s.log ++ [x] := by
  cases a with
  | happen e => exact Or.inl rfl
  | build deltas v room =>
    simp only [Link.step]
    split
    · exact Or.inl rfl
    · exact Or.inr ⟨_, rfl⟩
  | more deltas room =>
    simp only [Link.step]
    split
    · exact Or.inl rfl
    · exact Or.inr ⟨_, rfl⟩
  | deliver n =>
    simp only [Link.step]
    split <;> exact Or.inl rfl
  | sendAck => exact Or.inl rfl
  | ackArrives j =>
    simp only [Link.step]
    split
    · exact Or.inl (sameRun_ackBy s _).log
    · exact Or.inl rfl
  | forged a => exact Or.inl (sameRun_ackBy s a).log

theorem getElem?_log_step (a : LinkAct z) {n : ℕ} (hn : n < s.log.length) :
    (s.step a).log[n]? = s.log[n]? := by
  rcases s.log_step a with heq | ⟨x, heq⟩
  · rw [heq]
  · rw [heq, List.getElem?_append_left hn]

theorem happened_step (s : Link z) {a : LinkAct z} (ha : ∀ e, a ≠ .happen e) :
    (s.step a).happened = s.happened := by
  cases a with
  | happen e => exact absurd rfl (ha e)
  | build deltas v room =>
    simp only [Link.step]
    split <;> rfl
  | more deltas room =>
    simp only [Link.step]
    split <;> rfl
  | deliver n =>
    simp only [Link.step]
    split <;> rfl
  | ackArrives j =>
    simp only [Link.step]
    split
    · exact (sameRun_ackBy s _).happened
    · rfl
  | forged a => exact (sameRun_ackBy s a).happened
  | sendAck => rfl

theorem happened_grows (s : Link z) (a : LinkAct z) : s.happened <+: (s.step a).happened := by
  by_cases ha : ∃ e, a = .happen e
  · obtain ⟨e, rfl⟩ := ha
    exact List.prefix_append _ _
  · rw [s.happened_step fun e he => ha ⟨e, he⟩]

theorem taken_grows (s : Link z) (a : LinkAct z) : s.taken <+: (s.step a).taken := by
  rcases s.step_cases a with - | ⟨ack, -, hstep⟩
  · cases a with
    | happen e => exact List.prefix_refl _
    | build deltas v room =>
      simp only [Link.step]
      split <;> exact List.prefix_refl _
    | more deltas room =>
      simp only [Link.step]
      split <;> exact List.prefix_refl _
    | deliver n =>
      simp only [Link.step]
      split
      · dsimp only
        split
        · exact List.prefix_append _ _
        · exact List.prefix_refl _
      · exact List.prefix_refl _
    | ackArrives j =>
      simp only [Link.step]
      split
      · rw [(sameRun_ackBy s _).taken]
      · exact List.prefix_refl _
    | forged a => rw [Link.step, (sameRun_ackBy s a).taken]
    | sendAck => exact List.prefix_refl _
  · rw [hstep, (sameRun_ackBy s ack).taken]

/-- Each datagram speaks for the events between what the client had acked and its own mark, and
held the ring as it was. -/
structure Spoken (s : Link z) : Prop where
  acked_le : s.net.eventAcked ≤ s.happened.length
  speaks : ∀ n o, s.Sent n o → o.eventsFrom ≤ s.net.eventAcked
    ∧ o.carries.eventsDone ≤ s.happened.length
    ∧ (∃ past, past <+: s.happened ∧ o.ring.Holds past)
    ∧ ∀ i, o.eventsFrom ≤ i → i < o.carries.eventsDone → o.SpeaksFor i

theorem few_of_step (s : Link z) (a : LinkAct z) (h : (s.step a).Few) : s.Few :=
  (s.happened_grows a).length_le.trans h

theorem few_step (s : Link z) {a : LinkAct z} (ha : ∀ e, a ≠ .happen e) (h : s.Few) :
    (s.step a).Few := by
  rwa [Few, s.happened_step ha]

theorem spoken_start (seat : Seat z) (hfew : (start seat).Few) : (start seat).Spoken where
  acked_le := (seat.holds hfew).next_eq.le
  speaks n o h := by simp [Sent, start] at h

theorem Spoken.step (h : s.Spoken) (hwf : s.Wf) (hfew : s.Few) (a : LinkAct z) :
    (s.step a).Spoken := by
  have hprefix := s.happened_grows a
  have hlen := hprefix.length_le
  have hheld := hwf.ring hfew
  have hnext := hheld.next_eq
  have hmark : s.net.eventAcked ≤ (s.step a).net.eventAcked
      ∧ (s.step a).net.eventAcked ≤ s.happened.length := by
    rcases s.step_cases a with ⟨hsame, -, -⟩ | ⟨ack, -, hstep⟩
    · rw [hsame.eventAcked]
      exact ⟨le_rfl, h.acked_le⟩
    · obtain ⟨-, hlearned⟩ := hwf.ackBy ack
      rw [hstep]
      refine ⟨hlearned.events_le, ?_⟩
      rcases hlearned.events with heq | ⟨n, -, o, ho, heq⟩
      · rw [heq]
        exact h.acked_le
      · rw [heq]
        exact (h.speaks n o ho).2.1
  refine ⟨hmark.2.trans hlen, fun n o ho => ?_⟩
  rcases sent_step_cases a ho with hold | ⟨-, deltas, v, room, -, -, hout⟩ | ⟨-, deltas, room, -, hout⟩
  · obtain ⟨hfrom, hdone, ⟨past, hpast, hring⟩, hspeaks⟩ := h.speaks n o hold
    exact ⟨hfrom.trans hmark.1, hdone.trans hlen, ⟨past, hpast.trans hprefix, hring⟩, hspeaks⟩
  · obtain ⟨hfrom, hring, hdone, hspeaks⟩ :=
      buildSnapshot_speaks hheld (h.acked_le.trans hnext.ge) hout
    rw [hfrom, hring]
    exact ⟨hmark.1, (hdone.trans hnext.le).trans hlen, ⟨s.happened, hprefix, hheld⟩,
      hfrom ▸ hspeaks⟩
  · obtain ⟨hfrom, hring, hdone⟩ := buildMore_speaks hout
    rw [hfrom, hring, hdone]
    exact ⟨hmark.1, Nat.zero_le _, ⟨s.happened, hprefix, hheld⟩, fun i _ hi => absurd hi (by omega)⟩

/-- All the sector believes was carried by datagrams of `ns`, or, of the events numbered from `since`
on, was spoken for by them. -/
structure Believes (s : Link z) (since : ℕ) (ns : List ℕ) : Prop where
  objs : ∀ c p, s.net.objAcked c = some p →
    ∃ n ∈ ns, ∃ o, s.Sent n o ∧ (c, some p) ∈ o.datagram.objects
  rocks : ∀ r, s.net.rockAcked r ≠ 0 →
    ∃ n ∈ ns, ∃ o, s.Sent n o ∧ (r, s.net.rockAcked r) ∈ o.datagram.rocks
  leaves : ∀ i < s.gone, ∃ n ∈ ns, ∃ o, s.Sent n o ∧ o.CarriesLeave i
  events : ∀ i, since ≤ i → i < s.net.eventAcked → ∃ n ∈ ns, ∃ o, s.Sent n o ∧ o.SpeaksFor i
  bases : ∀ j e, s.net.base j = some e →
    ∃ n ∈ ns, ∃ o, s.Sent n o ∧ o.CarriesRecord e ∧ e.q.slot = j

theorem believes_start (seat : Seat z) : (start seat).Believes seat.ring.next [] where
  objs c p h := by cases h
  rocks r h := absurd rfl h
  leaves i h := absurd h (Nat.not_lt_zero i)
  events i hi hi' := absurd (hi.trans_lt hi') (lt_irrefl _)
  bases j e h := by cases h

theorem Believes.mono {since : ℕ} {ns ns' : List ℕ} (h : s.Believes since ns)
    (hns : ∀ n ∈ ns, n ∈ ns') : s.Believes since ns' := by
  have hmore : ∀ {P : Outgoing z → Prop}, (∃ n ∈ ns, ∃ o, s.Sent n o ∧ P o)
      → ∃ n ∈ ns', ∃ o, s.Sent n o ∧ P o := by
    rintro P ⟨n, hn, hex⟩
    exact ⟨n, hns n hn, hex⟩
  exact ⟨fun c p hc => hmore (h.objs c p hc), fun r hr => hmore (h.rocks r hr),
    fun i hi => hmore (h.leaves i hi), fun i hi hi' => hmore (h.events i hi hi'),
    fun j e he => hmore (h.bases j e he)⟩

theorem Believes.learn {t : Link z} {since : ℕ} {ns ns' : List ℕ} (h : s.Believes since ns)
    (hspoken : s.Spoken) (hlearned : Learned s ns' t) (hsent : ∀ n o, s.Sent n o → t.Sent n o) :
    t.Believes since (ns ++ ns') := by
  have hold : ∀ {P : Outgoing z → Prop}, (∃ n ∈ ns, ∃ o, s.Sent n o ∧ P o)
      → ∃ n ∈ ns ++ ns', ∃ o, t.Sent n o ∧ P o := by
    rintro P ⟨n, hn, o, ho, hP⟩
    exact ⟨n, List.mem_append_left _ hn, o, hsent n o ho, hP⟩
  have hnew : ∀ {P : Outgoing z → Prop}, (∃ n ∈ ns', ∃ o, s.Sent n o ∧ P o)
      → ∃ n ∈ ns ++ ns', ∃ o, t.Sent n o ∧ P o := by
    rintro P ⟨n, hn, o, ho, hP⟩
    exact ⟨n, List.mem_append_right _ hn, o, hsent n o ho, hP⟩
  constructor
  · intro c p hc
    rcases hlearned.objs c with heq | hex
    · exact hold (h.objs c p (heq.symm.trans hc))
    · rw [hc] at hex
      exact hnew hex
  · intro r hr
    rcases hlearned.rocks r with heq | hex
    · rw [heq] at hr ⊢
      exact hold (h.rocks r hr)
    · exact hnew hex
  · intro i hi
    rcases Nat.lt_or_ge i s.gone with hlt | hge
    · exact hold (h.leaves i hlt)
    · exact hnew (hlearned.leaves i hge hi)
  · intro i hlow hhigh
    rcases Nat.lt_or_ge i s.net.eventAcked with hlt | hge
    · exact hold (h.events i hlow hlt)
    · apply hnew
      rcases hlearned.events with heq | ⟨n, hn, o, ho, heq⟩
      · omega
      · obtain ⟨hfrom, -, -, hspeaks⟩ := hspoken.speaks n o ho
        exact ⟨n, hn, o, ho, hspeaks i (hfrom.trans hge) (heq ▸ hhigh)⟩
  · intro j e he
    rcases hlearned.bases j with heq | ⟨n, hn, o, ho, e', hcarries, hslot, heq⟩
    · exact hold (h.bases j e (heq.symm.trans he))
    · apply hnew
      cases Option.some.inj (heq.symm.trans he)
      exact ⟨n, hn, o, ho, hcarries, hslot⟩

theorem Believes.step {since : ℕ} (h : s.Believes since s.acked) (hwf : s.Wf) (hspoken : s.Spoken)
    (a : LinkAct z) : (s.step a).Believes since (s.step a).acked := by
  have hsent : ∀ n o, s.Sent n o → (s.step a).Sent n o := fun n o => sent_step a
  rcases s.step_cases a with ⟨hsame, hgone, hacked⟩ | ⟨ack, -, hstep⟩
  · have hlearn := h.learn hspoken (.of_same hsame hgone []) hsent
    rwa [List.append_nil, ← hacked] at hlearn
  · rw [hstep] at hsent ⊢
    exact h.learn hspoken (hwf.ackBy ack).2 hsent

theorem believes_run (seat : Seat z) {acts : List (LinkAct z)}
    (h : Run.Along step (fun s a => (s.step a).Few) (start seat) acts) :
    (((start seat).run acts).Few → ((start seat).run acts).Spoken)
      ∧ ((start seat).run acts).Believes seat.ring.next ((start seat).run acts).acked :=
  (Run.invariant
    (I := fun s : Link z => s.Wf ∧ (s.Few → s.Spoken) ∧ s.Believes seat.ring.next s.acked)
    (fun s a hs hnext => by
      obtain ⟨hwf, hspoken, hbelieves⟩ := hs
      have hfew := s.few_of_step a hnext
      exact ⟨hwf.step a, fun _ => (hspoken hfew).step hwf hfew a,
        hbelieves.step hwf (hspoken hfew) a⟩)
    ⟨wf_start seat, spoken_start seat, believes_start seat⟩ h).2

/-! ## Every datagram acked was taken -/

theorem Heard.acked_step (h : s.Heard) (hwf : s.Wf) (hacked : ∀ n ∈ s.acked, n ∈ s.taken)
    {a : LinkAct z} (hreach : s.InReach a) : ∀ n ∈ (s.step a).acked, n ∈ (s.step a).taken := by
  have htaken : s.taken <+: (s.step a).taken := s.taken_grows a
  intro n hn
  rcases s.step_cases a with ⟨-, -, hsame⟩ | ⟨ack, hrec, hstep⟩
  · rw [hsame] at hn
    exact htaken.subset (hacked n hn)
  · have hnames : n ∈ s.acked ++ s.net.names ack := by
      rw [hstep] at hn
      exact hn
    apply htaken.subset
    rcases List.mem_append.mp hnames with hold | hnew
    · exact hacked n hold
    · cases a with
      | ackArrives j =>
        obtain ⟨w, hj, rfl⟩ := hrec
        exact h.names_taken hwf hj hreach n hnew
      | forged b => exact absurd hreach.2 id
      | happen e => cases hrec
      | build deltas v room => cases hrec
      | more deltas room => cases hrec
      | deliver n => cases hrec
      | sendAck => cases hrec

theorem acked_taken (seat : Seat z) {acts : List (LinkAct z)}
    (h : Run.Along step InReach (start seat) acts) :
    ∀ n ∈ ((start seat).run acts).acked, n ∈ ((start seat).run acts).taken :=
  (Run.invariant (I := fun s : Link z => s.Wf ∧ s.Heard ∧ ∀ n ∈ s.acked, n ∈ s.taken)
    (fun _ _ hs hreach => ⟨hs.1.step _, hs.2.1.step hs.1 hreach, hs.2.1.acked_step hs.1 hs.2.2 hreach⟩)
    ⟨wf_start seat, heard_start seat, fun _ hn => (nomatch hn)⟩ h).2.2

/-! ## What the sector believes was taken -/

theorem Wf.retireChecked (h : s.Wf) (n : ℕ) :
    s.net.retireChecked z.rocks z.suits n = some (s.net.retire n) := by
  unfold ClientState.retireChecked ClientState.retire
  split
  · rfl
  · have hrec := h.recorded (n % sentRing)
    change s.Recorded (s.net.sent.get n) at hrec
    have hbounds : (∀ o ∈ (s.net.sent.get n).objs, o.1 < maxChunks)
        ∧ (∀ r ∈ (s.net.sent.get n).rocks, r.1 < z.rocks)
        ∧ ∀ e ∈ s.net.entsOf (s.net.sent.get n), e.q.slot < z.suits := by
      rcases hrec with hbare | ⟨o, ho, ⟨k, hshape⟩, -⟩
      · rw [hbare.objs, hbare.rocks]
        refine ⟨fun _ hm => (nomatch hm), fun _ hm => (nomatch hm), fun e he => ?_⟩
        simp [ClientState.entsOf, hbare.nEnts] at he
      · have hok := h.ok _ o ho
        obtain ⟨-, hents⟩ := h.noted _ o ho
        rw [hshape]
        refine ⟨hok.chunk_lt, hok.rock_lt, fun e he => ?_⟩
        rcases h.entsOf (k := k) ho with hnone | hsome
        · rw [hnone] at he
          cases he
        · rw [hsome, hents] at he
          exact (h.entOk e (List.mem_of_mem_drop (List.mem_of_mem_take he))).2
    obtain ⟨hobjs, hrocks, hents⟩ := hbounds
    rw [ClientState.retiredChecked, ackObjsChecked_eq h.counts hobjs]
    change (if _ then none else some (s.net.retired n (s.net.sent.get n))) = _
    apply if_neg
    rintro (⟨r, hr, hge⟩ | ⟨e, he, hge⟩)
    · exact absurd (hrocks r hr) (not_lt.mpr hge)
    · exact absurd (hents e he) (not_lt.mpr hge)

/-- No access an ack makes goes out of bounds, and no count below zero, whatever the ack. -/
theorem Wf.onAckChecked (h : s.Wf) (ack : Ack) :
    s.net.onAckChecked z.rocks z.suits ack = some (s.net.onAck ack) := by
  have hfold : ∀ (ns : List ℕ) (s : Link z), s.Wf →
      ns.foldlM (ClientState.retireChecked z.rocks z.suits) s.net
        = some (ns.foldl ClientState.retire s.net) := by
    intro ns
    induction ns with
    | nil => exact fun _ _ => rfl
    | cons n rest ih =>
      intro s hs
      rw [List.foldlM_cons, hs.retireChecked n]
      exact ih (s.retire n) (hs.retire n).1
  exact hfold _ s h

/-- What the sector believes the client has was in a datagram the client took, as long as numbers
keep naming what they should; and whatever happens, marks move forward, the count of objects known
is exact, and no ack does harm. -/
theorem believed_was_taken (seat : Seat z) (acts : List (LinkAct z)) :
    let s := (start seat).run acts
    (Run.Along step InReach (start seat) acts → s.Believes seat.ring.next s.taken)
      ∧ s.net.objKnown = known s.net.objAcked
      ∧ (∀ a, s.net.ackFloor ≤ (s.step a).net.ackFloor
        ∧ s.net.eventAcked ≤ (s.step a).net.eventAcked)
      ∧ ∀ ack, s.net.onAckChecked z.rocks z.suits ack = some (s.net.onAck ack) := by
  intro s
  have hwf : s.Wf := wf_run seat acts
  refine ⟨fun hreach => ?_, hwf.counts, fun a => ?_, hwf.onAckChecked⟩
  · have hfew := Run.along_mono (fun _ _ h => h.1.2) hreach
    exact (believes_run seat hfew).2.mono (acked_taken seat hreach)
  · rcases s.step_cases a with ⟨hsame, -, -⟩ | ⟨ack, -, hstep⟩
    · exact ⟨hsame.ackFloor.ge, hsame.eventAcked.ge⟩
    · rw [hstep]
      have hlearned := (hwf.ackBy ack).2
      exact ⟨hlearned.floor_le, hlearned.events_le⟩

theorem one_rock_lt : ∀ r ∈ [((0 : ℕ), (7 : ℕ))], r.1 < 1 := by
  decide

def rockView (t : ℕ) : View ⟨1, 1, 16⟩ :=
  { idleView _ t with rocks := [(0, 7)], rock_lt := one_rock_lt }

theorem misread_of_awaits {t : Link ⟨1, 1, 16⟩} (h : Awaits 0xFFFF t) :
    let s := t.run [.build true (rockView 0x10000) wide, .ackArrives 0]
    s.net.rockAcked 0 = 7 ∧ ∀ n ∈ s.taken, ∀ o, s.Sent n o → o.datagram.rocks = [] := by
  intro s
  have hbuilds := buildSnapshot_builds true t.ring (rockView 0x10000) wide t.gone t.net
  have hrocks : rocksFor t.net (rockView 0x10000) wide = [(0, 7)] := by
    have hacked := h.acks.rockAcked
    rw [rocksFor, hacked]
    rfl
  have hbuild : t.step (.build true (rockView 0x10000) wide)
      = t.send (0x10000 + 1) ((openSnapshot (rockView 0x10000) t.net).leaves.drop t.net.leaves.length)
        (buildSnapshot true t.ring (rockView 0x10000) wide t.gone t.net) := by
    have hnow := h.now
    simp only [Link.step]
    rw [if_neg (by simp [hnow, rockView, idleView])]
    rfl
  set b := buildSnapshot true t.ring (rockView 0x10000) wide t.gone t.net with hb
  obtain ⟨o, hout, hcarries⟩ : ∃ o, b.out = some o ∧ o.carries.rocks = [(0, 7)] :=
    ⟨_, rfl, hrocks⟩
  set u := t.step (.build true (rockView 0x10000) wide) with hu
  have hnet : u.net = b.client := by rw [hbuild]; rfl
  have hnames : u.net.names firstWindow.ack = [0x10000] := by
    have hstream : u.net.stream = 1 := by rw [hnet, hbuilds.same.stream, h.acks.stream]; rfl
    have hseq : u.net.seq = 0x10001 := by rw [hnet, hbuilds.seq, h.seq]
    rw [ClientState.names, hstream, hseq]
    decide
  have hget : u.net.sent.get 0x10000 = o.carries := by
    rw [hnet, hbuilds.out_sent o hout, h.seq, Ring.get_set_self]
  have hseq : o.carries.seq = 0x10000 := by rw [(hbuilds.out_ok o hout).seq, h.seq]
  have hfloor : u.net.ackFloor = 0 := by rw [hnet, hbuilds.same.ackFloor, h.acks.ackFloor]; rfl
  have hack : s = u.ackBy firstWindow.ack := by
    have hwindow : u.acks[0]? = some firstWindow := by
      rw [hbuild]
      change t.acks[0]? = _
      rw [h.windows]
      rfl
    change u.step (.ackArrives 0) = _
    simp only [Link.step, hwindow]
  constructor
  · rw [hack, net_ackBy, ClientState.onAck, hnames, List.foldl_cons, List.foldl_nil,
      ClientState.retire, hget, hseq, hfloor, if_neg (by simp)]
    simp only [ClientState.retired, hcarries]
    rfl
  · intro n hn o' ho'
    have hsame := sameRun_ackBy u firstWindow.ack
    rw [hack, hsame.taken, hbuild] at hn
    change n ∈ t.taken at hn
    rw [h.taken, List.mem_singleton] at hn
    rw [hack, hsame.sent, hbuild, sent_send, h.filled] at ho'
    rcases ho' with hold | ⟨hround, -⟩
    · exact (h.idle n o' hold).2
    · omega

/-- An event of no concern to the client, and a datagram taken and acked after it. -/
def passActs : List (LinkAct ⟨1, 1, 16⟩) :=
  [.happen (.sim 0 0 (.clash 0 0)), .build true (idleView _ 0) wide, .deliver 0, .sendAck,
    .ackArrives 0]

theorem believed_was_taken_pass :
    ((start (firstSeat ⟨1, 1, 16⟩)).run passActs).Believes 0
      ((start (firstSeat ⟨1, 1, 16⟩)).run passActs).taken := by
  apply (believed_was_taken (firstSeat ⟨1, 1, 16⟩) passActs).1
  refine ⟨⟨by decide +kernel, trivial⟩, ⟨by decide +kernel, trivial⟩, ⟨by decide +kernel, ?_⟩,
    ⟨by decide +kernel, trivial⟩, ⟨by decide +kernel, ?_⟩, trivial⟩
  · change ite _ _ _
    decide +kernel
  · intro w _ _
    apply Nat.le_add_left_of_le
    decide +kernel

/-- An ack so late that its number has gone round is taken for the datagram of the number it is
then; and the mark passes an event that no datagram carried. -/
theorem late_ack_misread :
    (let s := ((start (firstSeat ⟨1, 1, 16⟩)).run (awaitActs _ 0xFFFF)).run
        [.build true (rockView 0x10000) wide, .ackArrives 0]
     s.net.rockAcked 0 = 7 ∧ ∀ n ∈ s.taken, ∀ o, s.Sent n o → o.datagram.rocks = [])
    ∧ let s := (start (firstSeat ⟨1, 1, 16⟩)).run passActs
      s.net.eventAcked = 1 ∧ ∀ n o, s.Sent n o → o.datagram.events = [] := by
  refine ⟨misread_of_awaits (awaits 0xFFFF), by decide +kernel, fun n o ho => ?_⟩
  have hevents : ((start (firstSeat ⟨1, 1, 16⟩)).run passActs).log.map
      (fun o => o.map fun o => o.datagram.events) = [some []] := by decide +kernel
  have hn := congrArg (fun l => l[n]?) hevents
  simp only [List.getElem?_map] at hn
  rw [ho] at hn
  cases n with
  | zero => simpa using hn
  | succ n => simp at hn

end Link

end BeforeColony
