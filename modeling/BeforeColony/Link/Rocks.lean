import BeforeColony.Link.Believes
import BeforeColony.Sim.RockStates

/-!
# Rocks and their versions

The simulation's rocks beside a stream. A datagram shows a rock as it is when the datagram is built,
and the sector keeps only the low byte of what it was told the client has. Beside the two parties the
state keeps what each datagram showed, and how many changes stood behind each version acked.
-/

set_option autoImplicit false

namespace BeforeColony

open Lib

def byNumber {n : ℕ} {α : Type} (f : Fin n → α) (d : α) (i : ℕ) : α := if h : i < n then f ⟨i, h⟩ else d

@[simp] theorem byNumber_val {n : ℕ} {α : Type} (f : Fin n → α) (d : α) (i : Fin n) :
    byNumber f d i = f i := by
  simp [byNumber]

/-- A map set at each pair of a list to what is the pair's number's. -/
theorem foldl_update_at {α β : Type} (c : ℕ → α) (l : List (ℕ × β)) (f : ℕ → α) (i : ℕ) :
    l.foldl (fun f p => Function.update f p.1 (c p.1)) f i
      = if i ∈ l.map Prod.fst then c i else f i := by
  induction l generalizing f with
  | nil => rfl
  | cons p rest ih =>
    rw [List.foldl_cons, ih, List.map_cons]
    by_cases hrest : i ∈ rest.map Prod.fst
    · rw [if_pos hrest, if_pos (List.mem_cons_of_mem _ hrest)]
    · rw [if_neg hrest]
      by_cases hi : i = p.1
      · rw [if_pos (hi ▸ List.mem_cons_self), hi, Function.update_self]
      · rw [if_neg (by simp [hi, hrest]), Function.update_of_ne hi]

structure Quarry (z : Sizes) (cap : ℕ) where
  link : Link z
  rocks : RockStates z.rocks cap
  /-- The rocks as datagram `n` was built. -/
  shown : ℕ → RockStates z.rocks cap
  /-- The changes behind the version the sector has acked of a rock. -/
  heard : ℕ → ℕ
  /-- A rock's state as the client last took it. -/
  held : ℕ → Option RockState

inductive QuarryAct (z : Sizes) where
  | link (a : LinkAct z)
  | rockHit (i : Fin z.rocks) (amount : ℚ) (kind : WeaponKind) (t : ℕ)
  | fieldStep (near : Fin z.rocks → Bool) (t : ℕ)

namespace Quarry

variable {z : Sizes} {cap : ℕ}

def start (seat : Seat z) (sim : Sim z.rocks cap) : Quarry z cap where
  link := .start seat
  rocks := .new sim
  shown := fun _ => .new sim
  heard := fun _ => 0
  held := fun _ => none

variable (s : Quarry z cap)

/-- A client is shown the rocks' versions as they are. -/
def view (v : View z) : View z :=
  { v with
    rocks := v.rocks.map fun r => (r.1, byNumber s.rocks.version 0 r.1)
    rock_lt := by
      intro r hr
      obtain ⟨r', hr', rfl⟩ := List.mem_map.mp hr
      exact v.rock_lt r' hr' }

def seen : LinkAct z → LinkAct z
  | .build deltas v room => .build deltas (s.view v) room
  | a => a

/-- Datagram `n` retired: the versions it carried are acked. -/
def retire (p : Link z × (ℕ → ℕ)) (n : ℕ) : Link z × (ℕ → ℕ) :=
  (p.1.retire n,
    if n < p.1.net.ackFloor ∨ (p.1.net.sent.get n).seq ≠ n then p.2
    else (p.1.net.sent.get n).rocks.foldl
      (fun f r => Function.update f r.1 (byNumber (s.shown n).changes 0 r.1)) p.2)

def heardBy (a : Ack) : ℕ → ℕ := ((s.link.net.names a).foldl s.retire (s.link, s.heard)).2

def heardAfter : LinkAct z → ℕ → ℕ
  | .ackArrives j =>
    match s.link.acks[j]? with
    | some w => s.heardBy w.ack
    | none => s.heard
  | .forged a => s.heardBy a
  | _ => s.heard

def tookRocks (n : ℕ) (rocks : List (ℕ × ℕ)) : ℕ → Option RockState :=
  rocks.foldl (fun f r => Function.update f r.1
    (byNumber (fun i => some ((s.shown n).sim.rockState i)) none r.1)) s.held

/-- What the client holds once it was given datagram `n`. -/
def heldAfter : LinkAct z → ℕ → Option RockState
  | .deliver n =>
    match s.link.log[n]? with
    | some (some o) =>
      if (s.link.client.onDatagram o.datagram).2 && ! o.datagram.more then
        s.tookRocks n o.datagram.rocks
      else s.held
    | _ => s.held
  | _ => s.held

def step : QuarryAct z → Quarry z cap
  | .link a =>
    { s with
      link := s.link.step (s.seen a)
      shown := Function.update s.shown s.link.log.length s.rocks
      heard := s.heardAfter a
      held := s.heldAfter a }
  | .rockHit i amount kind t => { s with rocks := s.rocks.rockHit i amount kind t }
  | .fieldStep near t => { s with rocks := s.rocks.fieldStep near t }

def run (s : Quarry z cap) (acts : List (QuarryAct z)) : Quarry z cap := acts.foldl step s

/-- A step in whose course the datagrams' numbers keep naming what they should. -/
def InReach : QuarryAct z → Prop
  | .link a => s.link.InReach a
  | _ => True

end Quarry

namespace Link

variable {z : Sizes} {s : Link z}

def CarriesRock (s : Link z) (n i : ℕ) : Prop :=
  ∃ o, s.Sent n o ∧ i ∈ o.datagram.rocks.map Prod.fst

theorem carriesRock_step (a : LinkAct z) {n i : ℕ} (hn : n < s.log.length) :
    (s.step a).CarriesRock n i ↔ s.CarriesRock n i := by
  unfold CarriesRock Sent
  rw [getElem?_log_step a hn]

theorem CarriesRock.lt {n i : ℕ} (h : s.CarriesRock n i) : n < s.log.length := by
  obtain ⟨o, ho, -⟩ := h
  exact sent_lt ho

end Link

theorem buildSnapshot_rocks {z : Sizes} {deltas : Bool} {ring : EventRing z.events} {v : View z}
    {room : Space} {gone : ℕ} {c : ClientState} {o : Outgoing z}
    (h : (buildSnapshot deltas ring v room gone c).out = some o) :
    o.datagram.rocks = rocksFor c v room ∧ o.datagram.more = false := by
  unfold buildSnapshot at h
  dsimp only at h
  split at h
  · rw [← Option.some.inj h]
    exact ⟨rfl, rfl⟩
  · cases h

theorem buildMore_rocks {z : Sizes} {deltas : Bool} {ring : EventRing z.events} {t : ℕ}
    {suits : List (SeenSuit z)} {room : Space} {gone : ℕ} {c : ClientState} {o : Outgoing z}
    (h : (buildMore deltas ring t suits room gone c).out = some o) : o.datagram.rocks = [] := by
  unfold buildMore at h
  dsimp only at h
  split at h
  · split at h
    · cases h
    · rw [← Option.some.inj h]
      rfl
  · cases h

namespace Quarry

variable {z : Sizes} {cap : ℕ} {s : Quarry z cap} {sim : Sim z.rocks cap}

/-! ## What datagrams show -/

/-- Each datagram carried the versions of the rocks it showed, which are some moments of the rocks
since they were generated, in order. -/
structure Shows (sim : Sim z.rocks cap) (s : Quarry z cap) : Prop where
  counted : s.rocks.Counted
  born : (RockStates.new sim).Later s.rocks
  past : ∀ n < s.link.log.length, (s.shown n).Counted ∧ (s.shown n).Later s.rocks
    ∧ ∀ m ≤ n, (s.shown m).Later (s.shown n)
  versions : ∀ n o, s.link.Sent n o →
    ∀ r ∈ o.datagram.rocks, r.2 = byNumber (s.shown n).version 0 r.1
  more : ∀ n o, s.link.Sent n o → o.datagram.more = true → o.datagram.rocks = []

theorem shows_start (seat : Seat z) (sim : Sim z.rocks cap) : (start seat sim).Shows sim where
  counted := RockStates.counted_new sim
  born := .refl _
  past n hn := absurd hn (Nat.not_lt_zero n)
  versions n o h := by simp [Link.Sent, Link.start, start] at h
  more n o h := by simp [Link.Sent, Link.start, start] at h

theorem Shows.mined (h : s.Shows sim) {rocks : RockStates z.rocks cap}
    (hlater : s.rocks.Later rocks) (hcounted : rocks.Counted) :
    Shows sim { s with rocks } where
  counted := hcounted
  born := h.born.trans hlater
  past n hn := by
    obtain ⟨hc, hto, hfrom⟩ := h.past n hn
    exact ⟨hc, hto.trans hlater, hfrom⟩
  versions := h.versions
  more := h.more

theorem shown_step (s : Quarry z cap) (a : LinkAct z) {n : ℕ} (hn : n < s.link.log.length) :
    (s.step (.link a)).shown n = s.shown n :=
  Function.update_of_ne hn.ne _ _

theorem mem_rocksFor_view {v : View z} {room : Space} {c : ClientState} {r : ℕ × ℕ}
    (h : r ∈ rocksFor c (s.view v) room) : r.2 = byNumber s.rocks.version 0 r.1 := by
  have hmem := List.mem_of_mem_filter (List.mem_of_mem_take (List.mem_of_mem_take h))
  obtain ⟨r', -, rfl⟩ := List.mem_map.mp hmem
  rfl

theorem Shows.link (h : s.Shows sim) (a : LinkAct z) : (s.step (.link a)).Shows sim := by
  have hself : (s.step (.link a)).shown s.link.log.length = s.rocks := Function.update_self _ _ _
  have hlen : (s.step (.link a)).link.log.length ≤ s.link.log.length + 1 := by
    rcases s.link.log_step (s.seen a) with heq | ⟨x, heq⟩
    · exact (congrArg List.length heq).le.trans (Nat.le_succ _)
    · exact (congrArg List.length heq).le.trans (by simp)
  -- Only a datagram built now is new, and it shows the rocks as they are.
  have hnew : ∀ n o, (s.step (.link a)).link.Sent n o → s.link.Sent n o
      ∨ n = s.link.log.length ∧ (∀ r ∈ o.datagram.rocks, r.2 = byNumber s.rocks.version 0 r.1)
        ∧ (o.datagram.more = true → o.datagram.rocks = []) := by
    intro n o ho
    rcases Link.sent_step_cases (s.seen a) ho with
      hold | ⟨hn, deltas, v, room, hact, -, hout⟩ | ⟨hn, deltas, room, -, hout⟩
    · exact Or.inl hold
    · cases a with
      | build deltas' v' room' =>
        obtain ⟨hrocks, hmore⟩ := buildSnapshot_rocks hout
        cases hact
        refine Or.inr ⟨hn, fun r hr => ?_, fun h => ?_⟩
        · rw [hrocks] at hr
          exact mem_rocksFor_view hr
        · rw [hmore] at h
          cases h
      | happen e => cases hact
      | more deltas' room' => cases hact
      | deliver m => cases hact
      | sendAck => cases hact
      | ackArrives j => cases hact
      | forged b => cases hact
    · have hrocks := buildMore_rocks hout
      refine Or.inr ⟨hn, fun r hr => ?_, fun _ => hrocks⟩
      rw [hrocks] at hr
      cases hr
  constructor
  · exact h.counted
  · exact h.born
  · intro n hn
    rcases Nat.lt_or_ge n s.link.log.length with hlt | hge
    · obtain ⟨hc, hto, hfrom⟩ := h.past n hlt
      rw [shown_step s a hlt]
      refine ⟨hc, hto, fun m hm => ?_⟩
      rw [shown_step s a (hm.trans_lt hlt)]
      exact hfrom m hm
    · obtain rfl : n = s.link.log.length := by omega
      rw [hself]
      refine ⟨h.counted, .refl _, fun m hm => ?_⟩
      rcases hm.lt_or_eq with hlt | rfl
      · rw [shown_step s a hlt]
        exact (h.past m hlt).2.1
      · rw [hself]
        exact .refl _
  · intro n o ho r hr
    rcases hnew n o ho with hold | ⟨rfl, hversions, -⟩
    · rw [shown_step s a (Link.sent_lt hold)]
      exact h.versions n o hold r hr
    · rw [hself]
      exact hversions r hr
  · intro n o ho
    rcases hnew n o ho with hold | ⟨-, -, hmore⟩
    · exact h.more n o hold
    · exact hmore

/-! ## What acks say -/

/-- The sector has acked the low byte of `f` of each rock, and `f` is what some datagram the client
took showed, if it isn't 0. -/
structure Knows (s : Quarry z cap) (l : Link z) (f : ℕ → ℕ) : Prop where
  version : ∀ i : Fin z.rocks, l.net.rockAcked i = f i % 2 ^ 8
  source : ∀ i : Fin z.rocks, f i = 0
    ∨ ∃ n ∈ l.taken, l.CarriesRock n i ∧ f i = (s.shown n).changes i

theorem knows_start (seat : Seat z) (sim : Sim z.rocks cap) :
    (start seat sim).Knows (start seat sim).link (start seat sim).heard where
  version _ := rfl
  source _ := Or.inl rfl

theorem Knows.retire {l : Link z} {f : ℕ → ℕ} (h : s.Knows l f) (hshows : s.Shows sim)
    (hlog : l.log = s.link.log) (hwf : l.Wf) {n : ℕ} {o : Outgoing z} (ho : l.Sent n o)
    (hn : n ∈ l.taken) : s.Knows (s.retire (l, f) n).1 (s.retire (l, f) n).2 := by
  have hsent : s.link.Sent n o := by rwa [Link.Sent, ← hlog]
  by_cases hcond : n < l.net.ackFloor ∨ (l.net.sent.get n).seq ≠ n
  · have hsame : l.retire n = l := Link.retire_of_net_eq (if_pos hcond)
    simp only [Quarry.retire, hsame, if_pos hcond]
    exact h
  · have hnet : (l.retire n).net = l.net.retired n (l.net.sent.get n) := if_neg hcond
    rw [not_or, not_not] at hcond
    obtain ⟨⟨k, hshape⟩, -⟩ := hwf.intact n o ho hcond.2
    have hrocks : (l.net.sent.get n).rocks = o.datagram.rocks := by
      rw [hshape, (hwf.ok n o ho).rocks]
    have hrun := Link.sameRun_retire l n
    have hcarries : ∀ m i, (l.retire n).CarriesRock m i ↔ l.CarriesRock m i := by
      intro m i
      unfold Link.CarriesRock
      simp only [hrun.sent]
    have hfold : (l.retire n).net.rockAcked = o.datagram.rocks.foldl
        (fun f r => Function.update f r.1 (byNumber (s.shown n).version 0 r.1)) l.net.rockAcked := by
      rw [hnet]
      simp only [ClientState.retired, hrocks]
      apply List.foldl_ext
      intro f r hr
      rw [hshows.versions n o hsent r hr]
    have hcount : (s.retire (l, f) n).2 = o.datagram.rocks.foldl
        (fun f r => Function.update f r.1 (byNumber (s.shown n).changes 0 r.1)) f := by
      simp only [Quarry.retire, hrocks]
      apply if_neg
      rw [not_or, not_not]
      exact hcond
    have hcounted := (hshows.past n (Link.sent_lt hsent)).1
    constructor
    · intro i
      change (l.retire n).net.rockAcked i = _
      rw [hfold, hcount, foldl_update_at, foldl_update_at]
      split
      · rw [byNumber_val, byNumber_val, hcounted i]
      · exact h.version i
    · intro i
      rw [hcount, foldl_update_at]
      split
      · rename_i hi
        right
        refine ⟨n, ?_, (hcarries n i).mpr ⟨o, ho, hi⟩, byNumber_val _ _ _⟩
        change n ∈ (l.retire n).taken
        rw [hrun.taken]
        exact hn
      · refine (h.source i).imp_right ?_
        rintro ⟨m, hm, hcarry, heq⟩
        refine ⟨m, ?_, (hcarries m i).mpr hcarry, heq⟩
        change m ∈ (l.retire n).taken
        rw [hrun.taken]
        exact hm

theorem Knows.retireAll (hshows : s.Shows sim) (ns : List ℕ) {l : Link z} {f : ℕ → ℕ}
    (h : s.Knows l f) (hlog : l.log = s.link.log) (hwf : l.Wf)
    (hns : ∀ n ∈ ns, n ∈ l.taken ∧ ∃ o, l.Sent n o) :
    s.Knows (ns.foldl s.retire (l, f)).1 (ns.foldl s.retire (l, f)).2
      ∧ (ns.foldl s.retire (l, f)).1 = ns.foldl Link.retire l := by
  induction ns generalizing l f with
  | nil => exact ⟨h, rfl⟩
  | cons n rest ih =>
    obtain ⟨hn, o, ho⟩ := hns n List.mem_cons_self
    have hrun := Link.sameRun_retire l n
    refine ih (h.retire hshows hlog hwf ho hn) (hrun.log.trans hlog) (hwf.retire n).1 ?_
    intro m hm
    obtain ⟨htaken, o', ho'⟩ := hns m (List.mem_cons_of_mem _ hm)
    refine ⟨?_, o', (hrun.sent m o').mpr ho'⟩
    rw [hrun.taken]
    exact htaken

theorem Knows.of_same (h : s.Knows s.link s.heard) {t : Quarry z cap}
    (hacked : t.link.net.rockAcked = s.link.net.rockAcked) (hcount : t.heard = s.heard)
    (htaken : ∀ n ∈ s.link.taken, n ∈ t.link.taken)
    (hshown : ∀ n < s.link.log.length, t.shown n = s.shown n)
    (hcarries : ∀ n < s.link.log.length, ∀ i, s.link.CarriesRock n i → t.link.CarriesRock n i) :
    t.Knows t.link t.heard where
  version i := by rw [hacked, hcount]; exact h.version i
  source i := by
    rw [hcount]
    refine (h.source i).imp_right ?_
    rintro ⟨n, hn, hcarry, heq⟩
    refine ⟨n, htaken n hn, hcarries n hcarry.lt i hcarry, ?_⟩
    rw [hshown n hcarry.lt]
    exact heq

theorem Knows.link (h : s.Knows s.link s.heard) (hshows : s.Shows sim) (hwf : s.link.Wf)
    (hheard : s.link.Heard) {a : LinkAct z} (hreach : s.link.InReach a) :
    (s.step (.link a)).Knows (s.step (.link a)).link (s.step (.link a)).heard := by
  have htaken : s.link.taken <+: (s.link.step (s.seen a)).taken := s.link.taken_grows _
  have hquiet : s.heardAfter a = s.heard → SameAcks s.link.net (s.link.step (s.seen a)).net →
      (s.step (.link a)).Knows (s.step (.link a)).link (s.step (.link a)).heard :=
    fun hcount hsame => h.of_same hsame.rockAcked hcount (fun n hn => htaken.subset hn)
      (fun n hn => shown_step s a hn) fun n hn i => (Link.carriesRock_step _ hn).mpr
  have hsame : (∀ ack, ¬ s.link.Receives (s.seen a) ack) →
      SameAcks s.link.net (s.link.step (s.seen a)).net := by
    intro hnone
    rcases s.link.step_cases (s.seen a) with ⟨hsame, -, -⟩ | ⟨ack, hrec, -⟩
    · exact hsame
    · exact absurd hrec (hnone ack)
  cases a with
  | ackArrives j =>
    cases hj : s.link.acks[j]? with
    | none =>
      apply hquiet
      · simp only [heardAfter, hj]
      · apply hsame
        rintro ack ⟨w, hw, -⟩
        rw [hj] at hw
        cases hw
    | some w =>
      have hnames := hheard.names_taken hwf hj hreach
      obtain ⟨hknows, hlink⟩ := h.retireAll hshows (s.link.net.names w.ack) rfl hwf
        fun n hn => ⟨hnames n hn, hheard.sent n (hnames n hn)⟩
      have hstep : s.link.step (s.seen (.ackArrives j)) = s.link.ackBy w.ack := by
        simp only [seen, Link.step, hj]
      have hcount : (s.step (.link (.ackArrives j))).heard = s.heardBy w.ack := by
        change s.heardAfter (.ackArrives j) = _
        simp only [heardAfter, hj]
      have hnet : (s.step (.link (.ackArrives j))).link.net
          = ((s.link.net.names w.ack).foldl s.retire (s.link, s.heard)).1.net := by
        change (s.link.step (s.seen (.ackArrives j))).net = _
        rw [hstep, hlink]
        rfl
      have hrun := Link.sameRun_retireAll s.link (s.link.net.names w.ack)
      rw [hlink] at hknows
      constructor
      · intro i
        rw [hnet, hlink, hcount]
        exact hknows.version i
      · intro i
        rw [hcount]
        refine (hknows.source i).imp_right ?_
        rintro ⟨n, hn, ⟨o, ho, hi⟩, heq⟩
        have hsent : s.link.Sent n o := (hrun.sent n o).mp ho
        rw [hrun.taken] at hn
        refine ⟨n, htaken.subset hn, ⟨o, Link.sent_step _ hsent, hi⟩, ?_⟩
        rw [shown_step s _ (Link.sent_lt hsent)]
        exact heq
  | forged b => exact absurd hreach.2 id
  | happen e => exact hquiet rfl (hsame fun _ hrec => hrec)
  | build deltas v room => exact hquiet rfl (hsame fun _ hrec => hrec)
  | more deltas room => exact hquiet rfl (hsame fun _ hrec => hrec)
  | deliver n => exact hquiet rfl (hsame fun _ hrec => hrec)
  | sendAck => exact hquiet rfl (hsame fun _ hrec => hrec)

/-! ## What the client holds -/

/-- Of each rock the client holds what the last datagram it took with the rock in showed. -/
def Holds (s : Quarry z cap) : Prop :=
  ∀ i : Fin z.rocks, (s.held i = none ∧ ∀ n ∈ s.link.taken, ¬ s.link.CarriesRock n i)
    ∨ ∃ n ∈ s.link.taken, s.held i = some ((s.shown n).sim.rockState i)
      ∧ ∀ m ∈ s.link.taken, s.link.CarriesRock m i → m ≤ n

theorem holds_start (seat : Seat z) (sim : Sim z.rocks cap) : (start seat sim).Holds :=
  fun _ => Or.inl ⟨rfl, fun _ hn => (nomatch hn)⟩

theorem Holds.of_same (h : s.Holds) (hheard : s.link.Heard) {t : Quarry z cap}
    (hheld : t.held = s.held) (htaken : t.link.taken = s.link.taken)
    (hshown : ∀ n < s.link.log.length, t.shown n = s.shown n)
    (hcarries : ∀ n < s.link.log.length, ∀ i, t.link.CarriesRock n i ↔ s.link.CarriesRock n i) :
    t.Holds := by
  have hlt : ∀ n ∈ s.link.taken, n < s.link.log.length := by
    intro n hn
    obtain ⟨o, ho⟩ := hheard.sent n hn
    exact Link.sent_lt ho
  intro i
  rw [hheld, htaken]
  rcases h i with ⟨hnone, hall⟩ | ⟨n, hn, hsome, hall⟩
  · refine Or.inl ⟨hnone, fun n hn => ?_⟩
    rw [hcarries n (hlt n hn)]
    exact hall n hn
  · refine Or.inr ⟨n, hn, ?_, fun m hm => ?_⟩
    · rw [hshown n (hlt n hn)]
      exact hsome
    · rw [hcarries m (hlt m hm)]
      exact hall m hm

theorem Holds.deliver (h : s.Holds) (hshows : s.Shows sim) (hwf : s.link.Wf)
    (hheard : s.link.Heard) {n : ℕ} (hreach : s.link.InReach (.deliver n)) :
    (s.step (.link (.deliver n))).Holds := by
  have hcarries : ∀ m < s.link.log.length, ∀ i,
      (s.link.step (.deliver n)).CarriesRock m i ↔ s.link.CarriesRock m i :=
    fun m hm i => Link.carriesRock_step _ hm
  have hsame : (s.link.step (.deliver n)).taken = s.link.taken →
      s.heldAfter (.deliver n) = s.held → (s.step (.link (.deliver n))).Holds :=
    fun htaken hheld => h.of_same hheard hheld htaken (fun m hm => shown_step s _ hm) hcarries
  cases hn : s.link.log[n]? with
  | none =>
    apply hsame
    · simp only [Link.step, hn]
    · simp only [heldAfter, hn]
  | some entry =>
    cases entry with
    | none =>
      apply hsame
      · simp only [Link.step, hn]
      · simp only [heldAfter, hn]
    | some o =>
      have htaken : (s.link.step (.deliver n)).taken
          = if (s.link.client.onDatagram o.datagram).2 then s.link.taken ++ [n]
            else s.link.taken := by
        simp only [Link.step, hn]
      have hheld : s.heldAfter (.deliver n)
          = if (s.link.client.onDatagram o.datagram).2 && ! o.datagram.more then
              s.tookRocks n o.datagram.rocks
            else s.held := by
        simp only [heldAfter, hn]
      rcases s.link.client.onDatagram_cases o.datagram with
        ⟨-, heq⟩ | ⟨-, -, heq⟩ | ⟨hnew, qs, -, heq⟩
      · rw [heq] at htaken hheld
        exact hsame htaken hheld
      · rw [heq] at htaken hheld
        exact hsame htaken hheld
      · rw [heq] at htaken hheld
        simp only [if_true, Bool.true_and] at htaken hheld
        have hlast := (hheard.take hwf hn hreach hnew).1
        have hlt := Link.sent_lt hn
        have hfold : s.heldAfter (.deliver n) = s.tookRocks n o.datagram.rocks := by
          rw [hheld]
          cases hmore : o.datagram.more with
          | false => rfl
          | true =>
            rw [hshows.more n o hn hmore]
            rfl
        have hcarry : ∀ i, s.link.CarriesRock n i ↔ i ∈ o.datagram.rocks.map Prod.fst := by
          intro i
          constructor
          · rintro ⟨o', ho', hi⟩
            rw [Link.Sent, hn] at ho'
            cases ho'
            exact hi
          · exact fun hi => ⟨o, hn, hi⟩
        have hmlt : ∀ m ∈ s.link.taken, m < s.link.log.length := fun m hm => (hlast m hm).trans hlt
        intro i
        change (s.heldAfter (.deliver n) i = none ∧ ∀ m ∈ (s.link.step (.deliver n)).taken,
            ¬ (s.link.step (.deliver n)).CarriesRock m i) ∨ ∃ m ∈ (s.link.step (.deliver n)).taken,
          s.heldAfter (.deliver n) i
              = some (((s.step (.link (.deliver n))).shown m).sim.rockState i)
            ∧ ∀ k ∈ (s.link.step (.deliver n)).taken,
              (s.link.step (.deliver n)).CarriesRock k i → k ≤ m
        rw [hfold, tookRocks, foldl_update_at, htaken]
        by_cases hi : (i : ℕ) ∈ o.datagram.rocks.map Prod.fst
        · right
          refine ⟨n, List.mem_append_right _ (List.mem_singleton_self n), ?_, fun k hk _ => ?_⟩
          · rw [if_pos hi, byNumber_val, shown_step s _ hlt]
          · rcases List.mem_append.mp hk with hk | hk
            · exact (hlast k hk).le
            · exact (List.mem_singleton.mp hk).le
        · rw [if_neg hi]
          have hnot : ¬ (s.link.step (.deliver n)).CarriesRock n i := by
            rw [hcarries n hlt, hcarry]
            exact hi
          rcases h i with ⟨hnone, hall⟩ | ⟨m, hm, hsome, hall⟩
          · refine Or.inl ⟨hnone, fun m hm => ?_⟩
            rcases List.mem_append.mp hm with hm | hm
            · rw [hcarries m (hmlt m hm)]
              exact hall m hm
            · rw [List.mem_singleton.mp hm]
              exact hnot
          · refine Or.inr ⟨m, List.mem_append_left _ hm, ?_, fun k hk hki => ?_⟩
            · rw [shown_step s _ (hmlt m hm)]
              exact hsome
            · rcases List.mem_append.mp hk with hk | hk
              · rw [hcarries k (hmlt k hk)] at hki
                exact hall k hk hki
              · rw [List.mem_singleton.mp hk] at hki
                exact absurd hki hnot

theorem Holds.link (h : s.Holds) (hshows : s.Shows sim) (hwf : s.link.Wf) (hheard : s.link.Heard)
    {a : LinkAct z} (hreach : s.link.InReach a) : (s.step (.link a)).Holds := by
  have hquiet : (s.link.step (s.seen a)).taken = s.link.taken → s.heldAfter a = s.held →
      (s.step (.link a)).Holds := fun htaken hheld =>
    h.of_same hheard hheld htaken (fun n hn => shown_step s a hn)
      fun n hn i => Link.carriesRock_step _ hn
  cases a with
  | deliver n => exact h.deliver hshows hwf hheard hreach
  | happen e => exact hquiet rfl rfl
  | build deltas v room =>
    refine hquiet ?_ rfl
    simp only [seen, Link.step]
    split <;> rfl
  | more deltas room =>
    refine hquiet ?_ rfl
    simp only [seen, Link.step]
    split <;> rfl
  | sendAck => exact hquiet rfl rfl
  | ackArrives j =>
    refine hquiet ?_ rfl
    simp only [seen, Link.step]
    split
    · exact (Link.sameRun_ackBy s.link _).taken
    · rfl
  | forged b => exact hquiet (Link.sameRun_ackBy s.link b).taken rfl

/-! ## Runs -/

structure Sound (sim : Sim z.rocks cap) (s : Quarry z cap) : Prop where
  wf : s.link.Wf
  heard : s.link.Heard
  shows : s.Shows sim
  knows : s.Knows s.link s.heard
  holds : s.Holds

theorem inReach_seen {a : LinkAct z} (h : s.link.InReach a) : s.link.InReach (s.seen a) := by
  obtain ⟨⟨hseq, hfew⟩, hreach⟩ := h
  cases a with
  | build deltas v room =>
    have hsame := s.link.happened_step (a := .build deltas v room) fun _ h => nomatch h
    refine ⟨⟨hseq, s.link.few_step (fun _ h => nomatch h) ?_⟩, hreach⟩
    rwa [Link.Few, hsame] at hfew
  | _ => exact ⟨⟨hseq, hfew⟩, hreach⟩

theorem Sound.step (h : s.Sound sim) {a : QuarryAct z} (hreach : s.InReach a) :
    (s.step a).Sound sim := by
  cases a with
  | link a =>
    exact ⟨h.wf.step _, h.heard.step h.wf (inReach_seen hreach), h.shows.link a,
      h.knows.link h.shows h.wf h.heard hreach, h.holds.link h.shows h.wf h.heard hreach⟩
  | rockHit i amount kind t =>
    exact ⟨h.wf, h.heard, h.shows.mined (RockStates.later_rockHit _ i amount kind t)
      (h.shows.counted.rockHit i amount kind t), ⟨h.knows.version, h.knows.source⟩, h.holds⟩
  | fieldStep near t =>
    obtain ⟨hlater, hcounted⟩ := RockStates.fieldStep_keeps near t h.shows.counted
    exact ⟨h.wf, h.heard, h.shows.mined hlater hcounted, ⟨h.knows.version, h.knows.source⟩, h.holds⟩

theorem sound_run (seat : Seat z) (sim : Sim z.rocks cap) {acts : List (QuarryAct z)}
    (h : Run.Along step InReach (start seat sim) acts) : ((start seat sim).run acts).Sound sim :=
  Run.invariant (fun _ _ hs hreach => hs.step hreach)
    ⟨Link.wf_start seat, Link.heard_start seat, shows_start seat sim, knows_start seat sim,
      holds_start seat sim⟩ h

theorem Sound.state_shown (h : s.Sound sim) {n : ℕ} (hn : n ∈ s.link.taken) {i : Fin z.rocks}
    (hcount : s.rocks.changes i ≤ (s.shown n).changes i) :
    (s.shown n).sim.rockState i = s.rocks.sim.rockState i := by
  obtain ⟨o, ho⟩ := h.heard.sent n hn
  obtain ⟨hle, hsame⟩ := (h.shows.past n (Link.sent_lt ho)).2.1 i
  exact (hsame (by omega)).symm

theorem Sound.current (h : s.Sound sim) {i : Fin z.rocks}
    (hnear : s.rocks.changes i < s.heard i + 2 ^ 8)
    (hversion : s.link.net.rockAcked i = s.rocks.version i) :
    (s.held i).getD ((RockStates.new sim).sim.rockState i) = s.rocks.sim.rockState i := by
  rw [h.knows.version i, h.shows.counted i] at hversion
  rcases h.knows.source i with hzero | ⟨n, hn, hcarry, hcount⟩
  · have hnone : s.rocks.changes i = 0 := by omega
    rcases h.holds i with ⟨hheld, -⟩ | ⟨m, hm, hheld, -⟩
    · rw [hheld]
      exact ((h.shows.born i).2 hnone).symm
    · rw [hheld]
      exact h.state_shown hm (hnone.trans_le (Nat.zero_le _))
  · obtain ⟨-, hto, -⟩ := h.shows.past n hcarry.lt
    have hle := (hto i).1
    have hsame : s.rocks.changes i = (s.shown n).changes i := by omega
    rcases h.holds i with ⟨-, hnever⟩ | ⟨m, hm, hheld, hlast⟩
    · exact absurd hcarry (hnever n hn)
    · -- The client may have taken a later datagram with the rock in: it showed the same.
      obtain ⟨o, ho⟩ := h.heard.sent m hm
      have hlater := ((h.shows.past m (Link.sent_lt ho)).2.2 n (hlast n hn hcarry) i).1
      rw [hheld]
      exact h.state_shown hm (by omega)

/-- A client the sector thinks up to date with a rock holds its state, the one it was generated with
if it holds none, unless 256 changes followed the version acked. -/
theorem rock_versions_mean_states (seat : Seat z) (sim : Sim z.rocks cap)
    (acts : List (QuarryAct z)) (h : Run.Along step InReach (start seat sim) acts) :
    let s := (start seat sim).run acts
    ∀ i : Fin z.rocks, s.rocks.changes i < s.heard i + 2 ^ 8 →
      s.link.net.rockAcked i = s.rocks.version i →
      (s.held i).getD ((RockStates.new sim).sim.rockState i) = s.rocks.sim.rockState i :=
  fun _ => (sound_run seat sim h).current

def oneRock : Sim 1 0 := Sim.opened (fun _ => ⟨10, 0⟩) Fin.elim0 Fin.elim0

/-- The rock is hit, and the client takes it and acks it. -/
def hitActs : List (QuarryAct ⟨1, 1, 16⟩) :=
  [.rockHit (Fin.last 0) 100 .machineCannon 0, .link (.build true (Link.rockView 0) wide), .link (.deliver 0),
    .link .sendAck, .link (.ackArrives 0)]

theorem rock_versions_mean_states_hit :
    (((start (firstSeat ⟨1, 1, 16⟩) oneRock).run hitActs).held 0).getD ⟨0, false, 7, 15⟩
        = ((start (firstSeat ⟨1, 1, 16⟩) oneRock).run hitActs).rocks.sim.rockState 0
      ∧ ((start (firstSeat ⟨1, 1, 16⟩) oneRock).run hitActs).held 0
        = some ⟨0, false, 5, 15⟩ := by
  have hstart : (RockStates.new oneRock).sim.rockState 0 = ⟨0, false, 7, 15⟩ := by decide +kernel
  refine ⟨?_, by decide +kernel⟩
  rw [← hstart]
  refine rock_versions_mean_states (firstSeat ⟨1, 1, 16⟩) oneRock hitActs ?_ 0
    (by decide +kernel) (by decide +kernel)
  refine ⟨trivial, ⟨by decide +kernel, trivial⟩, ⟨by decide +kernel, ?_⟩,
    ⟨by decide +kernel, trivial⟩, ⟨by decide +kernel, ?_⟩, trivial⟩
  · change ite _ _ _
    decide +kernel
  · intro w _ _
    apply Nat.le_add_left_of_le
    decide +kernel

/-! ## A version come round -/

structure Whole (s : RockStates 1 0) (k : ℕ) : Prop where
  field : s.sim.field = fun _ => ⟨10, 0⟩
  hp : (s.sim.rocks 0).hp = 310
  oreKg : (s.sim.rocks 0).oreKg = 2000
  destroyed : (s.sim.rocks 0).destroyed = false
  version : s.version 0 = k % 2 ^ 8

theorem whole_new : Whole (RockStates.new oneRock) 0 :=
  ⟨rfl, by decide +kernel, by decide +kernel, rfl, rfl⟩

theorem rocks_shatter {n cap : ℕ} (s : Sim n cap) (i : Fin n) (t : ℕ) :
    (s.shatter i t).rocks i = ⟨0, 0, true, t + regrowAfter⟩ :=
  Sim.rocks_setRock _ i _

theorem rockHit_breaks {s : RockStates 1 0} (h : (s.sim.rocks 0).destroyed = false)
    (hhp : (s.sim.rocks 0).hp ≤ 400) (t : ℕ) :
    ∃ hit : Sim 1 0, hit.rocks 0 = ⟨0, 0, true, t + regrowAfter⟩ ∧ hit.field = s.sim.field
      ∧ s.rockHit 0 400 .machineCannon t = { s with sim := hit }.touch 0 := by
  have hbreaks : (s.sim.rockHit 0 400 .machineCannon t).rocks 0
      = ⟨0, 0, true, t + regrowAfter⟩ := by
    have hmultiplier : rockMultiplier .machineCannon = 1 := rfl
    unfold Sim.rockHit
    dsimp only
    rw [if_neg (by simp [h]), if_pos]
    · exact rocks_shatter _ 0 t
    · rw [hmultiplier]
      linarith
  have hfield : (s.sim.rockHit 0 400 .machineCannon t).field = s.sim.field :=
    (Sim.sameBut_rockHit s.sim 0 400 .machineCannon t).field
  refine ⟨_, hbreaks, hfield, ?_⟩
  rw [RockStates.rockHit]
  simp only [h, hbreaks]
  rfl

/-- The rock breaks, and grows back at the tick it may. -/
theorem Whole.cycle {s : RockStates 1 0} {k : ℕ} (h : Whole s k) {t : ℕ} (ht : t % 30 = 0) :
    Whole ((s.rockHit 0 400 .machineCannon t).fieldStep (fun _ => false) (t + regrowAfter)) (k + 2) := by
  obtain ⟨hit, hshatter, hfield, hbroken⟩ := rockHit_breaks h.destroyed (h.hp.trans_le (by norm_num)) t
  have hgrown : (Sim.regrow (fun _ => false) (t + regrowAfter) hit 0).rocks 0
        = ⟨310, 2000, false, t + regrowAfter⟩
      ∧ (Sim.regrow (fun _ => false) (t + regrowAfter) hit 0).field = fun _ => ⟨10, 0⟩ := by
    have hsame := Sim.sameBut_regrow (fun _ => false) (t + regrowAfter) hit 0
    refine ⟨?_, by rw [hsame.field, hfield, h.field]⟩
    unfold Sim.regrow
    dsimp only
    rw [hshatter, if_neg (by simp), if_neg (by simp), Sim.rocks_setRock, hfield, h.field]
    simp only [MinedRock.mk.injEq]
    exact ⟨by decide +kernel, by decide +kernel, trivial, trivial⟩
  have hstep : ({ s with sim := hit }.touch 0).fieldStep (fun _ => false) (t + regrowAfter)
      = ({ ({ s with sim := hit }.touch 0) with
          sim := Sim.regrow (fun _ => false) (t + regrowAfter) hit 0 }).touch 0 := by
    have hdue : (t + regrowAfter) % 30 = 0 := by
      rw [show regrowAfter = 30 * 600 from rfl]
      omega
    rw [RockStates.fieldStep, if_neg (by simp [hdue])]
    change RockStates.regrow _ _ _ 0 = _
    rw [RockStates.regrow]
    simp only [RockStates.touch, hshatter, hgrown.1]
    rfl
  rw [hbroken, hstep]
  constructor
  · exact hgrown.2
  · exact congrArg MinedRock.hp hgrown.1
  · exact congrArg MinedRock.oreKg hgrown.1
  · exact congrArg MinedRock.destroyed hgrown.1
  · simp only [RockStates.touch, Function.update_self, h.version]
    omega

/-- The rock is worn down and broken, and tells none of it. -/
theorem Whole.wears_down {s : RockStates 1 0} {k : ℕ} (h : Whole s k) (t : ℕ) :
    (((s.rockHit 0 200 .machineCannon t).rockHit 0 400 .machineCannon t).version 0 = (k + 2) % 2 ^ 8)
      ∧ (((s.rockHit 0 200 .machineCannon t).rockHit 0 400 .machineCannon t).sim.rockState 0).destroyed
        = true := by
  have hchip : (s.sim.rockHit 0 200 .machineCannon t).rocks 0
      = { s.sim.rocks 0 with hp := 310 - 200 * rockMultiplier .machineCannon } := by
    unfold Sim.rockHit
    dsimp only
    rw [if_neg (by simp [h.destroyed]), if_neg]
    · rw [h.hp]
      exact Sim.rocks_setRock s.sim 0 _
    · rw [h.hp]
      decide +kernel
  have hfield : (s.sim.rockHit 0 200 .machineCannon t).field = fun _ => ⟨10, 0⟩ :=
    (Sim.sameBut_rockHit s.sim 0 200 .machineCannon t).field.trans h.field
  have hstate : (s.sim.rockHit 0 200 .machineCannon t).rockState 0 ≠ s.sim.rockState 0 := by
    rw [Sim.rockState, Sim.rockState, hchip, hfield, h.field, h.hp, h.oreKg, h.destroyed]
    dsimp only
    decide +kernel
  have hworn : s.rockHit 0 200 .machineCannon t
      = { s with sim := s.sim.rockHit 0 200 .machineCannon t }.touch 0 := by
    have hdestroyed : ((s.sim.rockHit 0 200 .machineCannon t).rocks 0).destroyed = false := by
      rw [hchip]
      exact h.destroyed
    rw [RockStates.rockHit]
    simp only [h.destroyed, hdestroyed, Bool.false_eq_true, if_false]
    exact if_pos hstate
  rw [hworn]
  have hwhole : (({ s with sim := s.sim.rockHit 0 200 .machineCannon t }.touch 0).sim.rocks 0).destroyed
      = false := by
    change ((s.sim.rockHit 0 200 .machineCannon t).rocks 0).destroyed = false
    rw [hchip]
    exact h.destroyed
  have hleft : (({ s with sim := s.sim.rockHit 0 200 .machineCannon t }.touch 0).sim.rocks 0).hp
      ≤ 400 := by
    change ((s.sim.rockHit 0 200 .machineCannon t).rocks 0).hp ≤ 400
    rw [hchip]
    dsimp only
    decide +kernel
  obtain ⟨hit, hshatter, -, hbroken⟩ := rockHit_breaks hwhole hleft t
  rw [hbroken]
  constructor
  · simp only [RockStates.touch, Function.update_self, h.version]
    omega
  · exact congrArg MinedRock.destroyed hshatter

/-- `k` times the rock breaks and grows back, from tick `t` on. -/
def cycleActs (t : ℕ) : ℕ → List (QuarryAct ⟨1, 1, 16⟩)
  | 0 => []
  | k + 1 => .rockHit (Fin.last 0) 400 .machineCannon t :: .fieldStep (fun _ => false) (t + regrowAfter)
    :: cycleActs (t + regrowAfter) k

/-- Mining alone leaves the stream and what the client holds as they are. -/
structure Idle (s t : Quarry ⟨1, 1, 16⟩ 0) : Prop where
  link : t.link = s.link
  held : t.held = s.held

theorem Idle.trans {s t u : Quarry ⟨1, 1, 16⟩ 0} (h : Idle s t) (h' : Idle t u) : Idle s u :=
  ⟨h'.link.trans h.link, h'.held.trans h.held⟩

theorem idle_rockHit (s : Quarry ⟨1, 1, 16⟩ 0) (i : Fin 1) (amount : ℚ) (kind : WeaponKind) (t : ℕ) :
    Idle s (s.step (.rockHit i amount kind t)) := ⟨rfl, rfl⟩

theorem idle_fieldStep (s : Quarry ⟨1, 1, 16⟩ 0) (near : Fin 1 → Bool) (t : ℕ) :
    Idle s (s.step (.fieldStep near t)) := ⟨rfl, rfl⟩

theorem run_cycle (s : Quarry ⟨1, 1, 16⟩ 0) (t k : ℕ) : s.run (cycleActs t (k + 1)) =
    ((s.step (.rockHit (Fin.last 0) 400 .machineCannon t)).step
      (.fieldStep (fun _ => false) (t + regrowAfter))).run (cycleActs (t + regrowAfter) k) := rfl

theorem whole_cycles (k : ℕ) {s : Quarry ⟨1, 1, 16⟩ 0} {m t : ℕ} (h : Whole s.rocks m)
    (ht : t % 30 = 0) : Whole (s.run (cycleActs t k)).rocks (m + 2 * k)
      ∧ Idle s (s.run (cycleActs t k)) := by
  induction k generalizing s m t with
  | zero => exact ⟨h, rfl, rfl⟩
  | succ k ih =>
    have hnext : (t + regrowAfter) % 30 = 0 := by
      rw [show regrowAfter = 30 * 600 from rfl]
      omega
    have hcycle : Whole ((s.step (.rockHit (Fin.last 0) 400 .machineCannon t)).step
        (.fieldStep (fun _ => false) (t + regrowAfter))).rocks (m + 2) := h.cycle ht
    rw [run_cycle, show m + 2 * (k + 1) = m + 2 + 2 * k by omega]
    obtain ⟨hwhole, hrest⟩ := ih hcycle hnext
    exact ⟨hwhole, ((idle_rockHit s _ _ _ t).trans (idle_fieldStep _ _ _)).trans hrest⟩

/-- After 256 changes a rock's version is again what it was at first: a client that came since isn't
told that the rock is gone. -/
theorem version_comes_round :
    let s := ((start (firstSeat ⟨1, 1, 16⟩) oneRock).run (cycleActs 0 127)).run
      [.rockHit 0 200 .machineCannon 2286000, .rockHit 0 400 .machineCannon 2286000]
    s.link.net.rockAcked 0 = s.rocks.version 0 ∧ s.held 0 = none
      ∧ (s.rocks.sim.rockState 0).destroyed = true
      ∧ ((RockStates.new oneRock).sim.rockState 0).destroyed = false := by
  obtain ⟨hwhole, hlink, hheld⟩ := whole_cycles 127
    (s := start (firstSeat ⟨1, 1, 16⟩) oneRock) (t := 0) whole_new rfl
  obtain ⟨hversion, hgone⟩ := hwhole.wears_down 2286000
  generalize (start (firstSeat ⟨1, 1, 16⟩) oneRock).run (cycleActs 0 127) = s at *
  have hacked : s.link.net.rockAcked 0 = 0 := by
    rw [hlink]
    rfl
  have hnone : s.held 0 = none := by
    rw [hheld]
    rfl
  exact ⟨hacked.trans hversion.symm, hnone, hgone, rfl⟩

end Quarry

end BeforeColony
