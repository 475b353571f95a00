import BeforeColony.Server.Leases

/-!
# Launches

Where a pilot's suit is, from the launch that asks for a seat to the session's end. Each pilot's part
of the invariant (`Life`) is about their session, the slot it flies in and their own suits, so what
anyone else does leaves it alone.
-/

set_option autoImplicit false

namespace BeforeColony.Seats

open Lib

/-! ## A pilot's part -/

def Verb.seats : Verb → Bool
  | .join _ _ | .board => true
  | _ => false

/-- What neither seats anyone nor lets them go. -/
def Verb.calm : Verb → Bool
  | .dock | .eject _ | .claim | .tow => true
  | _ => false

/-- What there is to tell of suits: that they came home, or were lost. -/
def Berth.fates (b : Berth) : List Note := b.mail.filter (·.report.ties false)

/-- Where the session's suit is, or is asked for, or is being left. -/
def Session.post? (a : Session) : Option SlotId :=
  match a.stage with
  | .seating errand _ => some (a.seat errand)
  | .play => a.suit.map fun _ => a.flying
  | .leavingColony n => some ⟨.colony, n⟩
  | .leavingSpace => some a.main
  | _ => none

def Abroad (s : Seats) (pilot suit : ℕ) : Prop :=
  ∃ craft, s.suits suit = some craft ∧ craft.own = true ∧ craft.pilot = pilot ∧ craft.shape ≠ .wreck

/-- Whatever the pilot has out there sleeps where the record says. -/
def Abed (s : Seats) (pilot : ℕ) (r : HangarRecord) : Prop :=
  ∀ suit, s.Abroad pilot suit → s.shape? suit = some .asleep ∧ r.bay = .out ∧ r.sleeper = some suit

/-- What the record says sleeps out there is the pilot's, or gone. -/
def Bedded (s : Seats) (pilot : ℕ) (r : HangarRecord) : Prop :=
  ∀ suit, r.sleeper = some suit → suit < s.nextSuit ∧
    ∀ craft, s.suits suit = some craft → craft.pilot = pilot

def onRecord (signedIn : ℕ → Bool) (s : Seats) (pilot : ℕ) : HangarRecord :=
  if signedIn pilot then s.records pilot else .new

structure Client.Fits (s : Seats) (pilot : ℕ) (sl : SlotId) (b : Berth) (c : Client) : Prop where
  unheard : c.lost = false → b.fates = []
  down : c.lost = true → s.shape? c.suit ≠ some .awake
  loss : ∀ note ∈ b.fates, note.report ≠ .home
  state : b.status.state = .active
  suit : b.status.suit = some c.suit
  up : s.shape? c.suit ≠ some .asleep
  lt : c.suit < s.nextSuit
  craft : ∀ craft, s.suits c.suit = some craft → craft.pilot = pilot ∧ craft.side = sl.side

structure Sits (s : Seats) (pilot : ℕ) (bay : Bay) (sl : SlotId) (away : ℕ → Prop) : Prop where
  fits : ∀ c, (s.berths sl).client = some c → c.Fits s pilot sl (s.berths sl)
  short : (s.berths sl).fates.length ≤ 1
  space : ∀ note ∈ (s.berths sl).fates, note.report ≠ .home → sl.side = .space
  bed : ∀ suit, (s.berths sl).status.asleep = some suit → suit < s.nextSuit ∧
    ∀ craft, s.suits suit = some craft → craft.pilot = pilot
  abroad : ∀ suit, s.Abroad pilot suit → bay = .out ∧
    ((∃ c, (s.berths sl).client = some c ∧ c.suit = suit) ∨ away suit)

def Wants (s : Seats) (pilot : ℕ) (bay : Bay) (errand : Errand) : Verb → Prop
  | .join comeback false => errand = .enter ∧
      ∀ suit, s.Abroad pilot suit → s.shape? suit = some .asleep ∧ bay = .out ∧
        comeback = some suit
  | .join comeback true => (∃ n, errand = .launchInside n ∨ errand = .launch) ∧ comeback = none ∧
      bay = .out ∧ ∀ suit, ¬ s.Abroad pilot suit
  | .board => (∃ n, errand = .board n) ∧ ∀ suit, ¬ s.Abroad pilot suit
  | _ => False

structure Asking (s : Seats) (who : Who) (a : Session) (errand : Errand) (epoch : ℕ) (m : Control)
    (before : List Control) : Prop where
  queue : (s.berths (a.seat errand)).queue = before ++ [m]
  before : ∀ m ∈ before, m.verb.asks = false
  wants : s.Wants who.pilot a.record.bay errand m.verb
  who : m.who = who
  epoch : (s.berths (a.seat errand)).status.epoch = epoch
  client : (s.berths (a.seat errand)).client = none
  fates : (s.berths (a.seat errand)).fates = []

structure Answered (s : Seats) (pilot : ℕ) (a : Session) (errand : Errand) : Prop where
  queue : (s.berths (a.seat errand)).queue = []
  sits : s.Sits pilot a.record.bay (a.seat errand) fun _ => False
  active : (s.berths (a.seat errand)).client = none →
    (s.berths (a.seat errand)).status.state ≠ .active
  refused : (s.berths (a.seat errand)).status.state = .refused →
    (s.berths (a.seat errand)).client = none ∧ (s.berths (a.seat errand)).fates = []

structure Plays (s : Seats) (pilot : ℕ) (a : Session) : Prop where
  calm : a.suit ≠ none → ∀ m ∈ (s.berths a.flying).queue, m.verb.calm = true
  sits : a.suit ≠ none → s.Sits pilot a.record.bay a.flying fun _ => False
  lost : a.lost = true → a.suit ≠ none ∧ a.inside = none ∧ (s.berths a.flying).fates = [] ∧
    ∀ c, (s.berths a.flying).client = some c → c.lost = true
  ashore : a.suit = none → a.inside = none ∧ ∀ suit, ¬ s.Abroad pilot suit

def Slept (s : Seats) (signedIn : ℕ → Bool) (pilot : ℕ) (sl : SlotId) (suit : ℕ) : Prop :=
  signedIn pilot = true ∧ sl.side = .space ∧ s.shape? suit = some .asleep ∧
    (s.berths sl).status.asleep = some suit

/-- The pilot leaves: they have asked to, last of all, or been let go. -/
structure Leaves (s : Seats) (signedIn : ℕ → Bool) (pilot : ℕ) (bay : Bay) (sl : SlotId) : Prop where
  queue : (∃ before who sleep, (s.berths sl).queue = before ++ [⟨who, .leave sleep⟩] ∧
      (∀ m ∈ before, m.verb.calm = true) ∧
      (sleep = true → signedIn pilot = true ∧ sl.side = .space) ∧
      s.Sits pilot bay sl fun _ => False) ∨
    ((∀ m ∈ (s.berths sl).queue, m.verb.calm = true) ∧ (s.berths sl).client = none ∧
      s.Sits pilot bay sl (s.Slept signedIn pilot sl))

def At (s : Seats) (signedIn : ℕ → Bool) (who : Who) (a : Session) : Prop :=
  match a.stage with
  | .arrived => a.suit = none ∧ a.inside = none ∧ a.lost = false ∧ s.Abed who.pilot a.record
  | .seating errand epoch => a.suit = none ∧ a.inside = none ∧ a.lost = false ∧
      ((∃ m before, s.Asking who a errand epoch m before) ∨ s.Answered who.pilot a errand)
  | .play => s.Plays who.pilot a
  | .leavingColony n => s.Leaves signedIn who.pilot a.record.bay ⟨.colony, n⟩
  | .leavingSpace => s.Leaves signedIn who.pilot a.record.bay a.main
  | .tugs => s.Abed who.pilot a.record

structure Life (signedIn : ℕ → Bool) (s : Seats) (who : Who) (a : Session) : Prop where
  stage : s.At signedIn who a
  spectating : ∀ k, a.spectating = some k → a.post? ≠ some ⟨.colony, k.1⟩
  bedded : s.Bedded who.pilot a.record
  guest : signedIn who.pilot = false → a.record.sleeper = none

/-- Nobody is seated in the slot, or may be, and there's nothing of a suit to tell. -/
structure Berth.Vacant (b : Berth) : Prop where
  client : b.client = none
  fates : b.fates = []
  queue : ∀ m ∈ b.queue, m.verb.seats = false

structure Sound (signedIn : ℕ → Bool) (s : Seats) : Prop where
  owned : Owned false s
  came : ∀ who a, s.sessions who = some a → who.visit < s.visits
  one : ∀ who who' a a', s.sessions who = some a → s.sessions who' = some a' →
    who'.pilot = who.pilot → who' = who
  life : ∀ who a, s.sessions who = some a → s.Life signedIn who a
  gone : ∀ pilot, (∀ who, who.pilot = pilot → s.sessions who = none) →
    s.Abed pilot (s.onRecord signedIn pilot)
  vacant : ∀ sl, (∀ who a, s.sessions who = some a → a.post? ≠ some sl) →
    (s.berths sl).Vacant
  fresh : ∀ suit, s.nextSuit ≤ suit → s.suits suit = none
  bedded : ∀ pilot, s.Bedded pilot (s.records pilot)
  comebacks : ∀ sl, ∀ m ∈ (s.berths sl).queue, ∀ suit launch, m.verb = .join (some suit) launch →
    suit < s.nextSuit ∧ ∀ craft, s.suits suit = some craft → craft.pilot = m.who.pilot
  struck : ∀ suit craft, s.suits suit = some craft → craft.shape ≠ .awake → craft.side = .space
  watches : ∀ sl, ∀ m ∈ (s.berths sl).queue, m.verb = .watch → sl.side = .colony

/-! ## What leaves a pilot's part alone -/

variable {signedIn : ℕ → Bool} {s s' : Seats} {pilot : ℕ} {bay : Bay} {who : Who} {sl : SlotId}

/-- Who is in a slot is as they were, with no more to tell of them. -/
structure Berth.Near (b b' : Berth) : Prop where
  client : b'.client = b.client
  status : b'.status = b.status
  fates : b'.fates.Sublist b.fates

structure Berth.Same (b b' : Berth) : Prop extends b.Near b' where
  queue : b'.queue = b.queue

theorem Berth.Same.refl (b : Berth) : b.Same b := ⟨⟨rfl, rfl, .refl _⟩, rfl⟩

theorem Berth.Same.trans {b b' b'' : Berth} (h : b.Same b') (h' : b'.Same b'') : b.Same b'' :=
  ⟨⟨h'.client.trans h.client, h'.status.trans h.status, h'.fates.trans h.fates⟩,
    h'.queue.trans h.queue⟩

theorem Berth.Near.nil {b b' : Berth} (h : b.Near b') (hb : b.fates = []) : b'.fates = [] := by
  have hfates := h.fates
  rw [hb] at hfates
  exact List.sublist_nil.mp hfates

theorem Berth.Same.vacant {b b' : Berth} (h : b.Same b') (hb : b.Vacant) : b'.Vacant :=
  ⟨h.client.trans hb.client, h.nil hb.fates, by
    rw [h.queue]
    exact hb.queue⟩

/-- The suit is as it was, or gone, or a wreck. -/
def Keeps (s s' : Seats) (suit : ℕ) : Prop :=
  s'.suits suit = s.suits suit ∨ s'.suits suit = none ∨
    ∃ craft, s.suits suit = some craft ∧ s'.suits suit = some { craft with shape := .wreck }

theorem Keeps.craft {suit : ℕ} (h : s.Keeps s' suit) {craft : Craft} (hcraft : s'.suits suit = some craft) :
    ∃ before, s.suits suit = some before ∧ craft.pilot = before.pilot ∧ craft.side = before.side := by
  rcases h with heq | hgone | ⟨before, hbefore, hwreck⟩
  · exact ⟨craft, heq ▸ hcraft, rfl, rfl⟩
  · rw [hgone] at hcraft
    cases hcraft
  · rw [hwreck] at hcraft
    cases hcraft
    exact ⟨before, hbefore, rfl, rfl⟩

theorem Keeps.shape {suit : ℕ} (h : s.Keeps s' suit) {shape : Shape} (hshape : s'.shape? suit = some shape)
    (hwreck : shape ≠ .wreck) : s.shape? suit = some shape := by
  unfold shape? at hshape ⊢
  rcases h with heq | hgone | ⟨before, hbefore, hstruck⟩
  · rwa [← heq]
  · rw [hgone] at hshape
    cases hshape
  · rw [hstruck] at hshape
    cases hshape
    exact absurd rfl hwreck

structure Frame (s s' : Seats) (pilot : ℕ) : Prop where
  next : s.nextSuit ≤ s'.nextSuit
  kept : ∀ suit, suit < s.nextSuit → (∀ craft, s.suits suit = some craft → craft.pilot = pilot) →
    s.Keeps s' suit
  same : ∀ suit craft, s'.suits suit = some craft → craft.pilot = pilot → craft.shape ≠ .wreck →
    s.suits suit = some craft

namespace Frame

theorem of_suits (hsuits : s'.suits = s.suits) (hnext : s'.nextSuit = s.nextSuit) :
    Frame s s' pilot :=
  ⟨hnext.ge, fun suit _ _ => .inl (by rw [hsuits]), fun suit craft h _ _ => by rwa [← hsuits]⟩

theorem abroad (h : Frame s s' pilot) {suit : ℕ} (hsuit : s'.Abroad pilot suit) :
    s.Abroad pilot suit ∧ s'.shape? suit = s.shape? suit := by
  obtain ⟨craft, hcraft, hown, hpilot, hshape⟩ := hsuit
  have hbefore := h.same suit craft hcraft hpilot hshape
  exact ⟨⟨craft, hbefore, hown, hpilot, hshape⟩, by rw [shape?, shape?, hcraft, hbefore]⟩

theorem abed (h : Frame s s' pilot) {r : HangarRecord} (hs : s.Abed pilot r) : s'.Abed pilot r := by
  intro suit hsuit
  obtain ⟨hbefore, hshape⟩ := h.abroad hsuit
  rw [hshape]
  exact hs suit hbefore

theorem mine (h : Frame s s' pilot) {suit : ℕ} (hlt : suit < s.nextSuit)
    (hmine : ∀ craft, s.suits suit = some craft → craft.pilot = pilot) :
    suit < s'.nextSuit ∧ ∀ craft, s'.suits suit = some craft → craft.pilot = pilot := by
  refine ⟨hlt.trans_le h.next, fun craft hcraft => ?_⟩
  obtain ⟨before, hbefore, hpilot, -⟩ := (h.kept suit hlt hmine).craft hcraft
  rw [hpilot]
  exact hmine before hbefore

theorem bedded (h : Frame s s' pilot) {r : HangarRecord} (hs : s.Bedded pilot r) : s'.Bedded pilot r :=
  fun suit hsuit => h.mine (hs suit hsuit).1 (hs suit hsuit).2

theorem wants (h : Frame s s' pilot) {errand : Errand} {verb : Verb}
    (hs : s.Wants pilot bay errand verb) : s'.Wants pilot bay errand verb := by
  match verb, hs with
  | .join comeback false, ⟨herrand, hsuits⟩ =>
    refine ⟨herrand, fun suit hsuit => ?_⟩
    obtain ⟨hbefore, hshape⟩ := h.abroad hsuit
    rw [hshape]
    exact hsuits suit hbefore
  | .join comeback true, ⟨herrand, hnone, hbay, hsuits⟩ =>
    exact ⟨herrand, hnone, hbay, fun suit hsuit => hsuits suit (h.abroad hsuit).1⟩
  | .board, ⟨herrand, hsuits⟩ => exact ⟨herrand, fun suit hsuit => hsuits suit (h.abroad hsuit).1⟩

theorem fits (h : Frame s s' pilot) {b b' : Berth} (hb : b.Near b') {c : Client}
    (hc : c.Fits s pilot sl b) : c.Fits s' pilot sl b' := by
  have hkept := h.kept c.suit hc.lt fun craft hcraft => (hc.craft craft hcraft).1
  refine ⟨?_, ?_, ?_, ?_, ?_, ?_, hc.lt.trans_le h.next, fun craft hcraft => ?_⟩
  · exact fun hlost => hb.nil (hc.unheard hlost)
  · exact fun hlost hawake => hc.down hlost (hkept.shape hawake Shape.noConfusion)
  · exact fun note hn => hc.loss note (hb.fates.subset hn)
  · rw [hb.status]
    exact hc.state
  · rw [hb.status]
    exact hc.suit
  · exact fun hasleep => hc.up (hkept.shape hasleep Shape.noConfusion)
  · obtain ⟨before, hbefore, hpilot, hside⟩ := hkept.craft hcraft
    rw [hpilot, hside]
    exact hc.craft before hbefore

theorem sits (h : Frame s s' pilot) (hb : (s.berths sl).Near (s'.berths sl)) {away away' : ℕ → Prop}
    (haway : ∀ suit, s'.Abroad pilot suit → away suit → away' suit) (hs : s.Sits pilot bay sl away) :
    s'.Sits pilot bay sl away' := by
  refine ⟨fun c hc => ?_, ?_, ?_, fun suit hsuit => ?_, fun suit hsuit => ?_⟩
  · rw [hb.client] at hc
    exact h.fits hb (hs.fits c hc)
  · exact hb.fates.length_le.trans hs.short
  · exact fun note hn => hs.space note (hb.fates.subset hn)
  · rw [hb.status] at hsuit
    obtain ⟨hlt, hpilot⟩ := hs.bed suit hsuit
    exact h.mine hlt hpilot
  · obtain ⟨hbay, hwhere⟩ := hs.abroad suit (h.abroad hsuit).1
    rw [hb.client]
    exact ⟨hbay, hwhere.imp_right (haway suit hsuit)⟩

theorem slept (h : Frame s s' pilot) (hb : (s.berths sl).Near (s'.berths sl)) {suit : ℕ}
    (hsuit : s'.Abroad pilot suit) (hs : s.Slept signedIn pilot sl suit) :
    s'.Slept signedIn pilot sl suit := by
  obtain ⟨hsigned, hside, hshape, hstatus⟩ := hs
  exact ⟨hsigned, hside, (h.abroad hsuit).2.trans hshape, by rw [hb.status, hstatus]⟩

theorem leaves (h : Frame s s' pilot) (hb : (s.berths sl).Same (s'.berths sl))
    (hs : s.Leaves signedIn pilot bay sl) : s'.Leaves signedIn pilot bay sl := by
  refine ⟨hs.queue.imp ?_ ?_⟩
  · rintro ⟨before, who, sleep, hqueue, hbefore, hsleep, hsits⟩
    exact ⟨before, who, sleep, hb.queue.trans hqueue, hbefore, hsleep, h.sits hb.toNear (fun _ _ => id) hsits⟩
  · rintro ⟨hcalm, hclient, hsits⟩
    refine ⟨?_, hb.client.trans hclient, h.sits hb.toNear (fun suit hsuit => h.slept hb.toNear hsuit) hsits⟩
    rw [hb.queue]
    exact hcalm

theorem asking (h : Frame s s' who.pilot) {a : Session} {errand : Errand} {epoch : ℕ} {m : Control}
    {before : List Control} (hb : (s.berths (a.seat errand)).Same (s'.berths (a.seat errand)))
    (hs : s.Asking who a errand epoch m before) : s'.Asking who a errand epoch m before :=
  ⟨hb.queue.trans hs.queue, hs.before, h.wants hs.wants, hs.who, by rw [hb.status, hs.epoch],
    hb.client.trans hs.client, hb.nil hs.fates⟩

theorem answered (h : Frame s s' pilot) {a : Session} {errand : Errand}
    (hb : (s.berths (a.seat errand)).Same (s'.berths (a.seat errand)))
    (hs : s.Answered pilot a errand) : s'.Answered pilot a errand := by
  refine ⟨hb.queue.trans hs.queue, h.sits hb.toNear (fun _ _ => id) hs.sits, ?_, ?_⟩
  · rw [hb.client, hb.status]
    exact hs.active
  · rw [hb.client, hb.status]
    exact fun hrefused => ⟨(hs.refused hrefused).1, hb.nil (hs.refused hrefused).2⟩

theorem plays (h : Frame s s' pilot) {a : Session}
    (hb : a.suit ≠ none → (s.berths a.flying).Same (s'.berths a.flying)) (hs : s.Plays pilot a) :
    s'.Plays pilot a := by
  refine ⟨fun hsuit => ?_, fun hsuit => h.sits (hb hsuit).toNear (fun _ _ => id) (hs.sits hsuit),
    fun hlost => ?_, fun hsuit => ?_⟩
  · rw [(hb hsuit).queue]
    exact hs.calm hsuit
  · obtain ⟨hsuit, hinside, hfates, hclient⟩ := hs.lost hlost
    refine ⟨hsuit, hinside, (hb hsuit).nil hfates, ?_⟩
    rw [(hb hsuit).client]
    exact hclient
  · obtain ⟨hinside, hnone⟩ := hs.ashore hsuit
    exact ⟨hinside, fun suit habroad => hnone suit (h.abroad habroad).1⟩

theorem stage (h : Frame s s' who.pilot) {a : Session}
    (hpost : ∀ sl, a.post? = some sl → (s.berths sl).Same (s'.berths sl))
    (hs : s.At signedIn who a) : s'.At signedIn who a := by
  unfold At at hs ⊢
  unfold Session.post? at hpost
  cases hstage : a.stage with
  | arrived =>
    rw [hstage] at hs
    exact ⟨hs.1, hs.2.1, hs.2.2.1, h.abed hs.2.2.2⟩
  | seating errand epoch =>
    rw [hstage] at hs hpost
    obtain ⟨hsuit, hinside, hlost, hseat⟩ := hs
    refine ⟨hsuit, hinside, hlost, hseat.imp ?_ (h.answered (hpost _ rfl))⟩
    rintro ⟨m, before, hasking⟩
    exact ⟨m, before, h.asking (hpost _ rfl) hasking⟩
  | play =>
    rw [hstage] at hs hpost
    refine h.plays (fun hsuit => hpost a.flying ?_) hs
    obtain ⟨suit, hsuit⟩ := Option.ne_none_iff_exists'.mp hsuit
    simp [hsuit]
  | leavingColony n =>
    rw [hstage] at hs hpost
    exact h.leaves (hpost _ rfl) hs
  | leavingSpace =>
    rw [hstage] at hs hpost
    exact h.leaves (hpost _ rfl) hs
  | tugs =>
    rw [hstage] at hs
    exact h.abed hs

theorem life (h : Frame s s' who.pilot) {a : Session}
    (hpost : ∀ sl, a.post? = some sl → (s.berths sl).Same (s'.berths sl))
    (hs : s.Life signedIn who a) : s'.Life signedIn who a :=
  ⟨h.stage hpost hs.stage, hs.spectating, h.bedded hs.bedded, hs.guest⟩

end Frame

/-! ## Whose slots they are -/

theorem Session.mem_slots_of_post {a : Session} (h : a.post? = some sl) : sl ∈ a.slots := by
  apply Session.mem_slots.mpr
  unfold Session.post? at h
  split at h
  next errand epoch hstage =>
    cases h
    unfold Session.seat
    cases hslot : errand.slot? with
    | none => exact .inl rfl
    | some sl => exact .inr (.inr (.inr (by rw [hstage]; exact hslot)))
  · obtain ⟨suit, -, rfl⟩ := Option.map_eq_some_iff.mp h
    unfold Session.flying
    cases hinside : a.inside with
    | none => exact .inl rfl
    | some n => exact .inr (.inl ⟨n, rfl, rfl⟩)
  next n hstage =>
    cases h
    exact .inr (.inr (.inr (by rw [hstage]; rfl)))
  · cases h
    exact .inl rfl
  · cases h

inductive Posted (s : Seats) (signedIn : ℕ → Bool) (who : Who) (a : Session) : SlotId → Prop
  | asking {errand : Errand} {epoch : ℕ} {m : Control} {before : List Control}
      (stage : a.stage = .seating errand epoch)
      (session : a.suit = none ∧ a.inside = none ∧ a.lost = false)
      (asking : s.Asking who a errand epoch m before) : Posted s signedIn who a (a.seat errand)
  | answered {errand : Errand} {epoch : ℕ} (stage : a.stage = .seating errand epoch)
      (session : a.suit = none ∧ a.inside = none ∧ a.lost = false)
      (answered : s.Answered who.pilot a errand) : Posted s signedIn who a (a.seat errand)
  | plays (stage : a.stage = .play) (suit : a.suit ≠ none) (plays : s.Plays who.pilot a) :
      Posted s signedIn who a a.flying
  | leaves {sl : SlotId}
      (kept : ∀ s' : Seats, s'.Leaves signedIn who.pilot a.record.bay sl → s'.At signedIn who a)
      (leaves : s.Leaves signedIn who.pilot a.record.bay sl) : Posted s signedIn who a sl

theorem At.posted {a : Session} (hs : s.At signedIn who a) (hpost : a.post? = some sl) :
    s.Posted signedIn who a sl := by
  unfold At at hs
  unfold Session.post? at hpost
  cases hstage : a.stage with
  | arrived | tugs =>
    rw [hstage] at hpost
    cases hpost
  | seating errand epoch =>
    rw [hstage] at hs hpost
    cases hpost
    obtain ⟨hsuit, hinside, hlost, ⟨m, before, hasking⟩ | hanswered⟩ := hs
    · exact .asking hstage ⟨hsuit, hinside, hlost⟩ hasking
    · exact .answered hstage ⟨hsuit, hinside, hlost⟩ hanswered
  | play =>
    rw [hstage] at hs hpost
    obtain ⟨suit, hsuit, rfl⟩ := Option.map_eq_some_iff.mp hpost
    exact .plays hstage (by simp [hsuit]) hs
  | leavingColony n | leavingSpace =>
    rw [hstage] at hs hpost
    cases hpost
    refine .leaves (fun s' h => ?_) hs
    unfold At
    rwa [hstage]

theorem At.of_seating {a : Session} {errand : Errand} {epoch : ℕ}
    (hstage : a.stage = .seating errand epoch)
    (hsession : a.suit = none ∧ a.inside = none ∧ a.lost = false)
    (h : (∃ m before, s.Asking who a errand epoch m before) ∨ s.Answered who.pilot a errand) :
    s.At signedIn who a := by
  unfold At
  rw [hstage]
  exact ⟨hsession.1, hsession.2.1, hsession.2.2, h⟩

theorem At.of_plays {a : Session} (hstage : a.stage = .play) (h : s.Plays who.pilot a) :
    s.At signedIn who a := by
  unfold At
  rwa [hstage]

theorem onRecord_congr (hrecords : s'.records pilot = s.records pilot) :
    s'.onRecord signedIn pilot = s.onRecord signedIn pilot := by
  rw [onRecord, onRecord, hrecords]

namespace Sound

theorem post_unique (hs : Sound signedIn s) {who' : Who} {a b : Session} (ha : s.sessions who = some a)
    (hb : s.sessions who' = some b) (hpa : a.post? = some sl) (hsl : sl ∈ b.slots) : who' = who := by
  have hheld := hs.owned.held who a ha sl (Session.mem_slots_of_post hpa)
  rw [hs.owned.held who' b hb sl hsl] at hheld
  exact Option.some.inj hheld

/-- What a sector does for whoever flies in a slot: only their slot and suits change. -/
theorem sector (hs : Sound signedIn s) (howned : Owned false s') {a : Session}
    (ha : s.sessions who = some a) (hpost : a.post? = some sl)
    (hsessions : s'.sessions = s.sessions) (hvisits : s'.visits = s.visits)
    (hrecords : s'.records = s.records) (hberth : ∀ sl', sl' ≠ sl → s'.berths sl' = s.berths sl')
    (hqueue : ∀ m ∈ (s'.berths sl).queue, m ∈ (s.berths sl).queue) (hnext : s.nextSuit ≤ s'.nextSuit)
    (hfresh : ∀ suit, s'.nextSuit ≤ suit → s'.suits suit = none)
    (hsuits : ∀ suit, s'.suits suit = s.suits suit ∨
      ((∀ craft, s'.suits suit = some craft → craft.pilot = who.pilot) ∧
        ((∃ craft, s.suits suit = some craft ∧ craft.pilot = who.pilot) ∨ suit = s.nextSuit)))
    (hstruck : ∀ suit craft, s'.suits suit = some craft → craft.shape ≠ .awake → craft.side = .space)
    (hstage : s'.At signedIn who a) : Sound signedIn s' := by
  have hframe (p : ℕ) (hp : p ≠ who.pilot) : Frame s s' p := by
    refine ⟨hnext, fun suit hlt hmine => ?_, fun suit craft hcraft hmine _ => ?_⟩
    · rcases hsuits suit with heq | ⟨-, ⟨craft, hcraft, hpilot⟩ | rfl⟩
      · exact .inl heq
      · exact absurd ((hmine craft hcraft).symm.trans hpilot) hp
      · exact absurd hlt (lt_irrefl _)
    · rcases hsuits suit with heq | ⟨hpilot, -⟩
      · rwa [← heq]
      · exact absurd (hmine.symm.trans (hpilot craft hcraft)) hp
  have hkept (p suit : ℕ) (hlt : suit < s.nextSuit)
      (hmine : ∀ craft, s.suits suit = some craft → craft.pilot = p) :
      suit < s'.nextSuit ∧ ∀ craft, s'.suits suit = some craft → craft.pilot = p := by
    refine ⟨hlt.trans_le hnext, fun craft hcraft => ?_⟩
    rcases hsuits suit with heq | ⟨hpilot, ⟨before, hbefore, hold⟩ | rfl⟩
    · exact hmine craft (heq ▸ hcraft)
    · rw [hpilot craft hcraft, ← hold, hmine before hbefore]
    · exact absurd hlt (lt_irrefl _)
  have hbedded (p : ℕ) (r : HangarRecord) (hr : s.Bedded p r) : s'.Bedded p r :=
    fun suit hsuit => hkept p suit (hr suit hsuit).1 (hr suit hsuit).2
  have hmem (sl' : SlotId) (m : Control) (hm : m ∈ (s'.berths sl').queue) :
      m ∈ (s.berths sl').queue := by
    by_cases hsl : sl' = sl
    · subst hsl
      exact hqueue m hm
    · rwa [hberth sl' hsl] at hm
  refine ⟨howned, ?_, ?_, fun who' a' ha' => ?_, fun p hno => ?_, fun sl' hno => ?_, hfresh, ?_, ?_,
    hstruck, ?_⟩
  · rw [hsessions, hvisits]
    exact hs.came
  · rw [hsessions]
    exact hs.one
  · rw [hsessions] at ha'
    by_cases hwho : who' = who
    · subst hwho
      cases ha.symm.trans ha'
      exact ⟨hstage, (hs.life who' a ha).spectating, hbedded _ _ (hs.life who' a ha).bedded,
        (hs.life who' a ha).guest⟩
    · refine (hframe _ fun hp => hwho (hs.one who who' a a' ha ha' hp)).life (fun sl' hpost' => ?_)
        (hs.life who' a' ha')
      have hne : sl' ≠ sl := by
        rintro rfl
        exact hwho (hs.post_unique ha ha' hpost (Session.mem_slots_of_post hpost'))
      rw [hberth sl' hne]
      exact .refl _
  · rw [hsessions] at hno
    have hp : p ≠ who.pilot := by
      rintro rfl
      exact Option.some_ne_none a (ha.symm.trans (hno who rfl))
    rw [onRecord_congr (congrFun hrecords p)]
    exact (hframe p hp).abed (hs.gone p hno)
  · rw [hsessions] at hno
    have hne : sl' ≠ sl := by
      rintro rfl
      exact hno who a ha hpost
    rw [hberth sl' hne]
    exact hs.vacant sl' hno
  · rw [hrecords]
    exact fun p => hbedded p _ (hs.bedded p)
  · intro sl' m hm suit launch hverb
    have hcomeback := hs.comebacks sl' m (hmem sl' m hm) suit launch hverb
    exact hkept _ suit hcomeback.1 hcomeback.2
  · exact fun sl' m hm hverb => hs.watches sl' m (hmem sl' m hm) hverb

/-- What a session does: only its pilot's part, and the slots nobody else uses, change. -/
theorem session (hs : Sound signedIn s) (howned : Owned false s') {o : Option Session}
    (hsessions : s'.sessions = Function.update s.sessions who o)
    (hcame : o ≠ none → who.visit < s'.visits) (hvisits : s.visits ≤ s'.visits)
    (hone : ∀ who' a, s.sessions who' = some a → who'.pilot = who.pilot → who' = who)
    (hrecords : ∀ p, p ≠ who.pilot → s'.records p = s.records p)
    (hbed : s.Bedded who.pilot (s'.records who.pilot))
    (hsuits : s'.suits = s.suits) (hnext : s'.nextSuit = s.nextSuit)
    (sl : SlotId) (hberth : ∀ sl', sl' ≠ sl → s'.berths sl' = s.berths sl')
    (halone : ∀ who' a, who' ≠ who → s.sessions who' = some a → a.post? ≠ some sl)
    (hqueue : ∀ m ∈ (s'.berths sl).queue, m ∈ (s.berths sl).queue ∨ (m.verb = .watch → sl.side = .colony) ∧
      ∀ suit launch, m.verb = .join (some suit) launch → suit < s.nextSuit ∧
        ∀ craft, s.suits suit = some craft → craft.pilot = m.who.pilot)
    (hgone : o = none → s'.Abed who.pilot (s'.onRecord signedIn who.pilot))
    (hlife : ∀ a, o = some a → s'.Life signedIn who a)
    (hvacant : ∀ sl', (∀ a, o = some a → a.post? ≠ some sl') →
      (∀ who' a, who' ≠ who → s.sessions who' = some a → a.post? ≠ some sl') →
      (s'.berths sl').Vacant) : Sound signedIn s' := by
  have hframe (p : ℕ) : Frame s s' p := .of_suits hsuits hnext
  have hother (who' : Who) (hwho : who' ≠ who) : s'.sessions who' = s.sessions who' := by
    rw [hsessions, Function.update_of_ne hwho]
  have hself : s'.sessions who = o := by rw [hsessions, Function.update_self]
  have hthis (who' : Who) (a : Session) (ha : s'.sessions who' = some a)
      (hp : who'.pilot = who.pilot) : who' = who := by
    by_contra hwho
    rw [hother who' hwho] at ha
    exact hwho (hone who' a ha hp)
  refine ⟨howned, fun who' a ha => ?_, fun p q a b ha hb hpq => ?_, fun who' a ha => ?_,
    fun p hno => ?_, fun sl' hno => ?_, ?_, fun p => ?_, fun sl' m hm suit launch hverb => ?_, ?_,
    fun sl' m hm hverb => ?_⟩
  · by_cases hwho : who' = who
    · subst hwho
      exact hcame (by simp [← hself, ha])
    · rw [hother who' hwho] at ha
      exact (hs.came who' a ha).trans_le hvisits
  · by_cases hp : p = who
    · subst hp
      exact hthis q b hb hpq
    · by_cases hq : q = who
      · subst hq
        exact (hthis p a ha hpq.symm).symm
      · rw [hother p hp] at ha
        rw [hother q hq] at hb
        exact hs.one p q a b ha hb hpq
  · by_cases hwho : who' = who
    · subst hwho
      exact hlife a (hself ▸ ha)
    · rw [hother who' hwho] at ha
      refine (hframe _).life (fun sl' hpost' => ?_) (hs.life who' a ha)
      have hne : sl' ≠ sl := by
        rintro rfl
        exact halone who' a hwho ha hpost'
      rw [hberth sl' hne]
      exact .refl _
  · by_cases hp : p = who.pilot
    · subst hp
      exact hgone (hself.symm.trans (hno who rfl))
    · rw [onRecord_congr (hrecords p hp)]
      refine (hframe p).abed (hs.gone p fun who' hwho => ?_)
      rw [← hother who' (by rintro rfl; exact hp hwho.symm)]
      exact hno who' hwho
  · refine hvacant sl' (fun a ha => hno who a (hself.trans ha)) fun who' a hwho ha => ?_
    exact hno who' a ((hother who' hwho).trans ha)
  · rw [hsuits, hnext]
    exact hs.fresh
  · apply (hframe p).bedded
    by_cases hp : p = who.pilot
    · subst hp
      exact hbed
    · rw [hrecords p hp]
      exact hs.bedded p
  · rw [hsuits, hnext]
    by_cases hsl : sl' = sl
    · subst hsl
      rcases hqueue m hm with hm | ⟨-, hnew⟩
      · exact hs.comebacks sl' m hm suit launch hverb
      · exact hnew suit launch hverb
    · rw [hberth sl' hsl] at hm
      exact hs.comebacks sl' m hm suit launch hverb
  · rw [hsuits]
    exact hs.struck
  · by_cases hsl : sl' = sl
    · subst hsl
      rcases hqueue m hm with hm | ⟨hnew, -⟩
      · exact hs.watches sl' m hm hverb
      · exact hnew hverb
    · rw [hberth sl' hsl] at hm
      exact hs.watches sl' m hm hverb

/-- What a sector does at a slot that nobody flies in. -/
theorem idle (hs : Sound signedIn s) (howned : Owned false s')
    (hno : ∀ who a, s.sessions who = some a → a.post? ≠ some sl) (hsessions : s'.sessions = s.sessions)
    (hvisits : s'.visits = s.visits) (hrecords : s'.records = s.records)
    (hberth : ∀ sl', sl' ≠ sl → s'.berths sl' = s.berths sl')
    (hqueue : ∀ m ∈ (s'.berths sl).queue, m ∈ (s.berths sl).queue) (hsuits : s'.suits = s.suits)
    (hnext : s'.nextSuit = s.nextSuit) (hvacant : (s'.berths sl).Vacant) : Sound signedIn s' := by
  have hframe (p : ℕ) : Frame s s' p := .of_suits hsuits hnext
  have hmem (sl' : SlotId) (m : Control) (hm : m ∈ (s'.berths sl').queue) :
      m ∈ (s.berths sl').queue := by
    by_cases hsl : sl' = sl
    · subst hsl
      exact hqueue m hm
    · rwa [hberth sl' hsl] at hm
  refine ⟨howned, ?_, ?_, fun who a ha => ?_, fun p hno' => ?_, fun sl' hno' => ?_, ?_, fun p => ?_,
    fun sl' m hm suit launch hverb => ?_, ?_, fun sl' m hm hverb => hs.watches sl' m (hmem sl' m hm) hverb⟩
  · rw [hsessions, hvisits]
    exact hs.came
  · rw [hsessions]
    exact hs.one
  · rw [hsessions] at ha
    refine (hframe _).life (fun sl' hpost => ?_) (hs.life who a ha)
    have hne : sl' ≠ sl := by
      rintro rfl
      exact hno who a ha hpost
    rw [hberth sl' hne]
    exact .refl _
  · rw [hsessions] at hno'
    rw [onRecord_congr (congrFun hrecords p)]
    exact (hframe p).abed (hs.gone p hno')
  · by_cases hsl : sl' = sl
    · subst hsl
      exact hvacant
    · rw [hberth sl' hsl]
      rw [hsessions] at hno'
      exact hs.vacant sl' hno'
  · rw [hsuits, hnext]
    exact hs.fresh
  · rw [hrecords]
    exact (hframe p).bedded (hs.bedded p)
  · rw [hsuits, hnext]
    exact hs.comebacks sl' m (hmem sl' m hm) suit launch hverb
  · rw [hsuits]
    exact hs.struck

theorem posted_or (s : Seats) (sl : SlotId) :
    (∃ who a, s.sessions who = some a ∧ a.post? = some sl) ∨
      ∀ who a, s.sessions who = some a → a.post? ≠ some sl := by
  by_cases h : ∃ who a, s.sessions who = some a ∧ a.post? = some sl
  · exact .inl h
  · exact .inr fun who a ha hpost => h ⟨who, a, ha, hpost⟩

/-- What changes nothing of what is asked, seated or told of suits. -/
theorem same (hs : Sound signedIn s) (howned : Owned false s') (hsessions : s'.sessions = s.sessions)
    (hvisits : s'.visits = s.visits) (hrecords : s'.records = s.records)
    (hberth : ∀ sl', sl' ≠ sl → s'.berths sl' = s.berths sl')
    (hsame : (s.berths sl).Same (s'.berths sl)) (hsuits : s'.suits = s.suits)
    (hnext : s'.nextSuit = s.nextSuit) : Sound signedIn s' := by
  have hqueue : ∀ m ∈ (s'.berths sl).queue, m ∈ (s.berths sl).queue := by
    rw [hsame.queue]
    exact fun _ => id
  rcases posted_or s sl with ⟨who, a, ha, hpost⟩ | hno
  · refine hs.sector howned ha hpost hsessions hvisits hrecords hberth hqueue hnext.ge ?_
      (fun suit => .inl (by rw [hsuits])) ?_ ?_
    · rw [hsuits, hnext]
      exact hs.fresh
    · rw [hsuits]
      exact hs.struck
    · refine (Frame.of_suits hsuits hnext).stage (fun sl' hpost' => ?_) (hs.life who a ha).stage
      rw [hpost] at hpost'
      cases hpost'
      exact hsame
  · exact hs.idle howned hno hsessions hvisits hrecords hberth hqueue hsuits hnext
      (hsame.vacant (hs.vacant sl hno))

end Sound

/-! ## What a sector does -/

/-- Only the slot changes, and nothing of what is asked, seated or told of suits there. -/
structure Calm (sl : SlotId) (s s' : Seats) : Prop where
  sessions : s'.sessions = s.sessions
  visits : s'.visits = s.visits
  records : s'.records = s.records
  suits : s'.suits = s.suits
  next : s'.nextSuit = s.nextSuit
  berth : ∀ sl', sl' ≠ sl → s'.berths sl' = s.berths sl'
  same : (s.berths sl).Same (s'.berths sl)

namespace Calm

variable {s'' : Seats}

theorem refl (s : Seats) (sl : SlotId) : Calm sl s s :=
  ⟨rfl, rfl, rfl, rfl, rfl, fun _ _ => rfl, .refl _⟩

theorem trans (h : Calm sl s s') (h' : Calm sl s' s'') : Calm sl s s'' :=
  ⟨h'.sessions.trans h.sessions, h'.visits.trans h.visits, h'.records.trans h.records,
    h'.suits.trans h.suits, h'.next.trans h.next,
    fun sl' hsl => (h'.berth sl' hsl).trans (h.berth sl' hsl), h.same.trans h'.same⟩

theorem sound (h : Calm sl s s') (hs : Sound signedIn s) (howned : Owned false s') :
    Sound signedIn s' :=
  hs.same howned h.sessions h.visits h.records h.berth h.same h.suits h.next

theorem setBerth (s : Seats) {b : Berth} (hb : (s.berths sl).Same b) : Calm sl s (s.setBerth sl b) := by
  refine ⟨rfl, rfl, rfl, rfl, rfl, fun sl' hsl => ?_, ?_⟩
  · simp [Seats.setBerth, hsl]
  · simpa [Seats.setBerth] using hb

theorem of_berths (hsessions : s'.sessions = s.sessions) (hvisits : s'.visits = s.visits)
    (hrecords : s'.records = s.records) (hsuits : s'.suits = s.suits)
    (hnext : s'.nextSuit = s.nextSuit) (hberths : s'.berths = s.berths) : Calm sl s s' :=
  ⟨hsessions, hvisits, hrecords, hsuits, hnext, fun sl' _ => by rw [hberths], by
    rw [hberths]
    exact .refl _⟩

/-- What is taken off a ring leaves the rest of a slot alone. -/
theorem ring (s : Seats) {notes : List Note} (hnotes : notes.Sublist (s.berths sl).ring) :
    Calm sl s (s.setBerth sl { s.berths sl with ring := notes }) :=
  setBerth s ⟨⟨rfl, rfl, (hnotes.append_right _).filter _⟩, rfl⟩

theorem take (s : Seats) (who : Who) (notes : List Note) {ring : List Note}
    (hring : ring.Sublist (s.berths sl).ring) : Calm sl s (s.take sl who notes ring) :=
  (Calm.ring s hring).trans (of_berths rfl rfl rfl rfl rfl rfl)

theorem throw (s : Seats) (notes : List Note) {ring : List Note}
    (hring : ring.Sublist (s.berths sl).ring) : Calm sl s (s.throw sl notes ring) :=
  (Calm.ring s hring).trans (of_berths rfl rfl rfl rfl rfl rfl)

theorem fates_ring {b : Berth} {note : Note} (h : note.report.ties false = false) :
    Berth.fates { b with ring := b.ring ++ [note] } = b.fates := by
  simp [Berth.fates, Berth.mail, h]

theorem pushNote (s : Seats) {note : Note} (h : note.report.ties false = false) :
    Calm sl s (s.pushNote sl note) := by
  simp only [Seats.pushNote]
  split
  · exact setBerth s ⟨⟨rfl, rfl, (fates_ring h).symm ▸ .refl _⟩, rfl⟩
  · exact of_berths rfl rfl rfl rfl rfl rfl

theorem report (s : Seats) (who : Who) {r : Report} (h : r.ties false = false) :
    Calm sl s (s.report sl who r) :=
  (of_berths rfl rfl rfl rfl rfl rfl : Calm sl s (s.make sl who r).2).trans (pushNote _ h)

theorem tow (s : Seats) (sl : SlotId) : Calm sl s (s.tow sl) := by
  unfold Seats.tow
  split
  · exact refl s sl
  · refine trans (setBerth s ?_) (report _ _ rfl)
    exact ⟨⟨rfl, rfl, .refl _⟩, rfl⟩

theorem tell (s : Seats) (sl : SlotId) : Calm sl s (s.tell sl) := by
  unfold Seats.tell
  split
  · exact refl s sl
  next note htelling =>
    simp only [Seats.pushNote, Seats.setBerth, Function.update_self, Function.update_idem]
    split
    · refine setBerth s ⟨⟨rfl, rfl, ?_⟩, rfl⟩
      simp [Berth.fates, htelling, Berth.mail]
    · refine trans (setBerth s (b := { s.berths sl with telling := none }) ⟨⟨rfl, rfl, ?_⟩, rfl⟩)
        (of_berths rfl rfl rfl rfl rfl rfl)
      simp [Berth.fates, htelling, Berth.mail]

end Calm

structure Reported (sl : SlotId) (note : Note) (s s' : Seats) : Prop where
  sessions : s'.sessions = s.sessions
  visits : s'.visits = s.visits
  records : s'.records = s.records
  suits : s'.suits = s.suits
  next : s'.nextSuit = s.nextSuit
  berth : ∀ sl', sl' ≠ sl → s'.berths sl' = s.berths sl'
  queue : (s'.berths sl).queue = (s.berths sl).queue
  client : (s'.berths sl).client = (s.berths sl).client
  status : (s'.berths sl).status = (s.berths sl).status
  telling : (s'.berths sl).telling = (s.berths sl).telling
  ring : (s'.berths sl).ring = (s.berths sl).ring ∨ (s'.berths sl).ring = (s.berths sl).ring ++ [note]

namespace Reported

theorem report (s : Seats) (sl : SlotId) (who : Who) (r : Report) :
    Reported sl ⟨s.notes, sl, who, r⟩ s (s.report sl who r) := by
  unfold Seats.report Seats.pushNote
  by_cases hroom : ((s.make sl who r).2.berths sl).ring.length < REPORTS
  · rw [if_pos hroom]
    refine ⟨rfl, rfl, rfl, rfl, rfl, fun sl' hsl => ?_, ?_, ?_, ?_, ?_, .inr ?_⟩
    · simp [Seats.setBerth, Seats.make, hsl]
    all_goals simp [Seats.setBerth, Seats.make]
  · rw [if_neg hroom]
    exact ⟨rfl, rfl, rfl, rfl, rfl, fun _ _ => rfl, rfl, rfl, rfl, rfl, .inl rfl⟩

/-- With nothing told of suits yet, it's the only thing told. -/
theorem alone {note : Note} (h : Reported sl note s s') (hnone : (s.berths sl).fates = []) :
    (s'.berths sl).fates.Sublist [note] := by
  simp only [Berth.fates, Berth.mail, List.filter_append, List.append_eq_nil_iff] at hnone ⊢
  rw [h.telling, hnone.2, List.append_nil]
  rcases h.ring with heq | heq
  · rw [heq, hnone.1]
    exact List.nil_sublist _
  · rw [heq, List.filter_append, hnone.1, List.nil_append]
    exact List.filter_sublist

end Reported

theorem Verb.calm.not_seats {verb : Verb} (h : verb.calm = true) : verb.seats = false := by
  cases verb <;> first | rfl | cases h

theorem Verb.seats.asks {verb : Verb} (h : verb.seats = true) : verb.asks = true := by
  cases verb <;> first | rfl | cases h

/-! ## Off the queue -/

section Pop

variable {m : Control} {queue : List Control}

theorem Asking.pop {a : Session} {errand : Errand} {epoch : ℕ} {m' : Control} {before : List Control}
    (hs : s.Asking who a errand epoch m' before) (hframe : Frame s s' who.pilot)
    (hnear : (s.berths (a.seat errand)).Near (s'.berths (a.seat errand)))
    (hqueue : (s.berths (a.seat errand)).queue = m :: queue)
    (hqueue' : (s'.berths (a.seat errand)).queue = queue) (hm : m.verb.calm = true) :
    ∃ before, s'.Asking who a errand epoch m' before := by
  have hsplit := hqueue.symm.trans hs.queue
  cases before with
  | nil =>
    cases hsplit
    have hwants := hs.wants
    revert hwants hm
    unfold Wants
    cases m.verb <;> simp [Verb.calm]
  | cons m'' before =>
    simp only [List.cons_append, List.cons.injEq] at hsplit
    obtain ⟨rfl, rfl⟩ := hsplit
    refine ⟨before, hqueue', fun m'' hm'' => hs.before m'' (.tail m hm''), hframe.wants hs.wants,
      hs.who, ?_, hnear.client.trans hs.client, hnear.nil hs.fates⟩
    rw [hnear.status, hs.epoch]

theorem Plays.pop {a : Session} (hs : s.Plays pilot a) (hframe : Frame s s' pilot)
    (hnear : (s.berths a.flying).Near (s'.berths a.flying))
    (hqueue : ∀ m ∈ (s'.berths a.flying).queue, m ∈ (s.berths a.flying).queue) : s'.Plays pilot a := by
  refine ⟨fun hsuit m hm => hs.calm hsuit m (hqueue m hm),
    fun hsuit => hframe.sits hnear (fun _ _ => id) (hs.sits hsuit), fun hlost => ?_, fun hsuit => ?_⟩
  · obtain ⟨hsuit, hinside, hfates, hclient⟩ := hs.lost hlost
    refine ⟨hsuit, hinside, hnear.nil hfates, ?_⟩
    rw [hnear.client]
    exact hclient
  · obtain ⟨hinside, hnone⟩ := hs.ashore hsuit
    exact ⟨hinside, fun suit habroad => hnone suit (hframe.abroad habroad).1⟩

theorem Leaves.pop (hs : s.Leaves signedIn pilot bay sl) (hframe : Frame s s' pilot)
    (hnear : (s.berths sl).Near (s'.berths sl)) (hqueue : (s.berths sl).queue = m :: queue)
    (hqueue' : (s'.berths sl).queue = queue) (hm : m.verb.calm = true) :
    s'.Leaves signedIn pilot bay sl := by
  refine ⟨hs.queue.imp ?_ ?_⟩
  · rintro ⟨before, who, sleep, hsplit, hbefore, hsleep, hsits⟩
    have hhead := hqueue.symm.trans hsplit
    cases before with
    | nil =>
      cases hhead
      cases hm
    | cons m' before =>
      simp only [List.cons_append, List.cons.injEq] at hhead
      obtain ⟨rfl, rfl⟩ := hhead
      exact ⟨before, who, sleep, hqueue', fun m' hm' => hbefore m' (.tail m hm'), hsleep,
        hframe.sits hnear (fun _ _ => id) hsits⟩
  · rintro ⟨hcalm, hclient, hsits⟩
    refine ⟨fun m' hm' => hcalm m' ?_, hnear.client.trans hclient,
      hframe.sits hnear (fun suit hsuit => hframe.slept hnear hsuit) hsits⟩
    rw [hqueue]
    exact .tail m (hqueue' ▸ hm')

end Pop

namespace Sound

/-- What is asked that neither seats nor frees anyone is taken off the queue. -/
theorem pop (hs : Sound signedIn s) {m : Control} {queue : List Control}
    (hqueue : (s.berths sl).queue = m :: queue) (hm : m.verb.calm = true) :
    Sound signedIn (s.setBerth sl { s.berths sl with queue := queue }) := by
  have hberth : (s.setBerth sl { s.berths sl with queue := queue }).berths sl =
      { s.berths sl with queue := queue } := by simp [Seats.setBerth]
  have hother (sl' : SlotId) (hsl : sl' ≠ sl) :
      (s.setBerth sl { s.berths sl with queue := queue }).berths sl' = s.berths sl' := by
    simp [Seats.setBerth, hsl]
  have hmem : ∀ m' ∈ queue, m' ∈ (s.berths sl).queue := by
    rw [hqueue]
    exact fun m' => .tail m
  have howned : Owned false (s.setBerth sl { s.berths sl with queue := queue }) :=
    hs.owned.tame ((Tame.refl s).setBerth_less rfl hmem (fun c hc => ⟨c, hc, rfl⟩) rfl (fun _ => id))
  have hnear : (s.berths sl).Near
      ((s.setBerth sl { s.berths sl with queue := queue }).berths sl) := by
    rw [hberth]
    exact ⟨rfl, rfl, .refl _⟩
  have hqueue' : ((s.setBerth sl { s.berths sl with queue := queue }).berths sl).queue = queue := by
    rw [hberth]
  rcases posted_or s sl with ⟨who, a, ha, hpost⟩ | hno
  · have hframe : Frame s (s.setBerth sl { s.berths sl with queue := queue }) who.pilot :=
      .of_suits rfl rfl
    refine hs.sector howned ha hpost rfl rfl rfl hother (by rwa [hberth]) le_rfl hs.fresh
      (fun _ => .inl rfl) hs.struck ?_
    cases (hs.life who a ha).stage.posted hpost with
    | asking hstage hsession hasking =>
      exact .of_seating hstage hsession (.inl ⟨_, hasking.pop hframe hnear hqueue hqueue' hm⟩)
    | answered hstage hsession hanswered =>
      rw [hanswered.queue] at hqueue
      cases hqueue
    | plays hstage hsuit hplays =>
      exact .of_plays hstage (hplays.pop hframe hnear (by rwa [hqueue']))
    | leaves hkept hleaves => exact hkept _ (hleaves.pop hframe hnear hqueue hqueue' hm)
  · refine hs.idle howned hno rfl rfl rfl hother (by rwa [hberth]) rfl rfl ?_
    obtain ⟨hclient, hfates, hseats⟩ := hs.vacant sl hno
    rw [hberth]
    exact ⟨hclient, hfates, fun m' hm' => hseats m' (hmem m' hm')⟩

end Sound

end BeforeColony.Seats
