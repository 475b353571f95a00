import BeforeColony.Server.Seating

/-!
# One place

What the sessions do for their part of the invariant, and what follows from it: no suit is in its bay
and out there as well, and no lease is anyone's while what another session asked for in its slot may
still seat someone, or has.
-/

set_option autoImplicit false

namespace BeforeColony.Seats

open Lib

variable {signedIn : ℕ → Bool} {s s' : Seats} {pilot : ℕ} {bay : Bay} {who : Who} {sl : SlotId}

/-! ## What a session does -/

/-- The session goes on, its record naming what sleeps out there still, or nothing any more. -/
theorem Life.goOn {a a' : Session} (h : s.Life signedIn who a) (hat : s'.At signedIn who a')
    (hspectating : ∀ k, a'.spectating = some k → a'.post? ≠ some ⟨.colony, k.1⟩)
    (hsleeper : a'.record.sleeper = a.record.sleeper ∨ a'.record.sleeper = none)
    (hsuits : s'.suits = s.suits) (hnext : s'.nextSuit = s.nextSuit) : s'.Life signedIn who a' := by
  refine ⟨hat, hspectating, fun suit hsuit => ?_, fun hguest => ?_⟩
  · rcases hsleeper with heq | hnone
    · rw [heq] at hsuit
      rw [hsuits, hnext]
      exact h.bedded suit hsuit
    · rw [hnone] at hsuit
      cases hsuit
  · rcases hsleeper with heq | hnone
    · rw [heq]
      exact h.guest hguest
    · exact hnone

namespace Sound

variable {a : Session}

theorem alone (hs : Sound signedIn s) (ha : s.sessions who = some a) (hsl : sl ∈ a.slots) (w : Who)
    (b : Session) (hw : w ≠ who) (hb : s.sessions w = some b) : b.post? ≠ some sl := by
  intro hpost
  exact hw (hs.post_unique hb ha hpost hsl).symm

theorem free_idle (hs : Sound signedIn s) (hfree : s.IsFree sl) (w : Who) (b : Session)
    (hb : s.sessions w = some b) : b.post? ≠ some sl := by
  intro hpost
  have hheld := hs.owned.held w b hb sl (Session.mem_slots_of_post hpost)
  rw [hfree] at hheld
  cases hheld

theorem own_idle (hs : Sound signedIn s) (ha : s.sessions who = some a) (hsl : sl ∈ a.slots)
    (hpost : a.post? ≠ some sl) (w : Who) (b : Session) (hb : s.sessions w = some b) :
    b.post? ≠ some sl := by
  by_cases hw : w = who
  · subst hw
    rw [ha] at hb
    cases hb
    exact hpost
  · exact hs.alone ha hsl w b hw hb

theorem vacant_but (hs : Sound signedIn s) (ha : s.sessions who = some a) (hpost : a.post? ≠ some sl)
    (hother : ∀ w b, w ≠ who → s.sessions w = some b → b.post? ≠ some sl) : (s.berths sl).Vacant := by
  refine hs.vacant sl fun w b hb => ?_
  by_cases hw : w = who
  · subst hw
    rw [ha] at hb
    cases hb
    exact hpost
  · exact hother w b hw hb

theorem only (hs : Sound signedIn s) (ha : s.sessions who = some a) (w : Who) (b : Session)
    (hb : s.sessions w = some b) (hp : w.pilot = who.pilot) : w = who :=
  hs.one who w a b ha hb hp

theorem setSession (hs : Sound signedIn s) (ha : s.sessions who = some a) {o : Option Session}
    (howned : Owned false (s.setSession who o))
    (hgone : o = none → s.Abed who.pilot (s.onRecord signedIn who.pilot))
    (hlife : ∀ a', o = some a' → (s.setSession who o).Life signedIn who a')
    (hleft : ∀ sl, a.post? = some sl → (∀ a', o = some a' → a'.post? ≠ some sl) →
      (s.berths sl).Vacant) : Sound signedIn (s.setSession who o) := by
  refine hs.session howned rfl (fun _ => hs.came who a ha) le_rfl (hs.only ha) (fun _ _ => rfl)
    (hs.bedded who.pilot) rfl rfl a.main (fun _ _ => rfl)
    (hs.alone ha (Session.mem_slots.mpr (.inl rfl))) (fun m => .inl) hgone hlife
    (fun sl hself hother => ?_)
  by_cases hpost : a.post? = some sl
  · exact hleft sl hpost hself
  · exact hs.vacant_but ha hpost hother

/-- While its session is on, a pilot's record may be written over. -/
theorem setRecord (hs : Sound signedIn s) (ha : s.sessions who = some a) {r : HangarRecord}
    (hbed : s.Bedded who.pilot r) : Sound signedIn (s.setRecord who.pilot r) := by
  have hself : (s.setRecord who.pilot r).sessions = Function.update s.sessions who (some a) := by
    rw [← ha, Function.update_eq_self]
    rfl
  refine hs.session (hs.owned.setRecord _ _) hself (fun _ => hs.came who a ha) le_rfl (hs.only ha)
    (fun p hp => Function.update_of_ne hp _ _) ?_ rfl rfl a.main (fun _ _ => rfl)
    (hs.alone ha (Session.mem_slots.mpr (.inl rfl))) (fun m => .inl) (fun h => nomatch h)
    (fun a' ha' => ?_) (fun sl hmine hother => hs.vacant_but ha (hmine a rfl) hother)
  · change s.Bedded who.pilot (Function.update s.records who.pilot r who.pilot)
    rwa [Function.update_self]
  · cases ha'
    have hframe : Frame s (s.setRecord who.pilot r) who.pilot := .of_suits rfl rfl
    exact hframe.life (fun _ _ => .refl _) (hs.life who a ha)

theorem save (hs : Sound signedIn s) (ha : s.sessions who = some a) {a' : Session}
    (hbed : s.Bedded who.pilot a'.record) (stored : Bool) :
    Sound signedIn (s.save signedIn who a' stored) := by
  unfold Seats.save
  split
  · exact hs.setRecord ha hbed
  · exact hs

/-- A session is over once its record says what its pilot has out there. -/
theorem saveLast (hs : Sound signedIn s) (ha : s.sessions who = some a) {a' : Session}
    (hbed : s.Bedded who.pilot a'.record) (habed : s.Abed who.pilot a'.record)
    (hguest : signedIn who.pilot = false → a'.record.sleeper = none)
    (hleft : ∀ sl, a.post? = some sl → (s.berths sl).Vacant) :
    Sound signedIn (s.saveLast signedIn who a' true) := by
  refine (hs.save ha hbed true).setSession (a := a) ?_ ?_ (fun _ => ?_) (fun _ h => nomatch h)
    (fun sl hpost _ => ?_)
  · unfold Seats.save
    split <;> exact ha
  · exact (hs.save ha hbed true).owned.ended
  · unfold Seats.save onRecord
    cases hsigned : signedIn who.pilot with
    | true =>
      simp only [and_self, ↓reduceIte]
      change s.Abed who.pilot (Function.update s.records who.pilot a'.record who.pilot)
      rwa [Function.update_self]
    | false =>
      simp only [Bool.false_eq_true, false_and, ↓reduceIte]
      intro suit hsuit
      have hsleeper := (habed suit hsuit).2.2
      rw [hguest hsigned] at hsleeper
      cases hsleeper
  · unfold Seats.save
    split <;> exact hleft sl hpost

theorem lease (hs : Sound signedIn s) (hfree : s.IsFree sl) (who : Who) :
    Sound signedIn (s.lease sl who) := by
  refine Calm.sound (Calm.setBerth s ?_) hs (hs.owned.lease hfree who)
  exact ⟨⟨rfl, rfl, .refl _⟩, rfl⟩

/-- What is asked without a seat in mind, in a slot that nobody flies in. -/
theorem push_idle (hs : Sound signedIn s) {m : Control} (howned : Owned false (s.push sl m))
    (hno : ∀ w a, s.sessions w = some a → a.post? ≠ some sl) (hm : m.verb.seats = false)
    (hwatch : m.verb = .watch → sl.side = .colony) : Sound signedIn (s.push sl m) := by
  have hself : (s.push sl m).berths sl = { s.berths sl with queue := (s.berths sl).queue ++ [m] } := by
    simp [Seats.push, Seats.setBerth]
  have hother (sl' : SlotId) (hsl : sl' ≠ sl) : (s.push sl m).berths sl' = s.berths sl' := by
    simp [Seats.push, Seats.setBerth, hsl]
  have hmem (sl' : SlotId) (m' : Control) (hm' : m' ∈ ((s.push sl m).berths sl').queue) :
      m' ∈ (s.berths sl').queue ∨ sl' = sl ∧ m' = m := by
    by_cases hsl : sl' = sl
    · subst hsl
      rw [hself] at hm'
      exact (List.mem_append.mp hm').imp_right fun h => ⟨rfl, List.mem_singleton.mp h⟩
    · exact .inl (hother sl' hsl ▸ hm')
  have hframe (p : ℕ) : Frame s (s.push sl m) p := .of_suits rfl rfl
  refine ⟨howned, hs.came, hs.one, fun w a ha => ?_, fun p hno' => (hframe p).abed (hs.gone p hno'),
    fun sl' hno' => ?_, hs.fresh, hs.bedded, fun sl' m' hm' suit launch hverb => ?_, hs.struck,
    fun sl' m' hm' hverb => ?_⟩
  · refine (hframe _).life (fun sl' hpost => ?_) (hs.life w a ha)
    have hne : sl' ≠ sl := by
      rintro rfl
      exact hno w a ha hpost
    rw [hother sl' hne]
    exact .refl _
  · by_cases hsl : sl' = sl
    · subst hsl
      obtain ⟨hclient, hfates, hseats⟩ := hs.vacant sl' hno
      rw [hself]
      refine ⟨hclient, hfates, fun m' hm' => ?_⟩
      rcases List.mem_append.mp hm' with hm' | hm'
      · exact hseats m' hm'
      · rw [List.mem_singleton.mp hm']
        exact hm
    · rw [hother sl' hsl]
      exact hs.vacant sl' hno'
  · rcases hmem sl' m' hm' with hm' | ⟨rfl, rfl⟩
    · exact hs.comebacks sl' m' hm' suit launch hverb
    · rw [hverb] at hm
      cases hm
  · rcases hmem sl' m' hm' with hm' | ⟨rfl, rfl⟩
    · exact hs.watches sl' m' hm' hverb
    · exact hwatch hverb

/-- What is asked in the slot the session flies in from then on. -/
theorem push_post (hs : Sound signedIn s) (ha : s.sessions who = some a) {m : Control} {a' : Session}
    (howned : Owned false ((s.push sl m).setSession who (some a')))
    (halone : ∀ w b, w ≠ who → s.sessions w = some b → b.post? ≠ some sl)
    (hpost : a'.post? = some sl) (hold : ∀ sl', a.post? = some sl' → sl' = sl)
    (hwatch : m.verb ≠ .watch)
    (hcomeback : ∀ suit launch, m.verb = .join (some suit) launch → suit < s.nextSuit ∧
      ∀ craft, s.suits suit = some craft → craft.pilot = m.who.pilot)
    (hspectating : ∀ k, a'.spectating = some k → sl ≠ ⟨.colony, k.1⟩)
    (hsleeper : a'.record.sleeper = a.record.sleeper)
    (hat : ((s.push sl m).setSession who (some a')).At signedIn who a') :
    Sound signedIn ((s.push sl m).setSession who (some a')) := by
  have hother (sl' : SlotId) (hsl : sl' ≠ sl) : (s.push sl m).berths sl' = s.berths sl' := by
    simp [Seats.push, Seats.setBerth, hsl]
  refine hs.session howned rfl (fun _ => hs.came who a ha) le_rfl (hs.only ha) (fun _ _ => rfl)
    (hs.bedded who.pilot) rfl rfl sl hother halone (fun m' hm' => ?_) (fun h => by cases h)
    (fun a'' ha'' => ?_) (fun sl' hself hothers => ?_)
  · change m' ∈ ((s.push sl m).berths sl).queue at hm'
    simp only [Seats.push, Seats.setBerth, Function.update_self] at hm'
    refine (List.mem_append.mp hm').imp_right fun h => ?_
    rw [List.mem_singleton.mp h]
    exact ⟨fun h => absurd h hwatch, hcomeback⟩
  · cases ha''
    refine (hs.life who a ha).goOn hat (fun k hk => ?_) (.inl hsleeper) rfl rfl
    rw [hpost]
    exact fun h => hspectating k hk (Option.some.inj h)
  · have hne : sl' ≠ sl := by
      rintro rfl
      exact hself a' rfl hpost
    change ((s.push sl m).berths sl').Vacant
    rw [hother sl' hne]
    exact hs.vacant_but ha (fun hpost' => hne (hold sl' hpost')) hothers

end Sound

theorem At.ashore {a : Session} (hstage : a.stage = .play)
    (hsession : a.suit = none ∧ a.inside = none ∧ a.lost = false)
    (hnone : ∀ suit, ¬ s.Abroad who.pilot suit) : s.At signedIn who a := by
  obtain ⟨hsuit, hinside, hlost⟩ := hsession
  refine .of_plays hstage ⟨fun h => absurd hsuit h, fun h => absurd hsuit h, fun h => ?_,
    fun _ => ⟨hinside, hnone⟩⟩
  rw [hlost] at h
  cases h

theorem At.plays {a : Session} (hs : s.At signedIn who a) (hstage : a.stage = .play) :
    s.Plays who.pilot a := by
  unfold At at hs
  rwa [hstage] at hs

theorem Plays.session {a : Session} (hs : s.Plays pilot a) (hsuit : a.suit = none) :
    a.suit = none ∧ a.inside = none ∧ a.lost = false := by
  refine ⟨hsuit, (hs.ashore hsuit).1, ?_⟩
  cases hlost : a.lost with
  | false => rfl
  | true => exact absurd hsuit (hs.lost hlost).1

theorem Session.post_arrived {a : Session} (hstage : a.stage = .arrived) : a.post? = none := by
  simp [Session.post?, hstage]

theorem Session.post_ashore {a : Session} (hstage : a.stage = .play) (hsuit : a.suit = none) :
    a.post? = none := by
  simp [Session.post?, hstage, hsuit]

theorem Session.post_congr {a a' : Session} (hstage : a'.stage = a.stage) (hslot : a'.slot = a.slot)
    (hsuit : a'.suit = a.suit) (hinside : a'.inside = a.inside) : a'.post? = a.post? := by
  unfold Session.post? Session.flying Session.seat Session.main
  rw [hstage, hslot, hsuit, hinside]

@[simp] theorem Session.rebay_sleeper (a : Session) (f : Bay → Bay) :
    (a.rebay f).record.sleeper = a.record.sleeper := rfl

@[simp] theorem Session.settleBay_sleeper (a : Session) (destroyed : Bool) :
    (a.settleBay destroyed).record.sleeper = a.record.sleeper := by
  unfold Session.settleBay
  split <;> rfl

theorem Session.exists_settleLeft (survival : Bool) (a : Session) (slept home : Bool) :
    ∃ f, a.settleLeft survival slept home = a.rebay f := by
  unfold Session.settleLeft
  split
  · exact ⟨id, rfl⟩
  · exact ⟨_, rfl⟩

theorem Verb.asks_eq_false {verb : Verb} (hseats : verb.seats = false) (hwatch : verb ≠ .watch) :
    verb.asks = false := by
  cases verb <;> first | rfl | exact (hwatch rfl).elim | cases hseats

theorem Abed.nobody {r : HangarRecord} (hs : s.Abed pilot r) (h : r.bay ≠ .out ∨ r.sleeper = none)
    (suit : ℕ) : ¬ s.Abroad pilot suit := by
  intro hsuit
  obtain ⟨-, hbay, hsleeper⟩ := hs suit hsuit
  rcases h with h | h
  · exact h hbay
  · rw [h] at hsleeper
    cases hsleeper

theorem main_ne_colony (a : Session) (n : ℕ) : a.main ≠ ⟨.colony, n⟩ :=
  fun h => Side.noConfusion (congrArg SlotId.side h)

namespace Sound

variable {a : Session} {errand : Errand} {verb : Verb}

theorem idle_asks (hs : Sound signedIn s) (hno : ∀ w a, s.sessions w = some a → a.post? ≠ some sl)
    (hspace : sl.side = .space) : ∀ m ∈ (s.berths sl).queue, m.verb.asks = false := by
  intro m hm
  refine Verb.asks_eq_false ((hs.vacant sl hno).queue m hm) fun hwatch => ?_
  have hcolony := hs.watches sl m hm hwatch
  rw [hspace] at hcolony
  cases hcolony

theorem free_asks (hs : Sound signedIn s) (hfree : s.IsFree sl) :
    ∀ m ∈ (s.berths sl).queue, m.verb.asks = false := by
  intro m hm
  cases hasks : m.verb.asks with
  | false => rfl
  | true =>
    have hties : m.verb.ties false = true := by
      revert hasks
      cases m.verb <;> simp [Verb.ties, Verb.asks]
    have hholder := hs.owned.ties sl m.who (.inl ⟨m, hm, hties, rfl⟩)
    rw [hfree] at hholder
    cases hholder

/-- A session asks for a seat, its copy of the bay changed (`b`) or not. -/
theorem ask (hs : Sound signedIn s) (ha : s.sessions who = some a) {b : Session}
    (hslots : b.slots = a.slots) (hsleeper : b.record.sleeper = a.record.sleeper)
    (hsession : b.suit = none ∧ b.inside = none ∧ b.lost = false) (hpost : a.post? = none)
    (hholder : (s.berths (b.seat errand)).holder = some who)
    (hidle : ∀ w b', s.sessions w = some b' → b'.post? ≠ some (b.seat errand))
    (hasks : ∀ m ∈ (s.berths (b.seat errand)).queue, m.verb.asks = false)
    (hwants : s.Wants who.pilot b.record.bay errand verb)
    (hcomeback : ∀ suit launch, verb = .join (some suit) launch → suit < s.nextSuit ∧
      ∀ craft, s.suits suit = some craft → craft.pilot = who.pilot)
    (hspectating : ∀ k, b.spectating = some k → b.seat errand ≠ ⟨.colony, k.1⟩) :
    Sound signedIn (s.ask who b errand verb) := by
  obtain ⟨hclient, hfates, -⟩ := hs.vacant _ hidle
  have hframe : Frame s (s.ask who b errand verb) who.pilot := .of_suits rfl rfl
  have hself : (s.ask who b errand verb).berths (b.seat errand) = { s.berths (b.seat errand) with
      queue := (s.berths (b.seat errand)).queue ++ [⟨who, verb⟩] } := by
    simp [Seats.ask, Seats.push, Seats.setBerth, Seats.setSession]
  have hheld : ∀ sl ∈ b.slots, (s.berths sl).holder = some who := by
    rw [hslots]
    exact hs.owned.held who a ha
  refine hs.push_post ha (hs.owned.ask hheld hholder verb)
    (fun w b' _ hb => hidle w b' hb) rfl (fun sl' hpost' => ?_) (fun hwatch => ?_) hcomeback hspectating
    hsleeper (.of_seating rfl hsession (.inl ⟨⟨who, verb⟩, (s.berths (b.seat errand)).queue,
      (congrArg Berth.queue hself :), hasks, hframe.wants hwants, rfl, ?_, ?_, ?_⟩))
  · rw [hpost] at hpost'
    cases hpost'
  · rw [show verb = .watch from hwatch] at hwants
    exact hwants
  · exact congrArg (·.status.epoch) hself
  · exact (congrArg Berth.client hself).trans hclient
  · exact (congrArg Berth.fates hself).trans hfates

/-- A pilot with no session on comes in with the record they have. -/
theorem arrive (hs : Sound signedIn s) {pilot : ℕ} (n : ℕ)
    (hgone : ∀ who, who.pilot = pilot → s.sessions who = none) :
    Sound signedIn (s.arrive signedIn pilot n true) := by
  have howned : Owned false (s.arrive signedIn pilot n true) := hs.owned.arrive signedIn pilot n true
  revert howned
  simp only [Seats.arrive, and_true]
  split
  next hfree =>
    intro howned
    have hlease := hs.lease hfree ⟨pilot, s.visits⟩
    have hfree' (w : Who) (b : Session)
        (hb : (s.lease ⟨.space, n⟩ ⟨pilot, s.visits⟩).sessions w = some b) :
        b.post? ≠ some ⟨.space, n⟩ := hs.free_idle hfree w b hb
    refine hlease.session howned rfl (fun _ => Nat.lt_succ_self _) (Nat.le_succ _)
      (fun w b hb hp => ?_) (fun _ _ => rfl) (hlease.bedded pilot) rfl rfl ⟨.space, n⟩ (fun _ _ => rfl)
      (fun w b _ hb => hfree' w b hb) (fun m => .inl) (fun h => nomatch h) (fun a' ha' => ?_)
      (fun sl hself hother => ?_)
    · cases (hgone w hp).symm.trans hb
    · cases ha'
      have habed := hlease.gone pilot hgone
      refine ⟨⟨rfl, rfl, rfl, habed⟩, fun k hk => (nomatch hk), fun suit hsuit => ?_, fun hguest => ?_⟩
      · cases hsigned : signedIn pilot with
        | true =>
          simp only [Session.new, hsigned, ↓reduceIte] at hsuit
          exact hlease.bedded pilot suit hsuit
        | false =>
          simp only [Session.new, hsigned, Bool.false_eq_true, ↓reduceIte] at hsuit
          cases hsuit
      · have hguest' : signedIn pilot = false := hguest
        simp only [Session.new, hguest', Bool.false_eq_true, ↓reduceIte]
        rfl
    · refine hlease.vacant sl fun w b hb => ?_
      by_cases hw : w = ⟨pilot, s.visits⟩
      · subst hw
        cases (hgone _ rfl).symm.trans hb
      · exact hother w b hw hb
  · exact fun _ => hs

theorem goAshore (hs : Sound signedIn s) (ha : s.sessions who = some a)
    (hnone : ∀ suit, ¬ s.Abroad who.pilot suit)
    (hleft : ∀ sl, a.post? = some sl → (s.berths sl).Vacant) {a' : Session}
    (howned : Owned false (s.setSession who (some a'))) (hstage : a'.stage = .play)
    (hsession : a'.suit = none ∧ a'.inside = none ∧ a'.lost = false)
    (hsleeper : a'.record.sleeper = a.record.sleeper ∨ a'.record.sleeper = none) :
    Sound signedIn (s.setSession who (some a')) := by
  refine hs.setSession ha howned (fun h => nomatch h) (fun a'' ha'' => ?_)
    (fun sl hpost _ => hleft sl hpost)
  cases ha''
  refine (hs.life who a ha).goOn (.ashore hstage hsession hnone) (fun k _ => ?_) hsleeper rfl rfl
  rw [Session.post_ashore hstage hsession.1]
  exact nofun

theorem session_self (s : Seats) (who : Who) (o : Option Session) :
    (s.setSession who o).sessions who = o := Function.update_self _ _ _

theorem entered_ashore (hs : Sound signedIn s) (ha : s.sessions who = some a)
    (hsession : a.suit = none ∧ a.inside = none ∧ a.lost = false)
    (hnone : ∀ suit, ¬ s.Abroad who.pilot suit)
    (hleft : ∀ sl, a.post? = some sl → (s.berths sl).Vacant) (destroyed : Bool) :
    Sound signedIn (s.entered who (a.settleBay destroyed) none) := by
  refine hs.goAshore ha hnone hleft ?_ rfl ?_ (.inr rfl)
  · apply hs.owned.entered
    rw [Session.settleBay_slots]
    exact hs.owned.held who a ha
  · unfold Session.settleBay
    split <;> exact ⟨rfl, hsession.2⟩

theorem enter (hs : Sound signedIn s) (ha : s.sessions who = some a) (hstage : a.stage = .arrived)
    (survival destroyed : Bool) : Sound signedIn (s.enter survival who a destroyed) := by
  have hat := (hs.life who a ha).stage
  unfold At at hat
  rw [hstage] at hat
  obtain ⟨hsuit, hinside, hlost, habed⟩ := hat
  have hpost : a.post? = none := Session.post_arrived hstage
  have hidle := hs.own_idle ha (Session.mem_slots.mpr (.inl rfl)) (by rw [hpost]; exact nofun)
  have hwants : s.Wants who.pilot a.record.bay .enter (.join a.record.sleeper false) := ⟨rfl, habed⟩
  have hask : Sound signedIn (s.ask who a .enter (.join a.record.sleeper false)) := by
    refine hs.ask ha rfl rfl ⟨hsuit, hinside, hlost⟩ hpost (hs.owned.main ha) hidle
      (hs.idle_asks hidle rfl) hwants (fun suit launch hverb => ?_) (fun k _ => main_ne_colony a k.1)
    have hsleeper : a.record.sleeper = some suit := (Verb.join.inj hverb).1
    exact (hs.life who a ha).bedded suit hsleeper
  unfold Seats.enter
  split
  · split
    next suit hbay hsleeper =>
      rw [← hsleeper]
      exact hask
    next hcase =>
      refine hs.entered_ashore ha ⟨hsuit, hinside, hlost⟩ (habed.nobody ?_) (fun sl hsl => ?_) destroyed
      · cases hsleeper : a.record.sleeper with
        | none => exact .inr rfl
        | some suit => exact .inl fun hout => hcase suit hout hsleeper
      · rw [hpost] at hsl
        cases hsl
  · exact hask

/-- Who asked for a seat in vain is where they were, their suit in its bay. -/
theorem notSeated (hs : Sound signedIn s) (ha : s.sessions who = some a) {epoch : ℕ}
    (hstage : a.stage = .seating errand epoch)
    (hsession : a.suit = none ∧ a.inside = none ∧ a.lost = false)
    (hnone : ∀ suit, ¬ s.Abroad who.pilot suit) (hvacant : (s.berths (a.seat errand)).Vacant)
    (survival destroyed : Bool) : Sound signedIn (s.notSeated survival who a errand destroyed) := by
  have howned := hs.owned.notSeated ha survival errand destroyed
  have hleft (sl : SlotId) (hpost : a.post? = some sl) : (s.berths sl).Vacant := by
    rw [Session.post?, hstage] at hpost
    cases hpost
    exact hvacant
  revert howned
  cases errand with
  | enter =>
    simp only [Seats.notSeated]
    split
    · exact fun _ => hs.entered_ashore ha hsession hnone hleft destroyed
    · exact fun howned => hs.setSession ha howned (fun _ suit hsuit => absurd hsuit (hnone suit))
        (fun _ h => by cases h) fun sl hpost _ => hleft sl hpost
  | launch | launchInside n | board n =>
    exact fun howned => hs.goAshore ha hnone hleft howned rfl hsession (.inl rfl)

theorem goSeated (hs : Sound signedIn s) (ha : s.sessions who = some a) {epoch : ℕ}
    (hstage : a.stage = .seating errand epoch) (hanswered : s.Answered who.pilot a errand)
    {a' : Session} (howned : Owned false (s.setSession who (some a'))) (hplay : a'.stage = .play)
    (hsuit : a'.suit ≠ none) (hlost : a'.lost = false) (hflying : a'.flying = a.seat errand)
    (hspectating : a'.spectating = a.spectating) (hbay : a'.record.bay = a.record.bay)
    (hsleeper : a'.record.sleeper = a.record.sleeper ∨ a'.record.sleeper = none) :
    Sound signedIn (s.setSession who (some a')) := by
  have hpost : a.post? = some (a.seat errand) := by simp [Session.post?, hstage]
  have hpost' : a'.post? = some (a.seat errand) := by
    obtain ⟨suit, hsuit⟩ := Option.ne_none_iff_exists'.mp hsuit
    simp [Session.post?, hplay, hsuit, hflying]
  have hframe : Frame s (s.setSession who (some a')) who.pilot := .of_suits rfl rfl
  refine hs.setSession ha howned (fun h => by cases h) (fun a'' ha'' => ?_) (fun sl hpost'' hno => ?_)
  · cases ha''
    refine (hs.life who a ha).goOn ?_ (fun k hk => ?_) hsleeper rfl rfl
    · refine .of_plays hplay ⟨fun _ => ?_, fun _ => ?_, fun h => ?_, fun h => absurd h hsuit⟩
      · rw [hflying]
        intro m hm
        change m ∈ (s.berths (a.seat errand)).queue at hm
        rw [hanswered.queue] at hm
        exact absurd hm List.not_mem_nil
      · rw [hflying, hbay]
        exact hframe.sits ⟨rfl, rfl, .refl _⟩ (fun _ _ => id) hanswered.sits
      · rw [hlost] at h
        cases h
    · rw [hpost', ← hpost]
      exact (hs.life who a ha).spectating k (hspectating ▸ hk)
  · rw [hpost] at hpost''
    cases hpost''
    exact absurd hpost' (hno a' rfl)

theorem seated (hs : Sound signedIn s) (ha : s.sessions who = some a) {epoch : ℕ}
    (hstage : a.stage = .seating errand epoch)
    (hsession : a.suit = none ∧ a.inside = none ∧ a.lost = false)
    (hanswered : s.Answered who.pilot a errand) (suit : ℕ) :
    Sound signedIn (s.seated who a errand suit) := by
  have howned := hs.owned.seated ha hstage suit
  have hmain : Session.flying { a with stage := .play, suit := some suit } = a.main := by
    simp [Session.flying, hsession.2.1]
    rfl
  cases errand with
  | enter =>
    exact hs.goSeated ha hstage hanswered howned rfl nofun hsession.2.2 hmain rfl rfl (.inr rfl)
  | launch => exact hs.goSeated ha hstage hanswered howned rfl nofun rfl hmain rfl rfl (.inl rfl)
  | launchInside n | board n =>
    exact hs.goSeated ha hstage hanswered howned rfl nofun rfl rfl rfl rfl (.inl rfl)

end Sound

theorem Berth.Settled.fates {b : Berth} (h : b.Settled false) : b.fates = [] := by
  refine List.filter_eq_nil_iff.mpr fun note hn => ?_
  rw [h.2.2.1 note hn]
  exact Bool.false_ne_true

theorem Verb.ties_false (verb : Verb) : verb.ties false = verb.asks := by
  cases verb <;> rfl

theorem Wants.seats {errand : Errand} {verb : Verb} (h : s.Wants pilot bay errand verb) :
    verb.seats = true := by
  unfold Wants at h
  revert h
  cases verb <;> first | exact fun _ => rfl | exact False.elim

theorem Asking.not_settled {a : Session} {errand : Errand} {epoch : ℕ} {m : Control}
    {before : List Control} (h : s.Asking who a errand epoch m before) :
    ¬ (s.berths (a.seat errand)).Settled false := by
  intro hsettled
  have hnot := hsettled.1 m (by rw [h.queue]; exact List.mem_append_right _ (.head _))
  rw [Verb.ties_false, Verb.seats.asks h.wants.seats] at hnot
  cases hnot

theorem Sits.nobody (h : s.Sits pilot bay sl fun _ => False) (hclient : (s.berths sl).client = none)
    (suit : ℕ) : ¬ s.Abroad pilot suit := by
  intro hsuit
  obtain ⟨c, hc, -⟩ := (h.abroad suit hsuit).2.resolve_right id
  rw [hclient] at hc
  cases hc

namespace Sound

variable {a : Session} {errand : Errand}

theorem look (hs : Sound signedIn s) (ha : s.sessions who = some a) (survival timedOut destroyed : Bool)
    (hwaits : timedOut = true → ∀ errand epoch, a.stage = .seating errand epoch →
      (s.berths (a.seat errand)).status.Answers epoch ∨ (s.berths (a.seat errand)).Settled false) :
    Sound signedIn (s.look survival who a timedOut destroyed) := by
  unfold Seats.look
  split
  next errand epoch hstage =>
    dsimp only
    have hpost : a.post? = some (a.seat errand) := by simp [Session.post?, hstage]
    have hseat : (a.suit = none ∧ a.inside = none ∧ a.lost = false) ∧
        ((∃ m before, s.Asking who a errand epoch m before) ∨ s.Answered who.pilot a errand) := by
      have hat := (hs.life who a ha).stage
      unfold At at hat
      rw [hstage] at hat
      exact ⟨⟨hat.1, hat.2.1, hat.2.2.1⟩, hat.2.2.2⟩
    obtain ⟨hsession, hseat⟩ := hseat
    have hempty (hanswered : s.Answered who.pilot a errand)
        (hclient : (s.berths (a.seat errand)).client = none)
        (hfates : (s.berths (a.seat errand)).fates = []) :
        Sound signedIn (s.notSeated survival who a errand destroyed) := by
      refine hs.notSeated ha hstage hsession (hanswered.sits.nobody hclient) ⟨hclient, hfates, ?_⟩
        survival destroyed
      rw [hanswered.queue]
      exact fun m hm => absurd hm List.not_mem_nil
    split
    next hanswers =>
      have hanswered : s.Answered who.pilot a errand := by
        refine hseat.resolve_left ?_
        rintro ⟨m, before, hasking⟩
        exact hanswers.1 hasking.epoch
      split
      · exact hs.seated ha hstage hsession hanswered _
      next hcase =>
        have hclient : (s.berths (a.seat errand)).client = none := by
          cases hclient : (s.berths (a.seat errand)).client with
          | none => rfl
          | some c =>
            have hfits := hanswered.sits.fits c hclient
            exact (hcase c.suit hfits.state hfits.suit).elim
        refine hempty hanswered hclient (hanswered.refused ?_).2
        have hactive := hanswered.active hclient
        have hfree := hanswers.2
        cases hstate : (s.berths (a.seat errand)).status.state with
        | free => exact absurd hstate hfree
        | active => exact absurd hstate hactive
        | refused => rfl
    next hnot =>
      split
      next hout =>
        have hsettled := (hwaits hout errand epoch hstage).resolve_left hnot
        have hanswered : s.Answered who.pilot a errand := by
          refine hseat.resolve_left ?_
          rintro ⟨m, before, hasking⟩
          exact hasking.not_settled hsettled
        exact hempty hanswered hsettled.2.1 hsettled.fates
      · exact hs
  · exact hs

theorem plays (hs : Sound signedIn s) (ha : s.sessions who = some a) (hstage : a.stage = .play) :
    s.Plays who.pilot a :=
  (hs.life who a ha).stage.plays hstage

theorem launch (hs : Sound signedIn s) (ha : s.sessions who = some a) (hstage : a.stage = .play) :
    Sound signedIn (s.launch who a) := by
  unfold Seats.launch
  split
  next h =>
    have hplays := hs.plays ha hstage
    have hpost := Session.post_ashore hstage h.1
    have hidle := hs.own_idle ha (Session.mem_slots.mpr (.inl rfl)) (by rw [hpost]; exact nofun)
    have hout : (a.rebay .launch).record.bay = .out := by
      rw [Session.rebay, h.2]
      rfl
    exact hs.ask ha (a.rebay_slots _) rfl (hplays.session h.1) hpost
      (Owned.main (a := a) hs.owned ha) hidle (hs.idle_asks hidle rfl)
      ⟨⟨0, .inr rfl⟩, rfl, hout, (hplays.ashore h.1).2⟩ (fun suit launch hverb => nomatch hverb)
      (fun k _ => main_ne_colony a k.1)
  · exact hs

theorem leased_ne (hs : Sound signedIn s) (ha : s.sessions who = some a) {n : ℕ}
    (hfree : s.IsFree ⟨.colony, n⟩) (k : ℕ × Bool) (hk : a.spectating = some k) :
    (⟨.colony, n⟩ : SlotId) ≠ ⟨.colony, k.1⟩ := by
  intro heq
  have hheld := hs.owned.held who a ha ⟨.colony, k.1⟩
    (Session.mem_slots.mpr (.inr (.inr (.inl ⟨k, hk, rfl⟩))))
  rw [← heq, hfree] at hheld
  cases hheld

theorem ask_leased (hs : Sound signedIn s) (ha : s.sessions who = some a) (hstage : a.stage = .play)
    (hsuit : a.suit = none) {n : ℕ} (hfree : s.IsFree ⟨.colony, n⟩)
    (hslot : errand.slot? = some ⟨.colony, n⟩) {verb : Verb} (f : Bay → Bay)
    (hwants : s.Wants who.pilot (f a.record.bay) errand verb)
    (hcomeback : ∀ suit launch, verb ≠ .join (some suit) launch) :
    Sound signedIn ((s.lease ⟨.colony, n⟩ who).ask who (a.rebay f) errand verb) := by
  have hseat : (a.rebay f).seat errand = ⟨.colony, n⟩ := by rw [Session.seat, hslot, Option.getD_some]
  have hlease := hs.lease hfree who
  have hframe : Frame s (s.lease ⟨.colony, n⟩ who) who.pilot := .of_suits rfl rfl
  refine hlease.ask ha (a.rebay_slots f) rfl ((hs.plays ha hstage).session hsuit)
    (Session.post_ashore hstage hsuit) ?_ ?_ ?_ (hframe.wants hwants)
    (fun suit launch h => absurd h (hcomeback suit launch)) ?_
  · rw [hseat]
    exact Owned.holder_lease _ _
  · rw [hseat]
    exact hs.free_idle hfree
  · rw [hseat]
    simpa [Seats.lease, Seats.setBerth] using hs.free_asks hfree
  · rw [hseat]
    exact hs.leased_ne ha hfree

theorem launchInside (hs : Sound signedIn s) (ha : s.sessions who = some a) (hstage : a.stage = .play)
    (n : ℕ) : Sound signedIn (s.launchInside who a n) := by
  unfold Seats.launchInside
  split
  next h =>
    have hnone := ((hs.plays ha hstage).ashore h.1).2
    refine hs.ask_leased ha hstage h.1 h.2.2 rfl _ ⟨⟨n, .inl rfl⟩, rfl, ?_, hnone⟩
      (fun suit launch => nofun)
    rw [h.2.1]
    rfl
  · exact hs

theorem boardTrainer (hs : Sound signedIn s) (ha : s.sessions who = some a) (hstage : a.stage = .play)
    (n : ℕ) : Sound signedIn (s.boardTrainer who a n) := by
  unfold Seats.boardTrainer
  split
  next h =>
    have hwants : s.Wants who.pilot a.record.bay (.board n) .board :=
      ⟨⟨n, rfl⟩, ((hs.plays ha hstage).ashore h.1).2⟩
    exact hs.ask_leased ha hstage h.1 h.2 rfl id hwants (fun suit launch => nofun)
  · exact hs

/-- What a session that plays on changes but where it flies and what becomes of its suit. -/
theorem playOn (hs : Sound signedIn s) (ha : s.sessions who = some a) {a' : Session}
    (howned : Owned false (s.setSession who (some a'))) (hstage' : a'.stage = .play)
    (hpost : a'.post? = a.post?) (hplays : s.Plays who.pilot a')
    (hspectating : ∀ k, a'.spectating = some k → a.post? ≠ some ⟨.colony, k.1⟩)
    (hsleeper : a'.record.sleeper = a.record.sleeper) :
    Sound signedIn (s.setSession who (some a')) := by
  have hframe : Frame s (s.setSession who (some a')) who.pilot := .of_suits rfl rfl
  refine hs.setSession ha howned (fun h => nomatch h) (fun a'' ha'' => ?_) (fun sl hpost' hno => ?_)
  · cases ha''
    refine (hs.life who a ha).goOn (.of_plays hstage' ?_) (fun k hk => ?_) (.inl hsleeper) rfl rfl
    · exact hframe.plays (fun _ => .refl _) hplays
    · rw [hpost]
      exact hspectating k hk
  · exact absurd (hpost.trans hpost') (hno _ rfl)

theorem spectate (hs : Sound signedIn s) (ha : s.sessions who = some a) (hstage : a.stage = .play)
    {o : Option (ℕ × Bool)}
    (howned : Owned false (s.setSession who (some { a with spectating := o })))
    (hne : ∀ k, o = some k → a.post? ≠ some ⟨.colony, k.1⟩) :
    Sound signedIn (s.setSession who (some { a with spectating := o })) := by
  have hplays := hs.plays ha hstage
  exact hs.playOn ha howned hstage (Session.post_congr rfl rfl rfl rfl)
    ⟨hplays.calm, hplays.sits, hplays.lost, hplays.ashore⟩ hne rfl

theorem watch (hs : Sound signedIn s) (ha : s.sessions who = some a) (hstage : a.stage = .play)
    (n : ℕ) : Sound signedIn (s.watch who a n) := by
  have howned : Owned false (s.watch who a n) := hs.owned.watch ha n
  revert howned
  unfold Seats.watch
  split
  next hnone =>
    split
    next hfree =>
      intro howned
      have hlease := hs.lease hfree who
      have hidle := hs.free_idle hfree
      have hpush : Sound signedIn ((s.lease ⟨.colony, n⟩ who).push ⟨.colony, n⟩ ⟨who, .watch⟩) :=
        hlease.push_idle (hlease.owned.push fun _ => Owned.holder_lease _ _) hidle rfl fun _ => rfl
      refine hpush.spectate ha hstage howned fun k hk => ?_
      cases hk
      exact hidle who a ha
    · exact fun _ => hs
  next k hk =>
    intro howned
    have hmem : (⟨.colony, k⟩ : SlotId) ∈ a.slots := Session.mem_slots.mpr (.inr (.inr (.inl ⟨_, hk, rfl⟩)))
    have hne := (hs.life who a ha).spectating _ hk
    exact hs.push_idle howned (hs.own_idle ha hmem hne) rfl fun _ => rfl
  · exact fun _ => hs

theorem unwatch (hs : Sound signedIn s) (ha : s.sessions who = some a) (hstage : a.stage = .play) :
    Sound signedIn (s.unwatch who a) := by
  have howned : Owned false (s.unwatch who a) := hs.owned.unwatch ha
  revert howned
  unfold Seats.unwatch
  split
  next n hn =>
    intro howned
    have hne := (hs.life who a ha).spectating _ hn
    have hmem : (⟨.colony, n⟩ : SlotId) ∈ a.slots := Session.mem_slots.mpr (.inr (.inr (.inl ⟨_, hn, rfl⟩)))
    have hpush : Sound signedIn (s.push ⟨.colony, n⟩ ⟨who, .leave false⟩) :=
      hs.push_idle (hs.owned.say rfl) (hs.own_idle ha hmem hne) rfl nofun
    refine hpush.spectate ha hstage howned fun k hk => ?_
    cases hk
    exact hne
  · exact fun _ => hs

theorem unwatched (hs : Sound signedIn s) (ha : s.sessions who = some a) (hstage : a.stage = .play) :
    Sound signedIn (s.unwatched who a) := by
  have howned : Owned false (s.unwatched who a) := hs.owned.unwatched ha
  revert howned
  unfold Seats.unwatched
  split
  next n hn =>
    intro howned
    have hthrow : Sound signedIn (s.throw ⟨.colony, n⟩ (s.berths ⟨.colony, n⟩).ring []) := by
      refine (Calm.throw s _ (List.nil_sublist _)).sound hs (hs.owned.tame ?_)
      exact (Tame.refl s).throw fun _ h => absurd h List.not_mem_nil
    exact hthrow.spectate ha hstage howned fun k hk => nomatch hk
  · exact fun _ => hs

end Sound

theorem Sits.rebay {away : ℕ → Prop} (h : s.Sits pilot bay sl away)
    (hnone : ∀ suit, ¬ s.Abroad pilot suit) (bay' : Bay) : s.Sits pilot bay' sl away :=
  ⟨h.fits, h.short, h.space, h.bed, fun suit hsuit => absurd hsuit (hnone suit)⟩

theorem Session.flying_space {a : Session} (h : a.flying.side = .space) : a.inside = none := by
  unfold Session.flying at h
  cases hinside : a.inside with
  | none => rfl
  | some n =>
    rw [hinside] at h
    cases h

theorem Session.post_play_eq {a : Session} (hstage : a.stage = .play) (hpost : a.post? = some sl) :
    a.suit ≠ none ∧ sl = a.flying := by
  rw [Session.post?, hstage] at hpost
  obtain ⟨suit, hsuit, rfl⟩ := Option.map_eq_some_iff.mp hpost
  exact ⟨by simp [hsuit], rfl⟩

theorem Session.flying_mem (a : Session) : a.flying ∈ a.slots := by
  unfold Session.flying
  apply Session.mem_slots.mpr
  cases hinside : a.inside with
  | none => exact .inl rfl
  | some n => exact .inr (.inl ⟨n, rfl, rfl⟩)

namespace Sound

variable {a : Session}

/-- What a session at play asks that neither seats anyone nor lets them go. -/
theorem say (hs : Sound signedIn s) (ha : s.sessions who = some a) (hstage : a.stage = .play)
    (hsl : sl ∈ a.slots) {m : Control} (howned : Owned false (s.push sl m)) (hm : m.verb.calm = true) :
    Sound signedIn (s.push sl m) := by
  have hwatch : m.verb ≠ .watch := by
    intro h
    rw [h] at hm
    cases hm
  by_cases hpost : a.post? = some sl
  · have hself : (s.push sl m).setSession who (some a) = s.push sl m := by
      have hsessions : (s.push sl m).sessions who = some a := ha
      rw [Seats.setSession, ← hsessions, Function.update_eq_self]
    obtain ⟨hsuit, rfl⟩ := Session.post_play_eq hstage hpost
    have hplays := hs.plays ha hstage
    have hframe : Frame s (s.push a.flying m) who.pilot := .of_suits rfl rfl
    have hnear : (s.berths a.flying).Near ((s.push a.flying m).berths a.flying) := by
      simp only [Seats.push, Seats.setBerth, Function.update_self]
      exact ⟨rfl, rfl, .refl _⟩
    have hplays' : (s.push a.flying m).Plays who.pilot a := by
      refine ⟨fun _ m' hm' => ?_, fun _ => hframe.sits hnear (fun _ _ => id) (hplays.sits hsuit),
        fun hlost => ?_, fun h => absurd h hsuit⟩
      · simp only [Seats.push, Seats.setBerth, Function.update_self] at hm'
        rcases List.mem_append.mp hm' with hm' | hm'
        · exact hplays.calm hsuit m' hm'
        · rw [List.mem_singleton.mp hm']
          exact hm
      · obtain ⟨-, hinside, hfates, hclient⟩ := hplays.lost hlost
        refine ⟨hsuit, hinside, hnear.nil hfates, ?_⟩
        rw [hnear.client]
        exact hclient
    rw [← hself]
    refine hs.push_post ha (by rwa [hself]) (hs.alone ha hsl) hpost (fun sl' hpost' => ?_) hwatch
      (fun suit launch h => ?_) (fun k hk heq => ?_) rfl ?_
    · rw [hpost] at hpost'
      exact (Option.some.inj hpost').symm
    · rw [h] at hm
      cases hm
    · exact (hs.life who a ha).spectating k hk (hpost.trans (congrArg some heq))
    · rw [hself]
      exact .of_plays hstage hplays'
  · exact hs.push_idle howned (hs.own_idle ha hsl hpost) (Verb.calm.not_seats hm)
      fun h => absurd h hwatch

theorem dock (hs : Sound signedIn s) (ha : s.sessions who = some a) (hstage : a.stage = .play) :
    Sound signedIn (s.dock who a) := by
  unfold Seats.dock
  split
  · exact hs.say ha hstage a.flying_mem (hs.owned.say rfl) rfl
  · exact hs

theorem eject (hs : Sound signedIn s) (ha : s.sessions who = some a) (hstage : a.stage = .play)
    (destruct : Bool) : Sound signedIn (s.eject who a destruct) := by
  unfold Seats.eject
  split
  · exact hs.say ha hstage (Session.mem_slots.mpr (.inl rfl)) (hs.owned.say rfl) rfl
  · exact hs

theorem setTowing (hs : Sound signedIn s) (ha : s.sessions who = some a) (hstage : a.stage = .play)
    (towing : Bool) (howned : Owned false (s.setSession who (some { a with towing := towing }))) :
    Sound signedIn (s.setSession who (some { a with towing := towing })) := by
  have hplays := hs.plays ha hstage
  exact hs.playOn ha howned hstage (Session.post_congr rfl rfl rfl rfl)
    ⟨hplays.calm, hplays.sits, hplays.lost, hplays.ashore⟩ (hs.life who a ha).spectating rfl

/-- The session that flies in a slot leaves it, with nobody seated there and nothing to tell. -/
theorem goHome (hs : Sound signedIn s) (ha : s.sessions who = some a) (hstage : a.stage = .play)
    (hsuit : a.suit ≠ none) (hclient : (s.berths a.flying).client = none)
    (hfates : (s.berths a.flying).fates = []) {a' : Session}
    (howned : Owned false (s.setSession who (some a'))) (hstage' : a'.stage = .play)
    (hsession : a'.suit = none ∧ a'.inside = none ∧ a'.lost = false)
    (hsleeper : a'.record.sleeper = a.record.sleeper) : Sound signedIn (s.setSession who (some a')) := by
  have hplays := hs.plays ha hstage
  have hnone := (hplays.sits hsuit).nobody hclient
  refine hs.goAshore ha hnone (fun sl hpost => ?_) howned hstage' hsession (.inl hsleeper)
  obtain ⟨-, rfl⟩ := Session.post_play_eq hstage hpost
  exact ⟨hclient, hfates, fun m hm => Verb.calm.not_seats (hplays.calm hsuit m hm)⟩

theorem cleared (hs : Sound signedIn s) (ha : s.sessions who = some a) (hstage : a.stage = .play) :
    Sound signedIn (s.cleared who a) := by
  have howned : Owned false (s.cleared who a) := hs.owned.cleared ha hstage
  revert howned
  unfold Seats.cleared
  split
  next h =>
    intro howned
    have hplays := hs.plays ha hstage
    obtain ⟨hsuit, hinside, hfates, -⟩ := hplays.lost h.1
    have hflying : a.flying = a.main := by simp [Session.flying, hinside]
    refine hs.goHome ha hstage hsuit ?_ hfates howned hstage ⟨rfl, hinside, rfl⟩ rfl
    cases hclient : (s.berths a.flying).client with
    | none => rfl
    | some c =>
      have hstate := ((hplays.sits hsuit).fits c hclient).state
      rw [hflying, h.2] at hstate
      cases hstate
  · exact fun _ => hs

theorem work (hs : Sound signedIn s) (ha : s.sessions who = some a) (hstage : a.stage = .play)
    (bay : Bay) : Sound signedIn (s.work who a bay) := by
  unfold Seats.work
  split
  next h =>
    have hplays := hs.plays ha hstage
    have hnone : ∀ suit, ¬ s.Abroad who.pilot suit := by
      intro suit hsuit
      by_cases hseat : a.suit = none
      · exact (hplays.ashore hseat).2 suit hsuit
      · exact h.1 ((hplays.sits hseat).abroad suit hsuit).1
    exact hs.playOn ha (hs.owned.keep (hs.owned.held who a ha) fun _ => id) hstage
      (Session.post_congr rfl rfl rfl rfl)
      ⟨hplays.calm, fun hsuit => (hplays.sits hsuit).rebay hnone _, hplays.lost, hplays.ashore⟩
      (hs.life who a ha).spectating rfl
  · exact hs

theorem wrecked (hs : Sound signedIn s) (ha : s.sessions who = some a) (hstage : a.stage = .play)
    (hsuit : a.suit ≠ none) (hclient : ∀ c, (s.berths a.flying).client = some c → c.lost = true)
    (suit : ℕ) : ¬ s.Abroad who.pilot suit := by
  intro hout
  have hsits := (hs.plays ha hstage).sits hsuit
  obtain ⟨c, hc, rfl⟩ := (hsits.abroad suit hout).2.resolve_right id
  obtain ⟨craft, hcraft, -, -, hshape⟩ := hout
  have hfits := hsits.fits c hc
  have hdown := hfits.down (hclient c hc)
  have hup := hfits.up
  rw [shape?, hcraft, Option.map_some] at hdown hup
  cases hcase : craft.shape with
  | awake => exact hdown (by rw [hcase])
  | asleep => exact hup (by rw [hcase])
  | wreck => exact hshape hcase

theorem onReport (hs : Sound signedIn s) (ha : s.sessions who = some a) (hstage : a.stage = .play)
    (survival claims : Bool) (report : Report)
    (hhome : report = .home → a.suit ≠ none ∧ a.lost = false ∧ (s.berths a.flying).fates = [] ∧
      (s.berths a.flying).client = none)
    (hlost : ∀ how, report = .lost how → a.suit ≠ none ∧ a.inside = none ∧
      (s.berths a.flying).fates = [] ∧ ∀ c, (s.berths a.flying).client = some c → c.lost = true) :
    Sound signedIn (s.onReport survival who a claims report) := by
  have howned : Owned false (s.onReport survival who a claims report) :=
    hs.owned.onReport ha hstage survival claims report
  revert howned
  cases report with
  | home =>
    obtain ⟨hsuit, hnot, hfates, hclient⟩ := hhome rfl
    simp only [Seats.onReport]
    split
    all_goals
      intro howned
      exact hs.goHome ha hstage hsuit hclient hfates howned hstage ⟨rfl, rfl, hnot⟩ rfl
  | towed => exact hs.setTowing ha hstage false
  | aceDown =>
    simp only [Seats.onReport]
    split
    · intro howned
      have hsay : Sound signedIn (s.push a.main ⟨who, .claim⟩) :=
        hs.say ha hstage (Session.mem_slots.mpr (.inl rfl)) (hs.owned.say rfl) rfl
      exact hsay.setTowing ha hstage true howned
    · exact fun _ => hs
  | lost how =>
    simp only [Seats.onReport]
    split
    · exact fun _ => hs
    · obtain ⟨hsuit, hinside, hfates, hclient⟩ := hlost how rfl
      have hplays := hs.plays ha hstage
      have hnone := hs.wrecked ha hstage hsuit hclient
      split
      all_goals
        intro howned
        exact hs.playOn ha howned hstage (Session.post_congr rfl rfl rfl rfl)
          ⟨hplays.calm, fun hsuit => (hplays.sits hsuit).rebay hnone _,
            fun _ => ⟨hsuit, hinside, hfates, hclient⟩, hplays.ashore⟩
          (hs.life who a ha).spectating rfl
  | dockRefused | course | drill | parked => exact fun _ => hs

theorem heard_mem {a : Session} {colony : Bool}
    (h : (if colony then a.inside.map (⟨.colony, ·⟩) else some a.main) = some sl) : sl ∈ a.slots := by
  apply Session.mem_slots.mpr
  cases colony with
  | false => exact .inl (Option.some.inj h).symm
  | true =>
    obtain ⟨n, hn, rfl⟩ := Option.map_eq_some_iff.mp h
    exact .inr (.inl ⟨n, hn, rfl⟩)

/-- What is told of a suit is all there is to tell, in the slot the session flies in. -/
theorem fates_of_heard (hs : Sound signedIn s) (ha : s.sessions who = some a) (hstage : a.stage = .play)
    (hsl : sl ∈ a.slots) {note : Note} {ring : List Note} (hring : (s.berths sl).ring = note :: ring)
    (hties : note.report.ties false = true) :
    a.suit ≠ none ∧ note ∈ (s.berths a.flying).fates ∧
      ((s.take sl who [note] ring).berths a.flying).fates = [] := by
  have hin : note ∈ (s.berths sl).fates := by
    refine List.mem_filter.mpr ⟨List.mem_append_left _ ?_, hties⟩
    rw [hring]
    exact .head ring
  have hpost : a.post? = some sl := by
    by_contra hne
    have hvacant := hs.vacant sl (hs.own_idle ha hsl hne)
    rw [hvacant.fates] at hin
    exact absurd hin List.not_mem_nil
  obtain ⟨hsuit, rfl⟩ := Session.post_play_eq hstage hpost
  have hshort := ((hs.plays ha hstage).sits hsuit).short
  refine ⟨hsuit, hin, ?_⟩
  simp only [Berth.fates, Berth.mail, hring, List.cons_append, List.filter_cons, hties, if_true,
    List.length_cons] at hshort
  have hnil := List.length_eq_zero_iff.mp (Nat.le_zero.mp (Nat.le_of_succ_le_succ hshort))
  simpa only [Seats.take, Seats.setBerth, Function.update_self, Berth.fates, Berth.mail] using hnil

theorem of_hear (hs : Sound signedIn s) (ha : s.sessions who = some a) (hstage : a.stage = .play)
    (survival colony claims : Bool) : Sound signedIn (s.hear survival who a colony claims) := by
  unfold Seats.hear
  split
  · exact hs
  next sl hsl =>
    split
    · exact hs
    next note ring hring =>
      have htake : Sound signedIn (s.take sl who [note] ring) := by
        refine (Calm.take s _ _ ?_).sound hs (hs.owned.tame ((Tame.refl s).take fun n hn => ?_))
        · rw [hring]
          exact List.sublist_cons_self note ring
        · rw [hring]
          exact .tail note hn
      have hfate := hs.fates_of_heard ha hstage (heard_mem hsl) hring
      have hplays := hs.plays ha hstage
      have hclient : ((s.take sl who [note] ring).berths a.flying).client =
          (s.berths a.flying).client := by
        by_cases hne : a.flying = sl
        · rw [hne]
          simp [Seats.take, Seats.setBerth]
        · simp [Seats.take, Seats.setBerth, hne]
      refine htake.onReport ha hstage survival claims note.report (fun hhome => ?_) fun how hhow => ?_
      · obtain ⟨hsuit, hin, hnil⟩ := hfate (by rw [hhome]; rfl)
        refine ⟨hsuit, ?_, hnil, ?_⟩
        · cases hlost : a.lost with
          | false => rfl
          | true =>
            rw [(hplays.lost hlost).2.2.1] at hin
            exact absurd hin List.not_mem_nil
        · rw [hclient]
          cases hc : (s.berths a.flying).client with
          | none => rfl
          | some c => exact absurd hhome (((hplays.sits hsuit).fits c hc).loss note hin)
      · obtain ⟨hsuit, hin, hnil⟩ := hfate (by rw [hhow]; rfl)
        refine ⟨hsuit, Session.flying_space ((hplays.sits hsuit).space note hin ?_), hnil, fun c hc => ?_⟩
        · rw [hhow]
          exact fun h => by cases h
        · rw [hclient] at hc
          cases hlost : c.lost with
          | true => rfl
          | false =>
            rw [((hplays.sits hsuit).fits c hc).unheard hlost] at hin
            exact absurd hin List.not_mem_nil

/-- A session is over, or waits for the tugs, once what its pilot has out there is in its record. -/
theorem settleTow (hs : Sound signedIn s) (ha : s.sessions who = some a) {a' : Session}
    (hbed : s.Bedded who.pilot a'.record) (habed : s.Abed who.pilot a'.record)
    (hguest : signedIn who.pilot = false → a'.record.sleeper = none)
    (hleft : ∀ sl, a.post? = some sl → (s.berths sl).Vacant) (survival : Bool)
    (hslots : ∀ sl ∈ Session.slots { a' with stage := .tugs }, sl ∈ a.slots) :
    Sound signedIn (s.settleTow survival signedIn who a' true) := by
  unfold Seats.settleTow
  split
  · have htugs : Sound signedIn (s.setSession who (some { a' with stage := .tugs })) := by
      have howned := hs.owned.keep (hs.owned.held who a ha) hslots
      refine hs.setSession ha howned (fun h => nomatch h) (fun b hb => ?_)
        (fun sl hpost _ => hleft sl hpost)
      cases hb
      exact ⟨habed, fun k _ h => (nomatch h), hbed, hguest⟩
    refine htugs.push_idle (htugs.owned.say rfl) ?_ rfl (fun h => by cases h)
    exact htugs.own_idle (session_self s who _) (Session.mem_slots.mpr (.inl rfl)) (fun h => by cases h)
  · exact hs.saveLast ha hbed habed hguest hleft

/-- The pilot asks to leave the slot they fly in, last of all. -/
theorem askToLeave (hs : Sound signedIn s) (ha : s.sessions who = some a) (hstage : a.stage = .play)
    {a' : Session} {sl : SlotId} {sleep : Bool} (hsuit : a.suit ≠ none) (hsl : sl = a.flying)
    (hpost : a'.post? = some sl) (hspectating : a'.spectating = none)
    (hrecord : a'.record = a.record)
    (hkept : ∀ s' : Seats, s'.Leaves signedIn who.pilot a'.record.bay sl → s'.At signedIn who a')
    (hsleep : sleep = true → signedIn who.pilot = true ∧ sl.side = .space)
    (howned : Owned false ((s.push sl ⟨who, .leave sleep⟩).setSession who (some a'))) :
    Sound signedIn ((s.push sl ⟨who, .leave sleep⟩).setSession who (some a')) := by
  subst hsl
  have hplays := hs.plays ha hstage
  have hframe : Frame s ((s.push a.flying ⟨who, .leave sleep⟩).setSession who (some a')) who.pilot :=
    .of_suits rfl rfl
  have hself : ((s.push a.flying ⟨who, .leave sleep⟩).setSession who (some a')).berths a.flying =
      { s.berths a.flying with queue := (s.berths a.flying).queue ++ [⟨who, .leave sleep⟩] } := by
    simp [Seats.push, Seats.setBerth, Seats.setSession]
  have hsits := hplays.sits hsuit
  rw [← hrecord] at hsits
  refine hs.push_post ha howned (hs.alone ha a.flying_mem) hpost (fun sl' hpost' => ?_)
    (fun h => by cases h) (fun suit launch h => by cases h) (fun k hk => ?_) (by rw [hrecord])
    (hkept _ ⟨.inl ⟨_, who, sleep, ?_, hplays.calm hsuit, hsleep,
      hframe.sits ?_ (fun _ _ => id) hsits⟩⟩)
  · exact (Session.post_play_eq hstage hpost').2
  · rw [hspectating] at hk
    cases hk
  · rw [hself]
  · rw [hself]
    exact ⟨rfl, rfl, .refl _⟩

theorem leave (hs : Sound signedIn s) (ha : s.sessions who = some a) (hstage : a.stage = .play)
    (survival : Bool) : Sound signedIn (s.leave survival signedIn who a true) := by
  have howned : Owned false (s.leave survival signedIn who a true) :=
    hs.owned.leave ha survival signedIn true
  have hplays := hs.plays ha hstage
  revert howned
  unfold Seats.leave
  split
  · exact fun _ => hs
  next hspectating =>
    have hnot : a.spectating = none := not_ne_iff.mp hspectating
    split
    next n hn =>
      have hsuit : a.suit ≠ none := by
        intro hsuit
        rw [(hplays.ashore hsuit).1] at hn
        cases hn
      refine hs.askToLeave ha hstage hsuit ?_ rfl hnot rfl (fun s' h => h) (fun h => by cases h)
      simp [Session.flying, hn]
    next suit hinside hsuit =>
      refine hs.askToLeave ha hstage (by simp [hsuit]) ?_ rfl hnot rfl (fun s' h => h)
        (fun h => ⟨h, rfl⟩)
      simp [Session.flying, hinside]
    next hinside hsuit =>
      intro _
      have hnone := (hplays.ashore hsuit).2
      refine hs.settleTow ha (hs.life who a ha).bedded (fun suit h => absurd h (hnone suit))
        (hs.life who a ha).guest (fun sl hpost => ?_) survival ?_
      · rw [Session.post_ashore hstage hsuit] at hpost
        cases hpost
      · exact slots_subset rfl (fun _ => id) (fun k hk => ⟨k, hk, rfl⟩) (fun sl hsl => by cases hsl)

end Sound

/-- Once nobody is seated in the slot, what the pilot left out there sleeps. -/
theorem Leaves.out (h : s.Leaves signedIn pilot bay sl) (hclient : (s.berths sl).client = none) :
    s.Sits pilot bay sl (s.Slept signedIn pilot sl) := by
  rcases h.queue with ⟨-, -, -, -, -, -, hsits⟩ | ⟨-, -, hsits⟩
  · exact ⟨hsits.fits, hsits.short, hsits.space, hsits.bed,
      fun suit hsuit => absurd hsuit (hsits.nobody hclient suit)⟩
  · exact hsits

theorem Berth.Settled.vacant {b : Berth} (h : b.Settled false) : b.Vacant := by
  refine ⟨h.2.1, h.fates, fun m hm => ?_⟩
  have hasks := h.1 m hm
  rw [Verb.ties_false] at hasks
  cases hseats : m.verb.seats with
  | false => rfl
  | true =>
    rw [Verb.seats.asks hseats] at hasks
    cases hasks

namespace Sound

variable {a : Session}

theorem leftColony (hs : Sound signedIn s) (ha : s.sessions who = some a) (survival : Bool)
    (hwaits : ∀ n, a.stage = .leavingColony n →
      Berth.Settled false { s.berths ⟨.colony, n⟩ with ring := [] }) :
    Sound signedIn (s.leftColony survival signedIn who a true) := by
  unfold Seats.leftColony
  split
  next n hstage =>
    have hsettled := hwaits n hstage
    have hlife := hs.life who a ha
    have hthrow : Sound signedIn (s.throw ⟨.colony, n⟩ (s.berths ⟨.colony, n⟩).ring []) := by
      refine (Calm.throw s _ (List.nil_sublist _)).sound hs (hs.owned.tame ?_)
      exact (Tame.refl s).throw fun _ h => absurd h List.not_mem_nil
    have hleaves : s.Leaves signedIn who.pilot a.record.bay ⟨.colony, n⟩ := by
      have hat := hlife.stage
      unfold At at hat
      rwa [hstage] at hat
    have hnone : ∀ suit, ¬ s.Abroad who.pilot suit := by
      intro suit hsuit
      obtain ⟨c, hc, -⟩ | hslept := ((hleaves.out hsettled.2.1).abroad suit hsuit).2
      · rw [hsettled.2.1] at hc
        cases hc
      · cases hslept.2.1
    have hleft (sl : SlotId) (hpost : a.post? = some sl) :
        ((s.throw ⟨.colony, n⟩ (s.berths ⟨.colony, n⟩).ring []).berths sl).Vacant := by
      rw [Session.post?, hstage] at hpost
      cases hpost
      simp only [Seats.throw, Seats.setBerth, Function.update_self]
      exact hsettled.vacant
    dsimp only
    split
    all_goals
      refine hthrow.settleTow ha ?_ (fun suit h => absurd h (hnone suit)) ?_ hleft survival
        (slots_subset rfl (fun _ => id) (fun k hk => ⟨k, hk, rfl⟩) (fun sl hsl => by cases hsl))
      · exact hlife.bedded
      · exact hlife.guest
  · exact hs

theorem leftSpace (hs : Sound signedIn s) (ha : s.sessions who = some a)
    (hstage : a.stage = .leavingSpace) (survival : Bool)
    (hsettled : Berth.Settled false { s.berths a.main with ring := [] }) :
    Sound signedIn (s.leftSpace survival signedIn who a true) := by
  have htake : Sound signedIn (s.take a.main who (s.berths a.main).ring []) := by
    refine (Calm.take s _ _ (List.nil_sublist _)).sound hs (hs.owned.tame ?_)
    exact (Tame.refl s).take fun _ h => absurd h List.not_mem_nil
  have hleaves : s.Leaves signedIn who.pilot a.record.bay a.main := by
    have hat := (hs.life who a ha).stage
    unfold At at hat
    rwa [hstage] at hat
  have hsits := hleaves.out hsettled.2.1
  have hslept (suit : ℕ) (hsuit : s.Abroad who.pilot suit) :
      a.record.bay = .out ∧ s.Slept signedIn who.pilot a.main suit := by
    obtain ⟨hbay, ⟨c, hc, -⟩ | hslept⟩ := hsits.abroad suit hsuit
    · rw [hsettled.2.1] at hc
      cases hc
    · exact ⟨hbay, hslept⟩
  simp only [Seats.leftSpace]
  refine htake.settleTow ha (fun suit hsuit => ?_) (fun suit hsuit => ?_) (fun hguest => ?_)
    (fun sl hpost => ?_) survival ?_
  · split at hsuit
    · exact hsits.bed suit hsuit
    · cases hsuit
  · obtain ⟨hbay, hsigned, -, hshape, hasleep⟩ := hslept suit hsuit
    simp only [Session.settleLeft, hsigned, hasleep, ↓reduceIte, Option.isSome_some, true_or]
    exact ⟨hshape, hbay, trivial⟩
  · simp [hguest]
  · rw [Session.post?, hstage] at hpost
    cases hpost
    simp only [Seats.take, Seats.setBerth, Function.update_self]
    exact hsettled.vacant
  · obtain ⟨f, hf⟩ := Session.exists_settleLeft survival a
      (if signedIn who.pilot = true then (s.berths a.main).status.asleep else none).isSome
      ((s.berths a.main).ring.any (·.report = .home))
    rw [hf]
    exact slots_subset rfl (fun _ => id) (fun k hk => ⟨k, hk, rfl⟩) (fun sl hsl => by cases hsl)

theorem awaitTugs (hs : Sound signedIn s) (ha : s.sessions who = some a) (hstage : a.stage = .tugs)
    (timedOut : Bool) : Sound signedIn (s.awaitTugs signedIn who a timedOut true) := by
  have hlife := hs.life who a ha
  have habed : s.Abed who.pilot a.record := by
    have hat := hlife.stage
    unfold At at hat
    rwa [hstage] at hat
  have hleft (b : Berth) (sl : SlotId) (hpost : a.post? = some sl) : b.Vacant := by
    rw [Session.post?, hstage] at hpost
    cases hpost
  unfold Seats.awaitTugs
  split
  · split
    · exact hs.saveLast ha hlife.bedded habed hlife.guest fun sl => hleft _ sl
    · exact hs
  next note ring hring =>
    have hsub : ring.Sublist (s.berths a.main).ring := by
      rw [hring]
      exact List.sublist_cons_self note ring
    split
    · have htake : Sound signedIn (s.take a.main who [note] ring) :=
        (Calm.take s _ _ hsub).sound hs (hs.owned.tame ((Tame.refl s).take fun n hn => hsub.subset hn))
      exact htake.saveLast ha hlife.bedded habed hlife.guest fun sl => hleft _ sl
    · exact (Calm.throw s _ hsub).sound hs
        (hs.owned.tame ((Tame.refl s).throw fun n hn => hsub.subset hn))

theorem giveBack (hs : Sound signedIn s) {who : Who} (hsettled : (s.berths sl).Settled false) :
    Sound signedIn (s.giveBack who sl) := by
  have howned : Owned false (s.giveBack who sl) := hs.owned.giveBack hsettled
  revert howned
  unfold Seats.giveBack
  split
  · refine Calm.sound (Calm.setBerth s ?_) hs
    exact ⟨⟨rfl, rfl, .refl _⟩, rfl⟩
  · exact fun _ => hs

theorem setNews (hs : Sound signedIn s) (news : Option (ℕ × HangarRecord)) :
    Sound signedIn { s with news := news } :=
  (Calm.of_berths rfl rfl rfl rfl rfl rfl : Calm ⟨.space, 0⟩ s { s with news := news }).sound hs
    (hs.owned.tame (.of_berths rfl rfl rfl))

/-- A record that is as it was read may be written back. -/
theorem saveNews (hs : Sound signedIn s)
    (hsame : ∀ pilot r, s.news = some (pilot, r) → s.records pilot = r) : Sound signedIn s.saveNews := by
  unfold Seats.saveNews
  split
  · exact hs
  next pilot r hnews =>
    have hrecord : s.setRecord pilot r = s := by
      rw [Seats.setRecord, ← hsame pilot r hnews, Function.update_eq_self]
    rw [hrecord]
    exact hs.setNews none

end Sound

/-- What a session waits for before it goes on as if it had come about: the answer, before the wait
for a seat is given up on; the slot free, and nothing asked before that to come, before the lease
goes back or the session is over; and the last session of the pilot over, its record kept, before
the next comes in with it. A record written back meanwhile is as it was read, and one whose suit was
put back says so. -/
def Act.Waits (s : Seats) : Act → Prop
  | .restore _ named => named = true
  | .saveNews => ∀ pilot r, s.news = some (pilot, r) → s.records pilot = r
  | .arrive pilot _ loaded => loaded = true ∧ ∀ who, who.pilot = pilot → s.sessions who = none
  | .look who timedOut _ => timedOut = true → ∀ a ∈ s.sessions who, ∀ errand epoch,
      a.stage = .seating errand epoch →
        (s.berths (a.seat errand)).status.Answers epoch ∨ (s.berths (a.seat errand)).Settled false
  | .leave _ stored | .awaitTugs _ _ stored => stored = true
  | .leftColony who stored => stored = true ∧ ∀ a ∈ s.sessions who, ∀ n,
      a.stage = .leavingColony n → Berth.Settled false { s.berths ⟨.colony, n⟩ with ring := [] }
  | .leftSpace who stored => stored = true ∧ ∀ a ∈ s.sessions who,
      a.stage = .leavingSpace → Berth.Settled false { s.berths a.main with ring := [] }
  | .giveBack _ sl => (s.berths sl).Settled false
  | _ => True

namespace Sound

variable {a : Session}

theorem during (hs : Sound signedIn s) {stage : Stage} {f : Session → Seats}
    (hf : ∀ a, s.sessions who = some a → a.stage = stage → Sound signedIn (f a)) :
    Sound signedIn (s.during who stage f) := by
  unfold Seats.during
  split
  next a ha =>
    split
    next hstage => exact hf a ha hstage
    · exact hs
  · exact hs

theorem requested (hs : Sound signedIn s) {survival : Bool} {f : Session → Seats}
    (hf : ∀ a, s.sessions who = some a → a.stage = .play → Sound signedIn (f a)) :
    Sound signedIn (s.requested survival who f) := by
  unfold Seats.requested
  split
  · exact hs.during hf
  · exact hs

theorem step (survival : Bool) (signedIn : ℕ → Bool) (s : Seats) (act : Act) (hs : Sound signedIn s)
    (hact : act.Waits s) : Sound signedIn (s.step survival signedIn act) := by
  cases act with
  | drainControl sl luck => exact hs.drainControl survival sl luck
  | tell sl => exact hs.tell sl
  | destroy suit => exact hs.destroy suit
  | clearSleeper suit => exact hs.clearSleeper suit
  | clearWreck sl => exact hs.clearWreck sl
  | watchLosses sl => exact hs.watchLosses survival sl
  | runTugs sl => exact hs.tow sl
  | reportFeat sl feat => exact hs.reportFeat sl feat
  | restore pilot named =>
    cases (hact : named = true)
    exact hs.restore pilot
  | loadNews pilot => exact hs.setNews _
  | saveNews => exact hs.saveNews hact
  | arrive pilot n loaded =>
    obtain ⟨rfl, hgone⟩ := hact
    exact hs.arrive n hgone
  | enter who destroyed => exact hs.during fun a ha hstage => hs.enter ha hstage survival destroyed
  | look who timedOut destroyed =>
    simp only [Seats.step]
    split
    next a ha => exact hs.look ha survival timedOut destroyed fun hout => hact hout a ha
    · exact hs
  | launch who => exact hs.requested fun a ha hstage => hs.launch ha hstage
  | launchInside who n => exact hs.requested fun a ha hstage => hs.launchInside ha hstage n
  | boardTrainer who n => exact hs.requested fun a ha hstage => hs.boardTrainer ha hstage n
  | watch who n => exact hs.requested fun a ha hstage => hs.watch ha hstage n
  | unwatch who => exact hs.during fun a ha hstage => hs.unwatch ha hstage
  | unwatched who => exact hs.during fun a ha hstage => hs.unwatched ha hstage
  | dock who => exact hs.requested fun a ha hstage => hs.dock ha hstage
  | eject who destruct => exact hs.during fun a ha hstage => hs.eject ha hstage destruct
  | hear who colony claims =>
    exact hs.during fun a ha hstage => hs.of_hear ha hstage survival colony claims
  | cleared who => exact hs.during fun a ha hstage => hs.cleared ha hstage
  | work who bay => exact hs.requested fun a ha hstage => hs.work ha hstage bay
  | save who stored => exact hs.during fun a ha _ => hs.save ha (hs.life who a ha).bedded stored
  | leave who stored =>
    cases (hact : stored = true)
    exact hs.during fun a ha hstage => hs.leave ha hstage survival
  | leftColony who stored =>
    obtain ⟨rfl, hsettled⟩ := hact
    simp only [Seats.step]
    split
    next a ha => exact hs.leftColony ha survival (hsettled a ha)
    · exact hs
  | leftSpace who stored =>
    obtain ⟨rfl, hsettled⟩ := hact
    exact hs.during fun a ha hstage => hs.leftSpace ha hstage survival (hsettled a ha hstage)
  | awaitTugs who timedOut stored =>
    cases (hact : stored = true)
    exact hs.during fun a ha hstage => hs.awaitTugs ha hstage timedOut
  | giveBack who sl => exact hs.giveBack hact

theorem start (signedIn : ℕ → Bool) (bays : ℕ → Bay) : Sound signedIn (Seats.start bays) where
  owned := .start false bays
  came _ _ ha := nomatch ha
  one _ _ _ _ ha := nomatch ha
  life _ _ ha := nomatch ha
  gone _ _ _ hsuit := nomatch hsuit.choose_spec.1
  vacant _ _ := ⟨rfl, rfl, fun _ hm => absurd hm List.not_mem_nil⟩
  fresh _ _ := rfl
  bedded _ _ h := nomatch h
  comebacks _ _ hm := absurd hm List.not_mem_nil
  struck _ _ h := nomatch h
  watches _ _ hm := absurd hm List.not_mem_nil

/-- A pilot's own suit that is out there is out in the record that their session has. -/
theorem out (hs : Sound signedIn s) {suit : ℕ} (hsuit : s.Abroad who.pilot suit)
    (ha : s.sessions who = some a) : a.record.bay = .out := by
  have habed (h : s.Abed who.pilot a.record) : a.record.bay = .out := (h suit hsuit).2.1
  have hleaves {sl : SlotId} (h : s.Leaves signedIn who.pilot a.record.bay sl) :
      a.record.bay = .out := by
    rcases h.queue with ⟨-, -, -, -, -, -, hsits⟩ | ⟨-, -, hsits⟩
    · exact (hsits.abroad suit hsuit).1
    · exact (hsits.abroad suit hsuit).1
  have hat := (hs.life who a ha).stage
  unfold At at hat
  cases hstage : a.stage with
  | arrived =>
    rw [hstage] at hat
    exact habed hat.2.2.2
  | seating errand epoch =>
    rw [hstage] at hat
    obtain ⟨-, -, -, ⟨m, before, hasking⟩ | hanswered⟩ := hat
    · have hwants := hasking.wants
      unfold Wants at hwants
      split at hwants
      · exact (hwants.2 suit hsuit).2.1
      · exact hwants.2.2.1
      · exact absurd hsuit (hwants.2 suit)
      · exact hwants.elim
    · exact (hanswered.sits.abroad suit hsuit).1
  | play =>
    have hplays := hs.plays ha hstage
    by_cases hseat : a.suit = none
    · exact absurd hsuit ((hplays.ashore hseat).2 suit)
    · exact ((hplays.sits hseat).abroad suit hsuit).1
  | leavingColony n | leavingSpace =>
    rw [hstage] at hat
    exact hleaves hat
  | tugs =>
    rw [hstage] at hat
    exact habed hat

end Sound

/-- A suit that flies or sleeps in a sector isn't in its bay, neither by its pilot's session nor, with
none on, by the store; and the lease of a slot is whose seat is asked for in it, and who is seated
there. -/
def OnePlace (signedIn : ℕ → Bool) (s : Seats) : Prop :=
  (∀ suit craft, s.suits suit = some craft → craft.own = true → craft.shape ≠ .wreck →
    (∀ who a, s.sessions who = some a → who.pilot = craft.pilot → a.record.bay = .out) ∧
      ((∀ who, who.pilot = craft.pilot → s.sessions who = none) →
        (s.onRecord signedIn craft.pilot).bay = .out)) ∧
  ∀ sl, (∀ m ∈ (s.berths sl).queue, m.verb.asks = true → (s.berths sl).holder = some m.who) ∧
    ∀ c, (s.berths sl).client = some c → (s.berths sl).holder = some c.who

theorem Sound.onePlace (hs : Sound signedIn s) : s.OnePlace signedIn := by
  refine ⟨fun suit craft hcraft hown hshape => ⟨fun who a ha hpilot => ?_, fun hgone => ?_⟩,
    fun sl => ⟨fun m hm hasks => ?_, fun c hc => ?_⟩⟩
  · exact hs.out ⟨craft, hcraft, hown, hpilot.symm, hshape⟩ ha
  · exact (hs.gone craft.pilot hgone suit ⟨craft, hcraft, hown, rfl, hshape⟩).2.1
  · exact hs.owned.ties sl m.who (.inl ⟨m, hm, (Verb.ties_false m.verb).trans hasks, rfl⟩)
  · exact hs.owned.ties sl c.who (.inr (.inl ⟨c, hc, rfl⟩))

/-- In a run whose waits are seen through, every suit is in one place, and every slot one session's. -/
theorem onePlace_of_waits (survival : Bool) (signedIn : ℕ → Bool) (bays : ℕ → Bay) (acts : List Act)
    (h : Run.Along (Seats.step survival signedIn) (fun s act => act.Waits s) (Seats.start bays) acts) :
    (acts.foldl (Seats.step survival signedIn) (Seats.start bays)).OnePlace signedIn := by
  have hsound := Run.invariant (I := Sound signedIn)
    (fun s act hs hact => hs.step survival signedIn s act hact) (Sound.start signedIn bays) h
  exact hsound.onePlace

/-- What a pilot's session holds docked isn't out there too. -/
theorem OnePlace.not_docked (h : s.OnePlace signedIn) {suit : ℕ} {craft : Craft}
    (hcraft : s.suits suit = some craft) (hown : craft.own = true) (hshape : craft.shape ≠ .wreck)
    (hpilot : who.pilot = craft.pilot) : (s.sessions who).map (·.record.bay) ≠ some .docked := by
  intro hbay
  obtain ⟨a, ha, hdocked⟩ := Option.map_eq_some_iff.mp hbay
  have hout := (h.1 suit craft hcraft hown hshape).1 who a ha hpilot
  rw [hdocked] at hout
  cases hout

/-- A pilot launches, and the sector has no room: the suit is in its bay again. -/
theorem onePlace_refused :
    ([Act.arrive 0 0 true, .enter ⟨0, 0⟩ false, .launch ⟨0, 0⟩,
      .drainControl ⟨.space, 0⟩ ⟨false, false, false⟩, .look ⟨0, 0⟩ true false].foldl
        (Seats.step true fun _ => true) (Seats.start fun _ => .docked)).OnePlace fun _ => true := by
  apply onePlace_of_waits
  refine ⟨⟨rfl, fun _ _ => rfl⟩, trivial, trivial, trivial,
    fun _ a ha errand epoch hstage => .inl ?_, trivial⟩
  change some _ = some _ at ha
  cases ha
  cases hstage
  decide

/-- The session gives up on a launch that the sector hasn't come to yet: the suit is back in its bay,
and then flies. -/
theorem launched_twice :
    let s := [Act.arrive 0 0 true, .enter ⟨0, 0⟩ false, .launch ⟨0, 0⟩, .look ⟨0, 0⟩ true false,
      .drainControl ⟨.space, 0⟩ ⟨true, false, false⟩].foldl (Seats.step true fun _ => true)
        (Seats.start fun _ => .docked)
    (s.sessions ⟨0, 0⟩).map (·.record.bay) = some .docked ∧
      s.suits 0 = some ⟨0, true, .space, .awake⟩ ∧ ¬ s.OnePlace fun _ => true := by
  intro s
  have hbay : (s.sessions ⟨0, 0⟩).map (·.record.bay) = some .docked := by decide
  have hsuit : s.suits 0 = some ⟨0, true, .space, .awake⟩ := by decide
  exact ⟨hbay, hsuit, fun hone => hone.not_docked hsuit rfl (by decide) rfl hbay⟩

/-- The pilot's next session comes in while the last still flies: its suit is in its bay, and flies. -/
theorem taken_over :
    let s := [Act.arrive 0 0 true, .enter ⟨0, 0⟩ false, .launch ⟨0, 0⟩,
      .drainControl ⟨.space, 0⟩ ⟨true, false, false⟩, .look ⟨0, 0⟩ false false, .save ⟨0, 0⟩ true,
      .arrive 0 1 true, .enter ⟨0, 1⟩ false].foldl (Seats.step true fun _ => true)
        (Seats.start fun _ => .docked)
    (s.sessions ⟨0, 1⟩).map (·.record.bay) = some .docked ∧
      s.suits 0 = some ⟨0, true, .space, .awake⟩ ∧ ¬ s.OnePlace fun _ => true := by
  intro s
  have hbay : (s.sessions ⟨0, 1⟩).map (·.record.bay) = some .docked := by decide
  have hsuit : s.suits 0 = some ⟨0, true, .space, .awake⟩ := by decide
  exact ⟨hbay, hsuit, fun hone => hone.not_docked hsuit rfl (by decide) rfl hbay⟩

end BeforeColony.Seats
