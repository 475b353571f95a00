import BeforeColony.Server.Seats

/-!
# Leases

What is still asked for in a slot, who is seated there and what there is to tell of them is all its
lease holder's, as long as a lease goes back only once there is none of it.
-/

set_option autoImplicit false

namespace BeforeColony.Seats

open Lib

/-! ## What ties a slot to a session -/

def Verb.ties (tugs : Bool) : Verb → Bool
  | .claim => tugs
  | verb => verb.asks

/-- What became of a suit or (with `tugs`) of its wreck. -/
def Report.ties (tugs : Bool) : Report → Bool
  | .home | .lost _ => true
  | .towed => tugs
  | _ => false

def Berth.mail (b : Berth) : List Note := b.ring ++ b.telling.toList

/-- Something is asked for `who`, they're seated, or there's something to tell them. -/
def Berth.Ties (tugs : Bool) (b : Berth) (who : Who) : Prop :=
  (∃ m ∈ b.queue, m.verb.ties tugs ∧ m.who = who) ∨ (∃ c, b.client = some c ∧ c.who = who) ∨
    (∃ note ∈ b.mail, note.report.ties tugs ∧ note.who = who) ∨ (tugs ∧ b.claim = some who)

/-- The sector has had the last of what was asked, nobody is seated, and there's nothing left to
tell. -/
def Berth.Settled (tugs : Bool) (b : Berth) : Prop :=
  (∀ m ∈ b.queue, m.verb.ties tugs = false) ∧ b.client = none ∧
    (∀ note ∈ b.mail, note.report.ties tugs = false) ∧ (tugs → b.claim = none)

instance (tugs : Bool) (b : Berth) : Decidable (b.Settled tugs) := inferInstanceAs (Decidable (_ ∧ _))

variable {tugs : Bool}

theorem Berth.Settled.not_ties {b : Berth} (h : b.Settled tugs) (who : Who) : ¬ b.Ties tugs who := by
  obtain ⟨hqueue, hclient, hmail, hclaim⟩ := h
  rintro (⟨m, hm, htie, -⟩ | ⟨c, hc, -⟩ | ⟨note, hn, htie, -⟩ | ⟨htugs, hc⟩)
  · simp [hqueue m hm] at htie
  · simp [hclient] at hc
  · simp [hmail note hn] at htie
  · simp [hclaim htugs] at hc

/-- Nobody's lease changes, and no slot is tied to anyone anew. -/
structure Tame (tugs : Bool) (s s' : Seats) : Prop where
  sessions : s'.sessions = s.sessions
  visits : s'.visits = s.visits
  holder : ∀ sl, (s'.berths sl).holder = (s.berths sl).holder
  ties : ∀ sl who, (s'.berths sl).Ties tugs who → (s.berths sl).Ties tugs who

variable {s s' s'' : Seats} {sl : SlotId}

namespace Tame

theorem refl (s : Seats) : Tame tugs s s := ⟨rfl, rfl, fun _ => rfl, fun _ _ => id⟩

theorem trans (h : Tame tugs s s') (h' : Tame tugs s' s'') : Tame tugs s s'' :=
  ⟨h'.sessions.trans h.sessions, h'.visits.trans h.visits,
    fun sl => (h'.holder sl).trans (h.holder sl), fun sl who => h.ties sl who ∘ h'.ties sl who⟩

theorem of_berths (hsessions : s'.sessions = s.sessions) (hvisits : s'.visits = s.visits)
    (hberths : s'.berths = s.berths) : Tame tugs s s' :=
  ⟨hsessions, hvisits, fun sl => by rw [hberths], fun sl who => by rw [hberths]; exact id⟩

theorem setSuit (h : Tame tugs s s') (suit : ℕ) (craft : Option Craft) :
    Tame tugs s (s'.setSuit suit craft) :=
  h.trans (of_berths rfl rfl rfl)

theorem setBerth (h : Tame tugs s s') {b : Berth} (hholder : b.holder = (s'.berths sl).holder)
    (hties : ∀ who, b.Ties tugs who → (s.berths sl).Ties tugs who ∨ (s'.berths sl).Ties tugs who) :
    Tame tugs s (s'.setBerth sl b) := by
  refine ⟨h.sessions, h.visits, fun sl' => ?_, fun sl' who hwho => ?_⟩
  · by_cases hsl : sl' = sl
    · subst hsl
      simp [Seats.setBerth, hholder, h.holder sl']
    · simp [Seats.setBerth, hsl, h.holder sl']
  · by_cases hsl : sl' = sl
    · subst hsl
      simp only [Seats.setBerth, Function.update_self] at hwho
      exact (hties who hwho).elim id (h.ties sl' who)
    · simp only [Seats.setBerth, Function.update_of_ne hsl] at hwho
      exact h.ties sl' who hwho

/-- What is published or watched, and who is let go, ties nobody. -/
theorem setBerth_less (h : Tame tugs s s') {b : Berth} (hholder : b.holder = (s'.berths sl).holder)
    (hqueue : ∀ m ∈ b.queue, m ∈ (s'.berths sl).queue)
    (hclient : ∀ c, b.client = some c → ∃ c', (s'.berths sl).client = some c' ∧ c'.who = c.who)
    (hmail : b.mail = (s'.berths sl).mail)
    (hclaim : ∀ who, b.claim = some who → (s'.berths sl).claim = some who) :
    Tame tugs s (s'.setBerth sl b) := by
  refine h.setBerth hholder fun who hties => .inr ?_
  rcases hties with ⟨m, hm, hties⟩ | ⟨c, hc, hwho⟩ | hties | ⟨htugs, hc⟩
  · exact .inl ⟨m, hqueue m hm, hties⟩
  · obtain ⟨c', hc', hwho'⟩ := hclient c hc
    exact .inr (.inl ⟨c', hc', hwho'.trans hwho⟩)
  · rw [hmail] at hties
    exact .inr (.inr (.inl hties))
  · exact .inr (.inr (.inr ⟨htugs, hclaim who hc⟩))

theorem publish (h : Tame tugs s s') (sl : SlotId) (state : SlotState) (suit : Option ℕ)
    (outcome : Outcome) : Tame tugs s (s'.publish sl state suit outcome) :=
  h.setBerth_less rfl (fun _ => id) (fun c hc => ⟨c, hc, rfl⟩) rfl (fun _ => id)

theorem unclient (h : Tame tugs s s') (sl : SlotId) : Tame tugs s (s'.unclient sl) :=
  h.setBerth_less rfl (fun _ => id) (fun c hc => by simp at hc) rfl (fun _ => id)

/-- A note on its way is told to someone the slot is tied to. -/
theorem setBerth_note (h : Tame tugs s s') {b : Berth} {note : Note}
    (hholder : b.holder = (s'.berths sl).holder) (hqueue : b.queue = (s'.berths sl).queue)
    (hclient : b.client = (s'.berths sl).client) (hclaim : b.claim = (s'.berths sl).claim)
    (hmail : ∀ n ∈ b.mail, n ∈ (s'.berths sl).mail ∨ n = note)
    (hwho : note.report.ties tugs → (s.berths sl).Ties tugs note.who) :
    Tame tugs s (s'.setBerth sl b) := by
  refine h.setBerth hholder fun who hties => ?_
  rcases hties with hties | hties | ⟨n, hn, htie, hnwho⟩ | hties
  · rw [hqueue] at hties
    exact .inr (.inl hties)
  · rw [hclient] at hties
    exact .inr (.inr (.inl hties))
  · rcases hmail n hn with hn | rfl
    · exact .inr (.inr (.inr (.inl ⟨n, hn, htie, hnwho⟩)))
    · exact .inl (hnwho ▸ hwho htie)
  · rw [hclaim] at hties
    exact .inr (.inr (.inr (.inr hties)))

theorem pushNote (h : Tame tugs s s') {note : Note}
    (hwho : note.report.ties tugs → (s.berths sl).Ties tugs note.who) :
    Tame tugs s (s'.pushNote sl note) := by
  simp only [Seats.pushNote]
  split
  · refine h.setBerth_note rfl rfl rfl rfl (fun n hn => ?_) hwho
    simp only [Berth.mail, List.mem_append, List.mem_singleton] at hn ⊢
    rcases hn with (hn | hn) | hn
    · exact .inl (.inl hn)
    · exact .inr hn
    · exact .inl (.inr hn)
  · exact h.trans (of_berths rfl rfl rfl)

theorem make (h : Tame tugs s s') (sl : SlotId) (who : Who) (r : Report) :
    Tame tugs s (s'.make sl who r).2 :=
  h.trans (of_berths rfl rfl rfl)

theorem report (h : Tame tugs s s') {who : Who} {r : Report}
    (hwho : r.ties tugs → (s.berths sl).Ties tugs who) : Tame tugs s (s'.report sl who r) :=
  (h.make sl who r).pushNote hwho

theorem tow (h : Tame tugs s s') (sl : SlotId) : Tame tugs s (s'.tow sl) := by
  unfold Seats.tow
  split
  · exact h
  next who hclaim =>
    apply report
    · exact h.setBerth_less rfl (fun _ => id) (fun c hc => ⟨c, hc, rfl⟩) rfl (fun _ hc => nomatch hc)
    · exact fun htie => h.ties sl who (.inr (.inr (.inr ⟨htie, hclaim⟩)))

theorem replace (h : Tame tugs s s') (sl : SlotId) : Tame tugs s (s'.replace sl) := by
  unfold Seats.replace
  split
  · exact h
  · exact h.setSuit _ _

theorem spawn (h : Tame tugs s s') (craft : Craft) : Tame tugs s (s'.spawn craft) :=
  h.trans (of_berths rfl rfl rfl)

theorem seat (h : Tame tugs s s') {suit : ℕ} {who : Who} {outcome : Outcome}
    (hwho : (s.berths sl).Ties tugs who) : Tame tugs s (s'.seat sl suit who outcome) := by
  apply publish
  refine h.setBerth rfl ?_
  rintro who' (hties | ⟨c, hc, rfl⟩ | hties)
  · exact .inr (.inl hties)
  · cases hc
    exact .inl hwho
  · exact .inr (.inr (.inr hties))

theorem drainJoin (h : Tame tugs s s') {survival : Bool} {luck : Luck} {who : Who}
    {comeback : Option ℕ} {launch : Bool} (hwho : (s.berths sl).Ties tugs who) :
    Tame tugs s (s'.drainJoin survival sl luck who comeback launch) := by
  simp only [Seats.drainJoin]
  split
  · exact ((h.replace sl).setSuit _ _).seat hwho
  · split
    · exact ((h.replace sl).spawn _).seat hwho
    · exact (h.replace sl).publish sl _ _ _

theorem drainBoard (h : Tame tugs s s') {luck : Luck} {who : Who}
    (hwho : (s.berths sl).Ties tugs who) : Tame tugs s (s'.drainBoard sl luck who) := by
  simp only [Seats.drainBoard]
  split
  · exact ((h.replace sl).spawn _).seat hwho
  · exact (h.replace sl).publish sl _ _ _

theorem drainWatch (h : Tame tugs s s') (sl : SlotId) : Tame tugs s (s'.drainWatch sl) := by
  simp only [Seats.drainWatch]
  split
  · apply publish
    exact h.setBerth_less rfl (fun _ => id) (fun c hc => ⟨c, hc, rfl⟩) rfl (fun _ => id)
  · exact h

theorem leaveSuit (h : Tame tugs s s') {survival : Bool} {luck : Luck} {sleep : Bool} {c : Client}
    (hc : (s'.berths sl).client = some c) :
    Tame tugs s (s'.leaveSuit survival sl luck sleep c).1 := by
  have hwho : (s.berths sl).Ties tugs c.who := h.ties sl c.who (.inr (.inl ⟨c, hc, rfl⟩))
  simp only [Seats.leaveSuit]
  split
  · split
    · exact (h.setSuit _ _).report fun _ => hwho
    · exact h
  · split
    · dsimp only
      split
      · exact (h.setSuit _ _).report fun _ => hwho
      · exact h.setSuit _ _
    · exact h.setSuit _ _

theorem drainLeave (h : Tame tugs s s') {survival : Bool} {luck : Luck} {sleep : Bool} :
    Tame tugs s (s'.drainLeave survival sl luck sleep) := by
  have hunwatch : Tame tugs s
      ((s'.tow sl).setBerth sl { (s'.tow sl).berths sl with watched := false }) :=
    (h.tow sl).setBerth_less rfl (fun _ => id) (fun c hc => ⟨c, hc, rfl⟩) rfl (fun _ => id)
  simp only [Seats.drainLeave]
  split
  · exact hunwatch.publish sl _ _ _
  next c hc => exact ((hunwatch.leaveSuit hc).unclient sl).publish sl _ _ _

/-- What is told takes the place of what was being told. -/
theorem setTelling (h : Tame tugs s s') {note : Note}
    (hwho : note.report.ties tugs → (s.berths sl).Ties tugs note.who) :
    Tame tugs s (s'.setBerth sl { s'.berths sl with telling := some note }) := by
  refine h.setBerth_note rfl rfl rfl rfl ?_ hwho
  intro n hn
  simp only [Berth.mail, List.mem_append, Option.toList_some, List.mem_singleton] at hn ⊢
  exact hn.imp_left .inl

theorem drainDock (h : Tame tugs s s') {luck : Luck} {who : Who} :
    Tame tugs s (s'.drainDock sl luck who) := by
  simp only [Seats.drainDock]
  split
  next c hc =>
    have hclient : (s'.berths sl).client = some c := (Option.filter_eq_some_iff.mp hc).1
    apply setTelling
    · exact (((h.setSuit _ _).unclient sl).publish sl _ _ _).make sl _ _
    · exact fun _ => h.ties sl c.who (.inr (.inl ⟨c, hclient, rfl⟩))
  · apply setTelling
    · exact h.make sl _ _
    · exact fun htie => by simp [Seats.make, Report.ties] at htie

/-- Who claims a wreck lost their suit in the slot, or asked the tugs out. -/
theorem setClaim (h : Tame tugs s s') {who : Who} (hwho : tugs → (s.berths sl).Ties tugs who) :
    Tame tugs s (s'.setBerth sl { s'.berths sl with claim := some who }) := by
  refine h.setBerth rfl ?_
  rintro who' (hties | hties | hties | ⟨htugs, hc⟩)
  · exact .inr (.inl hties)
  · exact .inr (.inr (.inl hties))
  · exact .inr (.inr (.inr (.inl hties)))
  · cases hc
    exact .inl (hwho htugs)

theorem setClient (h : Tame tugs s s') {c : Client} (hwho : (s.berths sl).Ties tugs c.who) :
    Tame tugs s (s'.setBerth sl { s'.berths sl with client := some c }) := by
  refine h.setBerth rfl ?_
  rintro who' (hties | ⟨c', hc, rfl⟩ | hties)
  · exact .inr (.inl hties)
  · cases hc
    exact .inl hwho
  · exact .inr (.inr (.inr hties))

theorem drainEject (h : Tame tugs s s') {survival : Bool} {luck : Luck} {destruct : Bool} :
    Tame tugs s (s'.drainEject survival sl luck destruct) := by
  simp only [Seats.drainEject]
  split
  · exact h
  next c hc =>
    have hwho : (s.berths sl).Ties tugs c.who :=
      h.ties sl c.who (.inr (.inl ⟨c, (Option.filter_eq_some_iff.mp hc).1, rfl⟩))
    have hloss (loss : Loss) (craft : Option Craft) : Tame tugs s ((s'.setSuit c.suit craft).setBerth
        sl { (s'.setSuit c.suit craft).berths sl with client := some { c with loss := loss } }) := by
      apply setClient
      · exact h.setSuit _ _
      · exact hwho
    split
    · exact hloss _ _
    · split
      · exact ((hloss _ _).tow sl).setClaim fun _ => hwho
      · exact hloss _ _

theorem drainClaim (h : Tame tugs s s') {survival : Bool} {who : Who}
    (hwho : tugs → (s.berths sl).Ties tugs who) : Tame tugs s (s'.drainClaim survival sl who) := by
  simp only [Seats.drainClaim]
  split
  · exact (h.tow sl).setClaim hwho
  · exact h

theorem drainControl (s : Seats) (survival : Bool) (sl : SlotId) (luck : Luck) :
    Tame tugs s (s.drainControl survival sl luck) := by
  simp only [Seats.drainControl]
  split
  next m queue htelling hqueue =>
    have hpop : Tame tugs s (s.setBerth sl { s.berths sl with queue := queue }) :=
      (refl s).setBerth_less rfl (fun m' hm => by rw [hqueue]; exact .tail m hm)
        (fun c hc => ⟨c, hc, rfl⟩) rfl (fun _ => id)
    have hwho (hties : m.verb.ties tugs) : (s.berths sl).Ties tugs m.who :=
      .inl ⟨m, by rw [hqueue]; exact .head queue, hties, rfl⟩
    cases hverb : m.verb with
    | join comeback launch => exact hpop.drainJoin (hwho (by rw [hverb]; rfl))
    | board => exact hpop.drainBoard (hwho (by rw [hverb]; rfl))
    | watch => exact hpop.drainWatch sl
    | leave sleep => exact hpop.drainLeave
    | dock => exact hpop.drainDock
    | eject destruct => exact hpop.drainEject
    | claim => exact hpop.drainClaim fun htugs => hwho (by rw [hverb]; exact htugs)
    | tow => exact hpop.tow sl
  · exact refl s

theorem tell (s : Seats) (sl : SlotId) : Tame tugs s (s.tell sl) := by
  unfold Seats.tell
  split
  · exact refl s
  next note htelling =>
    have hmem : note ∈ (s.berths sl).mail := by simp [Berth.mail, htelling]
    apply pushNote
    · refine (refl s).setBerth rfl ?_
      rintro who (hties | hties | ⟨n, hn, hties⟩ | hties)
      · exact .inl (.inl hties)
      · exact .inl (.inr (.inl hties))
      · exact .inl (.inr (.inr (.inl ⟨n, List.mem_append_left _ (by simpa [Berth.mail] using hn), hties⟩)))
      · exact .inl (.inr (.inr (.inr hties)))
    · exact fun htie => .inr (.inr (.inl ⟨note, hmem, htie, rfl⟩))

theorem watchLosses (s : Seats) (survival : Bool) (sl : SlotId) :
    Tame tugs s (s.watchLosses survival sl) := by
  unfold Seats.watchLosses
  split
  · exact refl s
  next c hc =>
    have hwho : (s.berths sl).Ties tugs c.who := .inr (.inl ⟨c, hc, rfl⟩)
    split
    · exact refl s
    · split
      · exact ((refl s).unclient sl).publish sl _ _ _
      · split
        · apply report
          · apply setClient
            · exact refl s
            · exact hwho
          · exact fun _ => hwho
        · exact refl s

theorem reportFeat (s : Seats) (sl : SlotId) (feat : Report) : Tame tugs s (s.reportFeat sl feat) := by
  unfold Seats.reportFeat
  split
  · exact refl s
  next c hc =>
    split
    · exact (refl s).report fun _ => .inr (.inl ⟨c, hc, rfl⟩)
    · exact refl s

theorem setRing (h : Tame tugs s s') {b : Berth} {ring : List Note}
    (hb : b = { s'.berths sl with ring := ring }) (hring : ∀ n ∈ ring, n ∈ (s'.berths sl).ring) :
    Tame tugs s (s'.setBerth sl b) := by
  subst hb
  refine h.setBerth rfl ?_
  rintro who (hties | hties | ⟨n, hn, hties⟩ | hties)
  · exact .inr (.inl hties)
  · exact .inr (.inr (.inl hties))
  · exact .inr (.inr (.inr (.inl ⟨n, (List.mem_append.mp hn).elim
      (fun hn => List.mem_append_left _ (hring n hn)) (List.mem_append_right _), hties⟩)))
  · exact .inr (.inr (.inr (.inr hties)))

theorem take (h : Tame tugs s s') {who : Who} {notes ring : List Note}
    (hring : ∀ n ∈ ring, n ∈ (s'.berths sl).ring) : Tame tugs s (s'.take sl who notes ring) :=
  (h.setRing rfl hring).trans (of_berths rfl rfl rfl)

theorem throw (h : Tame tugs s s') {notes ring : List Note}
    (hring : ∀ n ∈ ring, n ∈ (s'.berths sl).ring) : Tame tugs s (s'.throw sl notes ring) :=
  (h.setRing rfl hring).trans (of_berths rfl rfl rfl)

theorem setRecord (h : Tame tugs s s') (pilot : ℕ) (r : HangarRecord) :
    Tame tugs s (s'.setRecord pilot r) :=
  h.trans (of_berths rfl rfl rfl)

end Tame

/-! ## Owners -/

@[simp] theorem holder_push (sl' : SlotId) (m : Control) :
    ((s.push sl m).berths sl').holder = (s.berths sl').holder := by
  by_cases hsl : sl' = sl
  · subst hsl
    simp [Seats.push, Seats.setBerth]
  · simp [Seats.push, Seats.setBerth, hsl]

@[simp] theorem Session.rebay_slots (a : Session) (f : Bay → Bay) : (a.rebay f).slots = a.slots := rfl

@[simp] theorem Session.settleBay_slots (a : Session) (destroyed : Bool) :
    (a.settleBay destroyed).slots = a.slots := by
  unfold Session.settleBay
  split <;> rfl

@[simp] theorem Session.settleLeft_slots (survival : Bool) (a : Session) (slept home : Bool) :
    (a.settleLeft survival slept home).slots = a.slots := by
  unfold Session.settleLeft
  split <;> rfl

theorem slots_subset {a a' : Session} (hslot : a'.slot = a.slot)
    (hinside : ∀ n, a'.inside = some n → a.inside = some n)
    (hspectating : ∀ k, a'.spectating = some k → ∃ k', a.spectating = some k' ∧ k'.1 = k.1)
    (hstage : ∀ sl, a'.stage.slot? = some sl → sl ∈ a.slots) : ∀ sl ∈ a'.slots, sl ∈ a.slots := by
  intro sl hsl
  rcases Session.mem_slots.mp hsl with rfl | ⟨n, hn, rfl⟩ | ⟨k, hk, rfl⟩ | hwaits
  · exact Session.mem_slots.mpr (.inl (by rw [Session.main, Session.main, hslot]))
  · exact Session.mem_slots.mpr (.inr (.inl ⟨n, hinside n hn, rfl⟩))
  · obtain ⟨k', hk', hfst⟩ := hspectating k hk
    exact Session.mem_slots.mpr (.inr (.inr (.inl ⟨k', hk', by rw [hfst]⟩)))
  · exact hstage sl hwaits

/-- Sessions hold the leases they use, and a slot's lease is held by whoever it is tied to. -/
structure Owned (tugs : Bool) (s : Seats) : Prop where
  held : ∀ who a, s.sessions who = some a → ∀ sl ∈ a.slots,
    (s.berths sl).holder = some who
  ties : ∀ sl who, (s.berths sl).Ties tugs who → (s.berths sl).holder = some who

namespace Owned

variable {who : Who} {a : Session}

theorem tame (hs : Owned tugs s) (h : Tame tugs s s') : Owned tugs s' where
  held who a ha sl hsl := by
    rw [h.sessions] at ha
    rw [h.holder]
    exact hs.held who a ha sl hsl
  ties sl who hties := by
    rw [h.holder]
    exact hs.ties sl who (h.ties sl who hties)

theorem main (hs : Owned tugs s) (ha : s.sessions who = some a) :
    (s.berths a.main).holder = some who :=
  hs.held who a ha a.main (Session.mem_slots.mpr (.inl rfl))

theorem setSession (hs : Owned tugs s) {o : Option Session}
    (ho : ∀ a, o = some a → ∀ sl ∈ a.slots, (s.berths sl).holder = some who) :
    Owned tugs (s.setSession who o) where
  held p a ha sl hsl := by
    by_cases hp : p = who
    · subst hp
      simp only [Seats.setSession, Function.update_self] at ha
      exact ho a ha sl hsl
    · simp only [Seats.setSession, Function.update_of_ne hp] at ha
      exact hs.held p a ha sl hsl
  ties := hs.ties

theorem keep (hs : Owned tugs s) {a' : Session}
    (ha : ∀ sl ∈ a.slots, (s.berths sl).holder = some who)
    (hslots : ∀ sl ∈ a'.slots, sl ∈ a.slots) : Owned tugs (s.setSession who (some a')) := by
  refine hs.setSession fun a'' ha'' sl hsl => ?_
  cases ha''
  exact ha sl (hslots sl hsl)

theorem ended (hs : Owned tugs s) : Owned tugs (s.setSession who none) :=
  hs.setSession fun _ ha => nomatch ha

theorem push (hs : Owned tugs s) {m : Control}
    (hwho : m.verb.ties tugs → (s.berths sl).holder = some m.who) : Owned tugs (s.push sl m) := by
  refine ⟨fun p a ha sl' hsl' => (holder_push sl' m).trans (hs.held p a ha sl' hsl'),
    fun sl' who hties => ?_⟩
  rw [holder_push]
  by_cases hsl : sl' = sl
  · subst hsl
    simp only [Seats.push, Seats.setBerth, Function.update_self] at hties
    rcases hties with ⟨m', hm, htie, rfl⟩ | hties
    · rcases List.mem_append.mp hm with hm | hm
      · exact hs.ties sl' _ (.inl ⟨m', hm, htie, rfl⟩)
      · cases List.mem_singleton.mp hm
        exact hwho htie
    · exact hs.ties sl' who (.inr hties)
  · simp only [Seats.push, Seats.setBerth, Function.update_of_ne hsl] at hties
    exact hs.ties sl' who hties

theorem lease (hs : Owned tugs s) (hfree : s.IsFree sl) (who : Who) : Owned tugs (s.lease sl who) where
  held p a ha sl' hsl' := by
    have hholder := hs.held p a ha sl' hsl'
    by_cases hsl : sl' = sl
    · subst hsl
      rw [hfree] at hholder
      cases hholder
    · simpa [Seats.lease, Seats.setBerth, hsl] using hholder
  ties sl' who' hties := by
    by_cases hsl : sl' = sl
    · subst hsl
      simp only [Seats.lease, Seats.setBerth, Function.update_self] at hties
      have hholder := hs.ties sl' who' hties
      rw [hfree] at hholder
      cases hholder
    · simp only [Seats.lease, Seats.setBerth, Function.update_of_ne hsl] at hties ⊢
      exact hs.ties sl' who' hties

theorem setRecord (hs : Owned tugs s) (pilot : ℕ) (r : HangarRecord) : Owned tugs (s.setRecord pilot r) :=
  hs.tame ((Tame.refl s).setRecord pilot r)

theorem save (hs : Owned tugs s) (signedIn : ℕ → Bool) (who : Who) (a : Session) (stored : Bool) :
    Owned tugs (s.save signedIn who a stored) := by
  unfold Seats.save
  split
  · exact hs.setRecord _ _
  · exact hs

theorem saveLast (hs : Owned tugs s) (signedIn : ℕ → Bool) (who : Who) (a : Session) (stored : Bool) :
    Owned tugs (s.saveLast signedIn who a stored) :=
  (hs.save signedIn who a stored).ended

theorem ask (hs : Owned tugs s) (ha : ∀ sl ∈ a.slots, (s.berths sl).holder = some who)
    {errand : Errand} (hsl : (s.berths (a.seat errand)).holder = some who)
    (verb : Verb) : Owned tugs (s.ask who a errand verb) := by
  refine (hs.push fun _ => hsl).setSession fun a' ha' sl hmem => ?_
  cases ha'
  rw [holder_push]
  rcases Session.mem_slots.mp hmem with hmain | hinside | hspectating | hstage
  · exact ha sl (Session.mem_slots.mpr (.inl hmain))
  · exact ha sl (Session.mem_slots.mpr (.inr (.inl hinside)))
  · exact ha sl (Session.mem_slots.mpr (.inr (.inr (.inl hspectating))))
  · rwa [Session.seat, show errand.slot? = some sl from hstage] at hsl

theorem entered (hs : Owned tugs s) (ha : ∀ sl ∈ a.slots, (s.berths sl).holder = some who)
    (suit : Option ℕ) : Owned tugs (s.entered who a suit) := by
  refine hs.keep ha (slots_subset rfl ?_ ?_ ?_)
  · exact fun _ => id
  · exact fun k hk => ⟨k, hk, rfl⟩
  · exact fun sl hsl => nomatch hsl

theorem seated (hs : Owned tugs s) (ha : s.sessions who = some a) {errand : Errand} {epoch : ℕ}
    (hstage : a.stage = .seating errand epoch) (suit : ℕ) :
    Owned tugs (s.seated who a errand suit) := by
  have hheld := hs.held who a ha
  have hin (n : ℕ) (hn : errand.slot? = some ⟨.colony, n⟩) : ⟨.colony, n⟩ ∈ a.slots :=
    Session.mem_slots.mpr (.inr (.inr (.inr (by rw [hstage]; exact hn))))
  cases errand with
  | enter => exact hs.entered hheld _
  | launch =>
    refine hs.keep hheld ?_
    exact slots_subset rfl (fun _ => id) (fun k hk => ⟨k, hk, rfl⟩) (fun sl hsl => nomatch hsl)
  | launchInside n | board n =>
    refine hs.keep hheld ?_
    intro sl hsl
    rcases Session.mem_slots.mp hsl with hmain | ⟨k, hk, rfl⟩ | hspectating | hnone
    · exact Session.mem_slots.mpr (.inl hmain)
    · cases hk
      exact hin _ rfl
    · exact Session.mem_slots.mpr (.inr (.inr (.inl hspectating)))
    · cases hnone

theorem notSeated (hs : Owned tugs s) (ha : s.sessions who = some a) (survival : Bool)
    (errand : Errand) (destroyed : Bool) :
    Owned tugs (s.notSeated survival who a errand destroyed) := by
  have hheld := hs.held who a ha
  have hplay : ∀ sl ∈ Session.slots { a with stage := .play }, sl ∈ a.slots :=
    slots_subset rfl (fun _ => id) (fun k hk => ⟨k, hk, rfl⟩) (fun sl hsl => nomatch hsl)
  cases errand with
  | enter =>
    simp only [Seats.notSeated]
    split
    · apply hs.entered
      rw [Session.settleBay_slots]
      exact hheld
    · exact hs.ended
  | launch | launchInside n | board n => exact hs.keep hheld hplay

theorem look (hs : Owned tugs s) (ha : s.sessions who = some a) (survival timedOut destroyed : Bool) :
    Owned tugs (s.look survival who a timedOut destroyed) := by
  unfold Seats.look
  split
  next errand epoch hstage =>
    dsimp only
    split
    · split
      · exact hs.seated ha hstage _
      · exact hs.notSeated ha survival errand destroyed
    · split
      · exact hs.notSeated ha survival errand destroyed
      · exact hs
  · exact hs

theorem enter (hs : Owned tugs s) (ha : s.sessions who = some a) (survival destroyed : Bool) :
    Owned tugs (s.enter survival who a destroyed) := by
  have hheld := hs.held who a ha
  unfold Seats.enter
  split
  · split
    · apply hs.ask hheld
      exact hs.main ha
    · apply hs.entered
      rw [Session.settleBay_slots]
      exact hheld
  · apply hs.ask hheld
    exact hs.main ha

/-- A lease taken from nobody leaves the session with those it had. -/
theorem held_lease (hs : Owned tugs s) (ha : s.sessions who = some a) (hfree : s.IsFree sl) :
    ∀ sl' ∈ a.slots, ((s.lease sl who).berths sl').holder = some who :=
  (hs.lease hfree who).held who a ha

theorem holder_lease (sl : SlotId) (who : Who) : ((s.lease sl who).berths sl).holder = some who := by
  simp [Seats.lease, Seats.setBerth]

theorem launch (hs : Owned tugs s) (ha : s.sessions who = some a) : Owned tugs (s.launch who a) := by
  unfold Seats.launch
  split
  · refine Owned.ask (a := a.rebay .launch) hs (hs.held who a ha) ?_ _
    exact Owned.main (a := a) hs ha
  · exact hs

theorem launchInside (hs : Owned tugs s) (ha : s.sessions who = some a) (n : ℕ) :
    Owned tugs (s.launchInside who a n) := by
  unfold Seats.launchInside
  split
  next h =>
    have hheld := hs.held_lease ha h.2.2
    exact Owned.ask (a := a.rebay .launch) (hs.lease h.2.2 _) hheld (holder_lease _ _) _
  · exact hs

theorem boardTrainer (hs : Owned tugs s) (ha : s.sessions who = some a) (n : ℕ) :
    Owned tugs (s.boardTrainer who a n) := by
  unfold Seats.boardTrainer
  split
  next h =>
    apply (hs.lease h.2 _).ask (hs.held_lease ha h.2)
    exact holder_lease _ _
  · exact hs

theorem watch (hs : Owned tugs s) (ha : s.sessions who = some a) (n : ℕ) :
    Owned tugs (s.watch who a n) := by
  unfold Seats.watch
  split
  next hnone =>
    split
    next hfree =>
      have hlease := holder_lease (s := s) ⟨.colony, n⟩ who
      refine ((hs.lease hfree _).push fun _ => hlease).setSession fun a' ha' sl hsl => ?_
      cases ha'
      rw [holder_push]
      rcases Session.mem_slots.mp hsl with hmain | hinside | ⟨k, hk, rfl⟩ | hstage
      · exact hs.held_lease ha hfree sl (Session.mem_slots.mpr (.inl hmain))
      · exact hs.held_lease ha hfree sl (Session.mem_slots.mpr (.inr (.inl hinside)))
      · cases hk
        exact hlease
      · exact hs.held_lease ha hfree sl (Session.mem_slots.mpr (.inr (.inr (.inr hstage))))
    · exact hs
  next k hk =>
    refine hs.push fun _ => hs.held who a ha _ ?_
    exact Session.mem_slots.mpr (.inr (.inr (.inl ⟨_, hk, rfl⟩)))
  · exact hs

theorem unwatch (hs : Owned tugs s) (ha : s.sessions who = some a) : Owned tugs (s.unwatch who a) := by
  unfold Seats.unwatch
  split
  next n hn =>
    refine Owned.keep (a := a) (hs.push fun htie => by simp [Verb.ties, Verb.asks] at htie)
      (fun sl hsl => ?_) (slots_subset rfl (fun _ => id) (fun k hk => ?_) (fun sl hsl => ?_))
    · rw [holder_push]
      exact hs.held who a ha sl hsl
    · cases hk
      exact ⟨_, hn, rfl⟩
    · exact Session.mem_slots.mpr (.inr (.inr (.inr hsl)))
  · exact hs

theorem unwatched (hs : Owned tugs s) (ha : s.sessions who = some a) :
    Owned tugs (s.unwatched who a) := by
  unfold Seats.unwatched
  split
  next n hn =>
    have hthrow : Owned tugs (s.throw ⟨.colony, n⟩ (s.berths ⟨.colony, n⟩).ring []) :=
      hs.tame ((Tame.refl s).throw fun _ hmem => absurd hmem List.not_mem_nil)
    refine hthrow.keep (hthrow.held who a ha) ?_
    refine slots_subset rfl (fun _ => id) (fun k hk => nomatch hk) fun sl hsl => ?_
    exact Session.mem_slots.mpr (.inr (.inr (.inr hsl)))
  · exact hs

theorem say (hs : Owned tugs s) {m : Control} (hm : m.verb.ties tugs = false) :
    Owned tugs (s.push sl m) :=
  hs.push fun htie => by simp [hm] at htie

theorem dock (hs : Owned tugs s) (who : Who) (a : Session) : Owned tugs (s.dock who a) := by
  unfold Seats.dock
  split
  · exact hs.say rfl
  · exact hs

theorem eject (hs : Owned tugs s) (who : Who) (a : Session) (destruct : Bool) :
    Owned tugs (s.eject who a destruct) := by
  unfold Seats.eject
  split
  · exact hs.say rfl
  · exact hs

theorem same (hs : Owned tugs s) {a' : Session}
    (ha : ∀ sl ∈ a.slots, (s.berths sl).holder = some who) (hslot : a'.slot = a.slot)
    (hinside : ∀ n, a'.inside = some n → a.inside = some n)
    (hspectating : a'.spectating = a.spectating)
    (hstage : ∀ sl, a'.stage.slot? = some sl → sl ∈ a.slots) :
    Owned tugs (s.setSession who (some a')) :=
  hs.keep ha (slots_subset hslot hinside (fun k hk => ⟨k, hspectating ▸ hk, rfl⟩) hstage)

theorem onReport (hs : Owned tugs s) (ha : s.sessions who = some a) (hstage : a.stage = .play)
    (survival claims : Bool) (report : Report) :
    Owned tugs (s.onReport survival who a claims report) := by
  have hheld := hs.held who a ha
  have hplay : ∀ sl, a.stage.slot? = some sl → sl ∈ a.slots := by
    intro sl hsl
    rw [hstage] at hsl
    cases hsl
  cases report with
  | home =>
    simp only [Seats.onReport]
    split <;> exact hs.same hheld rfl (fun n hn => nomatch hn) rfl hplay
  | towed => exact hs.same hheld rfl (fun _ => id) rfl hplay
  | aceDown =>
    simp only [Seats.onReport]
    split
    · refine Owned.same (a := a) (hs.push fun _ => hs.main ha) (fun sl hsl => ?_) rfl
        (fun _ => id) rfl hplay
      rw [holder_push]
      exact hheld sl hsl
    · exact hs
  | lost how =>
    simp only [Seats.onReport]
    split
    · exact hs
    · split <;> exact hs.same hheld rfl (fun _ => id) rfl hplay
  | dockRefused | course | drill | parked => exact hs

theorem hear (hs : Owned tugs s) (ha : s.sessions who = some a) (hstage : a.stage = .play)
    (survival colony claims : Bool) : Owned tugs (s.hear survival who a colony claims) := by
  unfold Seats.hear
  split
  · exact hs
  · split
    · exact hs
    next hring =>
      refine Owned.onReport (hs.tame ((Tame.refl s).take fun n hn => ?_)) ha hstage survival claims _
      rw [hring]
      exact .tail _ hn

theorem cleared (hs : Owned tugs s) (ha : s.sessions who = some a) (hstage : a.stage = .play) :
    Owned tugs (s.cleared who a) := by
  unfold Seats.cleared
  split
  · refine hs.same (hs.held who a ha) rfl (fun _ => id) rfl fun sl hsl => ?_
    rw [hstage] at hsl
    cases hsl
  · exact hs

theorem settleTow (hs : Owned tugs s) {a : Session}
    (ha : ∀ sl ∈ a.slots, (s.berths sl).holder = some who) (survival : Bool)
    (signedIn : ℕ → Bool) (stored : Bool) :
    Owned tugs (s.settleTow survival signedIn who a stored) := by
  unfold Seats.settleTow
  split
  · refine Owned.same (a := a) (hs.say rfl) (fun sl hsl => ?_) rfl (fun _ => id) rfl
      (fun sl hsl => nomatch hsl)
    rw [holder_push]
    exact ha sl hsl
  · exact hs.saveLast signedIn who a stored

theorem leave (hs : Owned tugs s) (ha : s.sessions who = some a) (survival : Bool)
    (signedIn : ℕ → Bool) (stored : Bool) :
    Owned tugs (s.leave survival signedIn who a stored) := by
  have hheld := hs.held who a ha
  have hpush (sl : SlotId) (m : Control) :
      ∀ sl' ∈ a.slots, ((s.push sl m).berths sl').holder = some who := by
    intro sl' hsl'
    rw [holder_push]
    exact hheld sl' hsl'
  unfold Seats.leave
  split
  · exact hs
  · split
    next n hn =>
      refine Owned.same (a := a) (hs.say rfl) (hpush _ _) rfl (fun n hn => nomatch hn) rfl
        fun sl hsl => ?_
      cases hsl
      exact Session.mem_slots.mpr (.inr (.inl ⟨n, hn, rfl⟩))
    · exact Owned.same (a := a) (hs.say rfl) (hpush _ _) rfl (fun _ => id) rfl
        (fun sl hsl => nomatch hsl)
    · exact hs.settleTow hheld survival signedIn stored

theorem leftColony (hs : Owned tugs s) (ha : s.sessions who = some a) (survival : Bool)
    (signedIn : ℕ → Bool) (stored : Bool) :
    Owned tugs (s.leftColony survival signedIn who a stored) := by
  unfold Seats.leftColony
  split
  next n hstage =>
    have hthrow : Owned tugs (s.throw ⟨.colony, n⟩ (s.berths ⟨.colony, n⟩).ring []) :=
      hs.tame ((Tame.refl s).throw fun _ hmem => absurd hmem List.not_mem_nil)
    apply hthrow.settleTow
    split <;> exact hthrow.held who a ha
  · exact hs

theorem leftSpace (hs : Owned tugs s) (ha : s.sessions who = some a) (survival : Bool)
    (signedIn : ℕ → Bool) (stored : Bool) :
    Owned tugs (s.leftSpace survival signedIn who a stored) := by
  have htake : Owned tugs (s.take a.main who (s.berths a.main).ring []) :=
    hs.tame ((Tame.refl s).take fun _ hmem => absurd hmem List.not_mem_nil)
  simp only [Seats.leftSpace]
  apply htake.settleTow
  intro sl hsl
  refine htake.held who a ha sl ?_
  rw [← Session.settleLeft_slots survival a]
  exact hsl

theorem awaitTugs (hs : Owned tugs s) (signedIn : ℕ → Bool) (who : Who) (a : Session)
    (timedOut stored : Bool) : Owned tugs (s.awaitTugs signedIn who a timedOut stored) := by
  unfold Seats.awaitTugs
  split
  · split
    · exact hs.saveLast signedIn who a stored
    · exact hs
  next note ring hring =>
    have hless : ∀ n ∈ ring, n ∈ (s.berths a.main).ring := fun n hn => by
      rw [hring]
      exact .tail note hn
    split
    · exact (hs.tame ((Tame.refl s).take hless)).saveLast signedIn who a stored
    · exact hs.tame ((Tame.refl s).throw hless)

theorem arrive (hs : Owned tugs s) (signedIn : ℕ → Bool) (pilot n : ℕ) (loaded : Bool) :
    Owned tugs (s.arrive signedIn pilot n loaded) := by
  unfold Seats.arrive
  split
  next hfree =>
    have hnew (r : HangarRecord) : Owned tugs ((s.lease ⟨.space, n⟩ ⟨pilot, s.visits⟩).setSession
        ⟨pilot, s.visits⟩ (some (.new n r))) := by
      refine (hs.lease hfree ⟨pilot, s.visits⟩).setSession fun a ha sl hsl => ?_
      cases ha
      rcases Session.mem_slots.mp hsl with rfl | ⟨k, hk, -⟩ | ⟨k, hk, -⟩ | hstage
      · exact holder_lease _ _
      · cases hk
      · cases hk
      · cases hstage
    let r : HangarRecord := if signedIn pilot ∧ loaded then s.records pilot else .new
    exact ⟨(hnew r).held, (hnew r).ties⟩
  · exact hs

theorem giveBack (hs : Owned tugs s) {who : Who} (hsettled : (s.berths sl).Settled tugs) :
    Owned tugs (s.giveBack who sl) := by
  unfold Seats.giveBack
  split
  next h =>
    obtain ⟨hholder, hunused⟩ := h
    refine ⟨fun who a ha sl' hsl' => ?_, fun sl' who' hties => ?_⟩
    · have hheld := hs.held who a ha sl' hsl'
      by_cases hsl : sl' = sl
      · subst hsl
        rw [hholder] at hheld
        cases hheld
        exact absurd ⟨a, ha, hsl'⟩ hunused
      · simpa [Seats.setBerth, hsl] using hheld
    · by_cases hsl : sl' = sl
      · subst hsl
        simp only [Seats.setBerth, Function.update_self] at hties
        exact absurd hties (hsettled.not_ties who')
      · simp only [Seats.setBerth, Function.update_of_ne hsl] at hties ⊢
        exact hs.ties sl' who' hties
  · exact hs

end Owned

/-- A lease goes back only when its slot is settled. -/
def Act.Settles (tugs : Bool) (s : Seats) (act : Act) : Prop :=
  ∀ who sl, act = .giveBack who sl → (s.berths sl).Settled tugs

namespace Owned

variable {who : Who} {a : Session}

theorem during (hs : Owned tugs s) {stage : Stage} {f : Session → Seats}
    (hf : ∀ a, s.sessions who = some a → a.stage = stage → Owned tugs (f a)) :
    Owned tugs (s.during who stage f) := by
  unfold Seats.during
  split
  next a ha =>
    split
    next hstage => exact hf a ha hstage
    · exact hs
  · exact hs

theorem requested (hs : Owned tugs s) {survival : Bool} {f : Session → Seats}
    (hf : ∀ a, s.sessions who = some a → a.stage = .play → Owned tugs (f a)) :
    Owned tugs (s.requested survival who f) := by
  unfold Seats.requested
  split
  · exact hs.during hf
  · exact hs

theorem step (survival : Bool) (signedIn : ℕ → Bool) (s : Seats) (act : Act)
    (hs : Owned tugs s) (hact : act.Settles tugs s) : Owned tugs (s.step survival signedIn act) := by
  cases act with
  | drainControl sl luck => exact hs.tame (.drainControl s survival sl luck)
  | tell sl => exact hs.tame (.tell s sl)
  | watchLosses sl => exact hs.tame (.watchLosses s survival sl)
  | runTugs sl => exact hs.tame ((Tame.refl s).tow sl)
  | reportFeat sl feat => exact hs.tame (.reportFeat s sl feat)
  | destroy suit =>
    refine hs.tame ?_
    simp only [Seats.step, Seats.destroy]
    split
    · exact .refl s
    · split
      · exact (Tame.refl s).setSuit _ _
      · exact .refl s
  | clearSleeper suit =>
    refine hs.tame ?_
    simp only [Seats.step, Seats.clearSleeper]
    split
    · exact (Tame.refl s).setSuit _ _
    · exact .refl s
  | clearWreck sl =>
    refine hs.tame ?_
    simp only [Seats.step, Seats.clearWreck]
    split
    · exact .refl s
    · split
      · exact (Tame.refl s).setSuit _ _
      · exact .refl s
  | restore pilot named =>
    refine hs.tame ?_
    simp only [Seats.step, Seats.restore]
    split
    · split
      · exact ((Tame.refl s).spawn _).setRecord _ _
      · exact (Tame.refl s).spawn _
    · exact .refl s
  | loadNews pilot => exact hs.tame (.of_berths rfl rfl rfl)
  | saveNews =>
    refine hs.tame ?_
    simp only [Seats.step, Seats.saveNews]
    split
    · exact .refl s
    · exact .of_berths rfl rfl rfl
  | arrive pilot n loaded => exact hs.arrive signedIn pilot n loaded
  | enter who destroyed => exact hs.during fun a ha _ => hs.enter ha survival destroyed
  | look who timedOut destroyed =>
    simp only [Seats.step]
    split
    next a ha => exact hs.look ha survival timedOut destroyed
    · exact hs
  | launch who => exact hs.requested fun a ha _ => hs.launch ha
  | launchInside who n => exact hs.requested fun a ha _ => hs.launchInside ha n
  | boardTrainer who n => exact hs.requested fun a ha _ => hs.boardTrainer ha n
  | watch who n => exact hs.requested fun a ha _ => hs.watch ha n
  | unwatch who => exact hs.during fun a ha _ => hs.unwatch ha
  | unwatched who => exact hs.during fun a ha _ => hs.unwatched ha
  | dock who => exact hs.requested fun a _ _ => hs.dock who a
  | eject who destruct => exact hs.during fun a _ _ => hs.eject who a destruct
  | hear who colony claims =>
    exact hs.during fun a ha hstage => hs.hear ha hstage survival colony claims
  | cleared who => exact hs.during fun a ha hstage => hs.cleared ha hstage
  | work who bay =>
    refine hs.requested fun a ha _ => ?_
    unfold Seats.work
    split
    · exact hs.keep (hs.held who a ha) fun sl => id
    · exact hs
  | save who stored => exact hs.during fun a _ _ => hs.save signedIn who a stored
  | leave who stored => exact hs.during fun a ha _ => hs.leave ha survival signedIn stored
  | leftColony who stored =>
    simp only [Seats.step]
    split
    next a ha => exact hs.leftColony ha survival signedIn stored
    · exact hs
  | leftSpace who stored => exact hs.during fun a ha _ => hs.leftSpace ha survival signedIn stored
  | awaitTugs who timedOut stored =>
    exact hs.during fun a _ _ => hs.awaitTugs signedIn who a timedOut stored
  | giveBack who sl => exact hs.giveBack (hact who sl rfl)

theorem start (tugs : Bool) (bays : ℕ → Bay) : Owned tugs (Seats.start bays) where
  held _ _ ha := nomatch ha
  ties sl who hties := by
    refine absurd hties (Berth.Settled.not_ties ?_ who)
    refine ⟨fun m hm => absurd hm List.not_mem_nil, rfl, fun n hn => absurd hn List.not_mem_nil,
      fun _ => rfl⟩

end Owned

end BeforeColony.Seats
