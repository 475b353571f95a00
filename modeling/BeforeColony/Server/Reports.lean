import BeforeColony.Server.Leases

/-!
# Reports

What a sector tells of a suit or its wreck is read once, by the session whose it was, in a run that
never overfills a ring, never throws such news away, and hands a lease on only once nothing more is
to come of it.
-/

set_option autoImplicit false

namespace BeforeColony.Seats

open Lib

variable {s s' s'' : Seats} {sl : SlotId}

/-! ## Nothing told -/

structure Hush (s s' : Seats) : Prop where
  read : s'.read = s.read
  sent : s'.sent = s.sent
  notes : s'.notes = s.notes
  mail : ∀ sl, (s'.berths sl).mail = (s.berths sl).mail

namespace Hush

theorem refl (s : Seats) : Hush s s := ⟨rfl, rfl, rfl, fun _ => rfl⟩

theorem trans (h : Hush s s') (h' : Hush s' s'') : Hush s s'' :=
  ⟨h'.read.trans h.read, h'.sent.trans h.sent, h'.notes.trans h.notes,
    fun sl => (h'.mail sl).trans (h.mail sl)⟩

theorem of_berths (hread : s'.read = s.read) (hsent : s'.sent = s.sent) (hnotes : s'.notes = s.notes)
    (hberths : s'.berths = s.berths) : Hush s s' :=
  ⟨hread, hsent, hnotes, fun sl => by rw [hberths]⟩

theorem setBerth (h : Hush s s') {b : Berth} (hmail : b.mail = (s'.berths sl).mail) :
    Hush s (s'.setBerth sl b) := by
  refine h.trans ⟨rfl, rfl, rfl, fun sl' => ?_⟩
  by_cases hsl : sl' = sl
  · subst hsl
    simp [Seats.setBerth, hmail]
  · simp [Seats.setBerth, hsl]

theorem setSuit (h : Hush s s') (suit : ℕ) (craft : Option Craft) : Hush s (s'.setSuit suit craft) :=
  h.trans (of_berths rfl rfl rfl rfl)

theorem setSession (h : Hush s s') (who : Who) (a : Option Session) :
    Hush s (s'.setSession who a) :=
  h.trans (of_berths rfl rfl rfl rfl)

theorem setRecord (h : Hush s s') (pilot : ℕ) (r : HangarRecord) : Hush s (s'.setRecord pilot r) :=
  h.trans (of_berths rfl rfl rfl rfl)

theorem spawn (h : Hush s s') (craft : Craft) : Hush s (s'.spawn craft) :=
  h.trans (of_berths rfl rfl rfl rfl)

theorem push (h : Hush s s') (m : Control) : Hush s (s'.push sl m) := h.setBerth rfl

theorem lease (h : Hush s s') (who : Who) : Hush s (s'.lease sl who) := h.setBerth rfl

theorem publish (h : Hush s s') (sl : SlotId) (state : SlotState) (suit : Option ℕ)
    (outcome : Outcome) : Hush s (s'.publish sl state suit outcome) :=
  h.setBerth rfl

theorem unclient (h : Hush s s') (sl : SlotId) : Hush s (s'.unclient sl) := h.setBerth rfl

theorem seat (h : Hush s s') (sl : SlotId) (suit : ℕ) (who : Who) (outcome : Outcome) :
    Hush s (s'.seat sl suit who outcome) := by
  apply publish
  exact h.setBerth rfl

theorem replace (h : Hush s s') (sl : SlotId) : Hush s (s'.replace sl) := by
  unfold Seats.replace
  split
  · exact h
  · exact h.setSuit _ _

theorem drainJoin (h : Hush s s') (survival : Bool) (sl : SlotId) (luck : Luck) (who : Who)
    (comeback : Option ℕ) (launch : Bool) :
    Hush s (s'.drainJoin survival sl luck who comeback launch) := by
  simp only [Seats.drainJoin]
  split
  · exact ((h.replace sl).setSuit _ _).seat sl _ _ _
  · split
    · exact ((h.replace sl).spawn _).seat sl _ _ _
    · exact (h.replace sl).publish sl _ _ _

theorem drainBoard (h : Hush s s') (sl : SlotId) (luck : Luck) (who : Who) :
    Hush s (s'.drainBoard sl luck who) := by
  simp only [Seats.drainBoard]
  split
  · exact ((h.replace sl).spawn _).seat sl _ _ _
  · exact (h.replace sl).publish sl _ _ _

theorem drainWatch (h : Hush s s') (sl : SlotId) : Hush s (s'.drainWatch sl) := by
  simp only [Seats.drainWatch]
  split
  · apply publish
    exact h.setBerth rfl
  · exact h

theorem ask (h : Hush s s') (who : Who) (a : Session) (errand : Errand) (verb : Verb) :
    Hush s (s'.ask who a errand verb) :=
  (h.push _).setSession _ _

theorem entered (h : Hush s s') (who : Who) (a : Session) (suit : Option ℕ) :
    Hush s (s'.entered who a suit) :=
  h.setSession _ _

theorem seated (h : Hush s s') (who : Who) (a : Session) (errand : Errand) (suit : ℕ) :
    Hush s (s'.seated who a errand suit) := by
  cases errand with
  | enter => exact h.entered _ _ _
  | launch | launchInside n | board n => exact h.setSession _ _

theorem notSeated (h : Hush s s') (survival : Bool) (who : Who) (a : Session) (errand : Errand)
    (destroyed : Bool) : Hush s (s'.notSeated survival who a errand destroyed) := by
  cases errand with
  | enter =>
    simp only [Seats.notSeated]
    split
    · exact h.entered _ _ _
    · exact h.setSession _ _
  | launch | launchInside n | board n => exact h.setSession _ _

theorem save (h : Hush s s') (signedIn : ℕ → Bool) (who : Who) (a : Session) (stored : Bool) :
    Hush s (s'.save signedIn who a stored) := by
  unfold Seats.save
  split
  · exact h.setRecord _ _
  · exact h

theorem saveLast (h : Hush s s') (signedIn : ℕ → Bool) (who : Who) (a : Session) (stored : Bool) :
    Hush s (s'.saveLast signedIn who a stored) :=
  (h.save signedIn who a stored).setSession _ _

theorem settleTow (h : Hush s s') (survival : Bool) (signedIn : ℕ → Bool) (who : Who) (a : Session)
    (stored : Bool) : Hush s (s'.settleTow survival signedIn who a stored) := by
  unfold Seats.settleTow
  split
  · exact (h.push _).setSession _ _
  · exact h.saveLast _ _ _ _

theorem onReport (h : Hush s s') (survival : Bool) (who : Who) (a : Session) (claims : Bool)
    (report : Report) : Hush s (s'.onReport survival who a claims report) := by
  cases report with
  | home | towed => exact h.setSession _ _
  | aceDown =>
    simp only [Seats.onReport]
    split
    · exact (h.push _).setSession _ _
    · exact h
  | lost how =>
    simp only [Seats.onReport]
    split
    · exact h
    · exact h.setSession _ _
  | dockRefused | course | drill | parked => exact h

end Hush

/-! ## What is told -/

/-- Each report has its own number and is where it goes; what became of a suit or its wreck was read
or still waits, and was read by the session whose it was. -/
structure Told (s : Seats) : Prop where
  fresh : ∀ note ∈ s.sent, note.id < s.notes
  once : ∀ note, s.sent.count note ≤ 1
  here : ∀ sl, ∀ note ∈ (s.berths sl).mail, note.slot = sl
  whole : ∀ note, note.report.fate → (s.read.map Prod.snd).count note +
    (s.berths note.slot).mail.count note = s.sent.count note
  mine : ∀ x ∈ s.read, x.2.report.fate → x.2.who = x.1

namespace Told

theorem hush (hs : Told s) (h : Hush s s') : Told s' where
  fresh := by
    rw [h.sent, h.notes]
    exact hs.fresh
  once := by
    rw [h.sent]
    exact hs.once
  here sl note hn := by
    rw [h.mail] at hn
    exact hs.here sl note hn
  whole note hfate := by
    rw [h.read, h.sent, h.mail]
    exact hs.whole note hfate
  mine := by
    rw [h.read]
    exact hs.mine

/-- A report is made, and goes where it goes unless the ring is full. -/
theorem send (hs : Told s) (note : Note) (hread : s'.read = s.read) (hsent : s'.sent = note :: s.sent)
    (hnotes : s'.notes = s.notes + 1) (hid : note.id = s.notes)
    (hmem : ∀ sl, ∀ n ∈ (s'.berths sl).mail, n ∈ (s.berths sl).mail ∨ n = note ∧ sl = note.slot)
    (hcount : ∀ n, n.report.fate → (s'.berths n.slot).mail.count n =
      (s.berths n.slot).mail.count n + [note].count n) : Told s' where
  fresh n hn := by
    rw [hsent] at hn
    rw [hnotes]
    rcases List.mem_cons.mp hn with rfl | hn
    · omega
    · exact Nat.lt_succ_of_lt (hs.fresh n hn)
  once n := by
    rw [hsent, List.count_cons]
    split
    next heq =>
      have hnew : n ∉ s.sent := fun hn => by
        have hlt := hs.fresh n hn
        rw [← eq_of_beq heq, hid] at hlt
        omega
      rw [List.count_eq_zero_of_not_mem hnew]
    · exact hs.once n
  here sl n hn := by
    rcases hmem sl n hn with hn | ⟨rfl, rfl⟩
    · exact hs.here sl n hn
    · rfl
  whole n hfate := by
    have hwhole := hs.whole n hfate
    rw [hread, hsent, hcount n hfate]
    simp only [List.count_cons, List.count_nil]
    omega
  mine := by
    rw [hread]
    exact hs.mine

theorem pushNote_of_lt {note : Note} (h : (s.berths sl).ring.length < REPORTS) :
    s.pushNote sl note =
      s.setBerth sl { s.berths sl with ring := (s.berths sl).ring ++ [note] } := by
  simp only [Seats.pushNote, h, ↓reduceIte]

theorem pushNote_of_full {note : Note} (h : ¬ (s.berths sl).ring.length < REPORTS) :
    s.pushNote sl note = { s with dropped := note :: s.dropped } := by
  simp only [Seats.pushNote, h, ↓reduceIte]

theorem mail_pushNote {note : Note} (h : (s.berths sl).ring.length < REPORTS) (sl' : SlotId) :
    ((s.pushNote sl note).berths sl').mail =
      if sl' = sl then (s.berths sl).ring ++ [note] ++ (s.berths sl).telling.toList
      else (s.berths sl').mail := by
  rw [pushNote_of_lt h]
  split
  next heq =>
    subst heq
    simp [Seats.setBerth, Berth.mail]
  next hne => simp [Seats.setBerth, hne]

theorem mail_setRing (ring : List Note) (sl' : SlotId) :
    ((s.setBerth sl { s.berths sl with ring := ring }).berths sl').mail =
      if sl' = sl then ring ++ (s.berths sl).telling.toList else (s.berths sl').mail := by
  split
  next heq =>
    subst heq
    simp [Seats.setBerth, Berth.mail]
  next hne => simp [Seats.setBerth, hne]

theorem mem_mail_of_setRing {notes ring : List Note} (hring : (s.berths sl).ring = notes ++ ring)
    {sl' : SlotId} {n : Note} (hn : n ∈ if sl' = sl then ring ++ (s.berths sl).telling.toList
      else (s.berths sl').mail) : n ∈ (s.berths sl').mail := by
  split at hn
  next heq =>
    rw [heq, Berth.mail, hring, List.append_assoc]
    exact List.mem_append_right _ hn
  · exact hn

theorem report (hs : Told s) {who : Who} {r : Report}
    (hroom : r.fate → (s.berths sl).ring.length < REPORTS) : Told (s.report sl who r) := by
  by_cases h : (s.berths sl).ring.length < REPORTS
  · have hmail (sl' : SlotId) : ((s.report sl who r).berths sl').mail = if sl' = sl then
        (s.berths sl).ring ++ [⟨s.notes, sl, who, r⟩] ++ (s.berths sl).telling.toList
        else (s.berths sl').mail :=
      @mail_pushNote (s.make sl who r).2 sl _ h sl'
    have hpush : s.report sl who r = _ := @pushNote_of_lt (s.make sl who r).2 sl _ h
    refine hs.send ⟨s.notes, sl, who, r⟩ (by rw [hpush]; rfl) (by rw [hpush]; rfl) (by rw [hpush]; rfl)
      rfl (fun sl' n hn => ?_) (fun n hfate => ?_)
    · rw [hmail] at hn
      split at hn
      next heq =>
        subst heq
        simp only [List.mem_append, List.mem_singleton] at hn
        rcases hn with (hn | rfl) | hn
        · exact .inl (List.mem_append_left _ hn)
        · exact .inr ⟨rfl, rfl⟩
        · exact .inl (List.mem_append_right _ hn)
      · exact .inl hn
    · rw [hmail]
      split
      next heq =>
        rw [heq]
        simp only [Berth.mail, List.count_append]
        omega
      next hne =>
        have hother : (⟨s.notes, sl, who, r⟩ : Note) ≠ n := fun heq => hne (by rw [← heq])
        simp [hother]
  · have hfull : s.report sl who r = _ := @pushNote_of_full (s.make sl who r).2 sl _ h
    refine hs.send ⟨s.notes, sl, who, r⟩ (by rw [hfull]; rfl) (by rw [hfull]; rfl) (by rw [hfull]; rfl)
      rfl (fun sl' n hn => ?_) (fun n hfate => ?_)
    · rw [hfull] at hn
      exact .inl hn
    · have hother : (⟨s.notes, sl, who, r⟩ : Note) ≠ n := fun heq => by
        rw [← heq] at hfate
        exact h (hroom hfate)
      rw [hfull]
      simp [hother, Seats.make]

/-- What a session reads off the front of a ring is no longer there. -/
theorem take (hs : Told s) {who : Who} {notes ring : List Note}
    (hring : (s.berths sl).ring = notes ++ ring)
    (hmine : ∀ n ∈ notes, n.report.fate → n.who = who) : Told (s.take sl who notes ring) := by
  have hmail (sl' : SlotId) : ((s.take sl who notes ring).berths sl').mail =
      if sl' = sl then ring ++ (s.berths sl).telling.toList else (s.berths sl').mail :=
    mail_setRing ring sl'
  have hsplit : (s.berths sl).mail = notes ++ (ring ++ (s.berths sl).telling.toList) := by
    rw [Berth.mail, hring, List.append_assoc]
  refine ⟨hs.fresh, hs.once, fun sl' n hn => ?_, fun n hfate => ?_, fun x hx hfate => ?_⟩
  · exact hs.here sl' n (mem_mail_of_setRing hring (by simpa only [hmail] using hn))
  · have hwhole := hs.whole n hfate
    have hread : (s.take sl who notes ring).read.map Prod.snd = notes ++ s.read.map Prod.snd := by
      simp [Seats.take, Function.comp_def]
    rw [hread, hmail, List.count_append]
    split
    next heq =>
      rw [heq, hsplit, List.count_append] at hwhole
      change _ = s.sent.count n
      omega
    next hne =>
      have hnot : n ∉ notes := fun hn =>
        hne (hs.here sl n (by rw [hsplit]; exact List.mem_append_left _ hn))
      rw [List.count_eq_zero_of_not_mem hnot, Nat.zero_add]
      exact hwhole
  · rcases List.mem_append.mp hx with hx | hx
    · obtain ⟨n, hn, rfl⟩ := List.mem_map.mp hx
      exact hmine n hn hfate
    · exact hs.mine x hx hfate

theorem throw (hs : Told s) {notes ring : List Note} (hring : (s.berths sl).ring = notes ++ ring)
    (hnone : ∀ n ∈ notes, n.report.fate = false) : Told (s.throw sl notes ring) := by
  have hmail (sl' : SlotId) : ((s.throw sl notes ring).berths sl').mail =
      if sl' = sl then ring ++ (s.berths sl).telling.toList else (s.berths sl').mail :=
    mail_setRing ring sl'
  refine ⟨hs.fresh, hs.once, fun sl' n hn => ?_, fun n hfate => ?_, hs.mine⟩
  · exact hs.here sl' n (mem_mail_of_setRing hring (by simpa only [hmail] using hn))
  · rw [hmail]
    split
    next heq =>
      have hnot : n ∉ notes := fun hn => by simp [hnone n hn] at hfate
      have hcount : (s.berths sl).mail.count n =
          (ring ++ (s.berths sl).telling.toList).count n := by
        rw [Berth.mail, hring, List.append_assoc, List.count_append,
          List.count_eq_zero_of_not_mem hnot, Nat.zero_add]
      rw [← hcount, ← heq]
      exact hs.whole n hfate
    · exact hs.whole n hfate

theorem tow (hs : Told s) (hroom : (s.berths sl).claim ≠ none → (s.berths sl).ring.length < REPORTS) :
    Told (s.tow sl) := by
  unfold Seats.tow
  split
  · exact hs
  next who hclaim =>
    have hclear : Told (s.setBerth sl { s.berths sl with claim := none }) :=
      hs.hush ((Hush.refl s).setBerth rfl)
    apply hclear.report
    intro _
    simpa [Seats.setBerth] using hroom (by simp [hclaim])

end Told

/-! ## What a step tells -/

@[simp] theorem suits_pushNote (s : Seats) (sl : SlotId) (note : Note) :
    (s.pushNote sl note).suits = s.suits := by
  by_cases h : (s.berths sl).ring.length < REPORTS
  · rw [Told.pushNote_of_lt h]
    rfl
  · rw [Told.pushNote_of_full h]

@[simp] theorem client_pushNote (s : Seats) (sl : SlotId) (note : Note) :
    ((s.pushNote sl note).berths sl).client = (s.berths sl).client := by
  by_cases h : (s.berths sl).ring.length < REPORTS
  · rw [Told.pushNote_of_lt h]
    simp [Seats.setBerth]
  · rw [Told.pushNote_of_full h]

theorem length_ring_pushNote (s : Seats) (sl : SlotId) (note : Note) :
    ((s.pushNote sl note).berths sl).ring.length ≤ (s.berths sl).ring.length + 1 := by
  by_cases h : (s.berths sl).ring.length < REPORTS
  · rw [Told.pushNote_of_lt h]
    simp [Seats.setBerth]
  · rw [Told.pushNote_of_full h]
    exact Nat.le_succ _

@[simp] theorem suits_tow (s : Seats) (sl : SlotId) : (s.tow sl).suits = s.suits := by
  unfold Seats.tow
  split
  · rfl
  · exact suits_pushNote _ sl _

@[simp] theorem client_tow (s : Seats) (sl : SlotId) :
    ((s.tow sl).berths sl).client = (s.berths sl).client := by
  unfold Seats.tow
  split
  · rfl
  · rw [Seats.report, client_pushNote]
    simp [Seats.make, Seats.setBerth]

theorem length_ring_tow (s : Seats) (sl : SlotId) : ((s.tow sl).berths sl).ring.length ≤
    (s.berths sl).ring.length + if (s.berths sl).claim = none then 0 else 1 := by
  unfold Seats.tow
  split
  next hclaim => simp [hclaim]
  next who hclaim =>
    rw [if_neg (by simp [hclaim])]
    refine (length_ring_pushNote _ sl _).trans ?_
    simp [Seats.make, Seats.setBerth]

/-- How many reports of a suit or a wreck the sector makes, doing what it is asked. -/
def tells (survival : Bool) (s : Seats) (sl : SlotId) (luck : Luck) : Verb → ℕ
  | .leave _ =>
    (if (s.berths sl).claim = none then 0 else 1) +
      if sl.side = .space ∧ luck.inBay ∧
        (s.berths sl).client.any fun c => s.shape? c.suit = some .awake then 1 else 0
  | .eject _ | .tow => if (s.berths sl).claim = none then 0 else 1
  | .claim => if survival = false ∨ (s.berths sl).claim = none then 0 else 1
  | _ => 0

def Berth.Room (b : Berth) (n : ℕ) : Prop := n = 0 ∨ b.ring.length + n ≤ REPORTS

instance (b : Berth) (n : ℕ) : Decidable (b.Room n) := inferInstanceAs (Decidable (_ ∨ _))

namespace Told

variable {survival : Bool} {luck : Luck}

theorem leaveSuit (hs : Told s) {sleep : Bool} {c : Client}
    (hroom : sl.side = .space → luck.inBay → s.shape? c.suit = some .awake →
      (s.berths sl).ring.length < REPORTS) : Told (s.leaveSuit survival sl luck sleep c).1 := by
  simp only [Seats.leaveSuit]
  split
  next hbay =>
    split
    next hawake =>
      exact (hs.hush ((Hush.refl s).setSuit _ _)).report fun _ => hroom hbay.1 hbay.2 hawake
    · exact hs
  · split
    · dsimp only
      split
      · exact (hs.hush ((Hush.refl s).setSuit _ _)).report fun hfate => by cases hfate
      · exact hs.hush ((Hush.refl s).setSuit _ _)
    · exact hs.hush ((Hush.refl s).setSuit _ _)

theorem drainLeave (hs : Told s) {sleep : Bool}
    (hroom : (s.berths sl).Room (s.tells survival sl luck (.leave sleep))) :
    Told (s.drainLeave survival sl luck sleep) := by
  have htow : Told (s.tow sl) := hs.tow fun hclaim => by
    rw [Berth.Room, tells, if_neg hclaim] at hroom
    omega
  have hunwatch : Hush (s.tow sl)
      ((s.tow sl).setBerth sl { (s.tow sl).berths sl with watched := false }) :=
    (Hush.refl _).setBerth rfl
  simp only [Seats.drainLeave]
  split
  · exact htow.hush (hunwatch.publish sl _ _ _)
  next c hc =>
    refine (leaveSuit (htow.hush hunwatch) fun hside hbay hawake => ?_).hush
      (((Hush.refl _).unclient sl).publish sl _ _ _)
    have hclient : (s.berths sl).client = some c := by simpa [Seats.setBerth] using hc
    have hawake' : s.shape? c.suit = some .awake := by
      simpa [Seats.shape?, Seats.setBerth] using hawake
    have hlength := length_ring_tow s sl
    have hhome : sl.side = .space ∧ luck.inBay = true ∧ ((s.berths sl).client.any fun c =>
        decide (s.shape? c.suit = some .awake)) = true :=
      ⟨hside, hbay, by rw [hclient]; exact decide_eq_true hawake'⟩
    rw [Berth.Room, tells, if_pos hhome] at hroom
    simp only [Seats.setBerth, Function.update_self]
    omega

theorem setTelling (hs : Told s) (htelling : (s.berths sl).telling = none) (who : Who) (r : Report) :
    Told ((s.make sl who r).2.setBerth sl
      { (s.make sl who r).2.berths sl with telling := some (s.make sl who r).1 }) := by
  have hmail (sl' : SlotId) : (((s.make sl who r).2.setBerth sl { (s.make sl who r).2.berths sl with
      telling := some (s.make sl who r).1 }).berths sl').mail =
        if sl' = sl then (s.berths sl).mail ++ [⟨s.notes, sl, who, r⟩] else (s.berths sl').mail := by
    split
    next heq =>
      subst heq
      simp [Seats.make, Seats.setBerth, Berth.mail, htelling]
    next hne => simp [Seats.make, Seats.setBerth, hne]
  refine hs.send ⟨s.notes, sl, who, r⟩ rfl rfl rfl rfl (fun sl' n hn => ?_) (fun n hfate => ?_)
  · rw [hmail] at hn
    split at hn
    next heq =>
      subst heq
      rcases List.mem_append.mp hn with hn | hn
      · exact .inl hn
      · exact .inr ⟨List.mem_singleton.mp hn, rfl⟩
    · exact .inl hn
  · rw [hmail]
    split
    next heq => rw [heq, List.count_append]
    next hne =>
      have hother : (⟨s.notes, sl, who, r⟩ : Note) ≠ n := fun heq => hne (by rw [← heq])
      simp [hother]

theorem drainDock (hs : Told s) (htelling : (s.berths sl).telling = none) (who : Who) :
    Told (s.drainDock sl luck who) := by
  simp only [Seats.drainDock]
  split
  next c _ =>
    have hfreed : Told (((s.setSuit c.suit none).unclient sl).publish sl .free none .docked) :=
      hs.hush ((((Hush.refl s).setSuit _ _).unclient sl).publish sl _ _ _)
    apply hfreed.setTelling
    simpa [Seats.publish, Seats.unclient, Seats.setBerth, Seats.setSuit] using htelling
  · exact hs.setTelling htelling who .dockRefused

theorem drainEject (hs : Told s) {destruct : Bool}
    (hroom : (s.berths sl).Room (s.tells survival sl luck (.eject destruct))) :
    Told (s.drainEject survival sl luck destruct) := by
  simp only [Seats.drainEject]
  split
  · exact hs
  next c _ =>
    have hloss (loss : Loss) (craft : Option Craft) : Hush s ((s.setSuit c.suit craft).setBerth
        sl { (s.setSuit c.suit craft).berths sl with client := some { c with loss := loss } }) := by
      apply Hush.setBerth
      · exact (Hush.refl s).setSuit _ _
      · rfl
    split
    · exact hs.hush (hloss _ _)
    · split
      · refine (Told.tow (hs.hush (hloss _ _)) fun hclaim => ?_).hush ((Hush.refl _).setBerth rfl)
        have hclaim' : (s.berths sl).claim ≠ none := by
          simpa [Seats.setBerth, Seats.setSuit] using hclaim
        rw [Berth.Room, tells, if_neg hclaim'] at hroom
        simp only [Seats.setBerth, Seats.setSuit, Function.update_self]
        omega
      · exact hs.hush (hloss _ _)

theorem drainClaim (hs : Told s) (hroom : (s.berths sl).Room (s.tells survival sl luck .claim))
    (who : Who) : Told (s.drainClaim survival sl who) := by
  simp only [Seats.drainClaim]
  split
  next hsurvival =>
    refine (hs.tow fun hclaim => ?_).hush ((Hush.refl _).setBerth rfl)
    rw [Berth.Room, tells, if_neg (by simp [hsurvival, hclaim])] at hroom
    omega
  · exact hs

theorem drainControl (hs : Told s)
    (hroom : (s.berths sl).telling = none → ∀ m ∈ (s.berths sl).queue.head?,
      (s.berths sl).Room (s.tells survival sl luck m.verb)) :
    Told (s.drainControl survival sl luck) := by
  simp only [Seats.drainControl]
  split
  next m queue htelling hqueue =>
    have hpop : Told (s.setBerth sl { s.berths sl with queue := queue }) :=
      hs.hush ((Hush.refl s).setBerth rfl)
    have hroom' (verb : Verb) (hverb : m.verb = verb) :
        ((s.setBerth sl { s.berths sl with queue := queue }).berths sl).Room
          ((s.setBerth sl { s.berths sl with queue := queue }).tells survival sl luck verb) := by
      have hfirst := hroom htelling m (by simp [hqueue])
      rw [hverb] at hfirst
      cases verb <;> simp_all [Berth.Room, tells, Seats.setBerth, Seats.shape?]
    cases hverb : m.verb with
    | join comeback launch => exact hpop.hush ((Hush.refl _).drainJoin _ sl _ _ _ _)
    | board => exact hpop.hush ((Hush.refl _).drainBoard sl _ _)
    | watch => exact hpop.hush ((Hush.refl _).drainWatch sl)
    | leave sleep => exact hpop.drainLeave (hroom' _ hverb)
    | dock =>
      apply hpop.drainDock
      simpa [Seats.setBerth] using htelling
    | eject destruct => exact hpop.drainEject (hroom' _ hverb)
    | claim => exact hpop.drainClaim (hroom' _ hverb) m.who
    | tow =>
      refine hpop.tow fun hclaim => ?_
      have htow := hroom' .tow hverb
      rw [Berth.Room, tells, if_neg hclaim] at htow
      omega
  · exact hs

theorem tell (hs : Told s) (hroom : ∀ note, (s.berths sl).telling = some note → note.report.fate →
    (s.berths sl).ring.length < REPORTS) : Told (s.tell sl) := by
  unfold Seats.tell
  split
  · exact hs
  next note htelling =>
    have hmail : (s.berths sl).mail = (s.berths sl).ring ++ [note] := by simp [Berth.mail, htelling]
    by_cases h : (s.berths sl).ring.length < REPORTS
    · refine hs.hush ⟨?_, ?_, ?_, fun sl' => ?_⟩
      · rw [pushNote_of_lt (by simpa [Seats.setBerth] using h)]
        rfl
      · rw [pushNote_of_lt (by simpa [Seats.setBerth] using h)]
        rfl
      · rw [pushNote_of_lt (by simpa [Seats.setBerth] using h)]
        rfl
      · rw [mail_pushNote (by simpa [Seats.setBerth] using h)]
        split
        next heq =>
          rw [heq, hmail]
          simp [Seats.setBerth]
        next hne => simp [Seats.setBerth, hne]
    · have hminor : note.report.fate = false := by
        rw [← Bool.not_eq_true]
        exact fun hfate => h (hroom note htelling hfate)
      rw [pushNote_of_full (by simpa [Seats.setBerth] using h)]
      have hmail' (sl' : SlotId) : ((s.setBerth sl { s.berths sl with telling := none }).berths sl').mail =
          if sl' = sl then (s.berths sl).ring else (s.berths sl').mail := by
        split
        next heq =>
          subst heq
          simp [Seats.setBerth, Berth.mail]
        next hne => simp [Seats.setBerth, hne]
      refine ⟨hs.fresh, hs.once, fun sl' n hn => ?_, fun n hfate => ?_, hs.mine⟩
      · change n ∈ ((s.setBerth sl { s.berths sl with telling := none }).berths sl').mail at hn
        rw [hmail'] at hn
        split at hn
        next heq =>
          subst heq
          exact hs.here sl' n (List.mem_append_left _ hn)
        · exact hs.here sl' n hn
      · have hother : note ≠ n := fun heq => by
          rw [← heq, hminor] at hfate
          cases hfate
        change _ + ((s.setBerth sl { s.berths sl with telling := none }).berths n.slot).mail.count n = _
        rw [hmail']
        split
        next heq =>
          have hwhole := hs.whole n hfate
          rw [heq, hmail, List.count_append, List.count_eq_zero_of_not_mem (l := [note])
            (fun hn => hother (List.mem_singleton.mp hn).symm)] at hwhole
          exact hwhole
        · exact hs.whole n hfate

theorem watchLosses (hs : Told s) (hroom : ∀ c, (s.berths sl).client = some c → c.lost = false →
    s.shape? c.suit = some .wreck → (s.berths sl).ring.length < REPORTS) :
    Told (s.watchLosses survival sl) := by
  unfold Seats.watchLosses
  split
  · exact hs
  next c hc =>
    split
    · exact hs
    · split
      · exact hs.hush (((Hush.refl s).unclient sl).publish sl _ _ _)
      · split
        next hlost =>
          have htold : Told (s.setBerth sl { s.berths sl with client := some { c with lost := true } }) :=
            hs.hush ((Hush.refl s).setBerth rfl)
          apply htold.report
          intro _
          simpa [Seats.setBerth] using hroom c hc hlost.1 hlost.2
        · exact hs

theorem reportFeat (hs : Told s) (feat : Report) : Told (s.reportFeat sl feat) := by
  unfold Seats.reportFeat
  split
  · exact hs
  · split
    next hfeat =>
      apply hs.report
      intro hfate
      rcases hfeat with rfl | rfl | rfl <;> cases hfate
    · exact hs

theorem mine_of_owned (hown : Owned true s) {who : Who} (hholder : (s.berths sl).holder = some who)
    {note : Note} (hn : note ∈ (s.berths sl).ring) (hfate : note.report.fate) : note.who = who := by
  have htie : note.report.ties true := by
    revert hfate
    cases note.report <;> simp [Report.fate, Report.ties]
  have hties := hown.ties sl note.who (.inr (.inr (.inl
    ⟨note, List.mem_append_left _ hn, htie, rfl⟩)))
  rw [hholder] at hties
  exact (Option.some.inj hties).symm

variable {who : Who} {a : Session}

theorem hear (hs : Told s) (hown : Owned true s) (ha : s.sessions who = some a)
    (survival colony claims : Bool) : Told (s.hear survival who a colony claims) := by
  unfold Seats.hear
  split
  · exact hs
  next sl hsl =>
    split
    · exact hs
    next note ring hring =>
      have hmem : sl ∈ a.slots := by
        apply Session.mem_slots.mpr
        split at hsl
        · obtain ⟨n, hn, rfl⟩ := Option.map_eq_some_iff.mp hsl
          exact .inr (.inl ⟨n, hn, rfl⟩)
        · exact .inl (Option.some.inj hsl).symm
      have htake : Told (s.take sl who [note] ring) := by
        refine hs.take hring fun n hn hfate => ?_
        refine mine_of_owned hown (hown.held who a ha sl hmem) ?_ hfate
        rw [hring]
        exact List.mem_append_left ring hn
      exact htake.hush ((Hush.refl _).onReport _ _ _ _ _)

theorem leftSpace (hs : Told s) (hown : Owned true s) (ha : s.sessions who = some a)
    (survival : Bool) (signedIn : ℕ → Bool) (stored : Bool) :
    Told (s.leftSpace survival signedIn who a stored) := by
  have htake : Told (s.take a.main who (s.berths a.main).ring []) := by
    refine hs.take (List.append_nil _).symm fun n hn hfate => ?_
    exact mine_of_owned hown (hown.main ha) hn hfate
  exact htake.hush ((Hush.refl _).settleTow _ _ _ _ _)

theorem leftColony (hs : Told s) (survival : Bool) (signedIn : ℕ → Bool) (stored : Bool)
    (hnone : ∀ n, a.stage = .leavingColony n →
      ∀ note ∈ (s.berths ⟨.colony, n⟩).ring, note.report.fate = false) :
    Told (s.leftColony survival signedIn who a stored) := by
  unfold Seats.leftColony
  split
  next n hstage =>
    have hthrow : Told (s.throw ⟨.colony, n⟩ (s.berths ⟨.colony, n⟩).ring []) :=
      hs.throw (List.append_nil _).symm (hnone n hstage)
    exact hthrow.hush ((Hush.refl _).settleTow _ _ _ _ _)
  · exact hs

theorem unwatched (hs : Told s) (hnone : ∀ n, a.spectating = some (n, true) →
    ∀ note ∈ (s.berths ⟨.colony, n⟩).ring, note.report.fate = false) : Told (s.unwatched who a) := by
  unfold Seats.unwatched
  split
  next n hn =>
    exact (hs.throw (List.append_nil _).symm (hnone n hn)).hush ((Hush.refl _).setSession _ _)
  · exact hs

theorem awaitTugs (hs : Told s) (hown : Owned true s) (ha : s.sessions who = some a)
    (signedIn : ℕ → Bool) (timedOut stored : Bool)
    (hnone : ∀ note ∈ (s.berths a.main).ring.head?, note.report.fate → note.report = .towed) :
    Told (s.awaitTugs signedIn who a timedOut stored) := by
  unfold Seats.awaitTugs
  split
  · split
    · exact hs.hush ((Hush.refl _).saveLast _ _ _ _)
    · exact hs
  next note ring hring =>
    split
    next htowed =>
      have htake : Told (s.take a.main who [note] ring) := by
        refine hs.take hring fun n hn hfate => mine_of_owned hown (hown.main ha) ?_ hfate
        rw [hring]
        exact List.mem_append_left ring hn
      exact htake.hush ((Hush.refl _).saveLast _ _ _ _)
    next htowed =>
      refine hs.throw hring fun n hn => ?_
      rw [List.mem_singleton.mp hn, ← Bool.not_eq_true]
      exact fun hfate => htowed (hnone note (by simp [hring]) hfate)

theorem during {stage : Stage} {f : Session → Seats} (hs : Told s)
    (hf : ∀ a, s.sessions who = some a → Told (f a)) : Told (s.during who stage f) := by
  unfold Seats.during
  split
  next a ha =>
    split
    · exact hf a ha
    · exact hs
  · exact hs

end Told

/-! ## Runs -/

namespace Hush

theorem destroy (s : Seats) (suit : ℕ) : Hush s (s.destroy suit) := by
  unfold Seats.destroy
  split
  · exact refl s
  · split
    · exact (refl s).setSuit _ _
    · exact refl s

theorem clearSleeper (s : Seats) (suit : ℕ) : Hush s (s.clearSleeper suit) := by
  unfold Seats.clearSleeper
  split
  · exact (refl s).setSuit _ _
  · exact refl s

theorem clearWreck (s : Seats) (sl : SlotId) : Hush s (s.clearWreck sl) := by
  unfold Seats.clearWreck
  split
  · exact refl s
  · split
    · exact (refl s).setSuit _ _
    · exact refl s

theorem restore (s : Seats) (signedIn : ℕ → Bool) (pilot : ℕ) (named : Bool) :
    Hush s (s.restore signedIn pilot named) := by
  simp only [Seats.restore]
  split
  · split
    · exact ((refl s).spawn _).setRecord _ _
    · exact (refl s).spawn _
  · exact refl s

theorem saveNews (s : Seats) : Hush s s.saveNews := by
  unfold Seats.saveNews
  split
  · exact refl s
  · exact of_berths rfl rfl rfl rfl

theorem arrive (s : Seats) (signedIn : ℕ → Bool) (pilot n : ℕ) (loaded : Bool) :
    Hush s (s.arrive signedIn pilot n loaded) := by
  unfold Seats.arrive
  split
  · have hlease : Hush s (s.lease ⟨.space, n⟩ ⟨pilot, s.visits⟩) := (refl s).lease _
    exact hlease.trans (of_berths rfl rfl rfl rfl)
  · exact refl s

theorem enter (s : Seats) (survival : Bool) (who : Who) (a : Session) (destroyed : Bool) :
    Hush s (s.enter survival who a destroyed) := by
  unfold Seats.enter
  split
  · split
    · exact (refl s).ask _ _ _ _
    · exact (refl s).entered _ _ _
  · exact (refl s).ask _ _ _ _

theorem look (s : Seats) (survival : Bool) (who : Who) (a : Session) (timedOut destroyed : Bool) :
    Hush s (s.look survival who a timedOut destroyed) := by
  unfold Seats.look
  split
  · dsimp only
    split
    · split
      · exact (refl s).seated _ _ _ _
      · exact (refl s).notSeated _ _ _ _ _
    · split
      · exact (refl s).notSeated _ _ _ _ _
      · exact refl s
  · exact refl s

theorem launch (s : Seats) (who : Who) (a : Session) : Hush s (s.launch who a) := by
  unfold Seats.launch
  split
  · exact (refl s).ask _ _ _ _
  · exact refl s

theorem launchInside (s : Seats) (who : Who) (a : Session) (n : ℕ) :
    Hush s (s.launchInside who a n) := by
  unfold Seats.launchInside
  split
  · exact ((refl s).lease _).ask _ _ _ _
  · exact refl s

theorem boardTrainer (s : Seats) (who : Who) (a : Session) (n : ℕ) :
    Hush s (s.boardTrainer who a n) := by
  unfold Seats.boardTrainer
  split
  · exact ((refl s).lease _).ask _ _ _ _
  · exact refl s

theorem watch (s : Seats) (who : Who) (a : Session) (n : ℕ) : Hush s (s.watch who a n) := by
  unfold Seats.watch
  split
  · split
    · exact (((refl s).lease _).push _).setSession _ _
    · exact refl s
  · exact (refl s).push _
  · exact refl s

theorem unwatch (s : Seats) (who : Who) (a : Session) : Hush s (s.unwatch who a) := by
  unfold Seats.unwatch
  split
  · exact ((refl s).push _).setSession _ _
  · exact refl s

theorem dock (s : Seats) (who : Who) (a : Session) : Hush s (s.dock who a) := by
  unfold Seats.dock
  split
  · exact (refl s).push _
  · exact refl s

theorem eject (s : Seats) (who : Who) (a : Session) (destruct : Bool) :
    Hush s (s.eject who a destruct) := by
  unfold Seats.eject
  split
  · exact (refl s).push _
  · exact refl s

theorem cleared (s : Seats) (who : Who) (a : Session) : Hush s (s.cleared who a) := by
  unfold Seats.cleared
  split
  · exact (refl s).setSession _ _
  · exact refl s

theorem work (s : Seats) (who : Who) (a : Session) (bay : Bay) : Hush s (s.work who a bay) := by
  unfold Seats.work
  split
  · exact (refl s).setSession _ _
  · exact refl s

theorem leave (s : Seats) (survival : Bool) (signedIn : ℕ → Bool) (who : Who) (a : Session)
    (stored : Bool) : Hush s (s.leave survival signedIn who a stored) := by
  unfold Seats.leave
  split
  · exact refl s
  · split
    · exact ((refl s).push _).setSession _ _
    · exact ((refl s).push _).setSession _ _
    · exact (refl s).settleTow _ _ _ _ _

theorem giveBack (s : Seats) (who : Who) (sl : SlotId) : Hush s (s.giveBack who sl) := by
  unfold Seats.giveBack
  split
  · exact (refl s).setBerth rfl
  · exact refl s

theorem during {who : Who} {stage : Stage} {f : Session → Seats} (hf : ∀ a, Hush s (f a)) :
    Hush s (s.during who stage f) := by
  unfold Seats.during
  split
  · split
    · exact hf _
    · exact refl s
  · exact refl s

theorem requested {who : Who} {survival : Bool} {f : Session → Seats} (hf : ∀ a, Hush s (f a)) :
    Hush s (s.requested survival who f) := by
  unfold Seats.requested
  split
  · exact during hf
  · exact refl s

end Hush

/-- Every report of a suit or its wreck finds room on its ring, none is thrown away, and a lease goes
back only once nothing more is to come of it. -/
def Act.Heeds (survival : Bool) (s : Seats) : Act → Prop
  | .drainControl sl luck => (s.berths sl).telling = none → ∀ m ∈ (s.berths sl).queue.head?,
      (s.berths sl).Room (s.tells survival sl luck m.verb)
  | .tell sl => ∀ note ∈ (s.berths sl).telling, note.report.fate →
      (s.berths sl).ring.length < REPORTS
  | .watchLosses sl => ∀ c ∈ (s.berths sl).client, c.lost = false →
      s.shape? c.suit = some .wreck → (s.berths sl).ring.length < REPORTS
  | .runTugs sl => (s.berths sl).claim ≠ none → (s.berths sl).ring.length < REPORTS
  | .unwatched who => ∀ a, s.sessions who = some a → ∀ n, a.spectating = some (n, true) →
      ∀ note ∈ (s.berths ⟨.colony, n⟩).ring, note.report.fate = false
  | .leftColony who _ => ∀ a, s.sessions who = some a → ∀ n, a.stage = .leavingColony n →
      ∀ note ∈ (s.berths ⟨.colony, n⟩).ring, note.report.fate = false
  | .awaitTugs who _ _ => ∀ a, s.sessions who = some a → ∀ note ∈ (s.berths a.main).ring.head?,
      note.report.fate → note.report = .towed
  | .giveBack _ sl => (s.berths sl).Settled true
  | _ => True

theorem Act.Heeds.settles {survival : Bool} {s : Seats} {act : Act} (h : act.Heeds survival s) :
    act.Settles true s := by
  rintro who sl rfl
  exact h

theorem Told.step (survival : Bool) (signedIn : ℕ → Bool) (s : Seats) (act : Act) (hs : Told s)
    (hown : Owned true s) (hact : act.Heeds survival s) : Told (s.step survival signedIn act) := by
  cases act with
  | drainControl sl luck => exact hs.drainControl hact
  | tell sl => exact hs.tell hact
  | watchLosses sl => exact hs.watchLosses hact
  | runTugs sl => exact hs.tow hact
  | reportFeat sl feat => exact hs.reportFeat feat
  | destroy suit => exact hs.hush (.destroy s suit)
  | clearSleeper suit => exact hs.hush (.clearSleeper s suit)
  | clearWreck sl => exact hs.hush (.clearWreck s sl)
  | restore pilot named => exact hs.hush (.restore s signedIn pilot named)
  | loadNews pilot => exact hs.hush (.of_berths rfl rfl rfl rfl)
  | saveNews => exact hs.hush (.saveNews s)
  | arrive pilot n loaded => exact hs.hush (.arrive s signedIn pilot n loaded)
  | enter who destroyed => exact hs.hush (.during fun a => .enter s survival who a destroyed)
  | look who timedOut destroyed =>
    simp only [Seats.step]
    split
    · exact hs.hush (.look s survival who _ timedOut destroyed)
    · exact hs
  | launch who => exact hs.hush (.requested fun a => .launch s who a)
  | launchInside who n => exact hs.hush (.requested fun a => .launchInside s who a n)
  | boardTrainer who n => exact hs.hush (.requested fun a => .boardTrainer s who a n)
  | watch who n => exact hs.hush (.requested fun a => .watch s who a n)
  | unwatch who => exact hs.hush (.during fun a => .unwatch s who a)
  | unwatched who => exact hs.during fun a ha => hs.unwatched (hact a ha)
  | dock who => exact hs.hush (.requested fun a => .dock s who a)
  | eject who destruct => exact hs.hush (.during fun a => .eject s who a destruct)
  | hear who colony claims => exact hs.during fun a ha => hs.hear hown ha survival colony claims
  | cleared who => exact hs.hush (.during fun a => .cleared s who a)
  | work who bay => exact hs.hush (.requested fun a => .work s who a bay)
  | save who stored => exact hs.hush (.during fun a => (Hush.refl s).save signedIn who a stored)
  | leave who stored => exact hs.hush (.during fun a => .leave s survival signedIn who a stored)
  | leftColony who stored =>
    simp only [Seats.step]
    split
    next a ha => exact hs.leftColony survival signedIn stored (hact a ha)
    · exact hs
  | leftSpace who stored =>
    exact hs.during fun a ha => hs.leftSpace hown ha survival signedIn stored
  | awaitTugs who timedOut stored =>
    exact hs.during fun a ha => hs.awaitTugs hown ha signedIn timedOut stored (hact a ha)
  | giveBack who sl => exact hs.hush (.giveBack s who sl)

theorem Told.start (bays : ℕ → Bay) : Told (Seats.start bays) where
  fresh _ hn := absurd hn List.not_mem_nil
  once _ := Nat.zero_le _
  here _ _ hn := absurd hn List.not_mem_nil
  whole _ _ := rfl
  mine _ hx := absurd hx List.not_mem_nil

/-- Each report of a suit or its wreck waits for the session whose it is, which holds the lease of
the ring it is on, or that session read it, once, and nobody else did. -/
def TellsOnce (s : Seats) : Prop :=
  ∀ note ∈ s.sent, note.report.fate →
    (note ∈ (s.berths note.slot).mail ∧ (s.berths note.slot).holder = some note.who ∧
      s.read.filter (·.2 = note) = []) ∨
    ((∀ sl, note ∉ (s.berths sl).mail) ∧ s.read.filter (·.2 = note) = [(note.who, note)])

theorem Told.tellsOnce {s : Seats} (hs : Told s) (hown : Owned true s) : s.TellsOnce := by
  intro note hn hfate
  have hwhole := hs.whole note hfate
  have honce : s.sent.count note = 1 :=
    Nat.le_antisymm (hs.once note) (List.one_le_count_iff.mpr hn)
  have hreads : (s.read.map Prod.snd).count note = (s.read.filter (·.2 = note)).length := by
    rw [← List.countP_eq_length_filter, List.count, List.countP_map]
    exact List.countP_congr fun x _ => by simp
  by_cases hmem : note ∈ (s.berths note.slot).mail
  · refine .inl ⟨hmem, ?_, ?_⟩
    · have htie : note.report.ties true := by
        revert hfate
        cases note.report <;> simp [Report.fate, Report.ties]
      exact hown.ties _ _ (.inr (.inr (.inl ⟨note, hmem, htie, rfl⟩)))
    · have hpos := List.one_le_count_iff.mpr hmem
      exact List.eq_nil_of_length_eq_zero (by omega)
  · refine .inr ⟨fun sl hsl => hmem (hs.here sl note hsl ▸ hsl), ?_⟩
    rw [List.count_eq_zero_of_not_mem hmem, honce] at hwhole
    obtain ⟨x, hx⟩ := List.length_eq_one_iff.mp (hreads.symm.trans hwhole)
    have hxmem : x ∈ s.read.filter (·.2 = note) := by simp [hx]
    obtain ⟨hread, hnote⟩ := List.mem_filter.mp hxmem
    have hnote' : x.2 = note := of_decide_eq_true hnote
    have hwho := hs.mine x hread (hnote' ▸ hfate)
    rw [hx, ← hnote', hwho]

/-- In a run that heeds what the sectors tell, each report of a suit or its wreck is told once, to
whose it was. -/
theorem tellsOnce_of_heeds (survival : Bool) (signedIn : ℕ → Bool) (bays : ℕ → Bay) (acts : List Act)
    (h : Run.Along (Seats.step survival signedIn) (fun s act => act.Heeds survival s)
      (Seats.start bays) acts) :
    (acts.foldl (Seats.step survival signedIn) (Seats.start bays)).TellsOnce := by
  have hinv := Run.invariant (I := fun s => Told s ∧ Owned true s)
    (fun s act hs hact => ⟨hs.1.step survival signedIn s act hs.2 hact,
      hs.2.step survival signedIn s act hact.settles⟩)
    ⟨Told.start bays, Owned.start true bays⟩ h
  exact hinv.1.tellsOnce hinv.2

/-- A pilot docks, and is welcomed home. -/
theorem tellsOnce_docked :
    ([Act.arrive 0 0 true, .enter ⟨0, 0⟩ false, .launch ⟨0, 0⟩,
      .drainControl ⟨.space, 0⟩ ⟨true, false, false⟩, .look ⟨0, 0⟩ false false, .dock ⟨0, 0⟩,
      .drainControl ⟨.space, 0⟩ ⟨true, false, false⟩, .tell ⟨.space, 0⟩,
      .hear ⟨0, 0⟩ false false].foldl (Seats.step true fun _ => true)
        (Seats.start fun _ => .docked)).TellsOnce := by
  apply tellsOnce_of_heeds
  refine ⟨trivial, trivial, trivial, ?_, trivial, trivial, ?_, ?_, trivial, trivial⟩
  · change _ → ∀ m ∈ _, _
    decide
  · change _ → ∀ m ∈ _, _
    decide
  · change ∀ note ∈ _, _
    decide

/-- A pilot leaves while the sector takes their suit in through the inner gate: the session throws
away what came home. -/
theorem home_thrown :
    let s := [Act.arrive 0 0 true, .enter ⟨0, 0⟩ false, .launchInside ⟨0, 0⟩ 0,
      .drainControl ⟨.colony, 0⟩ ⟨true, false, false⟩, .look ⟨0, 0⟩ false false, .dock ⟨0, 0⟩,
      .leave ⟨0, 0⟩ true, .drainControl ⟨.colony, 0⟩ ⟨true, false, false⟩, .tell ⟨.colony, 0⟩,
      .leftColony ⟨0, 0⟩ true, .giveBack ⟨0, 0⟩ ⟨.colony, 0⟩, .giveBack ⟨0, 0⟩ ⟨.space, 0⟩].foldl
        (Seats.step true fun _ => true) (Seats.start fun _ => .docked)
    s.thrown = [⟨0, ⟨.colony, 0⟩, ⟨0, 0⟩, .home⟩] ∧ s.read = [] ∧ ¬ s.TellsOnce := by
  intro s
  have hsent : s.sent = [⟨0, ⟨.colony, 0⟩, ⟨0, 0⟩, .home⟩] := by decide
  have hread : s.read = [] := by decide
  refine ⟨by decide, hread, fun htold => ?_⟩
  rcases htold ⟨0, ⟨.colony, 0⟩, ⟨0, 0⟩, .home⟩ (by simp [hsent]) rfl with ⟨hmem, -⟩ | ⟨-, hfilter⟩
  · revert hmem
    decide
  · rw [hread] at hfilter
    cases hfilter

end BeforeColony.Seats
