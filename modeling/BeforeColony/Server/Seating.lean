import BeforeColony.Server.Launches

/-!
# Seating

What the sectors do for the pilots' part of the invariant: who waits for a seat is answered, who
asked to leave is let go, and suits are lost, cleared or put back.
-/

set_option autoImplicit false

namespace BeforeColony.Seats

variable {signedIn : ℕ → Bool} {s s' : Seats} {pilot : ℕ} {bay : Bay} {who : Who} {sl : SlotId}

/-! ## Who is seated -/

/-- What becomes of the client in a slot, with nothing asked for taken off its queue. -/
theorem At.resit {a : Session} {c : Client} (hs : s.At signedIn who a) (hpost : a.post? = some sl)
    (hclient : (s.berths sl).client = some c)
    (hqueue : (s'.berths sl).queue = (s.berths sl).queue)
    (hsits : (s.Sits who.pilot a.record.bay sl fun _ => False) →
      s'.Sits who.pilot a.record.bay sl fun _ => False)
    (hactive : (s'.berths sl).client = none → (s'.berths sl).status.state ≠ .active)
    (hrefused : (s'.berths sl).status.state ≠ .refused)
    (hheard : c.lost = true → (s.berths sl).fates = [] →
      (s'.berths sl).fates = [] ∧ ∀ c', (s'.berths sl).client = some c' → c'.lost = true) :
    s'.At signedIn who a := by
  cases hs.posted hpost with
  | asking hstage hsession hasking =>
    rw [hasking.client] at hclient
    cases hclient
  | answered hstage hsession hanswered =>
    exact .of_seating hstage hsession (.inr ⟨hqueue.trans hanswered.queue, hsits hanswered.sits, hactive,
      fun h => absurd h hrefused⟩)
  | plays hstage hsuit hplays =>
    refine .of_plays hstage ⟨fun _ => ?_, fun _ => hsits (hplays.sits hsuit), fun hlost => ?_,
      fun hnone => absurd hnone hsuit⟩
    · rw [hqueue]
      exact hplays.calm hsuit
    · obtain ⟨-, hinside, hfates, hheard'⟩ := hplays.lost hlost
      exact ⟨hsuit, hinside, hheard (hheard' c hclient) hfates⟩
  | leaves hkept hleaves =>
    refine hkept s' ?_
    rcases hleaves.queue with ⟨before, who, sleep, hsplit, hbefore, hsleep, hsat⟩ | ⟨-, hnone, -⟩
    · exact ⟨.inl ⟨before, who, sleep, hqueue.trans hsplit, hbefore, hsleep, hsits hsat⟩⟩
    · rw [hclient] at hnone
      cases hnone

theorem Sits.freed {c : Client} (hs : s.Sits pilot bay sl fun _ => False)
    (hclient : (s.berths sl).client = some c) (hclient' : (s'.berths sl).client = none)
    (hshort : (s'.berths sl).fates.length ≤ 1)
    (hspace : ∀ note ∈ (s'.berths sl).fates, note.report ≠ .home → sl.side = .space)
    (hasleep : (s'.berths sl).status.asleep = none)
    (hsuits : s'.suits = Function.update s.suits c.suit none) :
    s'.Sits pilot bay sl fun _ => False := by
  refine ⟨fun c' hc' => ?_, hshort, hspace, fun suit hsuit => ?_, fun suit hsuit => ?_⟩
  · rw [hclient'] at hc'
    cases hc'
  · rw [hasleep] at hsuit
    cases hsuit
  · obtain ⟨craft, hcraft, hown⟩ := hsuit
    rw [hsuits] at hcraft
    by_cases hc : suit = c.suit
    · subst hc
      simp at hcraft
    · rw [Function.update_of_ne hc] at hcraft
      obtain ⟨c', hc', hsuit⟩ := (hs.abroad suit ⟨craft, hcraft, hown⟩).2.resolve_right id
      rw [hclient] at hc'
      cases hc'
      exact absurd hsuit.symm hc

namespace Sound

variable {a : Session} {c : Client}

theorem client_fits (hs : Sound signedIn s) (hc : (s.berths sl).client = some c) :
    ∃ who a, s.sessions who = some a ∧ a.post? = some sl ∧ c.Fits s who.pilot sl (s.berths sl) := by
  rcases posted_or s sl with ⟨who, a, ha, hpost⟩ | hno
  · refine ⟨who, a, ha, hpost, ?_⟩
    cases (hs.life who a ha).stage.posted hpost with
    | asking hstage hsession hasking =>
      rw [hasking.client] at hc
      cases hc
    | answered hstage hsession hanswered => exact hanswered.sits.fits c hc
    | plays hstage hsuit hplays => exact (hplays.sits hsuit).fits c hc
    | leaves hkept hleaves =>
      rcases hleaves.queue with ⟨-, -, -, -, -, -, hsits⟩ | ⟨-, hnone, -⟩
      · exact hsits.fits c hc
      · rw [hc] at hnone
        cases hnone
  · rw [(hs.vacant sl hno).client] at hc
    cases hc

/-- The client of a slot loses their suit, and what was left of it. -/
theorem free (hs : Sound signedIn s) (howned : Owned false s')
    (hc : (s.berths sl).client = some c) (hsessions : s'.sessions = s.sessions)
    (hvisits : s'.visits = s.visits) (hrecords : s'.records = s.records)
    (hberth : ∀ sl', sl' ≠ sl → s'.berths sl' = s.berths sl')
    (hqueue : (s'.berths sl).queue = (s.berths sl).queue) (hnext : s'.nextSuit = s.nextSuit)
    (hsuits : s'.suits = Function.update s.suits c.suit none)
    (hclient' : (s'.berths sl).client = none) (hstate : (s'.berths sl).status.state = .free)
    (hasleep : (s'.berths sl).status.asleep = none)
    (hfates : (s'.berths sl).fates = (s.berths sl).fates ∨
      c.lost = false ∧ ∃ note : Note, note.report = .home ∧ (s'.berths sl).fates.Sublist [note]) :
    Sound signedIn s' := by
  obtain ⟨who, a, ha, hpost, hfits⟩ := hs.client_fits hc
  refine hs.sector howned ha hpost hsessions hvisits hrecords hberth ?_ hnext.ge ?_
    (fun suit => ?_) ?_ ?_
  · rw [hqueue]
    exact fun _ => id
  · intro suit hsuit
    rw [hsuits]
    by_cases heq : suit = c.suit
    · subst heq
      simp
    · rw [Function.update_of_ne heq]
      exact hs.fresh suit (hnext ▸ hsuit)
  · rw [hsuits]
    by_cases heq : suit = c.suit
    · subst heq
      cases hcraft : s.suits c.suit with
      | none => exact .inl (by simp)
      | some craft =>
        exact .inr ⟨fun craft' hcraft' => by simp at hcraft', .inl ⟨craft, rfl, (hfits.craft craft hcraft).1⟩⟩
    · exact .inl (by rw [Function.update_of_ne heq])
  · intro suit craft hcraft
    rw [hsuits] at hcraft
    by_cases heq : suit = c.suit
    · subst heq
      simp at hcraft
    · rw [Function.update_of_ne heq] at hcraft
      exact hs.struck suit craft hcraft
  · refine (hs.life who a ha).stage.resit hpost hc hqueue (fun hsits => ?_) (fun _ => ?_) ?_ ?_
    · refine hsits.freed hc hclient' ?_ ?_ hasleep hsuits
      · rcases hfates with heq | ⟨-, note, -, hone⟩
        · rw [heq]
          exact hsits.short
        · exact hone.length_le
      · intro note hn hhome
        rcases hfates with heq | ⟨-, note', hnote', hone⟩
        · exact hsits.space note (heq ▸ hn) hhome
        · exact absurd (List.mem_singleton.mp (hone.subset hn) ▸ hnote') hhome
    · rw [hstate]
      exact SlotState.noConfusion
    · rw [hstate]
      exact SlotState.noConfusion
    · intro hlost hnone
      rcases hfates with heq | ⟨hnot, -⟩
      · exact ⟨heq.trans hnone, fun c' hc' => by rw [hclient'] at hc'; cases hc'⟩
      · rw [hlost] at hnot
        cases hnot

theorem drainDock (hs : Sound signedIn s) (htelling : (s.berths sl).telling = none) (luck : Luck)
    (who : Who) : Sound signedIn (s.drainDock sl luck who) := by
  have howned : Owned false (s.drainDock sl luck who) := hs.owned.tame (Tame.refl s).drainDock
  revert howned
  simp only [Seats.drainDock]
  split
  next c hc =>
    intro howned
    obtain ⟨hclient, hcond⟩ := Option.filter_eq_some_iff.mp hc
    obtain ⟨-, hawake⟩ : luck.ok = true ∧ s.shape? c.suit = some .awake := by simpa using hcond
    obtain ⟨_, _, -, -, hfits⟩ := hs.client_fits hclient
    have hlost : c.lost = false := by
      cases hcase : c.lost with
      | false => rfl
      | true => exact absurd hawake (hfits.down hcase)
    refine hs.free howned hclient rfl rfl rfl (fun sl' hsl => ?_) ?_ rfl rfl ?_ ?_ ?_ ?_
    · simp [Seats.make, Seats.publish, Seats.unclient, Seats.setBerth, Seats.setSuit, hsl]
    · simp [Seats.make, Seats.publish, Seats.unclient, Seats.setBerth, Seats.setSuit]
    · simp [Seats.make, Seats.publish, Seats.unclient, Seats.setBerth, Seats.setSuit]
    · simp [Seats.make, Seats.publish, Seats.unclient, Seats.setBerth, Seats.setSuit,
        SlotStatus.publish]
    · simp [Seats.make, Seats.publish, Seats.unclient, Seats.setBerth, Seats.setSuit,
        SlotStatus.publish, SlotStatus.asleep]
    · have hnone := hfits.unheard hlost
      simp only [Berth.fates, Berth.mail, htelling, Option.toList_none, List.append_nil] at hnone
      have hhome : Report.ties false .home = true := rfl
      refine .inr ⟨hlost, ⟨s.notes, sl, c.who, .home⟩, rfl, ?_⟩
      simp [Seats.make, Seats.publish, Seats.unclient, Seats.setBerth, Seats.setSuit, Berth.fates,
        Berth.mail, hnone, hhome, -List.filter_eq_nil_iff]
  · intro howned
    refine @Calm.sound signedIn s _ sl ⟨rfl, rfl, rfl, rfl, rfl, fun sl' hsl => ?_, ⟨⟨?_, ?_, ?_⟩, ?_⟩⟩ hs
      howned
    · simp [Seats.make, Seats.setBerth, hsl]
    · simp [Seats.make, Seats.setBerth]
    · simp [Seats.make, Seats.setBerth]
    · simp [Seats.make, Seats.setBerth, Berth.fates, Berth.mail, htelling, Report.ties]
    · simp [Seats.make, Seats.setBerth]

theorem fewer (hs : Sound signedIn s) (hsessions : s'.sessions = s.sessions)
    (hvisits : s'.visits = s.visits) (hrecords : s'.records = s.records)
    (hnext : s'.nextSuit = s.nextSuit) (hberths : s'.berths = s.berths)
    (hsuits : ∀ suit, s'.suits suit = s.suits suit ∨ s'.suits suit = none ∨ ∃ craft,
      s.suits suit = some craft ∧ craft.side = .space ∧
        s'.suits suit = some { craft with shape := .wreck }) : Sound signedIn s' := by
  have hkeeps (suit : ℕ) : s.Keeps s' suit :=
    (hsuits suit).imp_right (.imp_right fun ⟨craft, hcraft, _, hwreck⟩ => ⟨craft, hcraft, hwreck⟩)
  have hframe (p : ℕ) : Frame s s' p := by
    refine ⟨hnext.ge, fun suit _ _ => hkeeps suit, fun suit craft hcraft _ hshape => ?_⟩
    rcases hsuits suit with heq | hgone | ⟨before, -, -, hwreck⟩
    · rwa [← heq]
    · rw [hgone] at hcraft
      cases hcraft
    · rw [hwreck] at hcraft
      cases hcraft
      exact absurd rfl hshape
  refine ⟨hs.owned.tame (.of_berths hsessions hvisits hberths), ?_, ?_, fun who a ha => ?_, fun p hno => ?_,
    ?_, fun suit hsuit => ?_, fun p => ?_, fun sl m hm suit launch hverb => ?_,
    fun suit craft hcraft hshape => ?_, ?_⟩
  · rw [hsessions, hvisits]
    exact hs.came
  · rw [hsessions]
    exact hs.one
  · rw [hsessions] at ha
    refine (hframe _).life (fun sl _ => ?_) (hs.life who a ha)
    rw [hberths]
    exact .refl _
  · rw [hsessions] at hno
    rw [onRecord_congr (congrFun hrecords p)]
    exact (hframe p).abed (hs.gone p hno)
  · rw [hsessions, hberths]
    exact hs.vacant
  · have hnone := hs.fresh suit (hnext ▸ hsuit)
    rcases hsuits suit with heq | hgone | ⟨before, hbefore, -, -⟩
    · rw [heq, hnone]
    · exact hgone
    · rw [hnone] at hbefore
      cases hbefore
  · rw [hrecords]
    exact (hframe p).bedded (hs.bedded p)
  · rw [hberths] at hm
    have hcomeback := hs.comebacks sl m hm suit launch hverb
    exact (hframe _).mine hcomeback.1 hcomeback.2
  · rcases hsuits suit with heq | hgone | ⟨before, -, hspace, hwreck⟩
    · exact hs.struck suit craft (heq ▸ hcraft) hshape
    · rw [hgone] at hcraft
      cases hcraft
    · rw [hwreck] at hcraft
      cases hcraft
      exact hspace
  · rw [hberths]
    exact hs.watches

theorem setSuit_fewer (hs : Sound signedIn s) {suit : ℕ} {craft : Option Craft}
    (hcraft : craft = none ∨ ∃ before, s.suits suit = some before ∧ before.side = .space ∧
      craft = some { before with shape := .wreck }) : Sound signedIn (s.setSuit suit craft) := by
  refine hs.fewer rfl rfl rfl rfl rfl fun suit' => ?_
  by_cases hsuit : suit' = suit
  · subst hsuit
    simpa [Seats.setSuit] using .inr hcraft
  · exact .inl (by simp [Seats.setSuit, hsuit])

theorem destroy (hs : Sound signedIn s) (suit : ℕ) : Sound signedIn (s.destroy suit) := by
  unfold Seats.destroy
  split
  · exact hs
  next craft hcraft =>
    split
    next hspace => exact hs.setSuit_fewer (.inr ⟨craft, hcraft, hspace, rfl⟩)
    · exact hs

theorem clearSleeper (hs : Sound signedIn s) (suit : ℕ) : Sound signedIn (s.clearSleeper suit) := by
  unfold Seats.clearSleeper
  split
  · exact hs.setSuit_fewer (.inl rfl)
  · exact hs

theorem clearWreck (hs : Sound signedIn s) (sl : SlotId) : Sound signedIn (s.clearWreck sl) := by
  unfold Seats.clearWreck
  split
  · exact hs
  · split
    · exact hs.setSuit_fewer (.inl rfl)
    · exact hs

theorem recast (hs : Sound signedIn s) (howned : Owned false s') (hc : (s.berths sl).client = some c)
    (hsessions : s'.sessions = s.sessions) (hvisits : s'.visits = s.visits)
    (hrecords : s'.records = s.records) (hberth : ∀ sl', sl' ≠ sl → s'.berths sl' = s.berths sl')
    (hqueue : (s'.berths sl).queue = (s.berths sl).queue) (hnext : s'.nextSuit = s.nextSuit)
    (hsuits : s'.suits = s.suits) (hstatus : (s'.berths sl).status = (s.berths sl).status) (c' : Client)
    (hc' : (s'.berths sl).client = some c') (hsuit : c'.suit = c.suit)
    (hfates : (s'.berths sl).fates = (s.berths sl).fates ∧ c'.lost = c.lost ∨
      c.lost = false ∧ c'.lost = true ∧ s.shape? c.suit = some .wreck ∧
        ∃ note : Note, note.report ≠ .home ∧ (s'.berths sl).fates.Sublist [note]) :
    Sound signedIn s' := by
  obtain ⟨who, a, ha, hpost, hfits⟩ := hs.client_fits hc
  have hshape : s'.shape? c.suit = s.shape? c.suit := by rw [shape?, shape?, hsuits]
  have hfits' : c'.Fits s' who.pilot sl (s'.berths sl) := by
    refine ⟨fun hlost => ?_, fun hlost => ?_, fun note hn => ?_, ?_, ?_, ?_, ?_, ?_⟩
    · rcases hfates with ⟨heq, hsame⟩ | ⟨-, htold, -⟩
      · rw [heq]
        exact hfits.unheard (hsame ▸ hlost)
      · rw [hlost] at htold
        cases htold
    · rw [hsuit, hshape]
      rcases hfates with ⟨-, hsame⟩ | ⟨-, -, hwreck, -⟩
      · exact hfits.down (hsame ▸ hlost)
      · simp [hwreck]
    · rcases hfates with ⟨heq, -⟩ | ⟨-, -, -, note', hnote', hone⟩
      · exact hfits.loss note (heq ▸ hn)
      · rw [List.mem_singleton.mp (hone.subset hn)]
        exact hnote'
    · rw [hstatus]
      exact hfits.state
    · rw [hstatus, hsuit]
      exact hfits.suit
    · rw [hsuit, hshape]
      exact hfits.up
    · rw [hsuit, hnext]
      exact hfits.lt
    · rw [hsuit, hsuits]
      exact hfits.craft
  refine hs.sector howned ha hpost hsessions hvisits hrecords hberth ?_ hnext.ge ?_
    (fun suit => .inl (by rw [hsuits])) ?_ ?_
  · rw [hqueue]
    exact fun _ => id
  · rw [hsuits, hnext]
    exact hs.fresh
  · rw [hsuits]
    exact hs.struck
  · refine (hs.life who a ha).stage.resit hpost hc hqueue (fun hsits => ?_) (fun hnone => ?_) ?_ ?_
    · refine ⟨fun c'' hc'' => ?_, ?_, fun note hn hhome => ?_, ?_, fun suit hsuit' => ?_⟩
      · rw [hc'] at hc''
        cases hc''
        exact hfits'
      · rcases hfates with ⟨heq, -⟩ | ⟨-, -, -, note, -, hone⟩
        · rw [heq]
          exact hsits.short
        · exact hone.length_le
      · rcases hfates with ⟨heq, -⟩ | ⟨-, -, hwreck, -⟩
        · exact hsits.space note (heq ▸ hn) hhome
        · obtain ⟨craft, hcraft, hdown⟩ := Option.map_eq_some_iff.mp hwreck
          rw [← (hfits.craft craft hcraft).2]
          exact hs.struck c.suit craft hcraft (by simp [hdown])
      · rw [hstatus, hsuits, hnext]
        exact hsits.bed
      · simp only [Abroad, hsuits] at hsuit'
        obtain ⟨hbay, hwhere⟩ := hsits.abroad suit hsuit'
        refine ⟨hbay, .inl ⟨c', hc', ?_⟩⟩
        obtain ⟨c'', hc'', rfl⟩ := hwhere.resolve_right id
        rw [hc] at hc''
        cases hc''
        exact hsuit
    · rw [hc'] at hnone
      cases hnone
    · rw [hstatus, hfits.state]
      exact SlotState.noConfusion
    · intro hlost hnone
      rcases hfates with ⟨heq, hsame⟩ | ⟨hnot, -⟩
      · refine ⟨heq.trans hnone, fun c'' hc'' => ?_⟩
        rw [hc'] at hc''
        cases hc''
        exact hsame.trans hlost
      · rw [hlost] at hnot
        cases hnot

theorem setLoss (hs : Sound signedIn s) (hc : (s.berths sl).client = some c) (loss : Loss) :
    Sound signedIn (s.setBerth sl { s.berths sl with client := some { c with loss := loss } }) := by
  have hberth : (s.setBerth sl { s.berths sl with client := some { c with loss := loss } }).berths sl =
      { s.berths sl with client := some { c with loss := loss } } := by simp [Seats.setBerth]
  have howned : Owned false
      (s.setBerth sl { s.berths sl with client := some { c with loss := loss } }) := by
    apply hs.owned.tame
    apply Tame.setClient
    · exact .refl s
    · exact .inr (.inl ⟨c, hc, rfl⟩)
  refine hs.recast howned hc rfl rfl rfl (fun sl' hsl => ?_) ?_ rfl rfl ?_
    { c with loss := loss } ?_ rfl (.inl ⟨?_, rfl⟩)
  · simp [Seats.setBerth, hsl]
  all_goals rw [hberth]
  rfl

theorem setClaim (hs : Sound signedIn s) (who : Who)
    (howned : Owned false (s.setBerth sl { s.berths sl with claim := some who })) :
    Sound signedIn (s.setBerth sl { s.berths sl with claim := some who }) := by
  refine Calm.sound (Calm.setBerth s ?_) hs howned
  exact ⟨⟨rfl, rfl, .refl _⟩, rfl⟩

theorem tow (hs : Sound signedIn s) (sl : SlotId) : Sound signedIn (s.tow sl) :=
  (Calm.tow s sl).sound hs (hs.owned.tame ((Tame.refl s).tow sl))

/-- The tugs are sent out, with what they were towing brought in first. -/
theorem claim (hs : Sound signedIn s) (sl : SlotId) (who : Who) :
    Sound signedIn ((s.tow sl).setBerth sl { (s.tow sl).berths sl with claim := some who }) := by
  apply (hs.tow sl).setClaim
  apply (hs.tow sl).owned.tame
  exact (Tame.refl _).setClaim fun h => nomatch h

theorem drainClaim (hs : Sound signedIn s) (survival : Bool) (sl : SlotId) (who : Who) :
    Sound signedIn (s.drainClaim survival sl who) := by
  unfold Seats.drainClaim
  split
  · exact hs.claim sl who
  · exact hs

theorem drainEject (hs : Sound signedIn s) (survival : Bool) (sl : SlotId) (luck : Luck)
    (destruct : Bool) : Sound signedIn (s.drainEject survival sl luck destruct) := by
  simp only [Seats.drainEject]
  split
  · exact hs
  next c hc =>
    obtain ⟨hclient, hcond⟩ := Option.filter_eq_some_iff.mp hc
    obtain ⟨hspace, -, hawake⟩ : sl.side = .space ∧ luck.ok = true ∧ s.shape? c.suit = some .awake := by
      simpa using hcond
    obtain ⟨craft, hcraft, -⟩ := Option.map_eq_some_iff.mp hawake
    obtain ⟨_, _, -, -, hfits⟩ := hs.client_fits hclient
    have hstruck : Sound signedIn
        (s.setSuit c.suit ((s.suits c.suit).map fun craft => { craft with shape := .wreck })) := by
      apply hs.setSuit_fewer
      refine .inr ⟨craft, hcraft, ?_, by rw [hcraft]; rfl⟩
      rw [(hfits.craft craft hcraft).2, hspace]
    split
    · exact hstruck.setLoss hclient .blown
    · split
      · exact (hstruck.setLoss hclient .ejected).claim sl c.who
      · exact hstruck.setLoss hclient .ejected

theorem watchLosses (hs : Sound signedIn s) (survival : Bool) (sl : SlotId) :
    Sound signedIn (s.watchLosses survival sl) := by
  have howned : Owned false (s.watchLosses survival sl) := hs.owned.tame (.watchLosses s survival sl)
  revert howned
  unfold Seats.watchLosses
  split
  · exact fun _ => hs
  next c hc =>
    split
    · exact fun _ => hs
    · split
      next hgone =>
        intro howned
        refine hs.free howned hc rfl rfl rfl (fun sl' hsl => ?_) ?_ rfl ?_ ?_ ?_ ?_ (.inl ?_)
        · simp [Seats.publish, Seats.unclient, Seats.setBerth, hsl]
        · simp [Seats.publish, Seats.unclient, Seats.setBerth]
        · exact (Function.update_eq_self_iff.mpr hgone.symm).symm
        · simp [Seats.publish, Seats.unclient, Seats.setBerth]
        · simp [Seats.publish, Seats.unclient, Seats.setBerth, SlotStatus.publish]
        · simp [Seats.publish, Seats.unclient, Seats.setBerth, SlotStatus.publish, SlotStatus.asleep]
        · simp [Seats.publish, Seats.unclient, Seats.setBerth, Berth.fates, Berth.mail]
      · split
        next hdown =>
          intro howned
          obtain ⟨hlost, hwreck⟩ := hdown
          obtain ⟨_, _, -, -, hfits⟩ := hs.client_fits hc
          have htold := Reported.report (s.setBerth sl { s.berths sl with
            client := some { c with lost := true } }) sl c.who (.lost c.loss)
          have hberth : (s.setBerth sl { s.berths sl with
              client := some { c with lost := true } }).berths sl =
                { s.berths sl with client := some { c with lost := true } } := by simp [Seats.setBerth]
          refine hs.recast howned hc htold.sessions htold.visits htold.records
            (fun sl' hsl => ?_) ?_ htold.next htold.suits ?_ { c with lost := true } ?_ rfl
            (.inr ⟨hlost, rfl, hwreck, ⟨s.notes, sl, c.who, .lost c.loss⟩, Report.noConfusion, ?_⟩)
          · rw [htold.berth sl' hsl]
            simp [Seats.setBerth, hsl]
          · rw [htold.queue, hberth]
          · rw [htold.status, hberth]
          · rw [htold.client, hberth]
          · refine htold.alone ?_
            rw [hberth]
            exact hfits.unheard hlost
        · exact fun _ => hs

end Sound

/-! ## Seats -/

section Answer

variable {m : Control} {queue : List Control} {a : Session} {errand : Errand} {epoch : ℕ}

theorem Sound.asked (hs : Sound signedIn s) (hqueue : (s.berths sl).queue = m :: queue)
    (hm : m.verb.seats = true) : ∃ who a errand epoch, s.sessions who = some a ∧
      a.stage = .seating errand epoch ∧ a.seat errand = sl ∧ queue = [] ∧
      (a.suit = none ∧ a.inside = none ∧ a.lost = false) ∧ s.Asking who a errand epoch m [] := by
  have hmem : m ∈ (s.berths sl).queue := by
    rw [hqueue]
    exact .head queue
  have hcalm (h : m.verb.calm = true) : False := by
    rw [Verb.calm.not_seats h] at hm
    cases hm
  rcases Sound.posted_or s sl with ⟨who, a, ha, hpost⟩ | hno
  · cases (hs.life who a ha).stage.posted hpost with
    | @asking errand epoch m' before hstage hsession hasking =>
      have hsplit := hqueue.symm.trans hasking.queue
      cases before with
      | nil =>
        cases hsplit
        exact ⟨who, a, errand, epoch, ha, hstage, rfl, rfl, hsession, hasking⟩
      | cons m'' before =>
        simp only [List.cons_append, List.cons.injEq] at hsplit
        have hnot := hasking.before m'' (.head before)
        rw [← hsplit.1, Verb.seats.asks hm] at hnot
        cases hnot
    | answered hstage hsession hanswered =>
      rw [hanswered.queue] at hqueue
      cases hqueue
    | plays hstage hsuit hplays => exact (hcalm (hplays.calm hsuit m hmem)).elim
    | leaves hkept hleaves =>
      rcases hleaves.queue with ⟨before, who, sleep, hsplit, hbefore, -, -⟩ | ⟨hqueue', -, -⟩
      · rw [hsplit] at hmem
        rcases List.mem_append.mp hmem with hmem | hmem
        · exact (hcalm (hbefore m hmem)).elim
        · cases List.mem_singleton.mp hmem
          cases hm
      · exact (hcalm (hqueue' m hmem)).elim
  · have hnot := (hs.vacant sl hno).queue m hmem
    rw [hm] at hnot
    cases hnot

theorem Sound.answer (hs : Sound signedIn s) (howned : Owned false s') (ha : s.sessions who = some a)
    (hstage : a.stage = .seating errand epoch)
    (hsession : a.suit = none ∧ a.inside = none ∧ a.lost = false)
    (hsessions : s'.sessions = s.sessions) (hvisits : s'.visits = s.visits) (hrecords : s'.records = s.records)
    (hberth : ∀ sl', sl' ≠ a.seat errand → s'.berths sl' = s.berths sl')
    (hqueue : (s'.berths (a.seat errand)).queue = []) (hnext : s.nextSuit ≤ s'.nextSuit)
    (hfresh : ∀ suit, s'.nextSuit ≤ suit → s'.suits suit = none)
    (hsuits : ∀ suit, s'.suits suit = s.suits suit ∨
      ((∀ craft, s'.suits suit = some craft → craft.pilot = who.pilot) ∧
        ((∃ craft, s.suits suit = some craft ∧ craft.pilot = who.pilot) ∨ suit = s.nextSuit)))
    (hstruck : ∀ suit craft, s'.suits suit = some craft → craft.shape ≠ .awake → craft.side = .space)
    (hanswered : s'.Answered who.pilot a errand) : Sound signedIn s' := by
  have hpost : a.post? = some (a.seat errand) := by simp [Session.post?, hstage]
  refine hs.sector howned ha hpost hsessions hvisits hrecords hberth ?_ hnext
    hfresh hsuits hstruck ?_
  · rw [hqueue]
    exact fun m hm => absurd hm List.not_mem_nil
  · unfold At
    rw [hstage]
    exact ⟨hsession.1, hsession.2.1, hsession.2.2, .inr hanswered⟩

/-- Who waits for a seat is refused it, with nothing out there. -/
theorem Sound.refuse (hs : Sound signedIn s) (hs' : s' = s.setBerth sl { s.berths sl with queue := [] })
    (howned : Owned false (s'.refuse sl)) (ha : s.sessions who = some a)
    (hstage : a.stage = .seating errand epoch) (hsl : a.seat errand = sl)
    (hsession : a.suit = none ∧ a.inside = none ∧ a.lost = false)
    (hclient : (s.berths sl).client = none) (hfates : (s.berths sl).fates = [])
    (hnone : ∀ suit, ¬ s.Abroad who.pilot suit) : Sound signedIn (s'.refuse sl) := by
  subst hs' hsl
  refine hs.answer howned ha hstage hsession rfl rfl rfl (fun sl' hsl' => ?_) ?_ le_rfl hs.fresh
    (fun suit => .inl rfl) hs.struck ⟨?_, ⟨fun c hc => ?_, ?_, fun note hn => ?_, fun suit hsuit => ?_,
      fun suit hsuit => (hnone suit hsuit).elim⟩, fun _ => ?_, fun _ => ⟨?_, ?_⟩⟩
  · simp [Seats.refuse, Seats.publish, Seats.setBerth, hsl']
  · simp [Seats.refuse, Seats.publish, Seats.setBerth]
  · simp [Seats.refuse, Seats.publish, Seats.setBerth]
  · simp [Seats.refuse, Seats.publish, Seats.setBerth, hclient] at hc
  · have heq : ((((s.setBerth (a.seat errand) { s.berths (a.seat errand) with queue := [] }).refuse
        (a.seat errand)).berths (a.seat errand)).fates) = [] := by
      simpa [Seats.refuse, Seats.publish, Seats.setBerth, Berth.fates, Berth.mail] using hfates
    simp [heq]
  · have heq : ((((s.setBerth (a.seat errand) { s.berths (a.seat errand) with queue := [] }).refuse
        (a.seat errand)).berths (a.seat errand)).fates) = [] := by
      simpa [Seats.refuse, Seats.publish, Seats.setBerth, Berth.fates, Berth.mail] using hfates
    rw [heq] at hn
    exact absurd hn List.not_mem_nil
  · simp [Seats.refuse, Seats.publish, Seats.setBerth, SlotStatus.publish, SlotStatus.asleep] at hsuit
  · simp [Seats.refuse, Seats.publish, Seats.setBerth, SlotStatus.publish]
  · simp [Seats.refuse, Seats.publish, Seats.setBerth, hclient]
  · simpa [Seats.refuse, Seats.publish, Seats.setBerth, Berth.fates, Berth.mail] using hfates

theorem Sound.seat (hs : Sound signedIn s) (howned : Owned false s') (ha : s.sessions who = some a)
    (hstage : a.stage = .seating errand epoch) (hsl : a.seat errand = sl)
    (hsession : a.suit = none ∧ a.inside = none ∧ a.lost = false) (hfates : (s.berths sl).fates = [])
    (hsessions : s'.sessions = s.sessions) (hvisits : s'.visits = s.visits)
    (hrecords : s'.records = s.records) (hberth : ∀ sl', sl' ≠ sl → s'.berths sl' = s.berths sl')
    (suit : ℕ) (outcome : Outcome)
    (hseat : s'.berths sl = { s.berths sl with
      queue := [], client := some ⟨suit, who, false, .destroyed⟩, watched := false,
      status := (s.berths sl).status.publish .active (some suit) outcome })
    (houtcome : outcome ≠ .asleep) (hnext : s.nextSuit ≤ s'.nextSuit)
    (hfresh : ∀ suit, s'.nextSuit ≤ suit → s'.suits suit = none) (hlt : suit < s'.nextSuit)
    (craft : Craft) (hcraft : s'.suits = Function.update s.suits suit (some craft))
    (hpilot : craft.pilot = who.pilot) (hside : craft.side = sl.side) (hshape : craft.shape = .awake)
    (hold : (∃ craft, s.suits suit = some craft ∧ craft.pilot = who.pilot) ∨ suit = s.nextSuit)
    (habroad : ∀ suit', s'.Abroad who.pilot suit' → a.record.bay = .out ∧ suit' = suit) :
    Sound signedIn s' := by
  subst hsl
  have hself : s'.suits suit = some craft := by rw [hcraft, Function.update_self]
  have hup : s'.shape? suit = some .awake := by rw [shape?, hself, Option.map_some, hshape]
  have hnone : (s'.berths (a.seat errand)).fates = [] := by
    rw [hseat]
    exact hfates
  refine hs.answer howned ha hstage hsession hsessions hvisits hrecords hberth ?_ hnext hfresh
    (fun suit' => ?_) (fun suit' craft' hcraft' hdown => ?_)
    ⟨?_, ⟨fun c hc => ?_, ?_, fun note hn => ?_, fun suit' hbed => ?_, fun suit' hsuit' => ?_⟩,
      fun hclient => ?_, fun hrefused => ?_⟩
  · rw [hseat]
  · by_cases hsuit : suit' = suit
    · subst hsuit
      refine .inr ⟨fun craft' hcraft' => ?_, hold⟩
      rw [hself] at hcraft'
      cases hcraft'
      exact hpilot
    · exact .inl (by rw [hcraft, Function.update_of_ne hsuit])
  · by_cases hsuit : suit' = suit
    · subst hsuit
      rw [hself] at hcraft'
      cases hcraft'
      exact absurd hshape hdown
    · rw [hcraft, Function.update_of_ne hsuit] at hcraft'
      exact hs.struck suit' craft' hcraft' hdown
  · rw [hseat]
  · rw [hseat] at hc
    cases hc
    refine ⟨fun _ => hnone, fun hlost => (by cases hlost), fun note hn => ?_, ?_, ?_, ?_, hlt,
      fun craft' hcraft' => ?_⟩
    · rw [hnone] at hn
      exact absurd hn List.not_mem_nil
    · rw [hseat]
      rfl
    · rw [hseat]
      rfl
    · simp [hup]
    · rw [hself] at hcraft'
      cases hcraft'
      exact ⟨hpilot, hside⟩
  · simp [hnone]
  · rw [hnone] at hn
    exact absurd hn List.not_mem_nil
  · rw [hseat] at hbed
    simp [SlotStatus.publish, SlotStatus.asleep, houtcome] at hbed
  · obtain ⟨hbay, rfl⟩ := habroad suit' hsuit'
    exact ⟨hbay, .inl ⟨_, by rw [hseat], rfl⟩⟩
  · rw [hseat] at hclient
    cases hclient
  · rw [hseat] at hrefused
    cases hrefused

end Answer

namespace Sound

variable {m : Control} {queue : List Control} {a : Session} {errand : Errand} {epoch : ℕ}

theorem seat_spawn (hs : Sound signedIn s) (ha : s.sessions who = some a)
    (hstage : a.stage = .seating errand epoch) (hsl : a.seat errand = sl)
    (hsession : a.suit = none ∧ a.inside = none ∧ a.lost = false) (hfates : (s.berths sl).fates = [])
    (own : Bool) (hown : own = true → a.record.bay = .out)
    (hnone : ∀ suit, ¬ s.Abroad who.pilot suit)
    (howned : Owned false (((s.setBerth sl { s.berths sl with queue := [] }).spawn
      ⟨who.pilot, own, sl.side, .awake⟩).seat sl s.nextSuit who .fresh)) :
    Sound signedIn (((s.setBerth sl { s.berths sl with queue := [] }).spawn
      ⟨who.pilot, own, sl.side, .awake⟩).seat sl s.nextSuit who .fresh) := by
  refine hs.seat howned ha hstage hsl hsession hfates rfl rfl rfl (fun sl' hsl' => ?_)
    s.nextSuit .fresh ?_ (by decide) (Nat.le_succ _) (fun suit hsuit => ?_) (Nat.lt_succ_self _)
    ⟨who.pilot, own, sl.side, .awake⟩ rfl rfl rfl rfl (.inr rfl) (fun suit hsuit => ?_)
  · simp [Seats.seat, Seats.publish, Seats.spawn, Seats.setBerth, Seats.setSuit, hsl']
  · simp [Seats.seat, Seats.publish, Seats.spawn, Seats.setBerth, Seats.setSuit]
  · have hne : suit ≠ s.nextSuit := (Nat.lt_of_succ_le hsuit).ne'
    change Function.update s.suits s.nextSuit _ suit = none
    rw [Function.update_of_ne hne]
    exact hs.fresh suit (Nat.le_of_succ_le hsuit)
  · obtain ⟨craft, hcraft, hmine, habroad⟩ := hsuit
    change Function.update s.suits s.nextSuit _ suit = some craft at hcraft
    by_cases hne : suit = s.nextSuit
    · subst hne
      rw [Function.update_self] at hcraft
      cases hcraft
      exact ⟨hown hmine, rfl⟩
    · rw [Function.update_of_ne hne] at hcraft
      exact absurd ⟨craft, hcraft, hmine, habroad⟩ (hnone suit)

theorem drainBoard (hs : Sound signedIn s) (hqueue : (s.berths sl).queue = m :: queue)
    (hm : m.verb = .board) (luck : Luck)
    (howned : Owned false ((s.setBerth sl { s.berths sl with queue := queue }).drainBoard sl luck m.who)) :
    Sound signedIn ((s.setBerth sl { s.berths sl with queue := queue }).drainBoard sl luck m.who) := by
  obtain ⟨who, a, errand, epoch, ha, hstage, rfl, rfl, hsession, hasking⟩ :=
    hs.asked hqueue (by rw [hm]; rfl)
  have hwants := hasking.wants
  rw [hm] at hwants
  have hreplace : (s.setBerth (a.seat errand) { s.berths (a.seat errand) with queue := [] }).replace
      (a.seat errand) = s.setBerth (a.seat errand) { s.berths (a.seat errand) with queue := [] } := by
    simp [Seats.replace, Seats.setBerth, hasking.client]
  revert howned
  simp only [Seats.drainBoard, hreplace]
  rw [hasking.who]
  split
  · exact hs.seat_spawn ha hstage rfl hsession hasking.fates false (fun h => by cases h) hwants.2
  · exact fun howned =>
      hs.refuse rfl howned ha hstage rfl hsession hasking.client hasking.fates hwants.2

theorem drainJoin (hs : Sound signedIn s) (hqueue : (s.berths sl).queue = m :: queue)
    {comeback : Option ℕ} {launch : Bool} (hm : m.verb = .join comeback launch) (survival : Bool)
    (luck : Luck) (howned : Owned false ((s.setBerth sl { s.berths sl with queue := queue }).drainJoin
      survival sl luck m.who comeback launch)) :
    Sound signedIn ((s.setBerth sl { s.berths sl with queue := queue }).drainJoin survival sl luck m.who
      comeback launch) := by
  obtain ⟨who, a, errand, epoch, ha, hstage, rfl, rfl, hsession, hasking⟩ :=
    hs.asked hqueue (by rw [hm]; rfl)
  have hwants := hasking.wants
  rw [hm] at hwants
  have hreplace : (s.setBerth (a.seat errand) { s.berths (a.seat errand) with queue := [] }).replace
      (a.seat errand) = s.setBerth (a.seat errand) { s.berths (a.seat errand) with queue := [] } := by
    simp [Seats.replace, Seats.setBerth, hasking.client]
  revert howned
  simp only [Seats.drainJoin, hreplace]
  rw [hasking.who]
  split
  next suit hsuit =>
    intro howned
    obtain ⟨rfl, hcond⟩ := Option.filter_eq_some_iff.mp hsuit
    have hasleep : s.shape? suit = some .asleep := of_decide_eq_true hcond
    obtain ⟨craft, hcraft, hshape⟩ := Option.map_eq_some_iff.mp hasleep
    cases launch with
    | true => cases hwants.2.1
    | false =>
      obtain ⟨rfl, habed⟩ := hwants
      have hcomeback := hs.comebacks _ m (by rw [hqueue]; exact .head []) suit false hm
      have hpilot : craft.pilot = who.pilot := by
        rw [hcomeback.2 craft hcraft, hasking.who]
      have hspace := hs.struck suit craft hcraft (by simp [hshape])
      refine hs.seat howned ha hstage rfl hsession hasking.fates rfl rfl rfl (fun sl' hsl' => ?_)
        suit .woke ?_ (by decide) le_rfl (fun suit' hsuit' => ?_) hcomeback.1
        { craft with shape := .awake } ?_ hpilot hspace rfl (.inl ⟨craft, hcraft, hpilot⟩)
        (fun suit' hsuit' => ?_)
      · simp [Seats.seat, Seats.publish, Seats.wake, Seats.setBerth, Seats.setSuit, hsl']
      · simp [Seats.seat, Seats.publish, Seats.wake, Seats.setBerth, Seats.setSuit]
      · change Function.update s.suits suit _ suit' = none
        rw [Function.update_of_ne (hcomeback.1.trans_le hsuit').ne']
        exact hs.fresh suit' hsuit'
      · change Function.update s.suits suit ((s.suits suit).map _) = _
        rw [hcraft]
        rfl
      · obtain ⟨craft', hcraft', hmine, hpilot', hup⟩ := hsuit'
        change Function.update s.suits suit ((s.suits suit).map _) suit' = some craft' at hcraft'
        by_cases hne : suit' = suit
        · subst hne
          rw [hcraft, Function.update_self] at hcraft'
          cases hcraft'
          exact ⟨(habed suit' ⟨craft, hcraft, hmine, hpilot, by simp [hshape]⟩).2.1, rfl⟩
        · rw [Function.update_of_ne hne] at hcraft'
          obtain ⟨-, -, hsame⟩ := habed suit' ⟨craft', hcraft', hmine, hpilot', hup⟩
          exact absurd (Option.some.inj hsame).symm hne
  next hnot =>
    have hnone : ∀ suit, ¬ s.Abroad who.pilot suit := by
      intro suit hsuit
      cases launch with
      | true => exact hwants.2.2.2 suit hsuit
      | false =>
        obtain ⟨hasleep, -, rfl⟩ := hwants.2 suit hsuit
        have hfilter := Option.filter_eq_none_iff.mp hnot suit rfl
        exact hfilter (decide_eq_true hasleep)
    split
    · refine hs.seat_spawn ha hstage rfl hsession hasking.fates launch (fun hown => ?_) hnone
      subst hown
      exact hwants.2.2.1
    · exact fun howned => hs.refuse rfl howned ha hstage rfl hsession hasking.client hasking.fates hnone

/-- A watch is asked for in a slot that nobody flies in. -/
theorem watched_idle (hs : Sound signedIn s) (hmem : m ∈ (s.berths sl).queue) (hm : m.verb = .watch)
    (who : Who) (a : Session) (ha : s.sessions who = some a) : a.post? ≠ some sl := by
  intro hpost
  have hcalm (h : m.verb.calm = true) : False := by
    rw [hm] at h
    cases h
  cases (hs.life who a ha).stage.posted hpost with
  | asking hstage hsession hasking =>
    rw [hasking.queue] at hmem
    rcases List.mem_append.mp hmem with hmem | hmem
    · have hnot := hasking.before m hmem
      rw [hm] at hnot
      cases hnot
    · have hwants := hasking.wants
      rw [← List.mem_singleton.mp hmem, hm] at hwants
      exact hwants
  | answered hstage hsession hanswered =>
    rw [hanswered.queue] at hmem
    exact absurd hmem List.not_mem_nil
  | plays hstage hsuit hplays => exact hcalm (hplays.calm hsuit m hmem)
  | leaves hkept hleaves =>
    rcases hleaves.queue with ⟨before, who, sleep, hsplit, hbefore, -, -⟩ | ⟨hqueue, -, -⟩
    · rw [hsplit] at hmem
      rcases List.mem_append.mp hmem with hmem | hmem
      · exact hcalm (hbefore m hmem)
      · cases List.mem_singleton.mp hmem
        cases hm
    · exact hcalm (hqueue m hmem)

theorem drainWatch (hs : Sound signedIn s) (hqueue : (s.berths sl).queue = m :: queue)
    (hm : m.verb = .watch)
    (howned : Owned false ((s.setBerth sl { s.berths sl with queue := queue }).drainWatch sl)) :
    Sound signedIn ((s.setBerth sl { s.berths sl with queue := queue }).drainWatch sl) := by
  have hmem : ∀ m' ∈ queue, m' ∈ (s.berths sl).queue := by
    rw [hqueue]
    exact fun m' => .tail m
  have hno := hs.watched_idle (m := m) (by rw [hqueue]; exact .head queue) hm
  obtain ⟨hclient, hfates, hseats⟩ := hs.vacant sl hno
  revert howned
  simp only [Seats.drainWatch]
  split
  · intro howned
    refine hs.idle howned hno rfl rfl rfl (fun sl' hsl => ?_) ?_ rfl rfl ⟨?_, ?_, ?_⟩
    · simp [Seats.publish, Seats.setBerth, hsl]
    · simpa [Seats.publish, Seats.setBerth] using hmem
    · simpa [Seats.publish, Seats.setBerth] using hclient
    · simpa [Seats.publish, Seats.setBerth, Berth.fates, Berth.mail] using hfates
    · simpa [Seats.publish, Seats.setBerth] using fun m' hm' => hseats m' (hmem m' hm')
  · intro howned
    refine hs.idle howned hno rfl rfl rfl (fun sl' hsl => ?_) ?_ rfl rfl ⟨?_, ?_, ?_⟩
    · simp [Seats.setBerth, hsl]
    · simpa [Seats.setBerth] using hmem
    · simpa [Seats.setBerth] using hclient
    · simpa [Seats.setBerth, Berth.fates, Berth.mail] using hfates
    · simpa [Seats.setBerth] using fun m' hm' => hseats m' (hmem m' hm')

end Sound

/-! ## Leaving -/

namespace Sound

variable {m : Control} {queue : List Control} {a : Session} {c : Client} {sleep : Bool}

theorem leave_last {before : List Control} {who : Who} {sleep' : Bool}
    (hbefore : ∀ m ∈ before, m.verb.calm = true) (hsplit : m :: queue = before ++ [⟨who, .leave sleep'⟩])
    (hm : m.verb = .leave sleep) : sleep' = sleep ∧ queue = [] := by
  cases before with
  | nil =>
    cases hsplit
    cases hm
    exact ⟨rfl, rfl⟩
  | cons m' before =>
    simp only [List.cons_append, List.cons.injEq] at hsplit
    have hnot := hbefore m' (.head before)
    rw [← hsplit.1, hm] at hnot
    cases hnot

theorem leftAlone (hs : Sound signedIn s) (hqueue : (s.berths sl).queue = m :: queue)
    (hm : m.verb = .leave sleep) (hclient : (s.berths sl).client = none) (howned : Owned false s')
    (hsessions : s'.sessions = s.sessions) (hvisits : s'.visits = s.visits)
    (hrecords : s'.records = s.records) (hberth : ∀ sl', sl' ≠ sl → s'.berths sl' = s.berths sl')
    (hsuits : s'.suits = s.suits) (hnext : s'.nextSuit = s.nextSuit)
    (hqueue' : (s'.berths sl).queue = queue) (hclient' : (s'.berths sl).client = none)
    (hfates : (s'.berths sl).fates.Sublist (s.berths sl).fates)
    (hstatus : (s'.berths sl).status = (s.berths sl).status.publish .free none .released) :
    Sound signedIn s' := by
  have hmem : ∀ m' ∈ (s'.berths sl).queue, m' ∈ (s.berths sl).queue := by
    rw [hqueue, hqueue']
    exact fun m' => .tail m
  have hnil (h : (s.berths sl).fates = []) : (s'.berths sl).fates = [] := by
    rw [h] at hfates
    exact List.sublist_nil.mp hfates
  have hcalm (h : ∀ m' ∈ (s.berths sl).queue, m'.verb.calm = true) : False := by
    have hhead := h m (by rw [hqueue]; exact .head queue)
    rw [hm] at hhead
    cases hhead
  rcases posted_or s sl with ⟨who, a, ha, hpost⟩ | hno
  · have hframe : Frame s s' who.pilot := .of_suits hsuits hnext
    refine hs.sector howned ha hpost hsessions hvisits hrecords hberth hmem hnext.ge ?_
      (fun suit => .inl (by rw [hsuits])) ?_ ?_
    · rw [hsuits, hnext]
      exact hs.fresh
    · rw [hsuits]
      exact hs.struck
    · cases (hs.life who a ha).stage.posted hpost with
      | @asking errand epoch m' before hstage hsession hasking =>
        refine .of_seating hstage hsession (.inl ?_)
        have hsplit := hqueue.symm.trans hasking.queue
        cases before with
        | nil =>
          cases hsplit
          have hwants := hasking.wants
          rw [hm] at hwants
          exact hwants.elim
        | cons m'' before =>
          simp only [List.cons_append, List.cons.injEq] at hsplit
          obtain ⟨rfl, rfl⟩ := hsplit
          refine ⟨m', before, hqueue', fun m'' hm'' => hasking.before m'' (.tail m hm''),
            hframe.wants hasking.wants, hasking.who, ?_, hclient', hnil hasking.fates⟩
          rw [hstatus, ← hasking.epoch]
          rfl
      | answered hstage hsession hanswered =>
        rw [hanswered.queue] at hqueue
        cases hqueue
      | plays hstage hsuit hplays => exact (hcalm (hplays.calm hsuit)).elim
      | leaves hkept hleaves =>
        rcases hleaves.queue with ⟨before, who, sleep, hsplit, hbefore, -, hsits⟩ | ⟨hqueue', -, -⟩
        · refine hkept s' ⟨.inr ⟨?_, hclient', ⟨fun c hc => ?_, hfates.length_le.trans hsits.short,
            fun note hn => hsits.space note (hfates.subset hn), fun suit hsuit => ?_,
            fun suit hsuit => ?_⟩⟩⟩
          · rw [hqueue', (leave_last hbefore (hqueue.symm.trans hsplit) hm).2]
            exact fun m hm => absurd hm List.not_mem_nil
          · rw [hclient'] at hc
            cases hc
          · rw [hstatus] at hsuit
            cases hsuit
          · obtain ⟨c, hc, -⟩ := (hsits.abroad suit (hframe.abroad hsuit).1).2.resolve_right id
            rw [hclient] at hc
            cases hc
        · exact (hcalm hqueue').elim
  · obtain ⟨-, hfates', hseats⟩ := hs.vacant sl hno
    exact hs.idle howned hno hsessions hvisits hrecords hberth hmem hsuits hnext
      ⟨hclient', hnil hfates', fun m' hm' => hseats m' (hmem m' hm')⟩

/-- Who is seated in a slot that is left asked to leave it, last of all. -/
theorem leaver (hs : Sound signedIn s) (hqueue : (s.berths sl).queue = m :: queue)
    (hm : m.verb = .leave sleep) (hclient : (s.berths sl).client = some c) :
    ∃ who a, s.sessions who = some a ∧ a.post? = some sl ∧ queue = [] ∧
      (s.Sits who.pilot a.record.bay sl fun _ => False) ∧
      (sleep = true → signedIn who.pilot = true ∧ sl.side = .space) ∧
      ∀ s' : Seats, s'.Leaves signedIn who.pilot a.record.bay sl → s'.At signedIn who a := by
  obtain ⟨who, a, ha, hpost, -⟩ := hs.client_fits hclient
  refine ⟨who, a, ha, hpost, ?_⟩
  have hcalm (h : ∀ m' ∈ (s.berths sl).queue, m'.verb.calm = true) : False := by
    have hhead := h m (by rw [hqueue]; exact .head queue)
    rw [hm] at hhead
    cases hhead
  cases (hs.life who a ha).stage.posted hpost with
  | asking hstage hsession hasking =>
    rw [hasking.client] at hclient
    cases hclient
  | answered hstage hsession hanswered =>
    rw [hanswered.queue] at hqueue
    cases hqueue
  | plays hstage hsuit hplays => exact (hcalm (hplays.calm hsuit)).elim
  | leaves hkept hleaves =>
    rcases hleaves.queue with ⟨before, who, sleep', hsplit, hbefore, hsleep, hsits⟩ | ⟨hqueue', -, -⟩
    · obtain ⟨rfl, hnil⟩ := leave_last hbefore (hqueue.symm.trans hsplit) hm
      exact ⟨hnil, hsits, hsleep, hkept⟩
    · exact (hcalm hqueue').elim

end Sound

/-- What becomes of a suit that is left: gone, the wreck it was, or asleep. -/
inductive Rests (before : Option Craft) : Option Craft → Bool → Prop
  | gone : Rests before none false
  | wreck (down : before.map (·.shape) ≠ some .awake) : Rests before before false
  | asleep {craft : Craft} (was : before = some craft) (awake : craft.shape = .awake) :
    Rests before (some { craft with shape := .asleep }) true

namespace Rests

variable {before after : Option Craft} {slept : Bool} {craft : Craft}

theorem exists_before (h : Rests before after slept) (hafter : after = some craft) :
    ∃ was, before = some was ∧ craft.pilot = was.pilot ∧ craft.own = was.own ∧
      craft.side = was.side ∧ (craft.shape ≠ .wreck → was.shape ≠ .wreck) ∧
      (slept = false → craft = was) := by
  cases h with
  | gone => cases hafter
  | wreck down => exact ⟨craft, hafter, rfl, rfl, rfl, id, fun _ => rfl⟩
  | @asleep was hwas hawake =>
    cases hafter
    exact ⟨was, hwas, rfl, rfl, rfl, fun _ => by simp [hawake], fun h => by cases h⟩

/-- Unless it sleeps, or slept before, nothing is left but a wreck. -/
theorem down (h : Rests before after false) (hup : before.map (·.shape) ≠ some .asleep)
    (hafter : after = some craft) : craft.shape = .wreck := by
  cases h with
  | gone => cases hafter
  | wreck hawake =>
    rw [hafter, Option.map_some] at hawake hup
    cases hshape : craft.shape with
    | awake => exact absurd (congrArg some hshape) hawake
    | asleep => exact absurd (congrArg some hshape) hup
    | wreck => rfl

theorem shape (h : Rests before after true) : after.map (·.shape) = some .asleep := by
  cases h
  rfl

end Rests

/-- The client's suit is seen to, and off the queue that they leave. -/
structure Parting (sl : SlotId) (queue : List Control) (c : Client) (after : Option Craft)
    (s s' : Seats) : Prop where
  sessions : s'.sessions = s.sessions
  visits : s'.visits = s.visits
  records : s'.records = s.records
  next : s'.nextSuit = s.nextSuit
  suits : s'.suits = Function.update s.suits c.suit after
  berth : ∀ sl', sl' ≠ sl → s'.berths sl' = s.berths sl'
  queue : (s'.berths sl).queue = queue
  fates : (s'.berths sl).fates.Sublist (s.berths sl).fates ∨
    ∃ note : Note, note.report = .home ∧ (s'.berths sl).fates.Sublist [note]

namespace Parting

variable {queue : List Control} {c : Client} {after : Option Craft} {slept : Bool}

theorem of_calm (h : Calm sl (s.setBerth sl { s.berths sl with queue := queue }) s')
    (after : Option Craft) : Parting sl queue c after s (s'.setSuit c.suit after) := by
  have hself : (s.setBerth sl { s.berths sl with queue := queue }).berths sl =
      { s.berths sl with queue := queue } := by simp [Seats.setBerth]
  refine ⟨h.sessions, h.visits, h.records, h.next, ?_, fun sl' hsl => ?_, ?_, .inl ?_⟩
  · change Function.update s'.suits c.suit after = _
    rw [h.suits]
    rfl
  · refine (h.berth sl' hsl).trans ?_
    simp [Seats.setBerth, hsl]
  · exact h.same.queue.trans (by rw [hself])
  · have hfates := h.same.fates
    rwa [hself] at hfates

theorem same (h : Calm sl (s.setBerth sl { s.berths sl with queue := queue }) s') :
    Parting sl queue c (s.suits c.suit) s s' := by
  have hparting := of_calm (c := c) h (s.suits c.suit)
  have hsame : s'.setSuit c.suit (s.suits c.suit) = s' := by
    have hsuits : s'.suits = s.suits := h.suits
    rw [Seats.setSuit, ← hsuits, Function.update_eq_self]
  rwa [hsame] at hparting

theorem parked (h : Parting sl queue c after s s') (who : Who) :
    Parting sl queue c after s (s'.report sl who .parked) := by
  have hcalm : Calm sl s' (s'.report sl who .parked) := .report s' who rfl
  exact ⟨hcalm.sessions.trans h.sessions, hcalm.visits.trans h.visits, hcalm.records.trans h.records,
    hcalm.next.trans h.next, hcalm.suits.trans h.suits,
    fun sl' hsl => (hcalm.berth sl' hsl).trans (h.berth sl' hsl), hcalm.same.queue.trans h.queue,
    h.fates.imp hcalm.same.fates.trans
      fun ⟨note, hnote, hone⟩ => ⟨note, hnote, hcalm.same.fates.trans hone⟩⟩

theorem home (h : Parting sl queue c after s s') (who : Who) (hnone : (s'.berths sl).fates = []) :
    Parting sl queue c after s (s'.report sl who .home) := by
  have hhome := Reported.report s' sl who .home
  exact ⟨hhome.sessions.trans h.sessions, hhome.visits.trans h.visits, hhome.records.trans h.records,
    hhome.next.trans h.next, hhome.suits.trans h.suits,
    fun sl' hsl => (hhome.berth sl' hsl).trans (h.berth sl' hsl), hhome.queue.trans h.queue,
    .inr ⟨_, rfl, hhome.alone hnone⟩⟩

theorem self (h : Parting sl queue c after s s') : s'.suits c.suit = after := by
  rw [h.suits, Function.update_self]

theorem other (h : Parting sl queue c after s s') {suit : ℕ} (hne : suit ≠ c.suit) :
    s'.suits suit = s.suits suit := by
  rw [h.suits, Function.update_of_ne hne]

/-- Nothing of the pilot's is out there but the suit they left. -/
theorem abroad (h : Parting sl queue c after s s') (hrests : Rests (s.suits c.suit) after slept)
    (hsits : s.Sits pilot bay sl fun _ => False) (hclient : (s.berths sl).client = some c) {suit : ℕ}
    (hsuit : s'.Abroad pilot suit) : bay = .out ∧ suit = c.suit := by
  obtain ⟨craft, hcraft, hown, hpilot, hshape⟩ := hsuit
  by_cases hne : suit = c.suit
  · subst hne
    rw [h.self] at hcraft
    obtain ⟨was, hwas, hpilot', hown', -, hup, -⟩ := hrests.exists_before hcraft
    have habroad : s.Abroad pilot c.suit :=
      ⟨was, hwas, hown' ▸ hown, hpilot' ▸ hpilot, hup hshape⟩
    exact ⟨(hsits.abroad c.suit habroad).1, rfl⟩
  · rw [h.other hne] at hcraft
    obtain ⟨hbay, hwhere⟩ := hsits.abroad suit ⟨craft, hcraft, hown, hpilot, hshape⟩
    obtain ⟨c', hc', rfl⟩ := hwhere.resolve_right id
    rw [hclient] at hc'
    cases hc'
    exact absurd rfl hne

theorem pilot_of_rests (h : Parting sl queue c after s s')
    (hrests : Rests (s.suits c.suit) after slept) (hfits : c.Fits s pilot sl (s.berths sl))
    {craft : Craft} (hcraft : s'.suits c.suit = some craft) :
    craft.pilot = pilot ∧ craft.side = sl.side := by
  rw [h.self] at hcraft
  obtain ⟨was, hwas, hpilot, -, hside, -⟩ := hrests.exists_before hcraft
  rw [hpilot, hside]
  exact hfits.craft was hwas

/-- With the slot's client let go, what the pilot has out there sleeps where the slot says. -/
theorem sits (h : Parting sl queue c after s s') (hrests : Rests (s.suits c.suit) after slept)
    (hsits : s.Sits pilot bay sl fun _ => False) (hclient : (s.berths sl).client = some c)
    {status : SlotStatus} (hout : slept = false → status.asleep = none)
    (hslept : slept = true → signedIn pilot = true ∧ sl.side = .space ∧ status.asleep = some c.suit)
    {s'' : Seats} (hsuits : s''.suits = s'.suits) (hnext : s''.nextSuit = s'.nextSuit)
    (hberth : s''.berths sl = { s'.berths sl with client := none, status := status }) :
    s''.Sits pilot bay sl (s''.Slept signedIn pilot sl) := by
  have hfits := hsits.fits c hclient
  have hfates : (s''.berths sl).fates = (s'.berths sl).fates := by rw [hberth]; rfl
  refine ⟨fun c' hc' => ?_, ?_, fun note hn hhome => ?_, fun suit hbed => ?_, fun suit hsuit => ?_⟩
  · rw [hberth] at hc'
    cases hc'
  · rw [hfates]
    rcases h.fates with hsub | ⟨note, -, hone⟩
    · exact hsub.length_le.trans hsits.short
    · exact hone.length_le
  · rw [hfates] at hn
    rcases h.fates with hsub | ⟨note', hnote', hone⟩
    · exact hsits.space note (hsub.subset hn) hhome
    · exact absurd (List.mem_singleton.mp (hone.subset hn) ▸ hnote') hhome
  · rw [hberth] at hbed
    change status.asleep = some suit at hbed
    cases hcase : slept with
    | false =>
      rw [hout hcase] at hbed
      cases hbed
    | true =>
      rw [(hslept hcase).2.2] at hbed
      cases hbed
      rw [hnext, h.next, hsuits]
      exact ⟨hfits.lt, fun craft hcraft => (h.pilot_of_rests hrests hfits hcraft).1⟩
  · have hsuit' : s'.Abroad pilot suit := by
      obtain ⟨craft, hcraft, hrest⟩ := hsuit
      exact ⟨craft, hsuits ▸ hcraft, hrest⟩
    obtain ⟨hbay, rfl⟩ := h.abroad hrests hsits hclient hsuit'
    refine ⟨hbay, .inr ?_⟩
    cases hcase : slept with
    | false =>
      obtain ⟨craft, hcraft, -, -, hup⟩ := hsuit'
      rw [hcase] at hrests
      exact absurd (hrests.down hfits.up (h.self ▸ hcraft)) hup
    | true =>
      rw [hcase] at hrests
      obtain ⟨hsigned, hspace, hasleep⟩ := hslept hcase
      refine ⟨hsigned, hspace, ?_, by rw [hberth]; exact hasleep⟩
      rw [shape?, hsuits, h.self]
      exact hrests.shape

end Parting

namespace Sound

variable {m : Control} {queue : List Control} {a : Session} {c : Client} {sleep slept : Bool}
  {after : Option Craft}

/-- Who asked to leave their slot is let go. -/
theorem letGo (hs : Sound signedIn s) (hqueue : (s.berths sl).queue = m :: queue)
    (hm : m.verb = .leave sleep) (hclient : (s.berths sl).client = some c) {suit : Option ℕ}
    {outcome : Outcome} (h : Parting sl queue c after s s') (hrests : Rests (s.suits c.suit) after slept)
    (hout : slept = false → outcome ≠ .asleep)
    (hslept : slept = true → sleep = true ∧ outcome = .asleep ∧ suit = some c.suit)
    (howned : Owned false ((s'.unclient sl).publish sl .free suit outcome)) :
    Sound signedIn ((s'.unclient sl).publish sl .free suit outcome) := by
  obtain ⟨who, a, ha, hpost, rfl, hsits, hsleep, hkept⟩ := hs.leaver hqueue hm hclient
  have hfits := hsits.fits c hclient
  have hberth : ((s'.unclient sl).publish sl .free suit outcome).berths sl = { s'.berths sl with
      client := none, status := (s'.berths sl).status.publish .free suit outcome } := by
    simp [Seats.publish, Seats.unclient, Seats.setBerth]
  have hnil : ∀ m ∈ (((s'.unclient sl).publish sl .free suit outcome).berths sl).queue, False := by
    rw [hberth, h.queue]
    exact fun m hm => absurd hm List.not_mem_nil
  refine hs.sector howned ha hpost h.sessions h.visits h.records (fun sl' hsl => ?_)
    (fun m hm => (hnil m hm).elim) h.next.ge (fun suit hsuit => ?_) (fun suit => ?_)
    (fun suit craft hcraft hshape => ?_) (hkept _ ⟨.inr ⟨fun m hm => (hnil m hm).elim, ?_, ?_⟩⟩)
  · simpa [Seats.publish, Seats.unclient, Seats.setBerth, hsl] using h.berth sl' hsl
  · have hsuit' : s.nextSuit ≤ suit := h.next.ge.trans hsuit
    exact (h.other (hfits.lt.trans_le hsuit').ne').trans (hs.fresh suit hsuit')
  · by_cases hne : suit = c.suit
    · subst hne
      cases hbefore : s.suits c.suit with
      | none =>
        refine .inl (h.self.trans ?_)
        cases hafter : after with
        | none => rfl
        | some craft =>
          obtain ⟨was, hwas, -⟩ := hrests.exists_before hafter
          rw [hbefore] at hwas
          cases hwas
      | some before =>
        exact .inr ⟨fun craft hcraft => (h.pilot_of_rests hrests hfits hcraft).1,
          .inl ⟨before, rfl, (hfits.craft before hbefore).1⟩⟩
    · exact .inl (h.other hne)
  · by_cases hne : suit = c.suit
    · subst hne
      cases hcase : slept with
      | false =>
        obtain ⟨was, hwas, -, -, -, -, hsame⟩ := hrests.exists_before (h.self ▸ hcraft)
        rw [hsame hcase] at hshape ⊢
        exact hs.struck c.suit was hwas hshape
      | true => exact (h.pilot_of_rests hrests hfits hcraft).2.trans (hsleep (hslept hcase).1).2
    · exact hs.struck suit craft (h.other hne ▸ hcraft) hshape
  · rw [hberth]
  · refine h.sits hrests hsits hclient (fun hcase => ?_) (fun hcase => ?_) rfl rfl hberth
    · simp [SlotStatus.publish, SlotStatus.asleep, hout hcase]
    · obtain ⟨hasked, houtcome, hsuit⟩ := hslept hcase
      refine ⟨(hsleep hasked).1, (hsleep hasked).2, ?_⟩
      simp [SlotStatus.publish, SlotStatus.asleep, houtcome, hsuit]

/-- Nobody is seated in the slot that is left. -/
theorem letNobodyGo (hs : Sound signedIn s) (hqueue : (s.berths sl).queue = m :: queue)
    (hm : m.verb = .leave sleep) (hclient : (s'.berths sl).client = none)
    (h : Calm sl (s.setBerth sl { s.berths sl with queue := queue }) s')
    (howned : Owned false (s'.publish sl .free none .released)) :
    Sound signedIn (s'.publish sl .free none .released) := by
  have hself : (s.setBerth sl { s.berths sl with queue := queue }).berths sl =
      { s.berths sl with queue := queue } := by simp [Seats.setBerth]
  have hout : (s'.publish sl .free none .released).berths sl = { s'.berths sl with
      status := (s'.berths sl).status.publish .free none .released } := by
    simp [Seats.publish, Seats.setBerth]
  refine hs.leftAlone hqueue hm ?_ howned h.sessions h.visits h.records (fun sl' hsl => ?_) h.suits
    h.next ?_ ?_ ?_ ?_
  · rw [← hclient, h.same.client, hself]
  · have hother := h.berth sl' hsl
    simpa [Seats.publish, Seats.setBerth, hsl] using hother
  all_goals rw [hout]
  · exact h.same.queue.trans (by rw [hself])
  · exact hclient
  · have hfates := h.same.fates
    rwa [hself] at hfates
  · rw [h.same.status, hself]

/-- The client leaves: their suit is put back in its bay, the wreck it was, asleep, or gone. -/
theorem letSuitGo (hs : Sound signedIn s) (hqueue : (s.berths sl).queue = m :: queue)
    (hm : m.verb = .leave sleep) (hc : (s'.berths sl).client = some c)
    (h : Calm sl (s.setBerth sl { s.berths sl with queue := queue }) s') (survival : Bool)
    (luck : Luck) (howned : Owned false (((s'.leaveSuit survival sl luck sleep c).1.unclient sl).publish sl
      .free (s'.leaveSuit survival sl luck sleep c).2.1 (s'.leaveSuit survival sl luck sleep c).2.2)) :
    Sound signedIn (((s'.leaveSuit survival sl luck sleep c).1.unclient sl).publish sl .free
      (s'.leaveSuit survival sl luck sleep c).2.1 (s'.leaveSuit survival sl luck sleep c).2.2) := by
  have hself : (s.setBerth sl { s.berths sl with queue := queue }).berths sl =
      { s.berths sl with queue := queue } := by simp [Seats.setBerth]
  have hclient : (s.berths sl).client = some c := by rw [← hc, h.same.client, hself]
  have hsuits : s'.suits = s.suits := h.suits
  have hshape : s'.shape? c.suit = s.shape? c.suit := by rw [shape?, shape?, hsuits]
  revert howned
  simp only [Seats.leaveSuit, hshape]
  split
  · split
    next hawake =>
      refine hs.letGo hqueue hm hclient ((Parting.of_calm h none).home c.who ?_) .gone
        (fun _ => Outcome.noConfusion) (fun hslept => by cases hslept)
      obtain ⟨_, _, -, -, hfits⟩ := hs.client_fits hclient
      have hlost : c.lost = false := by
        cases hcase : c.lost with
        | false => rfl
        | true => exact absurd hawake (hfits.down hcase)
      have hfates := h.same.fates
      rw [hself] at hfates
      change List.Sublist _ (s.berths sl).fates at hfates
      rw [hfits.unheard hlost] at hfates
      exact List.sublist_nil.mp hfates
    next hdown =>
      exact hs.letGo hqueue hm hclient (Parting.same h) (.wreck hdown) (fun _ => Outcome.noConfusion)
        (fun hslept => by cases hslept)
  · split
    next hasleep =>
      obtain ⟨hsleep, hawake⟩ := hasleep
      obtain ⟨craft, hcraft, hshape'⟩ := Option.map_eq_some_iff.mp hawake
      have hparting := Parting.of_calm (c := c) h (some { craft with shape := .asleep })
      simp only [hsuits, hcraft, Option.map_some]
      split
      · exact hs.letGo hqueue hm hclient (hparting.parked c.who) (.asleep hcraft hshape')
          (fun hslept => by cases hslept) fun _ => ⟨hsleep, rfl, rfl⟩
      · exact hs.letGo hqueue hm hclient hparting (.asleep hcraft hshape')
          (fun hslept => by cases hslept) fun _ => ⟨hsleep, rfl, rfl⟩
    · exact hs.letGo hqueue hm hclient (Parting.of_calm h none) .gone (fun _ => Outcome.noConfusion)
        (fun hslept => by cases hslept)

theorem drainLeave (hs : Sound signedIn s) (hqueue : (s.berths sl).queue = m :: queue)
    (hm : m.verb = .leave sleep) (survival : Bool) (luck : Luck)
    (howned : Owned false ((s.setBerth sl { s.berths sl with queue := queue }).drainLeave survival sl
      luck sleep)) :
    Sound signedIn ((s.setBerth sl { s.berths sl with queue := queue }).drainLeave survival sl luck
      sleep) := by
  have hcalm : Calm sl (s.setBerth sl { s.berths sl with queue := queue })
      (((s.setBerth sl { s.berths sl with queue := queue }).tow sl).setBerth sl
        { ((s.setBerth sl { s.berths sl with queue := queue }).tow sl).berths sl with watched := false }) := by
    refine (Calm.tow _ sl).trans (Calm.setBerth _ ?_)
    exact ⟨⟨rfl, rfl, .refl _⟩, rfl⟩
  revert howned
  simp only [Seats.drainLeave]
  split
  next hnone => exact hs.letNobodyGo hqueue hm hnone hcalm
  next c hc => exact hs.letSuitGo hqueue hm hc hcalm survival luck

theorem drainControl (hs : Sound signedIn s) (survival : Bool) (sl : SlotId) (luck : Luck) :
    Sound signedIn (s.drainControl survival sl luck) := by
  have howned : Owned false (s.drainControl survival sl luck) :=
    hs.owned.tame (.drainControl s survival sl luck)
  revert howned
  simp only [Seats.drainControl]
  split
  next m queue htelling hqueue =>
    have hpop (h : m.verb.calm = true) :
        Sound signedIn (s.setBerth sl { s.berths sl with queue := queue }) := hs.pop hqueue h
    cases hverb : m.verb with
    | join comeback launch => exact hs.drainJoin hqueue hverb survival luck
    | board => exact hs.drainBoard hqueue hverb luck
    | watch => exact hs.drainWatch hqueue hverb
    | leave sleep => exact hs.drainLeave hqueue hverb survival luck
    | dock =>
      refine fun _ => (hpop (by rw [hverb]; rfl)).drainDock ?_ luck m.who
      simpa [Seats.setBerth] using htelling
    | eject destruct => exact fun _ => (hpop (by rw [hverb]; rfl)).drainEject survival sl luck destruct
    | claim => exact fun _ => (hpop (by rw [hverb]; rfl)).drainClaim survival sl m.who
    | tow => exact fun _ => (hpop (by rw [hverb]; rfl)).tow sl
  · exact fun _ => hs

theorem tell (hs : Sound signedIn s) (sl : SlotId) : Sound signedIn (s.tell sl) :=
  (Calm.tell s sl).sound hs (hs.owned.tame (.tell s sl))

theorem reportFeat (hs : Sound signedIn s) (sl : SlotId) (feat : Report) :
    Sound signedIn (s.reportFeat sl feat) := by
  have howned : Owned false (s.reportFeat sl feat) := hs.owned.tame (.reportFeat s sl feat)
  revert howned
  unfold Seats.reportFeat
  split
  · exact fun _ => hs
  · split
    next hfeat =>
      have hties : feat.ties false = false := by
        rcases hfeat with rfl | rfl | rfl <;> rfl
      exact (Calm.report s _ hties).sound hs
    · exact fun _ => hs

/-- What was out there sleeps as its pilot's record says, and so does the suit put back. -/
theorem restored {pilot : ℕ} (hsigned : signedIn pilot = true)
    (hbay : (s.records pilot).bay = .out) (hsleeper : (s.records pilot).sleeper = none) (p : ℕ)
    (habed : s.Abed p (s.onRecord signedIn p)) :
    let s' := (s.spawn ⟨pilot, true, .space, .asleep⟩).setRecord pilot
      { s.records pilot with sleeper := some s.nextSuit }
    s'.Abed p (s'.onRecord signedIn p) := by
  intro s' suit hsuit
  obtain ⟨craft, hcraft, hrest⟩ := hsuit
  change Function.update s.suits s.nextSuit _ suit = some craft at hcraft
  by_cases hne : suit = s.nextSuit
  · subst hne
    rw [Function.update_self] at hcraft
    cases hcraft
    obtain ⟨-, rfl, -⟩ := hrest
    have hrecord : s'.onRecord signedIn pilot =
        { s.records pilot with sleeper := some s.nextSuit } := by
      rw [onRecord, if_pos hsigned]
      exact Function.update_self _ _ _
    rw [hrecord]
    refine ⟨?_, hbay, rfl⟩
    change (Function.update s.suits s.nextSuit _ s.nextSuit).map _ = _
    rw [Function.update_self]
    rfl
  · rw [Function.update_of_ne hne] at hcraft
    obtain ⟨hasleep, hout, hrecord⟩ := habed suit ⟨craft, hcraft, hrest⟩
    have hp : p ≠ pilot := by
      rintro rfl
      rw [onRecord, if_pos hsigned, hsleeper] at hrecord
      cases hrecord
    rw [onRecord_congr (s := s) (Function.update_of_ne hp _ _)]
    refine ⟨?_, hout, hrecord⟩
    change (Function.update s.suits s.nextSuit _ suit).map _ = _
    rw [Function.update_of_ne hne]
    exact hasleep

/-- A suit put back before anyone has come sleeps out there, as the pilot's record says. -/
theorem restore (hs : Sound signedIn s) (pilot : ℕ) : Sound signedIn (s.restore signedIn pilot true) := by
  simp only [Seats.restore, ↓reduceIte]
  split
  next h =>
    obtain ⟨hvisits, hsigned, hbay, hsleeper⟩ := h
    have hnobody (who : Who) : s.sessions who = none := by
      cases ha : s.sessions who with
      | none => rfl
      | some a =>
        have hcame := hs.came who a ha
        rw [hvisits] at hcame
        exact absurd hcame (Nat.not_lt_zero _)
    have hmine {p suit : ℕ} (h : suit < s.nextSuit ∧ ∀ craft, s.suits suit = some craft → craft.pilot = p) :
        suit < s.nextSuit + 1 ∧ ∀ craft, Function.update s.suits s.nextSuit
          (some ⟨pilot, true, .space, .asleep⟩) suit = some craft → craft.pilot = p := by
      refine ⟨Nat.lt_succ_of_lt h.1, ?_⟩
      rw [Function.update_of_ne h.1.ne]
      exact h.2
    refine ⟨hs.owned.tame (((Tame.refl s).spawn _).setRecord _ _), hs.came, hs.one, fun who a ha => ?_,
      fun p _ => ?_, hs.vacant, fun suit hsuit => ?_, fun p => ?_,
      fun sl m hm suit launch hverb => hmine (hs.comebacks sl m hm suit launch hverb),
      fun suit craft hcraft hshape => ?_, hs.watches⟩
    · cases (hnobody who).symm.trans ha
    · exact restored hsigned hbay hsleeper p (hs.gone p fun who _ => hnobody who)
    · change Function.update s.suits s.nextSuit _ suit = none
      rw [Function.update_of_ne (Nat.lt_of_succ_le hsuit).ne']
      exact hs.fresh suit (Nat.le_of_succ_le hsuit)
    · intro suit hsuit
      by_cases hp : p = pilot
      · subst hp
        change (Function.update s.records p _ p).sleeper = some suit at hsuit
        rw [Function.update_self] at hsuit
        cases hsuit
        refine ⟨Nat.lt_succ_self _, fun craft hcraft => ?_⟩
        change Function.update s.suits s.nextSuit _ s.nextSuit = some craft at hcraft
        rw [Function.update_self] at hcraft
        cases hcraft
        rfl
      · change (Function.update s.records pilot _ p).sleeper = some suit at hsuit
        rw [Function.update_of_ne hp] at hsuit
        exact hmine (hs.bedded p suit hsuit)
    · change Function.update s.suits s.nextSuit _ suit = some craft at hcraft
      by_cases hne : suit = s.nextSuit
      · subst hne
        rw [Function.update_self] at hcraft
        cases hcraft
        rfl
      · rw [Function.update_of_ne hne] at hcraft
        exact hs.struck suit craft hcraft hshape
  · exact hs

end Sound

end BeforeColony.Seats
