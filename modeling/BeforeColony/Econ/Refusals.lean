import BeforeColony.Econ.HangarRuns

/-!
# A request refused changes nothing

Whatever a pilot asks of their hangar, the exchange, the Charter Board or the register of homes: if the
answer is an error, the credits, the goods, the suit and the queues are where they were, but for what
the stations' clocks had made by then; and so is everything the others hold.
-/

set_option autoImplicit false

namespace BeforeColony

open Lib Catalogue Wire

namespace PilotHangar

variable {h : PilotHangar} {s : Suit} {why : String}

/-! ## The stations -/

theorem craft_refused {item : Item} {batches now : ℕ} {rules : Rules}
    (hwhy : (h.craft item batches now rules).2 = .error why) :
    (h.craft item batches now rules).1 = h ∨ (h.craft item batches now rules).1 = h.settle now := by
  unfold craft at hwhy ⊢
  cases hr : recipe item with
  | none => exact .inl rfl
  | some r =>
    rw [hr] at hwhy
    dsimp only at hwhy ⊢
    generalize h.settle now = h' at hwhy ⊢
    split at hwhy
    next hbatches =>
      rw [if_pos hbatches]
      exact .inl rfl
    next hbatches =>
      rw [if_neg hbatches]
      refine .inr ?_
      split at hwhy
      next hfull => rw [if_pos hfull]
      next hfull =>
        rw [if_neg hfull]
        split at hwhy
        next hpoor => rw [if_pos hpoor]
        next hpoor =>
          rw [if_neg hpoor]
          cases htake : h'.stores.takeAll r.inputs batches with
          | none => rfl
          | some stores =>
            rw [htake] at hwhy
            cases hwhy

theorem cancelJob_refused (hn : h.Neat) {station : Station} {index now : ℕ}
    (hwhy : (h.cancelJob station index now).2 = .error why) :
    (h.cancelJob station index now).1 = h.settle now := by
  have hknown := (hn.settle now).works station
  unfold cancelJob at hwhy ⊢
  generalize h.settle now = h' at hwhy hknown ⊢
  dsimp only at hwhy ⊢
  cases hgiven : ((h'.works.queue station).cancel index now).2 with
  | some given =>
    rw [hgiven] at hwhy
    cases hwhy
  | none =>
    rw [Queue.cancel_none hknown hgiven]
    exact congrArg (fun works => { h' with works }) (h'.works.setQueue_queue station)

/-! ## The bay -/

theorem fit_refused {item : Item} (hwhy : (h.fit item).2 = .error why) : (h.fit item).1 = h := by
  have hfits := h.fits item
  generalize h.fit item = r at hfits hwhy ⊢
  cases hfits with
  | refused why => rfl
  | _ => cases hwhy

theorem stripOff_refused {slot : Slot} (hwhy : (h.stripOff slot).2 = .error why) :
    (h.stripOff slot).1 = h := by
  cases hbay : h.bay with
  | docked s =>
    have hstrips := strips hbay slot
    generalize h.stripOff slot = r at hstrips hwhy ⊢
    cases hstrips with
    | refused why => rfl
    | _ => cases hwhy
  | _ => simp only [stripOff, suit, hbay]

theorem strip_refused {slot : Slot} (hwhy : (h.strip slot).2 = .error why) :
    (h.strip slot).1 = h := by
  unfold strip at hwhy ⊢
  cases hoff : h.stripOff slot with
  | mk h' done =>
    rw [hoff] at hwhy
    cases done with
    | error why' =>
      have hrefused : (h.stripOff slot).2 = .error why' := by rw [hoff]
      have hsame := stripOff_refused hrefused
      rwa [hoff] at hsame
    | ok text =>
      exfalso
      dsimp only at hwhy
      split at hwhy <;> cases hwhy

/-- A suit on its torso comes apart: it's the empty bay, or the suit out, that refuses. -/
theorem dismantle_refused (hn : h.Neat) (hwhy : h.dismantle.2 = .error why) :
    h.dismantle.1 = h := by
  cases hsuit : h.suit with
  | error why' =>
    unfold dismantle
    rw [hsuit]
  | ok s =>
    have hbay := bay_eq_of_suit hsuit
    rw [(dismantle_empties (hn.docked hbay) hbay).2] at hwhy
    cases hwhy

/-- So long as nothing has been mended, nothing has been taken. -/
def Untouched (h : PilotHangar) (st : PilotHangar × List String × Bool) : Prop :=
  st.2.1 = [] → st.1 = h

theorem Untouched.foldl {α : Type*}
    {f : PilotHangar × List String × Bool → α → PilotHangar × List String × Bool}
    (hf : ∀ st a, h.Untouched st → h.Untouched (f st a)) (l : List α)
    (st : PilotHangar × List String × Bool) (hst : h.Untouched st) :
    h.Untouched (l.foldl f st) := by
  induction l generalizing st with
  | nil => exact hst
  | cons a rest ih => exact ih _ (hf st a hst)

theorem untouched_repairPart (st : PilotHangar × List String × Bool) (part : Part)
    (hst : h.Untouched st) : h.Untouched (repairPart s st part) := by
  unfold repairPart
  dsimp only
  split
  · exact hst
  · split
    · exact hst
    · split
      · intro hnone
        simp at hnone
      · exact hst

theorem untouched_restore {cost : List (Item × ℕ)} {mend : Suit → Suit} {what : String}
    (st : PilotHangar × List String × Bool) (hst : h.Untouched st) :
    h.Untouched (restore cost mend what st) := by
  unfold restore
  dsimp only
  split
  · intro hnone
    simp at hnone
  · exact hst

theorem repair_refused {part : Option Part} (hwhy : (h.repair part).2 = .error why) :
    (h.repair part).1 = h := by
  unfold repair at hwhy ⊢
  cases hsuit : h.suit with
  | error why' => rfl
  | ok s =>
    have hall (parts : List Part) := Untouched.foldl (untouched_repairPart (h := h) (s := s)) parts
      (h, [], false) fun _ => rfl
    rw [hsuit] at hwhy
    cases part <;>
    · dsimp only at hwhy ⊢
      split at hwhy
      next hnone =>
        rw [if_pos hnone]
        exact hall _ (List.isEmpty_iff.mp hnone)
      next => cases hwhy

theorem overhaul_refused {part : Option Part} (hwhy : (h.overhaul part).2 = .error why) :
    (h.overhaul part).1 = h := by
  unfold overhaul at hwhy ⊢
  cases hsuit : h.suit with
  | error why' => rfl
  | ok s =>
    rw [hsuit] at hwhy
    dsimp only at hwhy ⊢
    have hmended := Untouched.foldl (h := h) (f := overhaulOne s part) (fun st e hst => by
      unfold overhaulOne
      split
      · exact hst
      · exact untouched_restore st hst) s.faults.toList (h, [], false) fun _ => rfl
    have hall := Untouched.foldl (h := h) (f := serviceOne s part) (fun st e hst => by
      unfold serviceOne
      split
      · exact hst
      · exact untouched_restore st hst) (s.wear.systems s.line) _ hmended
    split at hwhy
    next hnone =>
      rw [if_pos hnone]
      exact hall (List.isEmpty_iff.mp hnone)
    next => cases hwhy

theorem scrap_refused {item : Item} (hwhy : (h.scrap item).2 = .error why) :
    (h.scrap item).1 = h := by
  unfold scrap at hwhy ⊢
  cases item with
  | part line part =>
    dsimp only at hwhy ⊢
    cases htake : h.stores.takeWorstPart line part with
    | none => rfl
    | some taken =>
      rw [htake] at hwhy
      cases hwhy
  | weapon w =>
    dsimp only at hwhy ⊢
    cases htake : h.stores.take (.weapon w) 1 with
    | none => rfl
    | some stores =>
      rw [htake] at hwhy
      cases hwhy
  | module k =>
    dsimp only at hwhy ⊢
    cases htake : h.stores.take (.module k) 1 with
    | none => rfl
    | some stores =>
      rw [htake] at hwhy
      cases hwhy
  | _ => rfl

theorem fuel_refused {grade : Grade} (hwhy : (h.fuel grade).2 = .error why) :
    (h.fuel grade).1 = h := by
  cases hbay : h.bay with
  | docked s =>
    unfold fuel at hwhy
    rw [hbay] at hwhy
    cases hwhy
  | _ => simp only [fuel, hbay]

theorem refused_launch (hn : h.Neat) (hwhy : h.launch.2 = .error why) : h.launch.1 = h := by
  cases hbay : h.bay with
  | docked s =>
    have hdry : s.propellant + (h.stores.takeUpTo s.grade.item (s.tank - s.propellant)).1 = 0 := by
      by_contra hfull
      unfold launch at hwhy
      rw [hbay] at hwhy
      dsimp only at hwhy
      rw [if_neg hfull] at hwhy
      cases hwhy
    have hnone : min (h.stores.get s.grade.item) (s.tank - s.propellant) = 0 :=
      (Nat.add_eq_zero_iff.mp hdry).2
    rw [launch_refused hbay hwhy]
    show h.store ((h.stores.take s.grade.item (min _ _)).getD h.stores) = h
    rw [hnone, hn.stores.take_zero]
    rfl
  | _ => simp only [launch, hbay]

end PilotHangar

namespace Wire

variable {h h' : PilotHangar} {ex ex' : Exchange} {trader : Trader} {now : ℕ} {why : String}

@[simp] theorem withHangar_self (h : PilotHangar) : withHangar h h.toHangar = h := rfl

theorem apply_refused (hn : h.Neat) {p : Platform} {req : Request} {rules : Rules}
    (ho : apply p req h ex trader now rules = some (h', ex', .error why)) :
    (h' = h ∨ h' = h.settle now) ∧ ex' = ex := by
  -- All but an order and its cancelling go to the bay and leave the exchange alone.
  have hbay {o : PilotHangar × Hangar.Done} (hsame : ∀ why, o.2 = .error why → o.1 = h ∨ o.1 = h.settle now)
      (ho : some (o.1, ex, o.2) = some (h', ex', Except.error why)) :
      (h' = h ∨ h' = h.settle now) ∧ ex' = ex := by
    obtain ⟨hh, hrest⟩ := Prod.mk.inj (Option.some.inj ho)
    obtain ⟨hex, hdone⟩ := Prod.mk.inj hrest
    rw [← hh]
    exact ⟨hsame why hdone, hex.symm⟩
  unfold apply at ho
  cases req with
  | craft item batches => exact hbay (fun _ => PilotHangar.craft_refused) ho
  | cancelJob station index => exact hbay (fun _ hw => .inr (PilotHangar.cancelJob_refused hn hw)) ho
  | fit item => exact hbay (fun _ hw => .inl (PilotHangar.fit_refused hw)) ho
  | strip slot => exact hbay (fun _ hw => .inl (PilotHangar.strip_refused hw)) ho
  | dismantle => exact hbay (fun _ hw => .inl (PilotHangar.dismantle_refused hn hw)) ho
  | repair part => exact hbay (fun _ hw => .inl (PilotHangar.repair_refused hw)) ho
  | overhaul part => exact hbay (fun _ hw => .inl (PilotHangar.overhaul_refused hw)) ho
  | scrap item => exact hbay (fun _ hw => .inl (PilotHangar.scrap_refused hw)) ho
  | fuel grade => exact hbay (fun _ hw => .inl (PilotHangar.fuel_refused hw)) ho
  | order item side price qty rest =>
    have hwhole := h.toHangar.whole_trade p ex trader item side price qty rest
    dsimp only at ho hwhole
    generalize h.toHangar.trade p ex trader item side price qty rest = o at ho hwhole
    obtain ⟨hh, hrest⟩ := Prod.mk.inj (Option.some.inj ho)
    obtain ⟨hex, hdone⟩ := Prod.mk.inj hrest
    obtain ⟨hg, hsame⟩ := hwhole.refused why hdone hn.stores
    rw [← hh, ← hex, hg]
    exact ⟨.inl rfl, hsame⟩
  | cancelOrder id =>
    dsimp only at ho
    split at ho
    · cases ho
    next ex'' hcancel =>
      cases ho
      exact ⟨.inl rfl, Hangar.cancel_refused hcancel⟩
  | _ => cases ho

theorem applyCharter_refused (hn : h.Neat) {p : Platform} {req : Request} {b b' : Board}
    {name : String}
    (ho : applyCharter p req h b ex trader name now = some (h', b', ex', .error why)) :
    h' = h ∧ b' = b ∧ ex' = ex := by
  have hboard {o : Board × Hangar × Hangar.Done} (hwhole : Whole id h.toHangar b o.2.1 o.1 o.2.2)
      (ho : some (withHangar h o.2.1, o.1, ex, o.2.2) = some (h', b', ex', Except.error why)) :
      h' = h ∧ b' = b ∧ ex' = ex := by
    obtain ⟨hh, hrest⟩ := Prod.mk.inj (Option.some.inj ho)
    obtain ⟨hb, hrest⟩ := Prod.mk.inj hrest
    obtain ⟨hex, hdone⟩ := Prod.mk.inj hrest
    obtain ⟨hg, hsame⟩ := hwhole.refused why hdone hn.stores
    rw [← hh, ← hb, ← hex, hg]
    exact ⟨rfl, hsame, rfl⟩
  have hnoted {o : Board × Hangar.Done} (hwhole : Whole id h.toHangar b h.toHangar o.1 o.2)
      (ho : some (h, o.1, ex, o.2) = some (h', b', ex', Except.error why)) :
      h' = h ∧ b' = b ∧ ex' = ex := hboard (o := (o.1, h.toHangar, o.2)) hwhole ho
  unfold applyCharter at ho
  cases req with
  | post item qty reward hours => exact hboard (Board.whole_post ..) ho
  | withdraw id => exact hboard (Board.whole_withdraw ..) ho
  | deliver id qty =>
    have hwhole := Board.whole_deliver p b h.toHangar ex trader name id qty now
    dsimp only at ho hwhole
    generalize b.deliver p h.toHangar ex trader name id qty now = o at ho hwhole
    obtain ⟨hh, hrest⟩ := Prod.mk.inj (Option.some.inj ho)
    obtain ⟨hb, hrest⟩ := Prod.mk.inj hrest
    obtain ⟨hex, hdone⟩ := Prod.mk.inj hrest
    obtain ⟨hg, hsame⟩ := hwhole.refused why hdone hn.stores
    rw [← hh, ← hb, ← hex, hg]
    exact ⟨rfl, Prod.mk.inj hsame⟩
  | contribute work item qty => exact hboard (Board.whole_contribute ..) ho
  | takePatrol id => exact hnoted (Board.whole_take ..) ho
  | dropPatrol id => exact hnoted (Board.whole_dropPatrol ..) ho
  | sign => exact hnoted (Board.whole_sign ..) ho
  | aceTerms salvage => exact hnoted (Board.whole_setTerms ..) ho
  | _ => cases ho

theorem applyHomes_refused (hn : h.Neat) {c : City} {req : Request} {homes homes' : Homes}
    {name : String}
    (ho : applyHomes c req h homes trader name now = some (some (h', homes', .error why))) :
    h' = h ∧ homes'.butLocks = homes.butLocks := by
  unfold applyHomes at ho
  cases req with
  | home req =>
    obtain ⟨o, hserve, heq⟩ := Option.map_eq_some_iff.mp (Option.some.inj ho)
    obtain ⟨hh, hrest⟩ := Prod.mk.inj heq
    obtain ⟨hhomes, hdone⟩ := Prod.mk.inj hrest
    obtain ⟨hg, hsame⟩ := (Homes.whole_serve hserve).refused why hdone hn.stores
    rw [← hh, ← hhomes, hg]
    exact ⟨rfl, hsame⟩
  | _ => cases ho

/-- Whatever has happened to a hangar and whatever the others hold: a request that's refused leaves the
hangar as it was, its stations settled at most, and the exchange, the Board, and all the register holds
but its locks; and so does a launch that's refused. -/
theorem refused_as_it_was (acts : List HangarAct) (p : Platform) (c : City) (req : Request)
    (ex : Exchange) (b : Board) (homes : Homes) (trader : Trader) (name : String) (now : ℕ)
    (rules : Rules) :
    let h := acts.foldl PilotHangar.act PilotHangar.empty
    (∀ h' ex' why, apply p req h ex trader now rules = some (h', ex', .error why) →
      (h' = h ∨ h' = h.settle now) ∧ ex' = ex) ∧
    (∀ h' b' ex' why, applyCharter p req h b ex trader name now = some (h', b', ex', .error why) →
      h' = h ∧ b' = b ∧ ex' = ex) ∧
    (∀ h' homes' why,
      applyHomes c req h homes trader name now = some (some (h', homes', .error why)) →
      h' = h ∧ homes'.butLocks = homes.butLocks) ∧
    ∀ h' why, h.launch = (h', .error why) → h' = h := by
  intro h
  have hn : h.Neat := PilotHangar.neat_run acts
  refine ⟨fun _ _ _ => apply_refused hn, fun _ _ _ _ => applyCharter_refused hn,
    fun _ _ _ => applyHomes_refused hn, fun h' why hlaunch => ?_⟩
  have hwhy : h.launch.2 = .error why := by rw [hlaunch]
  have hsame := PilotHangar.refused_launch hn hwhy
  rwa [hlaunch] at hsame

/-- A pilot out on a sortie, before anyone holds a home: steel offered for nothing comes back, there's
no vote to sign, nobody to knock for, and no launching twice. -/
theorem refused_as_it_was_out :
    let h := [HangarAct.starter, .launch].foldl PilotHangar.act PilotHangar.empty
    let city : City := ⟨fun id => some ⟨id, false, false⟩, fun _ => 0, fun _ => 0, fun _ _ => 0,
      fun _ => "FLAT 1", fun _ _ _ _ => .ok ()⟩
    (∃ h' ex' why, apply .atRest (.order (.material .steel) .sell 0 10 false) h .new "kai" 0 ⟨1, 100, 1⟩
        = some (h', ex', .error why) ∧ (h' = h ∨ h' = h.settle 0) ∧ ex' = .new) ∧
    (∃ h' b' ex' why, applyCharter .atRest .sign h .new .new "kai" "KAI" 0
        = some (h', b', ex', .error why) ∧ h' = h ∧ b' = .new ∧ ex' = .new) ∧
    (∃ h' homes' why, applyHomes city (.home (.knock 7)) h .new "kai" "KAI" 0
        = some (some (h', homes', .error why)) ∧ h' = h ∧ homes'.butLocks = Homes.new.butLocks) ∧
    ∃ h' why, h.launch = (h', .error why) ∧ h' = h := by
  intro h city
  have hrefused (req : Request) := refused_as_it_was [.starter, .launch] .atRest city req .new .new .new "kai"
    "KAI" 0 ⟨1, 100, 1⟩
  obtain ⟨hsale, -, -, hlaunch⟩ := hrefused (.order (.material .steel) .sell 0 10 false)
  obtain ⟨-, hsign, -⟩ := hrefused .sign
  obtain ⟨-, -, hknock, -⟩ := hrefused (.home (.knock 7))
  exact ⟨⟨_, _, _, rfl, hsale _ _ _ rfl⟩, ⟨_, _, _, _, rfl, hsign _ _ _ _ rfl⟩,
    ⟨_, _, _, rfl, hknock _ _ _ rfl⟩, ⟨_, _, rfl, hlaunch _ _ rfl⟩⟩

end Wire

end BeforeColony
