import BeforeColony.Econ.Neat
import BeforeColony.Econ.BayLedger

/-!
# What each change to a hangar keeps

A pilot asks for it, or the sector, the exchange, the Board or the register brings it: the shelves
stay in order, the queues' jobs known, and the suit on its torso with its line's weapons.
-/

set_option autoImplicit false

namespace BeforeColony

open Lib Catalogue

namespace Suit

variable {s s' : Suit}

theorem WellFormed.standing (h : s.WellFormed) : s.Standing := ⟨h.torso, h.armed⟩

theorem Standing.mono (h : s.Standing) (hline : s'.line = s.line)
    (htorso : s'.isFitted .torso = true) (hmounts : ∀ m, s'.mounts m = true → s.mounts m = true) :
    s'.Standing where
  torso := htorso
  armed m hm := by
    rw [weaponOn, hline]
    exact h.armed m (hmounts m hm)

/-- Filled, loaded, mended or worn, it's the same suit. -/
theorem Standing.same (h : s.Standing) (hline : s'.line = s.line) (hparts : s'.parts = s.parts)
    (hmounts : s'.mounts = s.mounts) : s'.Standing := by
  refine h.mono hline ?_ fun m hm => by rw [← hmounts, hm]
  rw [isFitted, hparts]
  exact h.torso

theorem Standing.attach (h : s.Standing) (p : Part) (u : PartUnit) : (s.attach p u).Standing :=
  h.mono rfl (by rw [isFitted_attach, h.torso, Bool.or_true]) fun _ hm => hm

theorem Standing.arm (h : s.Standing) {m : Fin 3} (hm : (s.weaponOn m).isSome = true) :
    (s.arm m).Standing where
  torso := h.torso
  armed n hn := by
    by_cases hnm : n = m
    · rw [hnm]
      exact hm
    · exact h.armed n (by simpa [Suit.arm, Fin.val_inj, hnm] using hn)

theorem Standing.cameHome (h : s.Standing) (home : Homecoming) : (s.cameHome home).Standing := by
  refine h.mono rfl ?_ fun m hm => ?_
  · simp [Suit.cameHome, isFitted]
  · simp only [Suit.cameHome, Bool.and_eq_true] at hm
    exact hm.1.1

end Suit

/-- Whatever suit there is stands on its torso with its line's weapons. -/
def Bay.Standing : Bay → Prop
  | .empty => True
  | .docked s | .out s => s.Standing

namespace PilotHangar

structure Neat (h : PilotHangar) : Prop where
  stores : h.stores.Neat
  works : h.works.Known
  bay : h.bay.Standing

variable {h : PilotHangar} {s : Suit} {st : Stores}

theorem neat_starter : starter.Neat where
  stores := ((Stores.neat_empty.add propellantItem 600).add munitions 100).add steel 200
  works := Works.known_empty
  bay := Suit.wornArgo_wellFormed.standing

namespace Neat

theorem store (hn : h.Neat) (hst : st.Neat) : (h.store st).Neat := ⟨hst, hn.works, hn.bay⟩

theorem dock (hn : h.Neat) (hs : s.Standing) : (h.dock s).Neat := ⟨hn.stores, hn.works, hs⟩

theorem docked (hn : h.Neat) (hbay : h.bay = .docked s) : s.Standing := by
  have hstands := hn.bay
  rw [hbay] at hstands
  exact hstands

theorem withHangar (hn : h.Neat) {g : Hangar} (hg : g.stores.Neat) : (Wire.withHangar h g).Neat :=
  ⟨hg, hn.works, hn.bay⟩

theorem settle (hn : h.Neat) (now : ℕ) : (h.settle now).Neat :=
  ⟨hn.stores.addGoods _, hn.works.settle now, hn.bay⟩

theorem foldl {α : Type*} {f : PilotHangar → α → PilotHangar}
    (hf : ∀ h a, h.Neat → (f h a).Neat) (l : List α) (hn : h.Neat) : (l.foldl f h).Neat := by
  induction l generalizing h with
  | nil => exact hn
  | cons a rest ih => exact ih (hf h a hn)

/-- What is done note by note keeps a hangar if each step does. -/
theorem foldl_noting {α β : Type*} {f : PilotHangar × β → α → PilotHangar × β}
    (hf : ∀ st a, st.1.Neat → (f st a).1.Neat) (l : List α) (st : PilotHangar × β)
    (hn : st.1.Neat) : (l.foldl f st).1.Neat := by
  induction l generalizing st with
  | nil => exact hn
  | cons a rest ih => exact ih _ (hf st a hn)

/-! ### The stations -/

theorem craft (hn : h.Neat) (item : Item) (batches now : ℕ) (rules : Rules) :
    (h.craft item batches now rules).1.Neat := by
  unfold PilotHangar.craft
  cases hr : recipe item with
  | none => exact hn
  | some r =>
    dsimp only
    split
    · exact hn
    · have hs := hn.settle now
      generalize h.settle now = h' at hs ⊢
      split
      · exact hs
      · split
        · exact hs
        · cases htake : h'.stores.takeAll r.inputs batches with
          | none => exact hs
          | some stores =>
            refine ⟨hs.stores.takeAll htake, hs.works.setQueue r.station fun job hjob => ?_, hs.bay⟩
            rcases List.mem_append.mp hjob with hold | hnew
            · exact hs.works r.station job hold
            · rw [List.mem_singleton.mp hnew]
              exact Option.isSome_of_eq_some hr

theorem cancelJob (hn : h.Neat) (station : Station) (index now : ℕ) :
    (h.cancelJob station index now).1.Neat := by
  have hs := hn.settle now
  have hq := hs.works.setQueue station (Queue.known_cancel (hs.works station) index now)
  unfold PilotHangar.cancelJob
  dsimp only
  split
  · exact ⟨hs.stores, hq, hs.bay⟩
  · exact ⟨hs.stores.addGoods _, hq, hs.bay⟩

/-! ### Fitting and stripping -/

theorem fit (hn : h.Neat) (item : Item) : (h.fit item).1.Neat := by
  have hfits := h.fits item
  generalize h.fit item = r at hfits ⊢
  cases hfits with
  | refused why => exact hn
  | built done hbay htake =>
    exact (hn.store (hn.stores.takeBestPart htake)).dock (Suit.on_wellFormed _).standing
  | part done hbay hfree htake =>
    exact (hn.store (hn.stores.takeBestPart htake)).dock ((hn.docked hbay).attach _ _)
  | module done hbay hpart hfree hnew hfit htake =>
    exact (hn.store (hn.stores.take htake)).dock ((hn.docked hbay).same rfl rfl rfl)
  | weapon done hbay hslot hw hfree htake =>
    exact (hn.store (hn.stores.take htake)).dock
      ((hn.docked hbay).arm (Option.isSome_of_eq_some hw))

theorem unmount (hn : h.Neat) (m : Fin 3) : (h.unmount m).1.Neat := by
  cases hbay : h.bay with
  | docked s =>
    cases hw : s.weaponOn m with
    | none =>
      have hsame : (h.unmount m).1 = h := by simp only [PilotHangar.unmount, hbay, hw]
      rw [hsame]
      exact hn
    | some w =>
      rw [unmount_eq hbay hw]
      refine (hn.store ?_).dock ((s.barer_disarm m).standing (hn.docked hbay))
      unfold unloaded
      split
      · exact (hn.stores.add _ _).add _ _
      · exact hn.stores.add _ _
  | _ =>
    have hsame : (h.unmount m).1 = h := by simp only [PilotHangar.unmount, hbay]
    rw [hsame]
    exact hn

theorem clean_ofPart (line : FrameId) (part : Part) (condition : ℕ) (f : Faults) :
    PartUnit.Clean ⟨line, part, condition, f.ofPart part⟩ := Faults.ofPart_eq_none

theorem partStripped (hn : h.Neat) (hbay : h.bay = .docked s) {p : Part} (hp : p ≠ .torso)
    (c : ℕ) : (h.partStripped s p c).Neat := by
  have hdetached : (h.dock (s.detach p)).Neat :=
    hn.dock ((s.barer_detach hp).standing (hn.docked hbay))
  have hoff : ((h.dock (s.detach p)).unmountAll (s.detach p).loose).Neat :=
    foldl (f := fun h m => (h.unmount m).1) (fun _ m hn => hn.unmount m) _ hdetached
  unfold PilotHangar.partStripped
  refine hoff.store (Stores.Neat.addPart ?_ (clean_ofPart _ _ _ _))
  exact hoff.stores.foldl (fun _ kind hst => hst.add _ _) _

theorem torsoStripped (hn : h.Neat) (s : Suit) : (h.torsoStripped s).Neat :=
  ⟨(hn.stores.addPart (clean_ofPart _ _ _ _)).add _ _, hn.works, trivial⟩

theorem settleTank (hn : h.Neat) : h.settleTank.1.Neat := by
  cases hbay : h.bay with
  | docked s =>
    rw [settleTank_eq hbay]
    exact (hn.store (hn.stores.add _ _)).dock ((hn.docked hbay).same rfl rfl rfl)
  | _ =>
    have hsame : h.settleTank.1 = h := by simp only [PilotHangar.settleTank, hbay]
    rw [hsame]
    exact hn

theorem strip (hn : h.Neat) (slot : Slot) : (h.strip slot).1.Neat := by
  have hoff : (h.stripOff slot).1.Neat := by
    cases hbay : h.bay with
    | docked s =>
      have hstrips := strips hbay slot
      generalize h.stripOff slot = r at hstrips ⊢
      cases hstrips with
      | refused why => exact hn
      | torso done hfitted hmounts hmodules => exact hn.torsoStripped s
      | part done hp hc => exact hn.partStripped hbay hp _
      | module done hm =>
        exact (hn.store (hn.stores.add _ _)).dock ((hn.docked hbay).same rfl rfl rfl)
      | weapon done hm => exact hn.unmount _
    | _ =>
      have hsame : (h.stripOff slot).1 = h := by simp only [stripOff, suit, hbay]
      rw [hsame]
      exact hn
  rw [strip_fst]
  split
  · exact hoff
  · exact hoff.settleTank

theorem dismantle (hn : h.Neat) : h.dismantle.1.Neat := by
  unfold PilotHangar.dismantle
  split
  · exact hn
  · exact (hn.foldl (fun _ slot hn => hn.strip slot) dismantleSlots).strip _

/-! ### Repairs, scrap and fuel -/

theorem repairPart (st : PilotHangar × List String × Bool) (part : Part) (hn : st.1.Neat) :
    (repairPart s st part).1.Neat := by
  unfold PilotHangar.repairPart
  dsimp only
  split
  · exact hn
  · cases hsuit : st.1.suit with
    | error why => exact hn
    | ok now =>
      dsimp only
      split
      · have hstands := hn.docked (bay_eq_of_suit hsuit)
        refine (hn.store ?_).dock (hstands.mono rfl ?_ fun _ hm => hm)
        · cases htake : st.1.stores.takeAll _ 1 with
          | none => exact hn.stores
          | some stores => exact hn.stores.takeAll htake
        · by_cases hpart : part = .torso
          · simp [Suit.isFitted, hpart]
          · have htorso := hstands.torso
            simpa [Suit.isFitted, Ne.symm hpart] using htorso
      · exact hn

theorem repair (hn : h.Neat) (part : Option Part) : (h.repair part).1.Neat := by
  unfold PilotHangar.repair
  cases hsuit : h.suit with
  | error why => exact hn
  | ok s =>
    have hall (l : List Part) := foldl_noting (fun st p hn => repairPart (s := s) st p hn) l
      (h, [], false) hn
    cases part <;> dsimp only <;> split <;> exact hall _

theorem restore {cost : List (Item × ℕ)} {mend : Suit → Suit} {what : String}
    (hmend : ∀ s : Suit, s.Standing → (mend s).Standing) (st : PilotHangar × List String × Bool)
    (hn : st.1.Neat) : (restore cost mend what st).1.Neat := by
  unfold PilotHangar.restore
  dsimp only
  cases htake : st.1.stores.takeAll cost 1 with
  | none => exact hn
  | some stores =>
    cases hsuit : st.1.suit with
    | error why => exact hn
    | ok now =>
      exact (hn.store (hn.stores.takeAll htake)).dock (hmend now (hn.docked (bay_eq_of_suit hsuit)))

theorem overhaulOne (part : Option Part) (st : PilotHangar × List String × Bool)
    (e : System × ℕ) (hn : st.1.Neat) : (overhaulOne s part st e).1.Neat := by
  unfold PilotHangar.overhaulOne
  split
  · exact hn
  · refine restore (fun s' hs => ?_) st hn
    exact hs.same rfl rfl rfl

theorem serviceOne (part : Option Part) (st : PilotHangar × List String × Bool)
    (e : System × ℚ) (hn : st.1.Neat) : (serviceOne s part st e).1.Neat := by
  unfold PilotHangar.serviceOne
  split
  · exact hn
  · refine restore (fun s' hs => ?_) st hn
    exact hs.same rfl rfl rfl

theorem overhaul (hn : h.Neat) (part : Option Part) : (h.overhaul part).1.Neat := by
  unfold PilotHangar.overhaul
  cases hsuit : h.suit with
  | error why => exact hn
  | ok s =>
    have hall := foldl_noting (serviceOne (s := s) part) (s.wear.systems s.line) _
      (foldl_noting (overhaulOne (s := s) part) s.faults.toList (h, [], false) hn)
    dsimp only
    split <;> exact hall

theorem scrap (hn : h.Neat) (item : Item) : (h.scrap item).1.Neat := by
  unfold PilotHangar.scrap
  split
  · split
    · exact hn
    next u stores htake => exact hn.store ((hn.stores.takeWorstPart htake).addGoods _)
  · split
    · exact hn
    next stores htake => exact hn.store ((hn.stores.take htake).addGoods _)
  · split
    · exact hn
    next stores htake => exact hn.store ((hn.stores.take htake).addGoods _)
  · exact hn

theorem fuel (hn : h.Neat) (grade : Grade) : (h.fuel grade).1.Neat := by
  unfold PilotHangar.fuel
  split
  next s hbay =>
    refine (hn.store ?_).dock ((hn.docked hbay).same rfl rfl rfl)
    exact (hn.stores.add _ _).takeUpTo _ _
  next => exact hn

/-! ### Out and home -/

theorem launch (hn : h.Neat) : h.launch.1.Neat := by
  unfold PilotHangar.launch
  split
  · exact hn
  · exact hn
  next s hbay =>
    have hreload (st : Suit × Stores) (m : Fin 3) (hst : st.1.Standing ∧ st.2.Neat) :
        (reload st m).1.Standing ∧ (reload st m).2.Neat := by
      obtain ⟨n, hn⟩ := reload_fst st m
      refine ⟨by rw [hn]; exact hst.1.same rfl rfl rfl, ?_⟩
      unfold reload
      dsimp only
      split
      · exact hst.2
      · split
        · exact hst.2
        · exact hst.2.take_getD _ _
    have hrack (st : Suit × Stores) (kit : Kit) (hst : st.1.Standing ∧ st.2.Neat) :
        (rackUp st kit).1.Standing ∧ (rackUp st kit).2.Neat :=
      ⟨hst.1.same rfl rfl rfl, hst.2.takeUpTo _ _⟩
    have hfold {α : Type} {f : Suit × Stores → α → Suit × Stores}
        (hf : ∀ st a, st.1.Standing ∧ st.2.Neat → (f st a).1.Standing ∧ (f st a).2.Neat) (l : List α)
        (st : Suit × Stores) (hst : st.1.Standing ∧ st.2.Neat) :
        (l.foldl f st).1.Standing ∧ (l.foldl f st).2.Neat := by
      induction l generalizing st with
      | nil => exact hst
      | cons a rest ih => exact ih _ (hf st a hst)
    have htook := hn.stores.takeUpTo s.grade.item (s.tank - s.propellant)
    have hfilled (kg : ℕ) : { s with propellant := kg }.Standing :=
      (hn.docked hbay).same rfl rfl rfl
    generalize h.stores.takeUpTo s.grade.item (s.tank - s.propellant) = took at htook ⊢
    dsimp only
    split
    · exact hn.store htook
    · have hloaded := hfold hreload (List.finRange 3) (_, took.2)
        ⟨hfilled (s.propellant + took.1), htook⟩
      generalize (List.finRange 3).foldl reload _ = loaded at hloaded ⊢
      have hracked := hfold hrack Kit.all loaded hloaded
      generalize Kit.all.foldl rackUp loaded = racked at hracked ⊢
      exact ⟨hracked.2, hn.works, hracked.1⟩

theorem salvagePart (hn : h.Neat) (line : FrameId) (part : Part) {condition level : ℕ}
    (hlevel : level = Faults.damaged ∨ level = Faults.failed) :
    (h.salvagePart line part condition level).1.Neat := by
  have hclean : (Faults.all part level).count = 0 → Faults.all part level = Faults.none := by
    rcases hlevel with rfl | rfl <;> cases part <;> decide
  exact hn.store (hn.stores.addPart hclean)

theorem scrapMetal (hn : h.Neat) (line : FrameId) (kg : ℕ) : (h.scrapMetal line kg).1.Neat :=
  hn.store (hn.stores.add _ _)

theorem salvage (hn : h.Neat) (desc : ChunkDesc) : (h.salvage desc).1.Neat := by
  unfold PilotHangar.salvage
  split
  · split
    · exact hn
    · exact hn.store (hn.stores.add _ _)
  · dsimp only
    split
    · exact hn.salvagePart _ _ (.inr rfl)
    · exact hn.scrapMetal _ _
  · refine foldl_noting (fun st part hn => ?_) Part.all (h, []) hn
    unfold salvageHulkPart
    split
    · exact hn
    · dsimp only
      split
      · exact hn.salvagePart _ _ (.inl rfl)
      · exact hn.scrapMetal _ _

theorem towed (hn : h.Neat) (wreck : Option ChunkDesc) (torso : Bool) :
    (h.towed wreck torso).1.Neat := by
  unfold PilotHangar.towed
  split
  · exact hn
  · dsimp only
    split
    · split
      · split
        · exact (hn.salvagePart _ _ (.inl rfl)).salvage _
        · exact hn.salvage _
      · exact hn.salvage _
    · exact hn.salvage _

theorem shelveKits (hst : st.Neat) (kits : Kit → ℕ) : (shelveKits st kits).Neat :=
  hst.foldl (fun _ _ hst => hst.add _ _) _

theorem homeSuit (hn : h.Neat) (home : Homecoming) : (h.homeSuit home).1.Standing := by
  have hflown : (h.flown home.frame).Standing := by
    have hstands := hn.bay
    unfold flown
    generalize h.bay = bay at hstands ⊢
    cases bay with
    | empty => exact ⟨(Suit.complete_rigged _).torso, (Suit.complete_rigged _).armed⟩
    | docked s => exact hstands
    | out s => exact hstands
  rw [homeSuit_fst rfl]
  exact (hflown.cameHome home).same rfl rfl rfl

theorem cameHome (hn : h.Neat) (home : Haul) : (h.cameHome home).1.Neat := by
  have hdocked := (hn.store (shelveKits hn.stores fun kit => home.kits kit)).dock
    (hn.homeSuit home.toHomecoming)
  have hunload := foldl_noting (f := unload home.cargoKg) (fun st ore hn => by
    unfold unload
    split
    · exact hn.store (hn.stores.add _ _)
    · exact hn) Ore.all (_, ["DOCKED"]) hdocked
  unfold PilotHangar.cameHome
  dsimp only
  cases home.held with
  | none => exact ⟨hunload.stores, hunload.works, hunload.bay⟩
  | some desc =>
    have hsalvage := hunload.salvage desc
    exact ⟨hsalvage.stores, hsalvage.works, hsalvage.bay⟩

theorem recover (hn : h.Neat) : h.recover.1.Neat := by
  unfold PilotHangar.recover
  split
  next s hbay =>
    have hstands := hn.bay
    rw [hbay] at hstands
    exact (hn.store (shelveKits hn.stores _)).dock (hstands.same rfl rfl rfl)
  next => exact hn

theorem reissue (hn : h.Neat) (now : ℕ) : (h.reissue now).1.Neat := by
  rcases h.reissue_cases now with hsame | ⟨-, hnew⟩
  · rw [hsame]
    exact hn
  · rw [hnew]
    exact ⟨hn.stores, hn.works, Suit.wornArgo_wellFormed.standing⟩

end Neat

end PilotHangar

end BeforeColony
