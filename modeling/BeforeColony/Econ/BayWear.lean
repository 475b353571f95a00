import BeforeColony.Econ.BayRuns

/-!
# Wear and the parts that carry it

A part's systems' service lives start afresh when it is stripped. A part shot off on a
sortie takes no wear with it: what its systems had been through, and what the sortie adds,
stays in the suit's counters for the next part fitted. `starter_fresh_iff` says that the
counters of every part missing are zero throughout a run exactly when no suit comes home
like that.
-/

set_option autoImplicit false

namespace BeforeColony

def Usage.asWear (u : Usage) : Wear := ⟨u.burn, u.boost, u.shots, u.overheats⟩

namespace Wear

/-- A system's service life has not begun. -/
structure Unused (w : Wear) (line : FrameId) (sys : System) : Prop where
  main : sys = .mainThrusters → w.main = 0
  boost : sys = .boosters → w.boost = 0
  overheats : sys = .reactor → w.overheats = 0
  rounds : ∀ m, mountSystem line m = sys → w.rounds m = 0

variable {w : Wear} {line : FrameId} {sys e : System}

@[simp] theorem main_reset (w : Wear) (e : System) (line : FrameId) :
    (w.reset e line).main = if e = .mainThrusters then 0 else w.main := by
  cases e <;> rfl

@[simp] theorem boost_reset (w : Wear) (e : System) (line : FrameId) :
    (w.reset e line).boost = if e = .boosters then 0 else w.boost := by
  cases e <;> rfl

@[simp] theorem overheats_reset (w : Wear) (e : System) (line : FrameId) :
    (w.reset e line).overheats = if e = .reactor then 0 else w.overheats := by
  cases e <;> rfl

@[simp] theorem rounds_reset (w : Wear) (e : System) (line : FrameId) (m : Fin 3) :
    (w.reset e line).rounds m = if mountSystem line m = e then 0 else w.rounds m := by
  cases e <;> rfl

theorem unused_empty (line : FrameId) (sys : System) : empty.Unused line sys where
  main _ := rfl
  boost _ := rfl
  overheats _ := rfl
  rounds _ _ := rfl

theorem unused_reset_self (w : Wear) (line : FrameId) (e : System) :
    (w.reset e line).Unused line e where
  main h := by rw [main_reset, if_pos h]
  boost h := by rw [boost_reset, if_pos h]
  overheats h := by rw [overheats_reset, if_pos h]
  rounds m h := by rw [rounds_reset, if_pos h]

theorem unused_reset_iff (hne : sys ≠ e) :
    (w.reset e line).Unused line sys ↔ w.Unused line sys := by
  have hmain (h : sys = .mainThrusters) : e ≠ .mainThrusters := fun he => hne (h.trans he.symm)
  have hboost (h : sys = .boosters) : e ≠ .boosters := fun he => hne (h.trans he.symm)
  have hheat (h : sys = .reactor) : e ≠ .reactor := fun he => hne (h.trans he.symm)
  have hround (m : Fin 3) (h : mountSystem line m = sys) : mountSystem line m ≠ e :=
    fun he => hne (h.symm.trans he)
  constructor
  · intro hw
    refine ⟨fun h => ?_, fun h => ?_, fun h => ?_, fun m h => ?_⟩
    · simpa [hmain h] using hw.main h
    · simpa [hboost h] using hw.boost h
    · simpa [hheat h] using hw.overheats h
    · simpa [hround m h] using hw.rounds m h
  · intro hw
    refine ⟨fun h => ?_, fun h => ?_, fun h => ?_, fun m h => ?_⟩
    · simpa [hmain h] using hw.main h
    · simpa [hboost h] using hw.boost h
    · simpa [hheat h] using hw.overheats h
    · simpa [hround m h] using hw.rounds m h

theorem Unused.reset (hw : w.Unused line sys) (e : System) (line' : FrameId) :
    (w.reset e line').Unused line sys where
  main h := by rw [main_reset, hw.main h, ite_self]
  boost h := by rw [boost_reset, hw.boost h, ite_self]
  overheats h := by rw [overheats_reset, hw.overheats h, ite_self]
  rounds m h := by rw [rounds_reset, hw.rounds m h, ite_self]

theorem unused_foldl_reset (l : List System) (hw : sys ∈ l ∨ w.Unused line sys) :
    (l.foldl (fun w e => w.reset e line) w).Unused line sys := by
  induction l generalizing w with
  | nil => simpa using hw
  | cons e rest ih =>
    apply ih
    by_cases he : sys = e
    · exact Or.inr (he ▸ unused_reset_self w line sys)
    · refine hw.imp (fun h => ?_) fun h => h.reset e line
      exact (List.mem_cons.mp h).resolve_left he

/-- A count that would pass 32 bits stays at the largest: it is not zero for that. -/
theorem saturated_eq_zero {a b : ℕ} : min (a + b) u32Max = 0 ↔ a = 0 ∧ b = 0 := by
  unfold u32Max
  omega

theorem unused_add_iff (u : Usage) :
    (w.add u).Unused line sys ↔ w.Unused line sys ∧ u.asWear.Unused line sys := by
  constructor
  · intro h
    refine ⟨⟨fun hs => ?_, fun hs => ?_, fun hs => ?_, fun m hs => ?_⟩,
      ⟨fun hs => ?_, fun hs => ?_, fun hs => ?_, fun m hs => ?_⟩⟩
    · exact (saturated_eq_zero.mp (h.main hs)).1
    · exact (saturated_eq_zero.mp (h.boost hs)).1
    · exact (saturated_eq_zero.mp (h.overheats hs)).1
    · exact (saturated_eq_zero.mp (h.rounds m hs)).1
    · exact (saturated_eq_zero.mp (h.main hs)).2
    · exact (saturated_eq_zero.mp (h.boost hs)).2
    · exact (saturated_eq_zero.mp (h.overheats hs)).2
    · exact (saturated_eq_zero.mp (h.rounds m hs)).2
  · rintro ⟨hw, hu⟩
    exact
      { main := fun hs => saturated_eq_zero.mpr ⟨hw.main hs, hu.main hs⟩
        boost := fun hs => saturated_eq_zero.mpr ⟨hw.boost hs, hu.boost hs⟩
        overheats := fun hs => saturated_eq_zero.mpr ⟨hw.overheats hs, hu.overheats hs⟩
        rounds := fun m hs => saturated_eq_zero.mpr ⟨hw.rounds m hs, hu.rounds m hs⟩ }

theorem unused_wearOut_iff (f : Faults) {fitted : Part → Bool}
    (hgone : fitted sys.part = false) :
    (w.wearOut f line fitted).1.Unused line sys ↔ w.Unused line sys := by
  unfold wearOut
  have hfold (l : List (System × ℚ)) (st : Wear × Faults × List System) :
      (l.foldl (wearOutOne line fitted) st).1.Unused line sys ↔ st.1.Unused line sys := by
    induction l generalizing st with
    | nil => rfl
    | cons e rest ih =>
      rw [List.foldl_cons, ih]
      unfold wearOutOne
      split
      · rfl
      · rename_i hworn
        have hfit : fitted e.1.part = true := by
          simp only [Bool.or_eq_true, Bool.not_eq_true', not_or, Bool.not_eq_false] at hworn
          exact hworn.2
        exact unused_reset_iff fun he => by rw [he, hfit] at hgone; cases hgone
  exact hfold _ _

end Wear

namespace Suit

variable {s s' : Suit}

/-- The systems of every part missing have their service lives ahead of them. -/
def Fresh (s : Suit) : Prop :=
  ∀ sys : System, s.isFitted sys.part = false → s.wear.Unused s.line sys

theorem Fresh.of_wear_eq (hs : s.Fresh) (hline : s'.line = s.line) (hwear : s'.wear = s.wear)
    (hfit : ∀ p, s.isFitted p = true → s'.isFitted p = true) : s'.Fresh := by
  intro sys hgone
  rw [hline, hwear]
  apply hs sys
  by_contra h
  rw [hfit _ (Bool.eq_true_of_not_eq_false h)] at hgone
  cases hgone

theorem Fresh.detach (hs : s.Fresh) (p : Part) : (s.detach p).Fresh := by
  intro sys hgone
  refine Wear.unused_foldl_reset _ ?_
  rw [isFitted_detach, Bool.and_eq_false_iff, decide_eq_false_iff_not, not_not] at hgone
  exact hgone.imp (fun hp => System.mem_ofPart.mpr hp) fun h => hs sys h

theorem fresh_of_empty (h : s.wear = Wear.empty) : s.Fresh := by
  intro sys _
  rw [h]
  exact Wear.unused_empty _ _

/-- A part comes home missing: it went out missing, or it was shot off. -/
theorem isFitted_cameHome (home : Homecoming) (p : Part) :
    (s.cameHome home).isFitted p = false
      ↔ p ≠ .torso ∧ (s.isFitted p = false ∨ home.parts p ≤ 0) := by
  by_cases hp : p = .torso
  · subst hp
    simp [cameHome, isFitted]
  · simp only [cameHome, isFitted, Function.update_of_ne hp, cameHomePart]
    cases s.parts p with
    | none => simp [hp]
    | some c =>
      by_cases hf : 0 < home.parts p
      · simp [hp, hf, not_le.mpr hf]
      · simp [hp, hf, not_lt.mp hf]

end Suit

/-- The suit, docked or out, has no wear in a part it lacks. -/
def Bay.Fresh : Bay → Prop
  | .empty => True
  | .docked s | .out s => s.Fresh

namespace PilotHangar

variable {h : PilotHangar} {s : Suit}

/-- A suit about to come home without a part, with wear in that part's systems: what they had
been through, or what the sortie adds. -/
def BringsWearHome (h : PilotHangar) : BayOp → Prop
  | .cameHome home => ∃ sys : System,
      (sys.part ≠ .torso
        ∧ ((h.flown home.frame).isFitted sys.part = false ∨ home.parts sys.part ≤ 0))
      ∧ ¬ ((h.flown home.frame).wear.Unused (h.flown home.frame).line sys
        ∧ home.usage.asWear.Unused (h.flown home.frame).line sys)
  | _ => False

theorem homeSuit_keeps (home : Homecoming) :
    (h.homeSuit home).1.line = (h.flown home.frame).line
      ∧ ∀ p, (h.homeSuit home).1.isFitted p = ((h.flown home.frame).cameHome home).isFitted p := by
  rw [homeSuit_fst rfl]
  generalize Wear.wearOut _ _ _ _ = out
  exact ⟨rfl, fun _ => rfl⟩

theorem fresh_homeSuit_iff (home : Haul) :
    (h.homeSuit home.toHomecoming).1.Fresh ↔ ¬ h.BringsWearHome (.cameHome home) := by
  have hsys (sys : System)
      (hgone : ((h.flown home.frame).cameHome home.toHomecoming).isFitted sys.part = false) :
      (h.homeSuit home.toHomecoming).1.wear.Unused (h.flown home.frame).line sys
        ↔ (h.flown home.frame).wear.Unused (h.flown home.frame).line sys
          ∧ home.usage.asWear.Unused (h.flown home.frame).line sys := by
    rw [← Wear.unused_add_iff, homeSuit_fst rfl]
    exact Wear.unused_wearOut_iff _ hgone
  obtain ⟨hline, hfitted⟩ := homeSuit_keeps (h := h) home.toHomecoming
  unfold Suit.Fresh
  simp only [hfitted, hline]
  constructor
  · rintro hfresh ⟨sys, hgone, hworn⟩
    have hmissing := (Suit.isFitted_cameHome home.toHomecoming sys.part).mpr hgone
    exact hworn ((hsys sys hmissing).mp (hfresh sys hmissing))
  · intro hnone sys hgone
    refine (hsys sys hgone).mpr (by_contra fun hworn => hnone ⟨sys, ?_, hworn⟩)
    exact (Suit.isFitted_cameHome home.toHomecoming sys.part).mp hgone

/-! ### The other operations -/

theorem fresh_unmount (m : Fin 3) (hbay : h.bay.Fresh) : (h.unmount m).1.bay.Fresh := by
  unfold unmount
  split
  · rename_i s hs
    rw [hs] at hbay
    split
    · rw [hs]
      exact hbay
    · exact hbay.of_wear_eq rfl rfl fun _ => id
  · exact hbay

theorem fresh_unmountAll (l : List (Fin 3)) (hbay : h.bay.Fresh) :
    (h.unmountAll l).bay.Fresh := by
  unfold unmountAll
  induction l generalizing h with
  | nil => exact hbay
  | cons m rest ih => exact ih (fresh_unmount m hbay)

theorem fresh_settleTank (hbay : h.bay.Fresh) : h.settleTank.1.bay.Fresh := by
  unfold settleTank
  split
  · rename_i s hs
    rw [hs] at hbay
    exact hbay.of_wear_eq rfl rfl fun _ => id
  · exact hbay

theorem fresh_strip (slot : Slot) (hbay : h.bay.Fresh) : (h.strip slot).1.bay.Fresh := by
  have hoff : (h.stripOff slot).1.bay.Fresh := by
    cases hdock : h.bay with
    | empty => simpa [stripOff, suit, hdock] using hbay
    | out s => simpa [stripOff, suit, hdock] using hbay
    | docked s =>
      have hs : s.Fresh := by
        rw [hdock] at hbay
        exact hbay
      have hstrips := strips hdock slot
      generalize h.stripOff slot = r at hstrips ⊢
      cases hstrips with
      | refused why => exact hbay
      | torso => trivial
      | @part p c done hp hc => exact fresh_unmountAll _ (hs.detach p)
      | module done hk => exact hs.of_wear_eq rfl rfl fun _ => id
      | weapon done hm => exact fresh_unmount _ hbay
  rw [strip_fst]
  split
  · exact hoff
  · exact fresh_settleTank hoff

theorem fresh_dismantle (hbay : h.bay.Fresh) : h.dismantle.1.bay.Fresh := by
  unfold dismantle
  split
  · exact hbay
  · have hfold (l : List Slot) (h : PilotHangar) (hbay : h.bay.Fresh) :
        (l.foldl (fun h slot => (h.strip slot).1) h).bay.Fresh := by
      induction l generalizing h with
      | nil => exact hbay
      | cons slot rest ih => exact ih _ (fresh_strip slot hbay)
    generalize dismantleSlots = slots
    exact fresh_strip (.part .torso) (hfold slots h hbay)

theorem fresh_fit (item : Item) (hbay : h.bay.Fresh) : (h.fit item).1.bay.Fresh := by
  have hfits := h.fits item
  generalize h.fit item = r at hfits ⊢
  cases hfits with
  | refused why => exact hbay
  | built done hempty htake => exact Suit.fresh_of_empty rfl
  | @part s p u st done hdock hfree htake =>
    rw [hdock] at hbay
    refine hbay.of_wear_eq rfl rfl fun q hq => ?_
    rw [Suit.isFitted_attach, hq, Bool.or_true]
  | module done hdock hpart hfree hnew hfit htake =>
    rw [hdock] at hbay
    exact hbay.of_wear_eq rfl rfl fun _ => id
  | weapon done hdock hslot hw hfree htake =>
    rw [hdock] at hbay
    exact hbay.of_wear_eq rfl rfl fun _ => id

theorem fresh_repair (part : Option Part) (hbay : h.bay.Fresh) :
    (h.repair part).1.bay.Fresh := by
  have hone (s : Suit) (st : PilotHangar × List String × Bool) (p : Part)
      (hst : st.1.bay.Fresh) : (repairPart s st p).1.bay.Fresh := by
    unfold repairPart
    dsimp only
    split
    · exact hst
    · cases hsuit : st.1.suit with
      | error why => exact hst
      | ok s' =>
        have hdock := bay_eq_of_suit hsuit
        dsimp only
        split
        · rw [hdock] at hst
          refine hst.of_wear_eq rfl rfl fun q hq => ?_
          show (Function.update s'.parts p _ q).isSome = true
          by_cases hqp : q = p
          · rw [hqp, Function.update_self]
            rfl
          · rw [Function.update_of_ne hqp]
            exact hq
        · exact hst
  have hfold (s : Suit) (l : List Part) (st : PilotHangar × List String × Bool)
      (hst : st.1.bay.Fresh) : (l.foldl (repairPart s) st).1.bay.Fresh := by
    induction l generalizing st with
    | nil => exact hst
    | cons p rest ih => exact ih _ (hone s st p hst)
  unfold repair
  cases h.suit with
  | error why => exact hbay
  | ok s => cases part <;> dsimp only <;> split <;> exact hfold s _ (h, [], false) hbay

theorem fresh_overhaul (part : Option Part) (hbay : h.bay.Fresh) :
    (h.overhaul part).1.bay.Fresh := by
  have hrestore (cost : List (Item × ℕ)) (mend : Suit → Suit) (what : String)
      (hmend : ∀ s : Suit, s.Fresh → (mend s).Fresh) (st : PilotHangar × List String × Bool)
      (hst : st.1.bay.Fresh) : (restore cost mend what st).1.bay.Fresh := by
    unfold restore
    dsimp only
    split
    · rename_i stores s' htake hsuit
      rw [bay_eq_of_suit hsuit] at hst
      exact hmend s' hst
    · exact hst
  have hfaults (s : Suit) (l : List (System × ℕ)) (st : PilotHangar × List String × Bool)
      (hst : st.1.bay.Fresh) : (l.foldl (overhaulOne s part) st).1.bay.Fresh := by
    induction l generalizing st with
    | nil => exact hst
    | cons e rest ih =>
      refine ih _ ?_
      unfold overhaulOne
      split
      · exact hst
      · refine hrestore _ _ _ ?_ st hst
        intro s' hs' sys hgone
        exact (hs' sys hgone).reset e.1 s.line
  have hserviced (s : Suit) (l : List (System × ℚ)) (st : PilotHangar × List String × Bool)
      (hst : st.1.bay.Fresh) : (l.foldl (serviceOne s part) st).1.bay.Fresh := by
    induction l generalizing st with
    | nil => exact hst
    | cons e rest ih =>
      refine ih _ ?_
      unfold serviceOne
      split
      · exact hst
      · refine hrestore _ _ _ ?_ st hst
        intro s' hs' sys hgone
        exact (hs' sys hgone).reset e.1 s.line
  unfold overhaul
  cases h.suit with
  | error why => exact hbay
  | ok s =>
    dsimp only
    generalize s.wear.systems s.line = worn
    split <;> exact hserviced s worn _ (hfaults s _ (h, [], false) hbay)

theorem fresh_fuel (grade : Grade) (hbay : h.bay.Fresh) : (h.fuel grade).1.bay.Fresh := by
  unfold fuel
  split
  · rename_i s hdock
    rw [hdock] at hbay
    exact hbay.of_wear_eq rfl rfl fun _ => id
  · exact hbay

theorem fresh_launch (hbay : h.bay.Fresh) : h.launch.1.bay.Fresh := by
  have hreload (st : Suit × Stores) (m : Fin 3) (hst : st.1.Fresh) : (reload st m).1.Fresh := by
    unfold reload
    dsimp only
    split
    · exact hst
    · split
      · exact hst
      · exact hst.of_wear_eq rfl rfl fun _ => id
  have hfoldReload (l : List (Fin 3)) (st : Suit × Stores) (hst : st.1.Fresh) :
      (l.foldl reload st).1.Fresh := by
    induction l generalizing st with
    | nil => exact hst
    | cons m rest ih => exact ih _ (hreload st m hst)
  have hfoldRack (l : List Kit) (st : Suit × Stores) (hst : st.1.Fresh) :
      (l.foldl rackUp st).1.Fresh := by
    induction l generalizing st with
    | nil => exact hst
    | cons kit rest ih =>
      refine ih _ ?_
      unfold rackUp
      generalize st.2.takeUpTo (.kit kit) rack = took
      exact hst.of_wear_eq rfl rfl fun _ => id
  unfold launch
  split
  · exact hbay
  · exact hbay
  · rename_i s hdock
    have hs : s.Fresh := by
      rw [hdock] at hbay
      exact hbay
    generalize h.stores.takeUpTo s.grade.item (s.tank - s.propellant) = took
    dsimp only
    split
    · exact hbay
    · exact hfoldRack Kit.all _ (hfoldReload (List.finRange 3) (_, took.2)
        (hs.of_wear_eq rfl rfl fun _ => id))

theorem bay_cameHome (home : Haul) :
    (h.cameHome home).1.bay = .docked (h.homeSuit home.toHomecoming).1 := by
  unfold cameHome
  dsimp only
  cases home.held with
  | none =>
    dsimp only
    rw [bay_foldl (bay_unload _)]
    rfl
  | some desc =>
    dsimp only
    rw [bay_salvage, bay_foldl (bay_unload _)]
    rfl

theorem fresh_recover (hbay : h.bay.Fresh) : h.recover.1.bay.Fresh := by
  unfold recover
  split
  · rename_i s hout
    rw [hout] at hbay
    exact hbay.of_wear_eq rfl rfl fun _ => id
  · exact hbay

theorem fresh_reissue (now : ℕ) (hbay : h.bay.Fresh) : (h.reissue now).1.bay.Fresh := by
  rcases h.reissue_cases now with hsame | ⟨-, hnew⟩
  · rw [hsame]
    exact hbay
  · rw [hnew]
    exact Suit.fresh_of_empty rfl

/-! ### Runs -/

theorem fresh_step_iff (op : BayOp) (hbay : h.bay.Fresh) :
    (h.step op).bay.Fresh ↔ ¬ h.BringsWearHome op := by
  cases op with
  | cameHome home =>
    rw [step, bay_cameHome]
    exact fresh_homeSuit_iff home
  | fit item => exact iff_of_true (fresh_fit item hbay) not_false
  | strip slot => exact iff_of_true (fresh_strip slot hbay) not_false
  | dismantle => exact iff_of_true (fresh_dismantle hbay) not_false
  | repair part => exact iff_of_true (fresh_repair part hbay) not_false
  | overhaul part => exact iff_of_true (fresh_overhaul part hbay) not_false
  | scrap item =>
    rw [step, bay_scrap]
    exact iff_of_true hbay not_false
  | fuel grade => exact iff_of_true (fresh_fuel grade hbay) not_false
  | launch => exact iff_of_true (fresh_launch hbay) not_false
  | recover => exact iff_of_true (fresh_recover hbay) not_false
  | towed wreck torso =>
    rw [step, bay_towed]
    exact iff_of_true hbay not_false
  | reissue now => exact iff_of_true (fresh_reissue now hbay) not_false
  | trade credits stores => exact iff_of_true hbay not_false

/-- In a run from a new pilot's hangar, no part missing from the suit has wear in its systems
exactly when no suit comes home without a part whose systems have worn. -/
theorem starter_fresh_iff (ops : List BayOp) :
    (∀ n, ((ops.take n).foldl step starter).bay.Fresh)
      ↔ Lib.Run.Along step (fun h op => ¬ h.BringsWearHome op) starter ops := by
  have hstarter : starter.bay.Fresh := Suit.fresh_of_empty rfl
  exact Lib.Run.forall_take_iff_along (I := fun h : PilotHangar => h.bay.Fresh)
    (fun _ op hbay => fresh_step_iff op hbay) hstarter

/-- A sortie of a second's burn, home with everything but the backpack. -/
def backpackShotOff : Haul where
  frame := .argo
  parts := fun p => if p = .backpack then 0 else 1 / 2
  mounts := 6
  ammo := fun _ => 0
  propellant := 100
  grade := .standard
  systems := Faults.none
  modules := fun _ => none
  kits := fun _ => 0
  usage := ⟨30, 0, fun _ => 0, 0⟩
  cargoKg := fun _ => 0
  held := none
  bounty := 0

def burnWithoutBackpack (h : PilotHangar) : ℕ :=
  match h.bay with
  | .docked s => if s.isFitted .backpack then 0 else s.wear.main
  | _ => 0

theorem burnWithoutBackpack_eq_zero (hbay : h.bay.Fresh) : h.burnWithoutBackpack = 0 := by
  unfold burnWithoutBackpack
  split
  · rename_i s hdock
    rw [hdock] at hbay
    split
    · rfl
    · rename_i hgone
      exact (hbay .mainThrusters (Bool.eq_false_iff.mpr hgone)).main rfl
  · rfl

theorem burn_outlives_its_backpack :
    ¬ ∀ (ops : List BayOp) (n : ℕ), ((ops.take n).foldl step starter).bay.Fresh := by
  intro hall
  have hburn : (([BayOp.launch, .cameHome backpackShotOff].take 2).foldl step
      starter).burnWithoutBackpack = 30 := by
    decide +kernel
  have hnone := burnWithoutBackpack_eq_zero (hall [.launch, .cameHome backpackShotOff] 2)
  exact absurd (hburn.symm.trans hnone) (by decide)

end PilotHangar

end BeforeColony
