import BeforeColony.Lib.Run
import BeforeColony.Econ.BaySteps

/-!
# The suit stays well-formed

A hangar's suit is well-formed from the start, and every bay operation keeps it so but one:
fitting a weapon asks for a free mount and not for the part that carries it
(`BayOp.hangsLoose`). `starter_well_formed_iff` says that the suit of every state of a run
is well-formed exactly when no step of it does that.
-/

set_option autoImplicit false

namespace BeforeColony

open Catalogue

/-- What a pilot, the sector or the tugs do with the bay. -/
inductive BayOp where
  | fit (item : Item)
  | strip (slot : Slot)
  | dismantle
  | repair (part : Option Part)
  | overhaul (part : Option Part)
  | scrap (item : Item)
  | fuel (grade : Grade)
  | launch
  | cameHome (home : Haul)
  | recover
  | towed (wreck : Option ChunkDesc) (torso : Bool)
  | reissue (now : ℕ)
  /-- What trading and crafting leave the pilot with. -/
  | trade (credits : ℕ) (stores : Stores)

/-- A suit that is docked, with an empty rack, or out. -/
def Bay.WellFormed : Bay → Prop
  | .empty => True
  | .docked s => s.WellFormed ∧ ∀ kit, s.kits kit = 0
  | .out s => s.WellFormed

namespace Suit

variable {s s' : Suit}

/-- `s'` is `s` with nothing changed that well-formedness looks at, and no more faults. -/
structure Mended (s s' : Suit) : Prop where
  line : s'.line = s.line
  fitted : ∀ p, s'.isFitted p = s.isFitted p
  mounts : s'.mounts = s.mounts
  ammo : s'.ammo = s.ammo
  propellant : s'.propellant = s.propellant
  modules : s'.modules = s.modules
  kits : s'.kits = s.kits
  faults : ∀ sys, s'.faults.levelOf sys ≠ 0 → s.isFitted sys.part = true

theorem Mended.rigged (h : s.Mended s') (hs : s.Rigged) : s'.Rigged where
  torso := by rw [h.fitted, hs.torso]
  armed m hm := by
    rw [weaponOn, h.line]
    exact hs.armed m (h.mounts ▸ hm)
  modules i k hi := by
    obtain ⟨hpart, hfit⟩ := hs.modules i k (h.modules ▸ hi)
    exact ⟨hpart, by rw [h.fitted, hfit]⟩
  single i j k hi hj := hs.single i j k (h.modules ▸ hi) (h.modules ▸ hj)
  ammo m := by
    have hfull : s'.fullLoad m = s.fullLoad m := by rw [fullLoad, weaponOn, h.line]; rfl
    rw [h.ammo, hfull]
    exact hs.ammo m
  unarmed m hm := by
    rw [h.ammo]
    exact hs.unarmed m (h.mounts ▸ hm)
  faults sys hsys := by rw [h.fitted, h.faults sys hsys]

theorem Mended.wellFormed (h : s.Mended s') (hs : s.WellFormed) : s'.WellFormed where
  toRigged := h.rigged hs.toRigged
  hung m hm := mountHasItsPart_mono h.line (fun p hp => (h.fitted p).trans hp)
    (hs.hung m (h.mounts ▸ hm))
  propellant := by
    rw [h.propellant, hs.toRigged.tank_eq (h.rigged hs.toRigged) h.line h.modules]
    exact hs.propellant

theorem Mended.refl (hs : s.Rigged) : s.Mended s where
  line := rfl
  fitted _ := rfl
  mounts := rfl
  ammo := rfl
  propellant := rfl
  modules := rfl
  kits := rfl
  faults := hs.faults

theorem faults_wearOut (w : Wear) (f : Faults) (line : FrameId) (fitted : Part → Bool)
    (hf : ∀ sys : System, f.levelOf sys ≠ 0 → fitted sys.part = true) (sys : System)
    (hsys : (w.wearOut f line fitted).2.1.levelOf sys ≠ 0) : fitted sys.part = true := by
  unfold Wear.wearOut at hsys
  generalize w.systems line = l at hsys
  generalize ([] : List System) = out at hsys
  induction l generalizing w f out with
  | nil => exact hf sys hsys
  | cons e rest ih =>
    rw [List.foldl_cons] at hsys
    unfold Wear.wearOutOne at hsys
    split at hsys
    · exact ih w f hf out hsys
    · rename_i hskip
      refine ih _ _ (fun sys' hsys' => ?_) _ hsys
      rw [Faults.levelOf_set] at hsys'
      split at hsys'
      · rename_i he
        rw [he]
        simp only [Bool.or_eq_true, decide_eq_true_eq, Bool.not_eq_true', not_or,
          Bool.not_eq_false] at hskip
        exact hskip.2
      · exact hf sys' hsys'

/-! ### Loading for launch -/

theorem WellFormed.fill (hs : s.WellFormed) (grade : Grade) {kg : ℕ} (hkg : kg ≤ s.tank) :
    { s with propellant := kg, grade := grade }.WellFormed where
  torso := hs.torso
  armed := hs.armed
  modules := hs.modules
  single := hs.single
  ammo := hs.ammo
  unarmed := hs.unarmed
  faults := hs.faults
  hung := hs.hung
  propellant := hkg

theorem WellFormed.load (hs : s.WellFormed) {m : Fin 3} {n : ℕ} (hm : s.mounts m = true)
    (hn : n ≤ s.fullLoad m) :
    { s with ammo := Function.update s.ammo m n }.WellFormed where
  torso := hs.torso
  armed := hs.armed
  modules := hs.modules
  single := hs.single
  ammo m' := by
    show Function.update s.ammo m n m' ≤ s.fullLoad m'
    by_cases hmm : m' = m
    · rw [hmm, Function.update_self]
      exact hn
    · rw [Function.update_of_ne hmm]
      exact hs.ammo m'
  unarmed m' hm' := by
    have hmm : m' ≠ m := fun he => by rw [he, hm] at hm'; cases hm'
    exact (Function.update_of_ne hmm _ _).trans (hs.unarmed m' hm')
  faults := hs.faults
  hung := hs.hung
  propellant := hs.propellant

theorem WellFormed.stock (hs : s.WellFormed) (kits : Kit → ℕ) :
    { s with kits := kits }.WellFormed where
  torso := hs.torso
  armed := hs.armed
  modules := hs.modules
  single := hs.single
  ammo := hs.ammo
  unarmed := hs.unarmed
  faults := hs.faults
  hung := hs.hung
  propellant := hs.propellant

end Suit

namespace PilotHangar

variable {h : PilotHangar} {s : Suit}

theorem wellFormed_reload (st : Suit × Stores) (m : Fin 3) (hs : st.1.WellFormed) :
    (reload st m).1.WellFormed := by
  unfold reload
  dsimp only
  split
  · exact hs
  · split
    · exact hs
    · rename_i hload
      simp only [Bool.or_eq_true, Bool.not_eq_true', decide_eq_true_eq, not_or,
        Bool.not_eq_false] at hload
      exact hs.load hload.1 (min_le_right _ _)

theorem wellFormed_rackUp (st : Suit × Stores) (kit : Kit) (hs : st.1.WellFormed) :
    (rackUp st kit).1.WellFormed := by
  unfold rackUp
  generalize st.2.takeUpTo (.kit kit) rack = took
  exact hs.stock _

theorem wellFormed_foldl {α : Type*} {f : Suit × Stores → α → Suit × Stores}
    (hf : ∀ st a, st.1.WellFormed → (f st a).1.WellFormed) (l : List α) (st : Suit × Stores)
    (hs : st.1.WellFormed) : (l.foldl f st).1.WellFormed := by
  induction l generalizing st with
  | nil => exact hs
  | cons a rest ih => exact ih _ (hf st a hs)

theorem get_takeUpTo_le (st : Stores) (item : Item) (qty : ℕ) : (st.takeUpTo item qty).1 ≤ qty :=
  min_le_right _ _

theorem wellFormed_launch (hwf : h.bay.WellFormed) : h.launch.1.bay.WellFormed := by
  unfold launch
  split
  · exact hwf
  · exact hwf
  · rename_i s hbay
    rw [hbay] at hwf
    dsimp only
    split
    · rw [bay_store, hbay]
      exact hwf
    · have hfull : s.propellant + (h.stores.takeUpTo s.grade.item (s.tank - s.propellant)).1
          ≤ s.tank := by
        have hgot := get_takeUpTo_le h.stores s.grade.item (s.tank - s.propellant)
        have hheld := hwf.1.propellant
        omega
      generalize h.stores.takeUpTo s.grade.item (s.tank - s.propellant) = took at hfull ⊢
      have hloaded := wellFormed_foldl wellFormed_reload (List.finRange 3) (_, took.2)
        (hwf.1.fill s.grade hfull)
      exact wellFormed_foldl wellFormed_rackUp Kit.all _ hloaded

/-! ### Repairs and overhauls -/

def Mending (s : Suit) (h : PilotHangar) : Prop := ∃ s', h.bay = .docked s' ∧ s.Mended s'

theorem Mending.foldl {α : Type*}
    {f : PilotHangar × List String × Bool → α → PilotHangar × List String × Bool}
    (hf : ∀ st a, Mending s st.1 → Mending s (f st a).1) (l : List α)
    (st : PilotHangar × List String × Bool) (hst : Mending s st.1) :
    Mending s (l.foldl f st).1 := by
  induction l generalizing st with
  | nil => exact hst
  | cons a rest ih => exact ih _ (hf st a hst)

theorem Mending.wellFormed (hm : Mending s h) (hwf : s.WellFormed ∧ ∀ kit, s.kits kit = 0) :
    h.bay.WellFormed := by
  obtain ⟨s', hbay, hmend⟩ := hm
  rw [hbay]
  exact ⟨hmend.wellFormed hwf.1, fun kit => by rw [hmend.kits, hwf.2]⟩

theorem mending_repairPart (st : PilotHangar × List String × Bool) (part : Part)
    (hst : Mending s st.1) : Mending s (repairPart s st part).1 := by
  obtain ⟨s', hbay, hmend⟩ := hst
  unfold repairPart
  dsimp only
  split
  · exact ⟨s', hbay, hmend⟩
  · rename_i worn hworn
    rw [suit_eq hbay]
    dsimp only
    split
    · refine ⟨_, bay_dock _ _, { hmend with fitted := fun p => ?_ }⟩
      show (Function.update s'.parts part _ p).isSome = s.isFitted p
      by_cases hp : p = part
      · rw [hp, Function.update_self, Suit.isFitted, hworn]
        rfl
      · rw [Function.update_of_ne hp]
        exact hmend.fitted p
    · exact ⟨s', hbay, hmend⟩

theorem mending_restore {cost : List (Item × ℕ)} {mend : Suit → Suit} {what : String}
    (hf : ∀ s', s.Mended s' → s.Mended (mend s')) (st : PilotHangar × List String × Bool)
    (hst : Mending s st.1) : Mending s (restore cost mend what st).1 := by
  obtain ⟨s', hbay, hmend⟩ := hst
  unfold restore
  dsimp only
  rw [suit_eq hbay]
  cases st.1.stores.takeAll cost 1 with
  | none => exact ⟨s', hbay, hmend⟩
  | some stores => exact ⟨_, bay_dock _ _, hf s' hmend⟩

theorem mending_overhaulOne (part : Option Part) (st : PilotHangar × List String × Bool)
    (e : System × ℕ) (hst : Mending s st.1) : Mending s (overhaulOne s part st e).1 := by
  unfold overhaulOne
  split
  · exact hst
  · refine mending_restore ?_ st hst
    intro s' hmend
    refine { hmend with faults := fun sys hsys => ?_ }
    simp only [Faults.levelOf_set] at hsys
    split at hsys
    · exact absurd rfl hsys
    · exact hmend.faults sys hsys

theorem mending_serviceOne (part : Option Part) (st : PilotHangar × List String × Bool)
    (e : System × ℚ) (hst : Mending s st.1) : Mending s (serviceOne s part st e).1 := by
  unfold serviceOne
  split
  · exact hst
  · refine mending_restore ?_ st hst
    intro s' hmend
    exact { hmend with }

theorem wellFormed_repair (part : Option Part) (hwf : h.bay.WellFormed) :
    (h.repair part).1.bay.WellFormed := by
  unfold repair
  cases hsuit : h.suit with
  | error why => exact hwf
  | ok s =>
    have hbay := bay_eq_of_suit hsuit
    rw [hbay] at hwf
    have hmend (l : List Part) := Mending.foldl mending_repairPart l (h, [], false)
      ⟨s, hbay, .refl hwf.1.toRigged⟩
    cases part <;> dsimp only <;> split <;> exact (hmend _).wellFormed hwf

theorem wellFormed_overhaul (part : Option Part) (hwf : h.bay.WellFormed) :
    (h.overhaul part).1.bay.WellFormed := by
  unfold overhaul
  cases hsuit : h.suit with
  | error why => exact hwf
  | ok s =>
    have hbay := bay_eq_of_suit hsuit
    rw [hbay] at hwf
    have hmend := Mending.foldl (mending_serviceOne part) (s.wear.systems s.line) _
      (Mending.foldl (mending_overhaulOne part) s.faults.toList (h, [], false)
        ⟨s, hbay, .refl hwf.1.toRigged⟩)
    dsimp only
    generalize (s.wear.systems s.line).foldl _ _ = st at hmend ⊢
    split <;> exact hmend.wellFormed hwf

/-! ### Fitting, stripping and fuel -/

/-- A weapon about to go on a free mount whose part is not there. -/
def HangsLoose (h : PilotHangar) : BayOp → Prop
  | .fit (.weapon w) => ∃ s, ∃ m : Fin 3, h.bay = .docked s
      ∧ s.slotFor (.weapon w) = some (.mount m) ∧ s.mountHasItsPart m = false
      ∧ h.stores.has (.weapon w) 1 = true
  | _ => False

theorem has_of_take {st st' : Stores} {item : Item} {qty : ℕ} (h : st.take item qty = some st') :
    st.has item qty = true := decide_eq_true (Stores.has_of_take h)

theorem wellFormed_fit (item : Item) (hwf : h.bay.WellFormed)
    (hcareful : ¬ h.HangsLoose (.fit item)) : (h.fit item).1.bay.WellFormed := by
  have hfits := h.fits item
  generalize h.fit item = r at hfits ⊢
  cases hfits with
  | refused why => exact hwf
  | built done hbay htake => exact ⟨Suit.on_wellFormed _, fun _ => rfl⟩
  | @part s p u st done hbay hfree htake =>
    rw [hbay] at hwf
    have hr := hwf.1.toRigged.attach p u
    have hfit (q : Part) (hq : s.isFitted q = true) : (s.attach p u).isFitted q = true := by
      rw [Suit.isFitted_attach, hq, Bool.or_true]
    refine ⟨{ hr with hung := fun m hm => ?_, propellant := ?_ }, hwf.2⟩
    · exact @Suit.mountHasItsPart_mono s (s.attach p u) rfl hfit m (hwf.1.hung m hm)
    · rw [hwf.1.toRigged.tank_eq hr rfl rfl]
      exact hwf.1.propellant
  | @module s k j st done hbay hpart hfree hnew hfit htake =>
    rw [hbay] at hwf
    have hr := hwf.1.toRigged.equip hpart hnew hfit
    refine ⟨{ hr with hung := hwf.1.hung, propellant := ?_ }, hwf.2⟩
    refine hwf.1.propellant.trans (hwf.1.toRigged.tank_le hr rfl fun i k' hi => ⟨i, ?_⟩)
    have hij : i ≠ j := fun he => by rw [he, hfree] at hi; cases hi
    simpa [Suit.equip, Fin.val_inj, hij] using hi
  | @weapon s w m st done hbay hslot hw hfree htake =>
    rw [hbay] at hwf
    have hr := hwf.1.toRigged.arm (Option.isSome_iff_exists.mpr ⟨w, hw⟩)
    refine ⟨{ hr with hung := fun n hn => ?_, propellant := ?_ }, hwf.2⟩
    · by_cases hnm : n = m
      · subst hnm
        by_contra hloose
        exact hcareful ⟨s, n, hbay, hslot, Bool.eq_false_iff.mpr hloose, has_of_take htake⟩
      · exact hwf.1.hung n (by simpa [Suit.arm, Fin.val_inj, hnm] using hn)
    · rw [hwf.1.toRigged.tank_eq hr rfl rfl]
      exact hwf.1.propellant

/-- Fitting a weapon to a mount without its part leaves it there without its part. -/
theorem not_wellFormed_of_hangsLoose {op : BayOp} (hloose : h.HangsLoose op) :
    ∃ w, op = .fit (.weapon w) ∧ ¬ (h.fit (.weapon w)).1.bay.WellFormed := by
  cases op with
  | fit item =>
    cases item with
    | weapon w =>
      obtain ⟨s, m, hbay, hslot, hpart, hhas⟩ := hloose
      refine ⟨w, rfl, fun hwf => ?_⟩
      have htake : (h.stores.take (.weapon w) 1).isSome = true := by
        unfold Stores.take
        rw [if_neg (by simpa using hhas)]
        rfl
      obtain ⟨st, htake⟩ := Option.isSome_iff_exists.mp htake
      have hfit : (h.fit (.weapon w)).1 = (h.store st).dock (s.arm m) := by
        unfold fit
        rw [hbay]
        dsimp only
        rw [hslot]
        dsimp only
        rw [htake]
      rw [hfit, bay_dock] at hwf
      have hhung := hwf.1.hung m (by simp [Suit.arm])
      exact absurd (hpart.symm.trans hhung) Bool.false_ne_true
    | _ => exact hloose.elim
  | _ => exact hloose.elim

theorem wellFormed_settleTank (hbay : h.bay = .docked s) (hs : s.Rigged)
    (hhung : ∀ m, s.mounts m = true → s.mountHasItsPart m = true)
    (hkits : ∀ kit, s.kits kit = 0) : h.settleTank.1.bay.WellFormed := by
  rw [settleTank_eq hbay]
  refine ⟨{ torso := hs.torso
            armed := hs.armed
            modules := hs.modules
            single := hs.single
            ammo := hs.ammo
            unarmed := hs.unarmed
            faults := hs.faults
            hung := hhung
            propellant := ?_ }, hkits⟩
  show s.propellant - (s.propellant - s.tank) ≤ s.tank
  omega

theorem bay_partStripped {p : Part} {c : ℕ} (harmed : ∀ m, s.mounts m = true →
    (s.weaponOn m).isSome = true) : (h.partStripped s p c).bay
      = .docked ((s.detach p).loose.foldl Suit.disarm (s.detach p)) := by
  unfold partStripped
  exact bay_unmountAll (bay_dock _ _) fun m hm => harmed m (by
    simp only [Suit.loose, List.mem_filter, Bool.and_eq_true] at hm
    exact hm.2.1)

theorem wellFormed_strip (slot : Slot) (hwf : h.bay.WellFormed) :
    (h.strip slot).1.bay.WellFormed := by
  cases hbay : h.bay with
  | empty => simpa [strip_fst, stripOff, suit, hbay] using hwf
  | out s => simpa [strip_fst, stripOff, suit, hbay] using hwf
  | docked s =>
    have hwf' := hwf
    rw [hbay] at hwf'
    have hs := hwf'.1
    rw [strip_fst]
    have hstrips := strips hbay slot
    generalize h.stripOff slot = r at hstrips ⊢
    cases hstrips with
    | refused why => exact hwf
    | torso done hfitted hmounts hmodules => trivial
    | @part p c done hp hc =>
      have hr := (hs.toRigged.detach hp).foldl_disarm (s.detach p).loose
      refine wellFormed_settleTank (bay_partStripped hs.armed) hr
        (fun m hm => Suit.hung_of_loose_off hm) ?_
      rw [Suit.foldl_disarm]
      exact hwf'.2
    | @module i k done hk =>
      exact wellFormed_settleTank (bay_dock _ _) (hs.toRigged.unequip i) hs.hung hwf'.2
    | @weapon m done hm =>
      obtain ⟨w, hw⟩ := Option.isSome_iff_exists.mp (hs.armed m hm)
      rw [unmount_eq hbay hw]
      refine wellFormed_settleTank (bay_dock _ _) (hs.toRigged.disarm m) (fun n hn => ?_) hwf'.2
      by_cases hnm : n = m
      · simp [Suit.disarm, hnm] at hn
      · exact hs.hung n (by simpa [Suit.disarm, hnm] using hn)

theorem wellFormed_dismantle (hwf : h.bay.WellFormed) : h.dismantle.1.bay.WellFormed := by
  unfold dismantle
  split
  · exact hwf
  · have hfold (l : List Slot) (h : PilotHangar) (hwf : h.bay.WellFormed) :
        (l.foldl (fun h slot => (h.strip slot).1) h).bay.WellFormed := by
      induction l generalizing h with
      | nil => exact hwf
      | cons slot rest ih => exact ih _ (wellFormed_strip slot hwf)
    generalize dismantleSlots = l
    exact wellFormed_strip _ (hfold l h hwf)

theorem wellFormed_fuel (grade : Grade) (hwf : h.bay.WellFormed) :
    (h.fuel grade).1.bay.WellFormed := by
  unfold fuel
  split
  · rename_i s hbay
    rw [hbay] at hwf
    dsimp only
    generalize h.stores.add _ _ = st
    have hgot := get_takeUpTo_le st grade.item (s.tank - (s.propellant
      - if s.grade ≠ grade then s.propellant else 0))
    have hheld := hwf.1.propellant
    refine ⟨hwf.1.fill grade ?_, hwf.2⟩
    show _ + (st.takeUpTo grade.item (s.tank - (s.propellant
      - if s.grade ≠ grade then s.propellant else 0))).1 ≤ s.tank
    omega
  · exact hwf

/-! ### Home again -/

theorem rigged_flown (frame : FrameId) (hwf : h.bay.WellFormed) : (h.flown frame).Rigged := by
  unfold flown
  cases hbay : h.bay with
  | empty => exact Suit.complete_rigged _
  | docked s =>
    rw [hbay] at hwf
    exact hwf.1.toRigged
  | out s =>
    rw [hbay] at hwf
    exact hwf.toRigged

theorem homeSuit_fst {home : Homecoming} (hs : (h.flown home.frame).cameHome home = s) :
    (h.homeSuit home).1 =
      { s with
        wear := ((s.wear.add home.usage).wearOut s.faults s.line s.isFitted).1
        faults := ((s.wear.add home.usage).wearOut s.faults s.line s.isFitted).2.1
        kits := fun _ => 0 } := by
  subst hs
  rfl

theorem wellFormed_homeSuit (home : Homecoming) (hwf : h.bay.WellFormed) :
    (h.homeSuit home).1.WellFormed := by
  have hcame := (rigged_flown home.frame hwf).cameHome home
  generalize hs : (h.flown home.frame).cameHome home = s at hcame
  have hfaults := Suit.faults_wearOut (s.wear.add home.usage) _ s.line _ hcame.faults
  rw [homeSuit_fst hs]
  generalize (s.wear.add home.usage).wearOut s.faults s.line s.isFitted = out at hfaults ⊢
  refine Suit.Mended.wellFormed (s := { s with kits := fun _ => 0 }) ?_ (hcame.stock _)
  exact { Suit.Mended.refl (hcame.stock _).toRigged with faults := hfaults }

theorem wellFormed_cameHome (home : Haul) (hwf : h.bay.WellFormed) :
    (h.cameHome home).1.bay.WellFormed := by
  have hdocked : (Bay.docked (h.homeSuit home.toHomecoming).1).WellFormed :=
    ⟨wellFormed_homeSuit home.toHomecoming hwf, fun _ => by rw [homeSuit_fst rfl]⟩
  unfold cameHome
  dsimp only
  cases home.held with
  | none =>
    dsimp only
    rw [bay_foldl (bay_unload _)]
    exact hdocked
  | some desc =>
    dsimp only
    rw [bay_salvage, bay_foldl (bay_unload _)]
    exact hdocked

theorem wellFormed_recover (hwf : h.bay.WellFormed) : h.recover.1.bay.WellFormed := by
  unfold recover
  split
  · rename_i s hbay
    rw [hbay] at hwf
    exact ⟨hwf.stock _, fun _ => rfl⟩
  · exact hwf

/-- A suit is reissued into an empty bay, or nothing changes. -/
theorem reissue_cases (h : PilotHangar) (now : ℕ) : (h.reissue now).1 = h ∨
    h.bay = .empty ∧
      (h.reissue now).1 = { h with bay := .docked wornArgo, reissuedAt := some now } := by
  unfold reissue
  cases hbay : h.bay with
  | empty =>
    simp only
    split
    · exact .inl rfl
    · split
      · exact .inl rfl
      · split
        · exact .inl rfl
        · exact .inr ⟨trivial, rfl⟩
  | docked suit => exact .inl rfl
  | out suit => exact .inl rfl

theorem wellFormed_reissue (now : ℕ) (hwf : h.bay.WellFormed) :
    (h.reissue now).1.bay.WellFormed := by
  rcases h.reissue_cases now with hsame | ⟨-, hnew⟩
  · rw [hsame]
    exact hwf
  · rw [hnew]
    exact ⟨Suit.wornArgo_wellFormed, fun _ => rfl⟩

/-! ### Runs -/

def step (h : PilotHangar) : BayOp → PilotHangar
  | .fit item => (h.fit item).1
  | .strip slot => (h.strip slot).1
  | .dismantle => h.dismantle.1
  | .repair part => (h.repair part).1
  | .overhaul part => (h.overhaul part).1
  | .scrap item => (h.scrap item).1
  | .fuel grade => (h.fuel grade).1
  | .launch => h.launch.1
  | .cameHome home => (h.cameHome home).1
  | .recover => h.recover.1
  | .towed wreck torso => (h.towed wreck torso).1
  | .reissue now => (h.reissue now).1
  | .trade credits stores => { (h.store stores) with credits }

theorem wellFormed_step_iff (op : BayOp) (hwf : h.bay.WellFormed) :
    (h.step op).bay.WellFormed ↔ ¬ h.HangsLoose op := by
  constructor
  · intro hnext hloose
    obtain ⟨w, rfl, hnot⟩ := not_wellFormed_of_hangsLoose hloose
    exact hnot hnext
  · intro hpart
    cases op with
    | fit item => exact wellFormed_fit item hwf hpart
    | strip slot => exact wellFormed_strip slot hwf
    | dismantle => exact wellFormed_dismantle hwf
    | repair part => exact wellFormed_repair part hwf
    | overhaul part => exact wellFormed_overhaul part hwf
    | scrap item => rw [step, bay_scrap]; exact hwf
    | fuel grade => exact wellFormed_fuel grade hwf
    | launch => exact wellFormed_launch hwf
    | cameHome home => rw [step]; exact wellFormed_cameHome home hwf
    | recover => exact wellFormed_recover hwf
    | towed wreck torso => rw [step, bay_towed]; exact hwf
    | reissue now => exact wellFormed_reissue now hwf
    | trade credits stores => exact hwf

/-- In a run from a new pilot's hangar, the suit of every state is well-formed exactly when no
step hangs a weapon on a mount whose part is not fitted. -/
theorem starter_well_formed_iff (ops : List BayOp) :
    (∀ n, ((ops.take n).foldl step starter).bay.WellFormed)
      ↔ Lib.Run.Along step (fun h op => ¬ h.HangsLoose op) starter ops := by
  have hstarter : starter.bay.WellFormed := ⟨Suit.wornArgo_wellFormed, fun _ => rfl⟩
  exact Lib.Run.forall_take_iff_along (I := fun h : PilotHangar => h.bay.WellFormed)
    (fun _ op hwf => wellFormed_step_iff op hwf) hstarter

def cannonWithoutItsArm : List BayOp :=
  [.strip (.mount 1), .strip (.part .armL), .fit (.weapon .machineCannon)]

def looseMounts (h : PilotHangar) : List (Fin 3) :=
  match h.bay with
  | .docked s => s.loose
  | _ => []

theorem looseMounts_eq_nil (hwf : h.bay.WellFormed) : h.looseMounts = [] := by
  unfold looseMounts
  split
  · rename_i s hbay
    rw [hbay] at hwf
    rw [Suit.loose, List.filter_eq_nil_iff]
    intro m _
    simpa using hwf.1.hung m
  · rfl

theorem cannon_hangs_loose :
    ¬ ∀ (ops : List BayOp) (n : ℕ), ((ops.take n).foldl step starter).bay.WellFormed := by
  intro hall
  have hloose : ((cannonWithoutItsArm.take 3).foldl step starter).looseMounts = [1] := by
    decide +kernel
  have hnone := looseMounts_eq_nil (hall cannonWithoutItsArm 3)
  exact absurd (hloose.symm.trans hnone) (by decide)

end PilotHangar

end BeforeColony
