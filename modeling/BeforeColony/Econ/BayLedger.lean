import Mathlib.Data.Multiset.AddSub
import Mathlib.Tactic.Abel
import BeforeColony.Econ.Loading

/-!
# Nothing is lost in the bay

What is fitted, stripped, dismantled and pumped moves between the stores and the suit: every part
with its condition and its faults, every weapon and module, and each grade's propellant is still
there, in one or the other (`PilotHangar.Kept`). A suit on its torso comes apart altogether.
-/

set_option autoImplicit false

namespace BeforeColony

open Catalogue

/-- A part as its own type says one is: armour left, and only its own systems' faults. -/
structure PartUnit.Proper (u : PartUnit) : Prop where
  worn : 1 ≤ u.condition
  new : u.condition ≤ 100
  own : u.faults.ofPart u.part = u.faults

instance (u : PartUnit) : Decidable u.Proper :=
  decidable_of_iff (1 ≤ u.condition ∧ u.condition ≤ 100 ∧ u.faults.ofPart u.part = u.faults)
    ⟨fun h => ⟨h.1, h.2.1, h.2.2⟩, fun h => ⟨h.worn, h.new, h.own⟩⟩

namespace Suit

variable {s s' : Suit} {p : Part}

def unitAt (s : Suit) (p : Part) : Multiset PartUnit :=
  (s.parts p).elim 0 fun c => {⟨s.line, p, c, s.faults.ofPart p⟩}

def units (s : Suit) : Multiset PartUnit := (Part.all.map s.unitAt).sum

/-- How much of an item the suit has on it: weapons on its mounts, modules, and what is in its tank. -/
def carried (s : Suit) : Item → ℕ
  | .weapon w => ∑ m, if s.mounts m = true ∧ s.weaponOn m = some w then 1 else 0
  | .module k => ∑ i, if s.modules i = some k then 1 else 0
  | item => if item = s.grade.item then s.propellant else 0

/-- A suit on its torso, its weapons those of its line. -/
structure Standing (s : Suit) : Prop where
  torso : s.isFitted .torso = true
  armed : ∀ m, s.mounts m = true → (s.weaponOn m).isSome

theorem units_changed {t : Suit} (h : ∀ q, q ≠ p → t.unitAt q = s.unitAt q) :
    t.units + s.unitAt p = s.units + t.unitAt p := by
  unfold units
  cases p <;> simp [Part.all, h] <;> abel

theorem sum_changed {n : ℕ} {f g : Fin n → ℕ} {j : Fin n} (h : ∀ i, i ≠ j → g i = f i) :
    ∑ i, g i + f j = ∑ i, f i + g j := by
  have hrest : ∑ i ∈ Finset.univ.erase j, g i = ∑ i ∈ Finset.univ.erase j, f i :=
    Finset.sum_congr rfl fun i hi => h i (Finset.ne_of_mem_erase hi)
  rw [← Finset.add_sum_erase _ g (Finset.mem_univ j),
    ← Finset.add_sum_erase _ f (Finset.mem_univ j), hrest]
  omega

theorem unitAt_congr (hline : s'.line = s.line) (hpart : s'.parts p = s.parts p)
    (hfaults : s'.faults.ofPart p = s.faults.ofPart p) : s'.unitAt p = s.unitAt p := by
  rw [unitAt, unitAt, hline, hpart, hfaults]

theorem unitAt_none (h : s.parts p = none) : s.unitAt p = 0 := by
  rw [unitAt, h, Option.elim_none]

theorem units_attach {u : PartUnit} (hfree : s.isFitted p = false) (hline : u.line = s.line)
    (hpart : u.part = p) (hu : u.Proper) : (s.attach p u).units = s.units + {u} := by
  have hchanged := units_changed (s := s) (t := s.attach p u) (p := p) fun q hq => by
    refine unitAt_congr rfl ?_ ?_
    · exact Function.update_of_ne hq _ _
    · exact Faults.ofPart_withPart_of_ne _ _ hq
  have hnone : s.parts p = none := by
    simpa [isFitted] using hfree
  have hself : (s.attach p u).unitAt p = {u} := by
    have hown := hu.own
    subst hpart
    simp only [unitAt, attach, Function.update_self, Option.elim_some, Faults.ofPart_withPart_self,
      hown, ← hline]
  rw [unitAt_none hnone, add_zero, hself] at hchanged
  exact hchanged

theorem units_detach {c : ℕ} (hc : s.parts p = some c) :
    (s.detach p).units + {⟨s.line, p, c, s.faults.ofPart p⟩} = s.units := by
  have hchanged := units_changed (s := s) (t := s.detach p) (p := p) fun q hq => by
    refine unitAt_congr rfl ?_ ?_
    · exact Function.update_of_ne hq _ _
    · exact Faults.ofPart_withPart_of_ne _ _ hq
  have hnone : (s.detach p).parts p = none := Function.update_self _ _ _
  have hself : s.unitAt p = {⟨s.line, p, c, s.faults.ofPart p⟩} := by
    rw [unitAt, hc, Option.elim_some]
  rw [unitAt_none hnone, add_zero, hself] at hchanged
  exact hchanged

theorem units_congr (hline : s'.line = s.line) (hparts : s'.parts = s.parts)
    (hfaults : s'.faults = s.faults) : s'.units = s.units := by
  unfold units
  congr 2
  funext p
  exact unitAt_congr hline (by rw [hparts]) (by rw [hfaults])

theorem units_on {u : PartUnit} (hpart : u.part = .torso) (hu : u.Proper) : (on u).units = {u} := by
  have hother (q : Part) (hq : q ≠ .torso) : (on u).unitAt q = 0 := by
    apply unitAt_none
    change Function.update (fun _ => none) Part.torso _ q = none
    rw [Function.update_of_ne hq]
  have hself : (on u).unitAt .torso = {u} := by
    obtain ⟨line, part, c, faults⟩ := u
    obtain ⟨hworn, hnew, hown⟩ := hu
    cases hpart
    have hclamp : max 1 (min c 100) = c := by
      simp only at hworn hnew
      omega
    simp only [unitAt, on, Function.update_self, Option.elim_some, Faults.ofPart_withPart_self, hclamp]
    rw [hown]
  simp [units, Part.all, hother, hself]

theorem only_torso (htorso : s.isFitted .torso = true) (hfitted : s.fitted.length ≤ 1)
    (hp : p ≠ .torso) : s.parts p = none := by
  have hlength : s.fitted.length = Part.all.countP fun q => s.isFitted q := by
    unfold fitted
    rw [List.length_filterMap_eq_countP]
    congr 1
    funext q
    rw [Option.isSome_map]
    rfl
  have hfree : s.isFitted p = false := by
    by_contra hon
    rw [Bool.not_eq_false] at hon
    rw [hlength] at hfitted
    revert hfitted
    cases p with
    | torso => exact absurd rfl hp
    | _ =>
      simp only [Part.all, List.countP_cons, List.countP_nil, htorso, hon, if_true]
      omega
  simpa [isFitted] using hfree

theorem units_torso {c : ℕ} (hc : s.parts .torso = some c)
    (hnone : ∀ p, p ≠ .torso → s.parts p = none) :
    s.units = {⟨s.line, .torso, c, s.faults.ofPart .torso⟩} := by
  have hother (q : Part) (hq : q ≠ .torso) : s.unitAt q = 0 := unitAt_none (hnone q hq)
  have hself : s.unitAt .torso = {⟨s.line, .torso, c, s.faults.ofPart .torso⟩} := by
    rw [unitAt, hc, Option.elim_some]
  simp [units, Part.all, hother, hself]

/-! ### What is carried -/

theorem carried_equip {j : Fin 5} {k : ModuleKind} (hfree : s.modules j = none) :
    (s.equip j k).carried (.module k) = s.carried (.module k) + 1
      ∧ ∀ item, item ≠ .module k → (s.equip j k).carried item = s.carried item := by
  have hself : (s.equip j k).modules j = some k := by simp [equip]
  have hrest (i : Fin 5) (hi : i ≠ j) : (s.equip j k).modules i = s.modules i :=
    if_neg fun h => hi (Fin.ext h)
  have hcount (k' : ModuleKind) := sum_changed (j := j)
    (f := fun i => if s.modules i = some k' then 1 else 0)
    (g := fun i => if (s.equip j k).modules i = some k' then 1 else 0)
    fun i hi => by rw [hrest i hi]
  constructor
  · have hk := hcount k
    simp only [hfree, hself, reduceCtorEq, if_false, if_true, add_zero] at hk
    exact hk
  · intro item hne
    cases item with
    | module k' =>
      have hk := hcount k'
      have hkk : k ≠ k' := fun h => hne (by rw [h])
      simp only [hfree, hself, Option.some.injEq, hkk, reduceCtorEq, if_false, add_zero] at hk
      exact hk
    | _ => rfl

theorem carried_congr {t : Suit} (hline : t.line = s.line) (hmounts : t.mounts = s.mounts)
    (hmodules : t.modules = s.modules) (hgrade : t.grade = s.grade)
    (hpropellant : t.propellant = s.propellant) (item : Item) : t.carried item = s.carried item := by
  cases s
  cases t
  cases hline
  cases hmounts
  cases hmodules
  cases hgrade
  cases hpropellant
  cases item <;> rfl

theorem carried_unequip {i : Fin 5} {k : ModuleKind} (hk : s.modules i = some k) :
    (s.unequip i).carried (.module k) + 1 = s.carried (.module k)
      ∧ ∀ item, item ≠ .module k → (s.unequip i).carried item = s.carried item := by
  have hfree : (s.unequip i).modules i = none := Function.update_self _ _ _
  have hback : ((s.unequip i).equip i k).modules = s.modules := by
    funext j
    by_cases hj : j = i
    · subst hj
      simp [equip, hk]
    · have hne : (j : ℕ) ≠ i := fun h => hj (Fin.ext h)
      simp [equip, unequip, hne, hj]
  have hsame := carried_congr (s := s) (t := (s.unequip i).equip i k) rfl rfl hback rfl rfl
  obtain ⟨hself, hrest⟩ := carried_equip (k := k) hfree
  constructor
  · rw [← hself, hsame]
  · intro item hne
    rw [← hrest item hne, hsame]

theorem carried_arm {m : Fin 3} {w : WeaponKind} (hw : s.weaponOn m = some w)
    (hfree : s.mounts m = false) :
    (s.arm m).carried (.weapon w) = s.carried (.weapon w) + 1
      ∧ ∀ item, item ≠ .weapon w → (s.arm m).carried item = s.carried item := by
  have hself : (s.arm m).mounts m = true := by simp [arm]
  have hrest (n : Fin 3) (hn : n ≠ m) : (s.arm m).mounts n = s.mounts n :=
    if_neg fun h => hn (Fin.ext h)
  have hweapon (n : Fin 3) : (s.arm m).weaponOn n = s.weaponOn n := rfl
  have hcount (w' : WeaponKind) := sum_changed (j := m)
    (f := fun n => if s.mounts n = true ∧ s.weaponOn n = some w' then 1 else 0)
    (g := fun n => if (s.arm m).mounts n = true ∧ (s.arm m).weaponOn n = some w' then 1 else 0)
    fun n hn => by rw [hrest n hn, hweapon]
  constructor
  · have hm := hcount w
    simp only [hfree, hself, hweapon, hw, Bool.false_eq_true, false_and, and_self, if_false, if_true,
      add_zero] at hm
    exact hm
  · intro item hne
    cases item with
    | weapon w' =>
      have hm := hcount w'
      have hww : w ≠ w' := fun h => hne (by rw [h])
      simp only [hfree, hself, hweapon, hw, Option.some.injEq, hww, Bool.false_eq_true, and_false,
        if_false, add_zero] at hm
      exact hm
    | _ => rfl

theorem carried_disarm {m : Fin 3} {w : WeaponKind} (hw : s.weaponOn m = some w)
    (hon : s.mounts m = true) :
    (s.disarm m).carried (.weapon w) + 1 = s.carried (.weapon w)
      ∧ ∀ item, item ≠ .weapon w → (s.disarm m).carried item = s.carried item := by
  have hfree : (s.disarm m).mounts m = false := Function.update_self _ _ _
  have hback : ((s.disarm m).arm m).mounts = s.mounts := by
    funext n
    by_cases hn : n = m
    · subst hn
      simp [arm, hon]
    · have hne : (n : ℕ) ≠ m := fun h => hn (Fin.ext h)
      simp [arm, disarm, hne, hn]
  have hsame := carried_congr (s := s) (t := (s.disarm m).arm m) rfl hback rfl rfl rfl
  obtain ⟨hself, hrest⟩ := carried_arm (s := s.disarm m) hw hfree
  constructor
  · rw [← hself, hsame]
  · intro item hne
    rw [← hrest item hne, hsame]

theorem countP_filterMap_eq {α : Type*} (f : α → Option ModuleKind) (k : ModuleKind) (l : List α) :
    (l.filterMap f).countP (fun k' => Item.module k = .module k')
      = (l.map fun i => if f i = some k then 1 else 0).sum := by
  induction l with
  | nil => rfl
  | cons a rest ih =>
    rw [List.filterMap_cons, List.map_cons, List.sum_cons, ← ih]
    cases hf : f a with
    | none => simp
    | some k' =>
      by_cases hk : k = k'
      · simp [hk, Nat.add_comm]
      · simp [hk, Ne.symm hk]

theorem carried_grade (s : Suit) (g : Grade) :
    s.carried g.item = if g = s.grade then s.propellant else 0 := by
  have hiff : (g.item = s.grade.item) = (g = s.grade) := propext Grade.item_injective.eq_iff
  cases g <;> simp only [carried, Grade.item] at hiff ⊢ <;> simp only [hiff]

/-- The equipment that comes off with a part, and what stays. -/
theorem carried_detach (s : Suit) (p : Part) (item : Item) :
    (s.detach p).carried item + (s.gearOn p).countP (fun k => item = .module k) = s.carried item := by
  cases item with
  | module k =>
    simp only [gearOn, carried]
    rw [countP_filterMap_eq, Fin.sum_univ_def, Fin.sum_univ_def, ← List.sum_map_add]
    congr 2
    funext i
    by_cases hi : moduleMounts i = p
    · simp [detach, hi]
    · simp [detach, hi]
  | _ =>
    rw [List.countP_eq_zero.mpr (by simp), add_zero]
    rfl

theorem carried_on (u : PartUnit) (item : Item) : (on u).carried item = 0 := by
  cases item with
  | weapon w => simp [carried, on]
  | module k => simp [carried, on]
  | _ =>
    unfold carried
    dsimp only
    split <;> rfl

end Suit

def Bay.units : Bay → Multiset PartUnit
  | .empty => 0
  | .docked s | .out s => s.units

def Bay.carried : Bay → Item → ℕ
  | .empty, _ => 0
  | .docked s, item | .out s, item => s.carried item

/-- What is counted over the stores and the suit: weapons, modules and each grade's propellant. -/
def Tracked (item : Item) : Prop :=
  (∃ w, item = .weapon w) ∨ (∃ k, item = .module k) ∨ ∃ g : Grade, item = g.item

namespace Tracked

variable {item : Item}

theorem weapon (w : WeaponKind) : Tracked (.weapon w) := Or.inl ⟨w, rfl⟩

theorem module (k : ModuleKind) : Tracked (.module k) := Or.inr (Or.inl ⟨k, rfl⟩)

theorem grade (g : Grade) : Tracked g.item := Or.inr (Or.inr ⟨g, rfl⟩)

theorem not_part (h : Tracked item) (line : FrameId) (p : Part) : item ≠ .part line p := by
  rintro rfl
  rcases h with ⟨w, hw⟩ | ⟨k, hk⟩ | ⟨g, hg⟩
  · cases hw
  · cases hk
  · cases g <;> cases hg

theorem ne_munitions (h : Tracked item) : item ≠ munitions := by
  rintro rfl
  rcases h with ⟨w, hw⟩ | ⟨k, hk⟩ | ⟨g, hg⟩
  · cases hw
  · cases hk
  · cases g <;> cases hg

end Tracked

namespace Stores

variable {st st' : Stores} {line : FrameId} {p : Part} {u : PartUnit} {item : Item}

theorem takeBestPart_spec (h : st.takeBestPart line p = some (u, st')) :
    u.line = line ∧ u.part = p ∧ (st'.parts : Multiset PartUnit) + {u} = st.parts
      ∧ st'.stock = st.stock := by
  unfold takeBestPart at h
  obtain ⟨v, hv, hpair⟩ := Option.map_eq_some_iff.mp h
  cases hpair
  have hkind := List.find?_some hv
  simp only [ofKind, Bool.and_eq_true, decide_eq_true_eq] at hkind
  obtain ⟨-, l, r, hsplit, hbefore⟩ := List.find?_eq_some_iff_append.mp hv
  have herase : st.parts.eraseP (ofKind line p) = l ++ r := by
    rw [hsplit, List.eraseP_append_right _ fun a ha => by simpa using hbefore a ha]
    rw [List.eraseP_cons_of_pos]
    simpa [ofKind] using hkind
  refine ⟨hkind.1, hkind.2, ?_, rfl⟩
  change ((st.parts.eraseP (ofKind line p) : List PartUnit) : Multiset PartUnit) + {u} = st.parts
  rw [herase, hsplit]
  simp only [← Multiset.coe_add, ← Multiset.cons_coe, ← Multiset.singleton_add]
  abel

theorem get_bulk (hbulk : ∀ line p, item ≠ .part line p) (hstock : st'.stock = st.stock) :
    st'.get item = st.get item := by
  cases item with
  | part line p => exact absurd rfl (hbulk line p)
  | _ => simp only [get, hstock]

theorem get_addPart_bulk (hbulk : ∀ line p, item ≠ .part line p) (st : Stores) (u : PartUnit) :
    (st.addPart u).get item = st.get item := get_bulk hbulk rfl

/-- A part as its type says one is goes on the shelf as it is. -/
theorem parts_addPart (st : Stores) (hu : u.Proper) :
    ((st.addPart u).parts : Multiset PartUnit) = st.parts + {u} := by
  have hclamp : { u with condition := max 1 (min u.condition 100) } = u := by
    obtain ⟨line, p, c, faults⟩ := u
    obtain ⟨hworn, hnew, -⟩ := hu
    simp only at hworn hnew
    have hc : max 1 (min c 100) = c := by omega
    rw [hc]
  have hperm := List.perm_orderedInsert PartUnit.before u st.parts
  rw [addPart, hclamp, Multiset.coe_eq_coe.mpr hperm, ← Multiset.cons_coe, ← Multiset.singleton_add,
    Multiset.add_comm]

theorem parts_add (hbulk : ∀ line p, item ≠ .part line p) (st : Stores) (qty : ℕ) :
    (st.add item qty).parts = st.parts := by
  unfold add
  split
  · rfl
  · cases item with
    | part line p => exact absurd rfl (hbulk line p)
    | _ => rfl

theorem parts_take {qty : ℕ} (hbulk : ∀ line p, item ≠ .part line p)
    (h : st.take item qty = some st') : st'.parts = st.parts := by
  unfold take at h
  split at h
  · cases h
  · cases item with
    | part line p => exact absurd rfl (hbulk line p)
    | _ =>
      cases h
      rfl

theorem takeUpTo_spec (hbulk : ∀ line p, item ≠ .part line p) (st : Stores) (qty : ℕ) :
    (st.takeUpTo item qty).2.parts = st.parts
      ∧ ∀ item', (st.takeUpTo item qty).2.get item'
          + (if item' = item then (st.takeUpTo item qty).1 else 0) = st.get item' := by
  obtain ⟨st', htake⟩ := take_of_le (min_le_left (st.get item) qty)
  have hpair : st.takeUpTo item qty = (min (st.get item) qty, st') := by
    simp only [takeUpTo, htake, Option.getD_some]
  rw [hpair]
  exact ⟨parts_take hbulk htake, fun item' => get_take htake item'⟩

end Stores

namespace PilotHangar

variable {h h' h'' : PilotHangar} {s : Suit}

def units (h : PilotHangar) : Multiset PartUnit := h.stores.parts + h.bay.units

def held (h : PilotHangar) (item : Item) : ℕ := h.stores.get item + h.bay.carried item

/-- Nothing is lost and nothing gained, in the stores and on the suit together. -/
structure Kept (h h' : PilotHangar) : Prop where
  units : h'.units = h.units
  held : ∀ item, Tracked item → h'.held item = h.held item

/-- The suit in the bay stands on its torso, and the parts are as their type says. -/
structure Ready (h : PilotHangar) : Prop where
  standing : ∀ s, h.bay = .docked s → s.Standing
  proper : ∀ u ∈ h.units, u.Proper

theorem Ready.shelf (hready : h.Ready) {u : PartUnit} (hu : u ∈ h.stores.parts) : u.Proper :=
  hready.proper u (Multiset.mem_add.mpr (Or.inl hu))

theorem Ready.fitted (hready : h.Ready) (hbay : h.bay = .docked s) {p : Part} {c : ℕ}
    (hc : s.parts p = some c) : PartUnit.Proper ⟨s.line, p, c, s.faults.ofPart p⟩ := by
  apply hready.proper
  apply Multiset.mem_add.mpr
  right
  rw [hbay, Bay.units, ← Suit.units_detach hc]
  simp

theorem Kept.refl (h : PilotHangar) : Kept h h := ⟨rfl, fun _ _ => rfl⟩

theorem Kept.trans (hk : Kept h h') (hk' : Kept h' h'') : Kept h h'' where
  units := hk'.units.trans hk.units
  held item htracked := (hk'.held item htracked).trans (hk.held item htracked)

/-! ### Fitting -/

theorem kept_fit (hready : h.Ready) (item : Item) : Kept h (h.fit item).1 := by
  have hfits := h.fits item
  generalize h.fit item = r at hfits ⊢
  cases hfits with
  | refused why => exact .refl h
  | @built line u st done hbay htake =>
    obtain ⟨-, hpart, hparts, hstock⟩ := Stores.takeBestPart_spec htake
    have hmem : u ∈ h.stores.parts := by
      rw [← Multiset.mem_coe, ← hparts]
      simp
    constructor
    · change (st.parts : Multiset PartUnit) + (Suit.on u).units = h.stores.parts + h.bay.units
      rw [Suit.units_on hpart (hready.shelf hmem), hparts, hbay, Bay.units, add_zero]
    · intro item htracked
      change st.get item + (Suit.on u).carried item = h.stores.get item + h.bay.carried item
      rw [Suit.carried_on, Stores.get_bulk htracked.not_part hstock, hbay, Bay.carried]
  | @part s p u st done hbay hfree htake =>
    obtain ⟨hline, hpart, hparts, hstock⟩ := Stores.takeBestPart_spec htake
    have hmem : u ∈ h.stores.parts := by
      rw [← Multiset.mem_coe, ← hparts]
      simp
    constructor
    · change (st.parts : Multiset PartUnit) + (s.attach p u).units = h.stores.parts + h.bay.units
      rw [Suit.units_attach hfree hline hpart (hready.shelf hmem), ← hparts, hbay, Bay.units]
      abel
    · intro item htracked
      change st.get item + (s.attach p u).carried item = h.stores.get item + h.bay.carried item
      have hsame : (s.attach p u).carried item = s.carried item :=
        Suit.carried_congr rfl rfl rfl rfl rfl item
      rw [hsame, Stores.get_bulk htracked.not_part hstock, hbay, Bay.carried]
  | @module s k j st done hbay hpart hfree hnew hfit htake =>
    obtain ⟨hself, hrest⟩ := Suit.carried_equip (k := k) hfree
    constructor
    · have hsame : (s.equip j k).units = s.units := Suit.units_congr rfl rfl rfl
      change (st.parts : Multiset PartUnit) + (s.equip j k).units = h.stores.parts + h.bay.units
      rw [Stores.parts_take (Tracked.module k).not_part htake, hsame, hbay, Bay.units]
    · intro item htracked
      have hget := Stores.get_take htake item
      change st.get item + (s.equip j k).carried item = h.stores.get item + h.bay.carried item
      rw [hbay, Bay.carried]
      by_cases hitem : item = .module k
      · rw [if_pos hitem] at hget
        rw [hitem] at hget ⊢
        omega
      · rw [if_neg hitem] at hget
        rw [hrest item hitem]
        omega
  | @weapon s w m st done hbay hslot hw hfree htake =>
    obtain ⟨hself, hrest⟩ := Suit.carried_arm hw hfree
    constructor
    · have hsame : (s.arm m).units = s.units := Suit.units_congr rfl rfl rfl
      change (st.parts : Multiset PartUnit) + (s.arm m).units = h.stores.parts + h.bay.units
      rw [Stores.parts_take (Tracked.weapon w).not_part htake, hsame, hbay, Bay.units]
    · intro item htracked
      have hget := Stores.get_take htake item
      change st.get item + (s.arm m).carried item = h.stores.get item + h.bay.carried item
      rw [hbay, Bay.carried]
      by_cases hitem : item = .weapon w
      · rw [if_pos hitem] at hget
        rw [hitem] at hget ⊢
        omega
      · rw [if_neg hitem] at hget
        rw [hrest item hitem]
        omega

/-! ### Taking off -/

theorem munitions_ne_part (line : FrameId) (p : Part) : munitions ≠ .part line p := by
  intro h
  cases h

theorem kept_unmount {m : Fin 3} (hbay : h.bay = .docked s) (hon : s.mounts m = true)
    (harmed : (s.weaponOn m).isSome) : Kept h (h.unmount m).1 := by
  obtain ⟨w, hw⟩ := Option.isSome_iff_exists.mp harmed
  obtain ⟨hself, hrest⟩ := Suit.carried_disarm hw hon
  rw [unmount_eq hbay hw]
  constructor
  · change ((unloaded h.stores s m w).parts : Multiset PartUnit) + (s.disarm m).units
      = h.stores.parts + h.bay.units
    have hparts : (unloaded h.stores s m w).parts = h.stores.parts := by
      rw [unloaded, Stores.parts_add (Tracked.weapon w).not_part]
      split
      · exact Stores.parts_add munitions_ne_part _ _
      · rfl
    have hsame : (s.disarm m).units = s.units := Suit.units_congr rfl rfl rfl
    rw [hparts, hsame, hbay, Bay.units]
  · intro item htracked
    have hget : (unloaded h.stores s m w).get item
        = h.stores.get item + if item = .weapon w then 1 else 0 := by
      rw [unloaded, Stores.get_add]
      split
      · rw [Stores.get_add, if_neg htracked.ne_munitions, add_zero]
      · rfl
    change (unloaded h.stores s m w).get item + (s.disarm m).carried item
      = h.stores.get item + h.bay.carried item
    rw [hget, hbay, Bay.carried]
    by_cases hitem : item = .weapon w
    · rw [if_pos hitem, hitem]
      omega
    · rw [if_neg hitem, hrest item hitem, add_zero]

theorem kept_unmountAll {l : List (Fin 3)} (hbay : h.bay = .docked s) (hnodup : l.Nodup)
    (hon : ∀ m ∈ l, s.mounts m = true) (harmed : ∀ m ∈ l, (s.weaponOn m).isSome) :
    Kept h (h.unmountAll l) := by
  induction l generalizing h s with
  | nil => exact .refl h
  | cons m rest ih =>
    obtain ⟨hm, hrest⟩ := List.nodup_cons.mp hnodup
    obtain ⟨w, hw⟩ := Option.isSome_iff_exists.mp (harmed m List.mem_cons_self)
    have hone := kept_unmount hbay (hon m List.mem_cons_self) (harmed m List.mem_cons_self)
    have hdock : (h.unmount m).1.bay = .docked (s.disarm m) := by
      rw [unmount_eq hbay hw]
      rfl
    refine hone.trans (ih hdock hrest ?_ ?_)
    · intro n hn
      have hne : n ≠ m := fun he => hm (he ▸ hn)
      exact (Function.update_of_ne hne _ _).trans (hon n (List.mem_cons_of_mem m hn))
    · exact fun n hn => harmed n (List.mem_cons_of_mem m hn)

theorem kept_pump {s' : Suit} {kg : ℕ} (hbay : h.bay = .docked s) (hkg : kg ≤ s.propellant)
    (hs' : s' = { s with propellant := s.propellant - kg }) :
    Kept h ((h.store (h.stores.add s.grade.item kg)).dock s') := by
  subst hs'
  constructor
  · have hsame : Suit.units { s with propellant := s.propellant - kg } = s.units :=
      Suit.units_congr rfl rfl rfl
    change ((h.stores.add s.grade.item kg).parts : Multiset PartUnit) + Suit.units _
      = h.stores.parts + h.bay.units
    rw [Stores.parts_add (Tracked.grade s.grade).not_part, hsame, hbay, Bay.units]
  · intro item htracked
    change (h.stores.add s.grade.item kg).get item
      + Suit.carried { s with propellant := s.propellant - kg } item
      = h.stores.get item + h.bay.carried item
    rw [Stores.get_add, hbay, Bay.carried]
    rcases htracked with ⟨w, rfl⟩ | ⟨k, rfl⟩ | ⟨g, rfl⟩
    · rw [if_neg (by cases s.grade <;> exact Item.noConfusion)]
      rfl
    · rw [if_neg (by cases s.grade <;> exact Item.noConfusion)]
      rfl
    · rw [Suit.carried_grade, Suit.carried_grade]
      simp only [Grade.item_injective.eq_iff]
      split <;> omega

theorem kept_settleTank (h : PilotHangar) : Kept h h.settleTank.1 := by
  cases hbay : h.bay with
  | empty =>
    rw [settleTank, hbay]
    exact .refl h
  | out s =>
    rw [settleTank, hbay]
    exact .refl h
  | docked s =>
    rw [settleTank_eq hbay]
    exact kept_pump hbay (Nat.sub_le _ _) rfl

theorem kept_torsoStripped (hready : h.Ready) (hbay : h.bay = .docked s)
    (hfitted : s.fitted.length ≤ 1) (hmounts : ∀ m, s.mounts m = false)
    (hmodules : ∀ i, s.modules i = none) : Kept h (h.torsoStripped s) := by
  have hs := hready.standing s hbay
  obtain ⟨c, hc⟩ := Option.isSome_iff_exists.mp hs.torso
  have hproper := hready.fitted hbay hc
  constructor
  · change (((h.stores.addPart
        ⟨s.line, .torso, (s.parts .torso).getD 1, s.faults.ofPart .torso⟩).add s.grade.item
          s.propellant).parts : Multiset PartUnit) + 0 = h.stores.parts + h.bay.units
    rw [Stores.parts_add (Tracked.grade s.grade).not_part, hc, Option.getD_some,
      Stores.parts_addPart _ hproper, add_zero, hbay, Bay.units,
      Suit.units_torso hc fun p hp => Suit.only_torso hs.torso hfitted hp]
  · intro item htracked
    change ((h.stores.addPart ⟨s.line, .torso, (s.parts .torso).getD 1, s.faults.ofPart .torso⟩).add
        s.grade.item s.propellant).get item + 0 = h.stores.get item + h.bay.carried item
    rw [Stores.get_add, Stores.get_addPart_bulk htracked.not_part, hbay, Bay.carried]
    rcases htracked with ⟨w, rfl⟩ | ⟨k, rfl⟩ | ⟨g, rfl⟩
    · rw [if_neg (by cases s.grade <;> exact Item.noConfusion)]
      simp [Suit.carried, hmounts]
    · rw [if_neg (by cases s.grade <;> exact Item.noConfusion)]
      simp [Suit.carried, hmodules]
    · rw [Suit.carried_grade]
      simp only [Grade.item_injective.eq_iff, add_zero]

theorem get_gear (gear : List ModuleKind) (st : Stores) (item : Item) :
    (gear.foldl (fun st kind => st.add (.module kind) 1) st).get item
      = st.get item + gear.countP fun k => item = .module k := by
  induction gear generalizing st with
  | nil => rfl
  | cons k rest ih =>
    rw [List.foldl_cons, ih, Stores.get_add, List.countP_cons]
    simp only [decide_eq_true_eq]
    omega

theorem parts_gear (gear : List ModuleKind) (st : Stores) :
    (gear.foldl (fun st kind => st.add (.module kind) 1) st).parts = st.parts := by
  induction gear generalizing st with
  | nil => rfl
  | cons k rest ih => rw [List.foldl_cons, ih, Stores.parts_add (Tracked.module k).not_part]

theorem mem_loose {m : Fin 3} : m ∈ s.loose ↔ s.mounts m = true ∧ s.mountHasItsPart m = false := by
  simp [Suit.loose]

theorem kept_partStripped {p : Part} {c : ℕ} (hready : h.Ready) (hbay : h.bay = .docked s)
    (hc : s.parts p = some c) : Kept h (h.partStripped s p c) := by
  have hs := hready.standing s hbay
  have hproper := hready.fitted hbay hc
  have hloose : Kept (h.dock (s.detach p)) ((h.dock (s.detach p)).unmountAll (s.detach p).loose) := by
    apply kept_unmountAll rfl
    · exact (List.nodup_finRange 3).filter _
    · exact fun m hm => (mem_loose.mp hm).1
    · exact fun m hm => hs.armed m (mem_loose.mp hm).1
  unfold partStripped
  generalize (h.dock (s.detach p)).unmountAll (s.detach p).loose = off at hloose
  constructor
  · have hunits : (off.stores.parts : Multiset PartUnit) + off.bay.units
        = h.stores.parts + (s.detach p).units := hloose.units
    have hdetach := Suit.units_detach hc
    change ((((s.gearOn p).foldl (fun st kind => st.add (.module kind) 1) off.stores).addPart
        ⟨s.line, p, c, s.faults.ofPart p⟩).parts : Multiset PartUnit) + off.bay.units
      = h.stores.parts + h.bay.units
    rw [Stores.parts_addPart _ hproper, parts_gear, add_right_comm, hunits, add_assoc, hdetach, hbay,
      Bay.units]
  · intro item htracked
    have hheld : off.stores.get item + off.bay.carried item
        = h.stores.get item + (s.detach p).carried item := hloose.held item htracked
    change (((s.gearOn p).foldl (fun st kind => st.add (.module kind) 1) off.stores).addPart
        ⟨s.line, p, c, s.faults.ofPart p⟩).get item + off.bay.carried item
      = h.stores.get item + h.bay.carried item
    rw [Stores.get_addPart_bulk htracked.not_part, get_gear, hbay, Bay.carried]
    have hdetach := s.carried_detach p item
    omega

theorem kept_stripOff (hready : h.Ready) (slot : Slot) : Kept h (h.stripOff slot).1 := by
  cases hbay : h.bay with
  | empty =>
    rw [stripOff, suit, hbay]
    exact .refl h
  | out s =>
    rw [stripOff, suit, hbay]
    exact .refl h
  | docked s =>
    have hs := hready.standing s hbay
    have hstrips := strips hbay slot
    generalize h.stripOff slot = r at hstrips ⊢
    cases hstrips with
    | refused why => exact .refl h
    | torso done hfitted hmounts hmodules =>
      exact kept_torsoStripped hready hbay hfitted hmounts hmodules
    | part done hp hc => exact kept_partStripped hready hbay hc
    | @module i k done hk =>
      obtain ⟨hself, hrest⟩ := Suit.carried_unequip hk
      constructor
      · have hsame : (s.unequip i).units = s.units := Suit.units_congr rfl rfl rfl
        change ((h.stores.add (.module k) 1).parts : Multiset PartUnit) + (s.unequip i).units
          = h.stores.parts + h.bay.units
        rw [Stores.parts_add (Tracked.module k).not_part, hsame, hbay, Bay.units]
      · intro item htracked
        change (h.stores.add (.module k) 1).get item + (s.unequip i).carried item
          = h.stores.get item + h.bay.carried item
        rw [Stores.get_add, hbay, Bay.carried]
        by_cases hitem : item = .module k
        · rw [if_pos hitem, hitem]
          omega
        · rw [if_neg hitem, hrest item hitem, add_zero]
    | weapon done hm => exact kept_unmount hbay hm (hs.armed _ hm)

theorem kept_strip (hready : h.Ready) (slot : Slot) : Kept h (h.strip slot).1 := by
  have hoff := kept_stripOff hready slot
  rw [strip_fst]
  split
  · exact hoff
  · exact hoff.trans (kept_settleTank _)

/-! ### Fuelling -/

/-- What is in the tank of another grade is pumped back, then the tank is filled. -/
theorem fuel_eq (hbay : h.bay = .docked s) (grade : Grade) :
    ∃ pumped want, pumped = (if s.grade ≠ grade then s.propellant else 0)
      ∧ (h.fuel grade).1
        = (h.store ((h.stores.add s.grade.item pumped).takeUpTo grade.item want).2).dock
          { s with
            propellant := s.propellant - pumped
              + ((h.stores.add s.grade.item pumped).takeUpTo grade.item want).1
            grade } := by
  unfold fuel
  rw [hbay]
  exact ⟨_, _, rfl, rfl⟩

theorem kept_fuel (h : PilotHangar) (grade : Grade) : Kept h (h.fuel grade).1 := by
  cases hbay : h.bay with
  | empty =>
    rw [fuel, hbay]
    exact .refl h
  | out s =>
    rw [fuel, hbay]
    exact .refl h
  | docked s =>
    obtain ⟨pumped, want, hpumped, heq⟩ := fuel_eq hbay grade
    obtain ⟨hparts, hget⟩ := Stores.takeUpTo_spec (Tracked.grade grade).not_part
      (h.stores.add s.grade.item pumped) want
    rw [heq]
    generalize (h.stores.add s.grade.item pumped).takeUpTo grade.item want = took at hparts hget ⊢
    constructor
    · have hsame : Suit.units { s with propellant := s.propellant - pumped + took.1, grade }
          = s.units := Suit.units_congr rfl rfl rfl
      change (took.2.parts : Multiset PartUnit) + Suit.units _ = h.stores.parts + h.bay.units
      rw [hsame, hparts, Stores.parts_add (Tracked.grade s.grade).not_part, hbay, Bay.units]
    · intro item htracked
      have hitem := hget item
      rw [Stores.get_add] at hitem
      change took.2.get item
          + Suit.carried { s with propellant := s.propellant - pumped + took.1, grade } item
        = h.stores.get item + h.bay.carried item
      rw [hbay, Bay.carried]
      rcases htracked with ⟨w, rfl⟩ | ⟨k, rfl⟩ | ⟨g, rfl⟩
      · rw [if_neg (by cases grade <;> exact Item.noConfusion),
          if_neg (by cases s.grade <;> exact Item.noConfusion)] at hitem
        exact congrArg (fun n => n + s.carried (.weapon w)) hitem
      · rw [if_neg (by cases grade <;> exact Item.noConfusion),
          if_neg (by cases s.grade <;> exact Item.noConfusion)] at hitem
        exact congrArg (fun n => n + s.carried (.module k)) hitem
      · rw [Suit.carried_grade, Suit.carried_grade]
        simp only [Grade.item_injective.eq_iff] at hitem ⊢
        by_cases hgrade : s.grade = grade
        · rw [if_neg (not_not.mpr hgrade)] at hpumped
          rw [hgrade] at hitem ⊢
          by_cases hg : g = grade
          · simp only [hg, if_true] at hitem ⊢
            omega
          · simp only [hg, if_false] at hitem ⊢
            exact hitem
        · rw [if_pos hgrade] at hpumped
          by_cases hg : g = grade
          · rw [if_pos hg] at hitem ⊢
            rw [hg, if_neg (Ne.symm hgrade)] at hitem ⊢
            omega
          · rw [if_neg hg] at hitem ⊢
            rw [hpumped] at hitem
            exact hitem

end PilotHangar

/-! ### Taking it apart -/

namespace Suit

variable {s s' s'' : Suit} {slot : Slot}

structure Barer (s s' : Suit) : Prop where
  line : s'.line = s.line
  torso : s'.isFitted .torso = s.isFitted .torso
  parts : ∀ p, s.isFitted p = false → s'.isFitted p = false
  mounts : ∀ m, s.mounts m = false → s'.mounts m = false
  modules : ∀ i, s.modules i = none → s'.modules i = none

def Bare (s : Suit) : Slot → Prop
  | .part p => s.isFitted p = false
  | .mount m => ∀ n : Fin 3, n.val = m → s.mounts n = false
  | .module m => ∀ i : Fin 5, i.val = m → s.modules i = none

theorem Barer.refl (s : Suit) : s.Barer s :=
  ⟨rfl, rfl, fun _ h => h, fun _ h => h, fun _ h => h⟩

theorem Barer.trans (h : s.Barer s') (h' : s'.Barer s'') : s.Barer s'' where
  line := h'.line.trans h.line
  torso := h'.torso.trans h.torso
  parts p hp := h'.parts p (h.parts p hp)
  mounts m hm := h'.mounts m (h.mounts m hm)
  modules i hi := h'.modules i (h.modules i hi)

theorem Barer.bare (h : s.Barer s') (hbare : s.Bare slot) : s'.Bare slot := by
  cases slot with
  | part p => exact h.parts p hbare
  | mount m => exact fun n hn => h.mounts n (hbare n hn)
  | module m => exact fun i hi => h.modules i (hbare i hi)

theorem Barer.standing (h : s.Barer s') (hs : s.Standing) : s'.Standing where
  torso := h.torso.trans hs.torso
  armed m hm := by
    have hon : s.mounts m = true := by
      by_contra hoff
      rw [h.mounts m (Bool.eq_false_iff.mpr hoff)] at hm
      cases hm
    have harmed := hs.armed m hon
    rwa [weaponOn, h.line]

theorem barer_disarm (s : Suit) (m : Fin 3) : s.Barer (s.disarm m) where
  line := rfl
  torso := rfl
  parts _ h := h
  mounts n hn := by
    by_cases hnm : n = m
    · rw [hnm]
      exact Function.update_self _ _ _
    · exact (Function.update_of_ne hnm _ _).trans hn
  modules _ h := h

theorem barer_foldl_disarm (l : List (Fin 3)) (s : Suit) : s.Barer (l.foldl disarm s) := by
  induction l generalizing s with
  | nil => exact .refl s
  | cons m rest ih => exact (barer_disarm s m).trans (ih _)

theorem barer_unequip (s : Suit) (i : Fin 5) : s.Barer (s.unequip i) where
  line := rfl
  torso := rfl
  parts _ h := h
  mounts _ h := h
  modules j hj := by
    by_cases hji : j = i
    · rw [hji]
      exact Function.update_self _ _ _
    · exact (Function.update_of_ne hji _ _).trans hj

theorem barer_detach (s : Suit) {p : Part} (hp : p ≠ .torso) : s.Barer (s.detach p) where
  line := rfl
  torso := by
    rw [isFitted_detach, decide_eq_true (Ne.symm hp), Bool.true_and]
  parts q hq := by
    rw [isFitted_detach, hq, Bool.and_false]
  mounts _ h := h
  modules i hi := by
    change (if moduleMounts i = p then none else s.modules i) = none
    rw [hi, ite_self]

theorem barer_pump (s : Suit) (kg : ℕ) : s.Barer { s with propellant := kg } :=
  ⟨rfl, rfl, fun _ h => h, fun _ h => h, fun _ h => h⟩

end Suit

namespace PilotHangar

variable {h : PilotHangar} {s : Suit} {slot : Slot}

theorem bare_of_refused {why : String} (hbay : h.bay = .docked s) (hslot : slot ≠ .part .torso)
    (hrefused : (h.stripOff slot).2 = .error why) : s.Bare slot := by
  unfold stripOff at hrefused
  rw [suit_eq hbay] at hrefused
  cases slot with
  | part p =>
    have hnone : s.parts p = none := by
      have hpart : (h.stripPart s p).2 = .error why := by
        cases p with
        | torso => exact absurd rfl hslot
        | _ => exact hrefused
      unfold stripPart at hpart
      cases hc : s.parts p with
      | none => rfl
      | some c =>
        rw [hc] at hpart
        cases hpart
    change s.isFitted p = false
    rw [Suit.isFitted, hnone]
    rfl
  | mount m =>
    intro n hn
    by_contra hon
    dsimp only at hrefused
    split at hrefused
    · rename_i hnone
      have hskip := List.find?_eq_none.mp hnone n (List.mem_finRange n)
      simp [hn, hon] at hskip
    · cases hrefused
  | module m =>
    intro i hi
    by_contra hon
    dsimp only at hrefused
    split at hrefused
    · rename_i hnone
      have hskip := List.find?_eq_none.mp hnone i (List.mem_finRange i)
      simp [hi, Option.isSome_iff_ne_none.mpr hon] at hskip
    · rename_i j hj
      have hfound := List.find?_some hj
      split at hrefused
      · rename_i hnone
        simp [hnone] at hfound
      · cases hrefused

theorem bay_settleTank (hbay : h.bay = .docked s) :
    ∃ kg, h.settleTank.1.bay = .docked { s with propellant := kg } := by
  rw [settleTank_eq hbay]
  exact ⟨_, rfl⟩

theorem bay_strip (hs : s.Standing) (hbay : h.bay = .docked s) (hslot : slot ≠ .part .torso) :
    ∃ s', (h.strip slot).1.bay = .docked s' ∧ s.Barer s' ∧ s'.Bare slot := by
  have hoff : ∃ s', (h.stripOff slot).1.bay = .docked s' ∧ s.Barer s' ∧ s'.Bare slot := by
    have hrefused (why : String) : (h.stripOff slot).2 = .error why → s.Bare slot :=
      bare_of_refused hbay hslot
    have hstrips := strips hbay slot
    generalize h.stripOff slot = r at hstrips hrefused ⊢
    cases hstrips with
    | refused slot why => exact ⟨s, hbay, .refl s, hrefused why rfl⟩
    | torso done hfitted hmounts hmodules => exact absurd rfl hslot
    | @part p c done hp hc =>
      have hbarer := Suit.barer_foldl_disarm (s.detach p).loose (s.detach p)
      refine ⟨_, bay_partStripped hs.armed, (s.barer_detach hp).trans hbarer, ?_⟩
      apply hbarer.parts
      rw [Suit.isFitted_detach]
      simp
    | @module i k done hk =>
      refine ⟨_, rfl, s.barer_unequip i, ?_⟩
      intro j hj
      rw [Fin.ext hj]
      exact Function.update_self _ _ _
    | @weapon m done hm =>
      obtain ⟨w, hw⟩ := Option.isSome_iff_exists.mp (hs.armed m hm)
      refine ⟨s.disarm m, ?_, s.barer_disarm m, ?_⟩
      · rw [unmount_eq hbay hw]
        rfl
      · intro n hn
        rw [Fin.ext hn]
        exact Function.update_self _ _ _
  obtain ⟨s', hdock, hbarer, hbare⟩ := hoff
  rw [strip_fst]
  split
  · exact ⟨s', hdock, hbarer, hbare⟩
  · obtain ⟨kg, hkg⟩ := bay_settleTank hdock
    exact ⟨_, hkg, hbarer.trans (s'.barer_pump kg), (s'.barer_pump kg).bare hbare⟩

theorem bay_foldl_strip {l : List Slot} (hs : s.Standing) (hbay : h.bay = .docked s)
    (hl : ∀ slot ∈ l, slot ≠ .part .torso) :
    ∃ s', (l.foldl (fun h slot => (h.strip slot).1) h).bay = .docked s' ∧ s.Barer s'
      ∧ ∀ slot ∈ l, s'.Bare slot := by
  induction l generalizing h s with
  | nil => exact ⟨s, hbay, .refl s, fun _ hslot => absurd hslot List.not_mem_nil⟩
  | cons slot rest ih =>
    obtain ⟨s', hdock, hbarer, hbare⟩ := bay_strip hs hbay (hl slot List.mem_cons_self)
    obtain ⟨s'', hdock', hbarer', hbare'⟩ := ih (hbarer.standing hs) hdock
      fun slot hslot => hl slot (List.mem_cons_of_mem _ hslot)
    refine ⟨s'', hdock', hbarer.trans hbarer', ?_⟩
    intro slot' hslot'
    rcases List.mem_cons.mp hslot' with rfl | hrest
    · exact hbarer'.bare hbare
    · exact hbare' slot' hrest

theorem mem_dismantleSlots : (∀ m : Fin 3, Slot.mount m ∈ dismantleSlots)
    ∧ (∀ i : Fin 5, Slot.module i ∈ dismantleSlots)
    ∧ (∀ p : Part, p ≠ .torso → Slot.part p ∈ dismantleSlots)
    ∧ ∀ slot ∈ dismantleSlots, slot ≠ .part .torso := by
  refine ⟨by decide, by decide, ?_, by decide⟩
  intro p hp
  cases p with
  | torso => exact absurd rfl hp
  | _ => decide

theorem dismantle_empties (hs : s.Standing) (hbay : h.bay = .docked s) :
    h.dismantle.1.bay = .empty ∧ h.dismantle.2 = .ok "THE BAY IS EMPTY" := by
  obtain ⟨hmount, hmodule, hpart, hnot⟩ := mem_dismantleSlots
  obtain ⟨s', hdock, -, hbare⟩ := bay_foldl_strip hs hbay hnot
  have hmounts (m : Fin 3) : s'.mounts m = false := hbare _ (hmount m) m rfl
  have hmodules (i : Fin 5) : s'.modules i = none := hbare _ (hmodule i) i rfl
  have hfitted : ¬ 1 < s'.fitted.length := by
    have hnone (p : Part) (hp : p ≠ .torso) : s'.parts p = none := by
      have hfree : s'.isFitted p = false := hbare _ (hpart p hp)
      simpa [Suit.isFitted] using hfree
    unfold Suit.fitted
    cases htorso : s'.parts .torso <;>
      simp [Part.all, hnone .head, hnone .armL, hnone .armR, hnone .legs, hnone .backpack, htorso]
  have hbare : ¬ (1 < s'.fitted.length ∨ (List.finRange 3).any s'.mounts = true) := by
    simp [hfitted, hmounts]
  have hempty : ¬ ((List.finRange 5).any fun i => (s'.modules i).isSome) = true := by
    simp [hmodules]
  unfold dismantle
  rw [suit_eq hbay]
  dsimp only
  generalize dismantleSlots.foldl (fun h slot => (h.strip slot).1) h = bared at hdock
  unfold strip stripOff
  rw [suit_eq hdock]
  dsimp only
  unfold stripTorso
  rw [if_neg hbare, if_neg hempty]
  exact ⟨rfl, rfl⟩

/-! ### Any run in the bay -/

theorem Ready.kept (hready : h.Ready) {h' : PilotHangar} (hkept : Kept h h')
    (hstanding : ∀ s, h'.bay = .docked s → s.Standing) : h'.Ready where
  standing := hstanding
  proper := hkept.units ▸ hready.proper

theorem ready_fit (hready : h.Ready) (item : Item) : (h.fit item).1.Ready := by
  apply hready.kept (kept_fit hready item)
  have hfits := h.fits item
  generalize h.fit item = r at hfits ⊢
  cases hfits with
  | refused why => exact hready.standing
  | built done hbay htake =>
    intro s hs
    cases hs
    exact ⟨rfl, fun m hm => by cases hm⟩
  | @part s p u st done hbay hfree htake =>
    intro s' hs'
    cases hs'
    have hs := hready.standing s hbay
    refine ⟨?_, hs.armed⟩
    rw [Suit.isFitted_attach, hs.torso, Bool.or_true]
  | module done hbay hpart hfree hnew hfit htake =>
    intro s' hs'
    cases hs'
    have hs := hready.standing _ hbay
    exact ⟨hs.torso, hs.armed⟩
  | @weapon s w m st done hbay hslot hw hfree htake =>
    intro s' hs'
    cases hs'
    have hs := hready.standing s hbay
    refine ⟨hs.torso, ?_⟩
    intro n hn
    by_cases hnm : n = m
    · rw [hnm]
      exact Option.isSome_iff_exists.mpr ⟨w, hw⟩
    · have hne : (n : ℕ) ≠ m := fun he => hnm (Fin.ext he)
      exact hs.armed n (by simpa [Suit.arm, hne] using hn)

theorem ready_strip (hready : h.Ready) (slot : Slot) : (h.strip slot).1.Ready := by
  apply hready.kept (kept_strip hready slot)
  cases hbay : h.bay with
  | empty =>
    have hsame : (h.strip slot).1.bay = .empty := by simp [strip_fst, stripOff, suit, hbay]
    intro s hs
    rw [hsame] at hs
    cases hs
  | out s =>
    have hsame : (h.strip slot).1.bay = .out s := by simp [strip_fst, stripOff, suit, hbay]
    intro s' hs'
    rw [hsame] at hs'
    cases hs'
  | docked s =>
    have hs := hready.standing s hbay
    by_cases hslot : slot = .part .torso
    · rw [hslot, strip_fst]
      have hstrips := strips hbay (.part .torso)
      generalize h.stripOff (.part .torso) = r at hstrips ⊢
      cases hstrips with
      | refused slot why => exact hready.standing
      | torso done hfitted hmounts hmodules =>
        intro s' hs'
        cases hs'
      | part done hp hc => exact absurd rfl hp
    · obtain ⟨s', hdock, hbarer, -⟩ := bay_strip hs hbay hslot
      intro s'' hs''
      rw [hdock] at hs''
      cases hs''
      exact hbarer.standing hs

theorem ready_fuel (hready : h.Ready) (grade : Grade) : (h.fuel grade).1.Ready := by
  apply hready.kept (kept_fuel h grade)
  cases hbay : h.bay with
  | empty =>
    rw [fuel, hbay]
    exact hready.standing
  | out s =>
    rw [fuel, hbay]
    exact hready.standing
  | docked s =>
    obtain ⟨pumped, want, -, heq⟩ := fuel_eq hbay grade
    have hs := hready.standing s hbay
    rw [heq]
    intro s' hs'
    cases hs'
    exact ⟨hs.torso, hs.armed⟩

theorem kept_dismantle (hready : h.Ready) : Kept h h.dismantle.1 ∧ h.dismantle.1.Ready := by
  have hfold (l : List Slot) (h : PilotHangar) (hready : h.Ready) :
      Kept h (l.foldl (fun h slot => (h.strip slot).1) h)
        ∧ (l.foldl (fun h slot => (h.strip slot).1) h).Ready := by
    induction l generalizing h with
    | nil => exact ⟨.refl h, hready⟩
    | cons slot rest ih =>
      obtain ⟨hkept, hlast⟩ := ih _ (ready_strip hready slot)
      exact ⟨(kept_strip hready slot).trans hkept, hlast⟩
  unfold dismantle
  split
  · exact ⟨.refl h, hready⟩
  · obtain ⟨hkept, hlast⟩ := hfold dismantleSlots h hready
    exact ⟨hkept.trans (kept_strip hlast _), ready_strip hlast _⟩

inductive FittingOp where
  | fit (item : Item)
  | strip (slot : Slot)
  | dismantle
  | fuel (grade : Grade)

def fittingStep (h : PilotHangar) : FittingOp → PilotHangar
  | .fit item => (h.fit item).1
  | .strip slot => (h.strip slot).1
  | .dismantle => h.dismantle.1
  | .fuel grade => (h.fuel grade).1

def fittings (h : PilotHangar) (ops : List FittingOp) : PilotHangar := ops.foldl fittingStep h

theorem kept_fittingStep (hready : h.Ready) (op : FittingOp) :
    Kept h (h.fittingStep op) ∧ (h.fittingStep op).Ready := by
  cases op with
  | fit item => exact ⟨kept_fit hready item, ready_fit hready item⟩
  | strip slot => exact ⟨kept_strip hready slot, ready_strip hready slot⟩
  | dismantle => exact kept_dismantle hready
  | fuel grade => exact ⟨kept_fuel h grade, ready_fuel hready grade⟩

theorem kept_fittings (hready : h.Ready) (ops : List FittingOp) :
    Kept h (h.fittings ops) ∧ (h.fittings ops).Ready := by
  unfold fittings
  induction ops generalizing h with
  | nil => exact ⟨.refl h, hready⟩
  | cons op rest ih =>
    obtain ⟨hkept, hnext⟩ := kept_fittingStep hready op
    obtain ⟨hkept', hlast⟩ := ih hnext
    exact ⟨hkept.trans hkept', hlast⟩

theorem munitionsHeld_fuel (h : PilotHangar) (grade : Grade) :
    (h.fuel grade).1.munitionsHeld ≤ h.munitionsHeld := by
  cases hbay : h.bay with
  | empty => rw [fuel, hbay]
  | out s => rw [fuel, hbay]
  | docked s =>
    obtain ⟨pumped, want, -, heq⟩ := fuel_eq hbay grade
    rw [heq]
    apply munitionsHeld_le
    · change ((h.stores.add s.grade.item pumped).takeUpTo grade.item want).2.get munitions = _
      rw [get_takeUpTo (grade_item_ne grade), munitions_add (grade_item_ne s.grade)]
    · rw [hbay]
      exact le_rfl

theorem munitionsHeld_fittings (h : PilotHangar) (ops : List FittingOp) :
    (h.fittings ops).munitionsHeld ≤ h.munitionsHeld := by
  unfold fittings
  induction ops generalizing h with
  | nil => exact le_rfl
  | cons op rest ih =>
    apply (ih (h.fittingStep op)).trans
    cases op with
    | fit item => exact munitionsHeld_fit h item
    | strip slot => exact munitionsHeld_strip h slot
    | dismantle => exact munitionsHeld_dismantle h
    | fuel grade => exact munitionsHeld_fuel h grade

/-- Whatever is fitted, stripped, dismantled and fuelled of a suit that could be standing in the bay,
every part, weapon and module and each grade's propellant is still in the stores or on the suit, and
the munitions and those in the rounds never grow; and the suit can always be dismantled. -/
theorem bay_conserves (hbay : h.bay = .docked s) (hs : s.WellFormed)
    (hproper : ∀ u ∈ h.units, u.Proper) (ops later : List FittingOp) :
    (h.fittings ops).units = h.units
      ∧ (∀ w, (h.fittings ops).held (.weapon w) = h.held (.weapon w))
      ∧ (∀ k, (h.fittings ops).held (.module k) = h.held (.module k))
      ∧ (∀ g : Grade, (h.fittings ops).held g.item = h.held g.item)
      ∧ (h.fittings (ops ++ later)).munitionsHeld ≤ (h.fittings ops).munitionsHeld
      ∧ ∀ s', (h.fittings ops).bay = .docked s' →
        (h.fittings ops).dismantle.1.bay = .empty
          ∧ (h.fittings ops).dismantle.2 = .ok "THE BAY IS EMPTY" := by
  have hready : h.Ready := by
    refine ⟨fun s' hs' => ?_, hproper⟩
    cases hbay.symm.trans hs'
    exact ⟨hs.torso, hs.armed⟩
  obtain ⟨hkept, hlast⟩ := kept_fittings hready ops
  refine ⟨hkept.units, fun w => hkept.held _ (.weapon w), fun k => hkept.held _ (.module k),
    fun g => hkept.held _ (.grade g), ?_, fun s' hs' => dismantle_empties (hlast.standing s' hs') hs'⟩
  have happend : h.fittings (ops ++ later) = (h.fittings ops).fittings later := List.foldl_append
  rw [happend]
  exact munitionsHeld_fittings _ later

/-- A new pilot's Argo dismantled, and its torso stood up again. -/
theorem bay_conserves_argo :
    (starter.fittings [.dismantle, .fit (.part .argo .torso)]).units = starter.units
      ∧ (starter.fittings [.dismantle, .fit (.part .argo .torso)]).held (.weapon .beamSaber)
        = starter.held (.weapon .beamSaber)
      ∧ (starter.fittings [.dismantle, .fit (.part .argo .torso), .fuel .standard]).munitionsHeld
        ≤ (starter.fittings [.dismantle, .fit (.part .argo .torso)]).munitionsHeld := by
  have hproper : ∀ u ∈ starter.units, u.Proper := by decide
  obtain ⟨hunits, hweapon, -, -, hmunitions, -⟩ := bay_conserves (h := starter) rfl
    Suit.wornArgo_wellFormed hproper [.dismantle, .fit (.part .argo .torso)] [.fuel .standard]
  exact ⟨hunits, hweapon .beamSaber, hmunitions⟩

/-- A hangar with a head on the shelf that has the reactor's fault. -/
def misfiled : PilotHangar :=
  starter.store
    (starter.stores.addPart ⟨.argo, .head, 100, Faults.none.set .reactor Faults.failed⟩)

/-- A part that has another part's fault doesn't keep it on the suit. -/
theorem misfiled_fault_is_lost :
    ¬ ∀ (h : PilotHangar) (s : Suit), h.bay = .docked s → s.WellFormed → ∀ ops : List FittingOp,
      (h.fittings ops).units = h.units := by
  intro hall
  have hunits := hall misfiled wornArgo rfl Suit.wornArgo_wellFormed
    [.strip (.part .head), .fit (.part .argo .head)]
  revert hunits
  decide

end PilotHangar

end BeforeColony
