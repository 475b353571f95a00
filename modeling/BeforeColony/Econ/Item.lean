import Mathlib.Order.Basic
import Mathlib.Order.Lattice
import BeforeColony.Proto.Types

/-!
# What can be held, built and traded

Ores as mined, refined materials, the parts of each buildable line, the weapons on a
line's loadout, equipment modules and consumables. Ores and materials are counted in
kilograms, the rest one by one. Items are ordered by their `code`.
-/

set_option autoImplicit false

namespace BeforeColony

/-- Ore as it comes out of a rock: the simulation's four cargo kinds, in its order. -/
inductive Ore where
  | nickelIron | titanium | volatiles | exotics
  deriving DecidableEq, Repr

def Ore.all : List Ore := [nickelIron, titanium, volatiles, exotics]

def Ore.index : Ore → ℕ
  | nickelIron => 0 | titanium => 1 | volatiles => 2 | exotics => 3

theorem Ore.index_injective : Function.Injective Ore.index := fun a b h => by
  have hall (x : Ore) : Ore.all[x.index]? = some x := by cases x <;> rfl
  exact Option.some.inj ((hall a).symm.trans (h ▸ hall b))

def Ore.name : Ore → String
  | nickelIron => "Nickel-iron ore"
  | titanium => "Titanium ore"
  | volatiles => "Volatiles"
  | exotics => "Exotic metals"

inductive Material where
  | steel | titaniumAlloy | propellant | electronics | munitions | siderium | components
  | refinedPropellant | ultraPropellant
  deriving DecidableEq, Repr

def Material.all : List Material :=
  [steel, titaniumAlloy, propellant, electronics, munitions, siderium, components,
    refinedPropellant, ultraPropellant]

def Material.index : Material → ℕ
  | steel => 0 | titaniumAlloy => 1 | propellant => 2 | electronics => 3 | munitions => 4
  | siderium => 5 | components => 6 | refinedPropellant => 7 | ultraPropellant => 8

theorem Material.index_injective : Function.Injective Material.index := fun a b h => by
  have hall (x : Material) : Material.all[x.index]? = some x := by cases x <;> rfl
  exact Option.some.inj ((hall a).symm.trans (h ▸ hall b))

def Material.name : Material → String
  | steel => "Steel"
  | titaniumAlloy => "Titanium alloy"
  | propellant => "Propellant"
  | electronics => "Electronics"
  | munitions => "Munitions"
  | siderium => "Siderium alloy"
  | components => "Machined components"
  | refinedPropellant => "Refined propellant"
  | ultraPropellant => "Ultra-pure propellant"

inductive ModuleKind where
  | sensorArray | fireControlComputer | capacitorBank | reactorBooster | radiatorPackage
  | compositePlating | gSeat | damageControl | auxiliaryTank | thrusterKit | legVerniers
  | cargoRack | extendedTank | ionDrive
  deriving DecidableEq, Repr

def ModuleKind.all : List ModuleKind :=
  [sensorArray, fireControlComputer, capacitorBank, reactorBooster, radiatorPackage,
    compositePlating, gSeat, damageControl, auxiliaryTank, thrusterKit, legVerniers,
    cargoRack, extendedTank, ionDrive]

def ModuleKind.index : ModuleKind → ℕ
  | sensorArray => 1 | fireControlComputer => 2 | capacitorBank => 3 | reactorBooster => 4
  | radiatorPackage => 5 | compositePlating => 6 | gSeat => 7 | damageControl => 8
  | auxiliaryTank => 9 | thrusterKit => 10 | legVerniers => 11 | cargoRack => 12
  | extendedTank => 13 | ionDrive => 14

theorem ModuleKind.index_injective : Function.Injective ModuleKind.index := fun a b h => by
  have hall (x : ModuleKind) : ModuleKind.all[x.index - 1]? = some x := by cases x <;> rfl
  exact Option.some.inj ((hall a).symm.trans (h ▸ hall b))

def ModuleKind.name : ModuleKind → String
  | sensorArray => "Sensor array"
  | fireControlComputer => "Fire-control computer"
  | capacitorBank => "Capacitor bank"
  | reactorBooster => "Reactor booster"
  | radiatorPackage => "Radiator package"
  | compositePlating => "Composite plating"
  | gSeat => "G-seat"
  | damageControl => "Damage control"
  | auxiliaryTank => "Auxiliary tank"
  | extendedTank => "Extended tank"
  | ionDrive => "Ion drive"
  | thrusterKit => "Thruster kit"
  | legVerniers => "Leg verniers"
  | cargoRack => "Cargo rack"

inductive Kit where
  | patch | coolant | chaff | stim
  deriving DecidableEq, Repr

def Kit.all : List Kit := [patch, coolant, chaff, stim]

def Kit.index : Kit → ℕ
  | patch => 0 | coolant => 1 | chaff => 2 | stim => 3

theorem Kit.index_injective : Function.Injective Kit.index := fun a b h => by
  have hall (x : Kit) : Kit.all[x.index]? = some x := by cases x <;> rfl
  exact Option.some.inj ((hall a).symm.trans (h ▸ hall b))

def Kit.name : Kit → String
  | patch => "Patch kit"
  | coolant => "Coolant flush"
  | chaff => "Chaff"
  | stim => "Stim"

def lines : List FrameId := [.argo, .altair, .antares, .algol, .canopus, .thuban]

def isLine (line : FrameId) : Bool := line ∈ lines

/-- The Lodestars: the frames the colony won't deal in. -/
def isLodestar : FrameId → Bool
  | .altair | .aquila | .antares | .algol | .canopus | .thuban => true
  | _ => false

/-- The weapons mounted on a buildable line's suit. -/
def loadout : FrameId → List WeaponKind
  | .argo => [.beamRifle, .machineCannon, .beamSaber]
  | .altair => [.heavyBeamRifle, .machineCannon, .beamSaber]
  | .antares => [.beamGatling, .homingMissile, .combatKnife]
  | .algol => [.clawShield, .headGun, .beamScythe]
  | .canopus => [.beamMachineGun, .homingMissile, .heatBlade]
  | .thuban => [.talon, .flamethrower, .beamGlaive]
  | _ => []

def isItemWeapon (kind : WeaponKind) : Bool := lines.any fun l => kind ∈ loadout l

def weapons : List WeaponKind := WeaponKind.all.filter isItemWeapon

def frameName : FrameId → String
  | .argo => "Argo" | .altair => "Altair" | .corvus => "Corvus" | .cetus => "Cetus"
  | .antares => "Antares" | .algol => "Algol" | .canopus => "Canopus" | .thuban => "Thuban"
  | .aquila => "Altair (Aquila)" | .sagittarius => "Sagittarius" | .corona => "Corona"

def partName : Part → String
  | .head => "head" | .torso => "torso" | .armL => "left arm" | .armR => "right arm"
  | .legs => "legs" | .backpack => "backpack"

def weaponName : WeaponKind → String
  | .beamRifle => "Beam Rifle" | .machineCannon => "Machine Cannon"
  | .beamSaber => "Beam Saber" | .heavyBeamRifle => "Heavy Beam Rifle"
  | .beamCannon => "Beam Cannon" | .beamGatling => "Beam Gatling"
  | .homingMissile => "Homing Missiles" | .combatKnife => "Combat Knife"
  | .chestGatling => "Chest Gatlings" | .microMissile => "Micro-Missiles"
  | .clawShield => "Claw Shield" | .headGun => "Head Guns" | .beamScythe => "Beam Scythe"
  | .beamMachineGun => "Beam Machine Gun" | .heatBlade => "Heat Blades"
  | .pincerStrike => "Pincer Strike" | .talon => "Talon" | .flamethrower => "Flamethrower"
  | .beamGlaive => "Beam Glaive" | .beamRifleCharged => "Charged Beam"
  | .reactor => "Self-Destruct" | .reactorCannon => "Reactor Cannon" | .beamGun => "Beam Gun"

inductive Item where
  | ore (o : Ore)
  | material (m : Material)
  | part (line : FrameId) (part : Part)
  | weapon (w : WeaponKind)
  | module (k : ModuleKind)
  | kit (k : Kit)
  deriving DecidableEq, Repr

def thousands (n : ℕ) : String :=
  let digits := (toString n).toList
  String.ofList (digits.zipIdx.flatMap fun (c, i) =>
    if 0 < i ∧ (digits.length - i) % 3 = 0 then [',', c] else [c])

namespace Item

def all : List Item :=
  Ore.all.map ore ++ Material.all.map material
    ++ lines.flatMap (fun line => Part.all.map (part line))
    ++ weapons.map weapon ++ ModuleKind.all.map module ++ Kit.all.map kit

def code : Item → ℕ
  | ore o => o.index
  | material m => 16 + m.index
  | part line p => 64 + line.index * 8 + p.index
  | weapon w => 256 + w.index
  | module k => 512 + k.index
  | kit k => 768 + k.index

/-- Counted in kilograms, not one by one. -/
def bulk : Item → Bool
  | ore _ | material _ => true
  | _ => false

def valid : Item → Bool
  | ore _ | material _ => true
  | part line _ => isLine line
  | weapon w => isItemWeapon w
  | module _ | kit _ => true

def name : Item → String
  | ore o => o.name
  | material m => m.name
  | part line p => s!"{frameName line} {partName p}"
  | weapon w => weaponName w
  | module k => k.name
  | kit k => k.name

/-- A quantity as players read it: "2,400 kg", or "3". -/
def amount (item : Item) (qty : ℕ) : String :=
  if item.bulk then s!"{thousands qty} kg" else thousands qty

theorem mem_all {item : Item} (h : item.valid = true) : item ∈ all := by
  simp only [all, List.mem_append, List.mem_flatMap, List.mem_map]
  cases item with
  | ore o =>
    have ho : o ∈ Ore.all := by cases o <;> decide
    exact Or.inl (Or.inl (Or.inl (Or.inl (Or.inl ⟨o, ho, rfl⟩))))
  | material m =>
    have hm : m ∈ Material.all := by cases m <;> decide
    exact Or.inl (Or.inl (Or.inl (Or.inl (Or.inr ⟨m, hm, rfl⟩))))
  | part line p =>
    have hp : p ∈ Part.all := by cases p <;> decide
    exact Or.inl (Or.inl (Or.inl (Or.inr ⟨line, of_decide_eq_true h, p, hp, rfl⟩)))
  | weapon w =>
    have hw : w ∈ WeaponKind.all := by cases w <;> decide
    exact Or.inl (Or.inl (Or.inr ⟨w, List.mem_filter.mpr ⟨hw, h⟩, rfl⟩))
  | module k =>
    have hk : k ∈ ModuleKind.all := by cases k <;> decide
    exact Or.inl (Or.inr ⟨k, hk, rfl⟩)
  | kit k =>
    have hk : k ∈ Kit.all := by cases k <;> decide
    exact Or.inr ⟨k, hk, rfl⟩

theorem code_range (item : Item) :
    match item with
    | ore _ => item.code < 16
    | material _ => 16 ≤ item.code ∧ item.code < 64
    | part _ _ => 64 ≤ item.code ∧ item.code < 256
    | weapon _ => 256 ≤ item.code ∧ item.code < 512
    | module _ => 512 ≤ item.code ∧ item.code < 768
    | kit _ => 768 ≤ item.code := by
  cases item with
  | ore o => cases o <;> decide
  | material m => cases m <;> decide
  | part l p =>
    have hl := l.index_lt
    have hp := p.index_lt
    simp only [code, FrameId.bits, Part.bits] at hl hp ⊢
    omega
  | weapon w =>
    have hw := w.index_lt
    simp only [code, WeaponKind.bits] at hw ⊢
    omega
  | module k => cases k <;> decide
  | kit k => simp [code]

theorem code_injective : Function.Injective code := by
  intro a b h
  have ha := code_range a
  have hb := code_range b
  cases a with
  | ore o =>
    cases b with
    | ore o' => exact congrArg ore (Ore.index_injective h)
    | _ => simp only at ha hb; omega
  | material m =>
    cases b with
    | material m' => exact congrArg material (Material.index_injective (Nat.add_left_cancel h))
    | _ => simp only at ha hb; omega
  | part l p =>
    cases b with
    | part l' p' =>
      have hp := p.index_lt
      have hp' := p'.index_lt
      simp only [code, Part.bits] at h hp hp'
      have hl : l = l' := FrameId.index_injective (by omega)
      have hpp : p = p' := Part.index_injective (by omega)
      rw [hl, hpp]
    | _ => simp only at ha hb; omega
  | weapon w =>
    cases b with
    | weapon w' => exact congrArg weapon (WeaponKind.index_injective (Nat.add_left_cancel h))
    | _ => simp only at ha hb; omega
  | module k =>
    cases b with
    | module k' => exact congrArg module (ModuleKind.index_injective (Nat.add_left_cancel h))
    | _ => simp only at ha hb; omega
  | kit k =>
    cases b with
    | kit k' => exact congrArg kit (Kit.index_injective (Nat.add_left_cancel h))
    | _ => simp only at ha hb; omega

instance : LinearOrder Item := LinearOrder.lift' code code_injective

end Item

end BeforeColony
