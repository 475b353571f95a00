import Mathlib.Data.Rat.Floor
import BeforeColony.Lib.Table
import BeforeColony.Econ.Item

/-!
# What everything is made of, and what the colony thinks it is worth

Recipes, the values built from them, the worth of a quantity at a price, and the
colony's desk for what it deals in. Masses and values are rational numbers here; the
source computes them in floating point, rounds, and gets the same integers.
-/

set_option autoImplicit false

namespace BeforeColony

open Lib

def u64Max : ℕ := 2 ^ 64 - 1

/-- A `u64` subtraction, as the release build performs it. -/
def wrappingSub (a b : ℕ) : ℕ := if b ≤ a then a - b else a + 2 ^ 64 - b

/-- A `u64` multiplication, as the release build performs it. -/
def wrappingMul (a b : ℕ) : ℕ := a * b % 2 ^ 64

theorem wrappingSub_eq {a b : ℕ} (hb : b ≤ a) : wrappingSub a b = a - b := if_pos hb

theorem wrappingMul_eq {a b : ℕ} (h : a * b < 2 ^ 64) : wrappingMul a b = a * b :=
  Nat.mod_eq_of_lt h

inductive Station where
  | fabricator | foundry
  deriving DecidableEq, Repr

/-- One way to make something: a batch takes `inputs`, `fee` credits and `secs`. -/
structure Recipe where
  output : Item
  makes : ℕ
  inputs : List (Item × ℕ)
  station : Station
  secs : ℕ
  fee : ℕ
  deriving DecidableEq, Repr

namespace Catalogue

def steel : Item := .material .steel
def tiAlloy : Item := .material .titaniumAlloy
def electronics : Item := .material .electronics
def siderium : Item := .material .siderium
def munitions : Item := .material .munitions
def exotics : Item := .ore .exotics
def components : Item := .material .components
def propellantItem : Item := .material .propellant

/-- A frame's dry mass, kg. -/
def dryMass : FrameId → ℚ
  | .argo => 7100 | .altair => 8000 | .corvus => 6500 | .cetus => 9500 | .antares => 8800
  | .algol => 7300 | .canopus => 9600 | .thuban => 7500 | .aquila => 8000
  | .sagittarius => 8600 | .corona => 8200

def partShare : Part → ℚ
  | .head => 4 / 100 | .torso => 52 / 100 | .armL => 8 / 100 | .armR => 8 / 100
  | .legs => 18 / 100 | .backpack => 10 / 100

/-- A number rounded to the nearest integer, halves up. -/
def round (x : ℚ) : ℕ := ⌊x + 1 / 2⌋.toNat

def partMassKg (frame : FrameId) (part : Part) : ℕ :=
  round (dryMass frame * partShare part / 10) * 10

/-- Rounded to the nearest 10 kg, and at least 10. -/
def tens (kg : ℚ) : ℕ := max (round (kg / 10)) 1 * 10

def refine (output : Material) (makes : ℕ) (inputs : List (Item × ℕ)) (secs : ℕ) : Recipe :=
  { output := .material output, makes, inputs, station := .fabricator, secs, fee := 0 }

def kitRecipe (k : Kit) : Recipe :=
  let (makes, inputs, secs) : ℕ × List (Item × ℕ) × ℕ :=
    match k with
    | .patch => (2, [(components, 30), (tiAlloy, 20), (electronics, 4)], 40)
    | .coolant => (2, [(propellantItem, 80), (components, 10)], 20)
    | .chaff => (3, [(munitions, 30), (electronics, 3), (steel, 10)], 30)
    | .stim => (2, [(.ore .volatiles, 20), (exotics, 3), (electronics, 2)], 60)
  { output := .kit k, makes, inputs, station := .fabricator, secs, fee := 0 }

def moduleRecipe (k : ModuleKind) : Recipe :=
  let (inputs, secs) : List (Item × ℕ) × ℕ :=
    match k with
    | .sensorArray => ([(components, 30), (electronics, 25), (tiAlloy, 20)], 90)
    | .fireControlComputer => ([(components, 20), (electronics, 40), (exotics, 10)], 120)
    | .capacitorBank => ([(components, 60), (electronics, 30), (steel, 200)], 120)
    | .reactorBooster => ([(components, 80), (electronics, 20), (exotics, 20)], 150)
    | .radiatorPackage => ([(components, 60), (tiAlloy, 100)], 90)
    | .compositePlating => ([(tiAlloy, 400), (steel, 200), (components, 20)], 120)
    | .gSeat => ([(components, 60), (electronics, 10), (steel, 60)], 60)
    | .damageControl => ([(components, 100), (electronics, 30)], 180)
    | .auxiliaryTank => ([(components, 40), (tiAlloy, 120)], 90)
    | .extendedTank => ([(components, 30), (tiAlloy, 80)], 75)
    | .ionDrive =>
      ([(components, 80), (electronics, 40), (exotics, 30), (tiAlloy, 40)], 180)
    | .thrusterKit => ([(components, 80), (tiAlloy, 60), (exotics, 10)], 150)
    | .legVerniers => ([(components, 60), (tiAlloy, 60)], 90)
    | .cargoRack => ([(components, 30), (steel, 200)], 60)
  { output := .module k, makes := 1, inputs, station := .fabricator, secs, fee := 0 }

/-- What a part of `line` needs besides its structure, armour and wiring. -/
def extras (line : FrameId) (part : Part) : List (Item × ℚ) :=
  match line, part with
  | .altair, .torso => [(electronics, 200), (exotics, 150)]
  | .altair, .backpack => [(siderium, 100), (electronics, 60)]
  | .algol, .torso => [(electronics, 150), (exotics, 100)]
  | .antares, .torso => [(steel, 300), (electronics, 40)]
  | .antares, .legs => [(steel, 200), (electronics, 30)]
  | .canopus, .armL | .canopus, .armR => [(siderium, 50)]
  | _, _ => []

/-- A part of `line`: structure, armour and electronics in proportion to its mass, plus
what its systems need. -/
def partRecipe (line : FrameId) (part : Part) : Recipe :=
  let m : ℚ := partMassKg line part
  let lodestar := isLodestar line
  let (armour, armourShare, steelShare, wiring) : Item × ℚ × ℚ × ℚ :=
    if lodestar then (siderium, 1 / 2, 2 / 5, 2) else (tiAlloy, 7 / 20, 3 / 5, 1)
  let wires : ℚ := wiring *
    match part with
    | .head => 8 / 100
    | .torso => 4 / 100
    | .backpack => 3 / 100
    | .armL | .armR | .legs => 1 / 100
  let add (need : Table Item ℕ) (e : Item × ℚ) : Table Item ℕ :=
    if 0 < e.2 then need.update e.1 0 (· + tens e.2) else need
  let needs : List (Item × ℚ) :=
    [(armour, m * armourShare), (steel, m * steelShare), (electronics, m * wires)]
      ++ (if lodestar && part = .torso then [(exotics, m * (5 / 100))] else [])
      ++ extras line part
      ++ (if line = .argo && part = .torso then [(electronics, 40)] else [])
  { output := .part line part
    makes := 1
    inputs := (needs.foldl add Table.empty).entries
    station := .fabricator
    secs := round ((10 + m / 40) * if lodestar then 3 / 2 else 1)
    fee := 0 }

def weaponRecipe (w : WeaponKind) : Recipe :=
  let (inputs, secs) : List (Item × ℕ) × ℕ :=
    match w with
    | .beamRifle => ([(tiAlloy, 120), (electronics, 40), (exotics, 20)], 60)
    | .machineCannon => ([(steel, 150), (electronics, 10)], 40)
    | .beamSaber => ([(tiAlloy, 30), (electronics, 20), (exotics, 10)], 40)
    | .heavyBeamRifle => ([(siderium, 300), (electronics, 150), (exotics, 300)], 300)
    | .beamGatling => ([(tiAlloy, 200), (electronics, 60), (exotics, 40)], 120)
    | .homingMissile => ([(steel, 250), (electronics, 60)], 90)
    | .combatKnife => ([(steel, 60), (tiAlloy, 20)], 20)
    | .clawShield => ([(siderium, 150), (electronics, 40), (exotics, 40)], 150)
    | .headGun => ([(steel, 60), (electronics, 10)], 30)
    | .beamScythe => ([(siderium, 80), (electronics, 60), (exotics, 80)], 180)
    | .beamMachineGun => ([(tiAlloy, 150), (electronics, 50), (exotics, 30)], 90)
    | .heatBlade => ([(siderium, 200), (electronics, 30)], 150)
    | .talon => ([(siderium, 150), (steel, 200), (electronics, 40)], 150)
    | .flamethrower => ([(steel, 150), (electronics, 20)], 90)
    | .beamGlaive => ([(siderium, 60), (electronics, 50), (exotics, 70)], 150)
    -- Not items: never asked for.
    | .beamCannon | .chestGatling | .microMissile | .pincerStrike | .beamRifleCharged
    | .reactor | .reactorCannon | .beamGun => ([(steel, 100)], 60)
  { output := .weapon w, makes := 1, inputs, station := .fabricator, secs, fee := 0 }

def buildRecipes : List Recipe :=
  [refine .steel 80 [(.ore .nickelIron, 100)] 20,
    refine .titaniumAlloy 80 [(.ore .titanium, 100), (.ore .volatiles, 10)] 30,
    refine .propellant 100 [(.ore .volatiles, 100)] 15,
    refine .refinedPropellant 75 [(.ore .volatiles, 100)] 25,
    refine .ultraPropellant 50 [(.ore .volatiles, 100), (exotics, 3)] 40,
    refine .electronics 20 [(exotics, 20), (steel, 40)] 40,
    refine .munitions 60 [(steel, 50), (.ore .volatiles, 10)] 20,
    { output := siderium, makes := 100, inputs := [(tiAlloy, 200), (exotics, 40)]
      station := .foundry, secs := 180, fee := 400 },
    refine .components 40 [(steel, 40), (electronics, 5), (tiAlloy, 5)] 30]
  ++ lines.flatMap (fun line => Part.all.map (partRecipe line))
  ++ weapons.map weaponRecipe
  ++ ModuleKind.all.map moduleRecipe
  ++ Kit.all.map kitRecipe

def recipe (item : Item) : Option Recipe := buildRecipes.find? fun r => r.output = item

/-- The value of `qty` of `item` at `price`, rounded down: credits per tonne for bulk
goods, per piece otherwise. -/
def worth (item : Item) (price qty : ℕ) : ℕ :=
  let v := price * qty
  let v := if item.bulk then v / 1000 else v
  min v u64Max

def oreValue : Ore → ℕ
  | .nickelIron => 1000
  | .titanium => 4000
  | .volatiles => 3000
  | .exotics => 15000

/-- One recipe's turn in a pass: its output at what went into it, plus a quarter. -/
def valueStep (v : Table Item ℕ) (r : Recipe) : Table Item ℕ :=
  match r.inputs.mapM fun e => (v.get? e.1).map fun price => worth e.1 price e.2 with
  | none => v
  | some costs =>
    let per : ℚ := ((costs.sum + r.fee : ℕ) : ℚ) * (5 / 4) / r.makes
    let price : ℚ := if r.output.bulk then per * 1000 else per
    v.insert r.output (round (price / 10) * 10)

/-- Three passes over the recipes settle every value. -/
def buildValues : Table Item ℕ :=
  let ores := Table.ofList (Ore.all.map fun o => (Item.ore o, oreValue o))
  (List.replicate 3 buildRecipes).flatten.foldl valueStep ores

def value (item : Item) : ℕ := buildValues.getD item 0

/-- Lodestar technology, down `depth` levels of recipes. -/
def lodestarTechAt : ℕ → Item → Bool
  | _, .material .siderium => true
  | _, .part line _ => isLodestar line
  | 0, .weapon _ => false
  | depth + 1, .weapon w =>
    (recipe (.weapon w)).any fun r => r.inputs.any fun e => lodestarTechAt depth e.1
  | _, _ => false

/-- Siderium, anything made with it, and the Lodestars' own parts. A weapon's recipe takes
bulk goods only, so one level of recipes is all there is to look down. -/
def lodestarTech (item : Item) : Bool := lodestarTechAt 1 item

end Catalogue

structure Desk where
  /-- Its price with the colony's stock at `target`. -/
  base : ℕ
  target : ℕ
  buys : Bool
  sells : Bool
  settleHours : ℚ
  deriving DecidableEq, Repr

namespace Catalogue

/-- The desk an item has if the colony deals in it, whatever its value. -/
def deskOf (item : Item) (base : ℕ) : Desk :=
  let d (target : ℕ) (buys sells : Bool) (settleHours : ℚ) : Desk :=
    { base, target, buys, sells, settleHours }
  match item with
  | .ore .exotics => d 5000 true false 3
  | .ore .nickelIron => d 60000 true false 3
  | .ore _ => d 30000 true false 3
  | .material .propellant => { d 60000 true true 1 with base := 1000 }
  | .material .refinedPropellant => { d 20000 true true 2 with base := 2500 }
  | .material .ultraPropellant => { d 5000 true true 3 with base := 6000 }
  | .material .electronics => d 2000 true true 2
  | .material .munitions => d 10000 true true 2
  | .material .steel => d 30000 true true 2
  | .material .components => d 8000 true true 2
  | .material _ => d 15000 true true 2
  | .part _ _ | .weapon _ => d 3 true true 6
  | .module _ => d 2 true true 6
  | .kit _ => d 30 true true 2

def desk (item : Item) : Option Desk :=
  if lodestarTech item then none else some (deskOf item (value item))

end Catalogue

end BeforeColony
