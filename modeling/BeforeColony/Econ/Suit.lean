import Mathlib.Data.Fin.VecNotation
import Mathlib.Data.List.FinRange
import Mathlib.Data.List.Sort
import BeforeColony.Econ.Fab
import BeforeColony.Econ.Systems

/-!
# The suit standing in the bay

The parts fitted and their condition, the weapons on the mounts of the line's loadout and
their rounds, the tank, the faults inside, the equipment and the rack. The torso is the
suit: without it there is none. A weapon needs the part it hangs on, and a module a mount
of its own part. `Suit.WellFormed` says when a suit is one that could be standing there.
-/

set_option autoImplicit false

namespace BeforeColony

open Catalogue

inductive ArmSlot where
  | right | left | shoulder | head | pods | chest | legPods | both | nose | noseGuns
  deriving DecidableEq, Repr

def ArmSlot.part : ArmSlot → Part
  | right | both | nose => .armR
  | left => .armL
  | shoulder | pods | chest | noseGuns => .torso
  | head => .head
  | legPods => .legs

structure Mount where
  weapon : WeaponKind
  arm : ArmSlot
  deriving DecidableEq, Repr

/-- Each frame's primary, secondary and melee mounts. -/
def frameLoadout : FrameId → Fin 3 → Option Mount
  | .argo => ![some ⟨.beamRifle, .right⟩, some ⟨.machineCannon, .left⟩, some ⟨.beamSaber, .left⟩]
  | .altair =>
    ![some ⟨.heavyBeamRifle, .right⟩, some ⟨.machineCannon, .shoulder⟩, some ⟨.beamSaber, .left⟩]
  | .corvus => ![some ⟨.beamRifle, .right⟩, none, none]
  | .cetus => ![some ⟨.beamCannon, .right⟩, none, none]
  | .antares =>
    ![some ⟨.beamGatling, .right⟩, some ⟨.homingMissile, .pods⟩, some ⟨.combatKnife, .left⟩]
  | .algol => ![some ⟨.clawShield, .left⟩, some ⟨.headGun, .head⟩, some ⟨.beamScythe, .right⟩]
  | .canopus =>
    ![some ⟨.beamMachineGun, .right⟩, some ⟨.homingMissile, .pods⟩, some ⟨.heatBlade, .both⟩]
  | .thuban => ![some ⟨.talon, .right⟩, some ⟨.flamethrower, .right⟩, some ⟨.beamGlaive, .left⟩]
  | .aquila => ![some ⟨.heavyBeamRifle, .nose⟩, some ⟨.machineCannon, .noseGuns⟩, none]
  | .sagittarius => ![some ⟨.reactorCannon, .right⟩, none, none]
  | .corona => ![some ⟨.beamGun, .right⟩, none, some ⟨.beamSaber, .left⟩]

/-- A frame's tank, kg. -/
def tankKg : FrameId → ℕ
  | .argo => 3000 | .altair => 3750 | .corvus => 2500 | .cetus => 3100 | .antares => 3250
  | .algol => 3100 | .canopus => 3400 | .thuban => 3400 | .aquila => 3750
  | .sagittarius => 3000 | .corona => 3000

def roundsPerLoad : WeaponKind → ℕ
  | .machineCannon => 400 | .homingMissile => 24 | .chestGatling => 300 | .microMissile => 16
  | .headGun => 300 | .flamethrower => 150
  | _ => 0

/-- Munitions a full load takes, kg. -/
def munitionsPerLoad : WeaponKind → ℕ
  | .machineCannon => 100 | .homingMissile => 120 | .headGun => 30 | .flamethrower => 150
  | _ => 0

inductive Grade where
  | standard | refined | ultraPure
  deriving DecidableEq, Repr

namespace Grade

def name : Grade → String
  | standard => "Standard" | refined => "Refined" | ultraPure => "Ultra-pure"

def item : Grade → Item
  | standard => .material .propellant
  | refined => .material .refinedPropellant
  | ultraPure => .material .ultraPropellant

theorem item_injective : Function.Injective item := by
  intro a b h
  cases a <;> cases b <;> first | rfl | cases h

end Grade

def ModuleKind.part : ModuleKind → Part
  | sensorArray | fireControlComputer => .head
  | auxiliaryTank | thrusterKit | ionDrive => .backpack
  | legVerniers | cargoRack => .legs
  | _ => .torso

def moduleMounts : Fin 5 → Part := ![.head, .torso, .torso, .legs, .backpack]

def lineOf : FrameId → FrameId
  | .aquila => .altair
  | f => f

/-- What is left of the equipment once what is on another part's mount, or is a second of its
kind, is gone. -/
def cleanModules (m : Fin 5 → Option ModuleKind) (i : Fin 5) : Option ModuleKind :=
  (m i).filter fun k =>
    k.part = moduleMounts i
      && (List.finRange 5).all fun j => ! (j < i && m j = some k && moduleMounts j = k.part)

/-! ### Wear -/

def tickHz : ℕ := 30

def u32Max : ℕ := 2 ^ 32 - 1

structure Usage where
  burn : ℕ
  boost : ℕ
  shots : Fin 3 → ℕ
  overheats : ℕ

/-- What a suit's systems have been through since they were last overhauled or serviced. -/
structure Wear where
  main : ℕ
  boost : ℕ
  rounds : Fin 3 → ℕ
  overheats : ℕ

def mountSystem (line : FrameId) (m : Fin 3) : System :=
  match (frameLoadout line m).map Mount.arm with
  | some .left => .actuatorL
  | some .right | some .both => .actuatorR
  | _ => .fireControl

namespace Wear

def empty : Wear := ⟨0, 0, fun _ => 0, 0⟩

def mainSecs : ℕ := 1800
def boostSecs : ℕ := 300
def roundsLife : ℕ := 1500
def overheatsLife : ℕ := 6

/-- A system this far through its life can be serviced. -/
def serviceFrom : ℚ := 1 / 4

def add (w : Wear) (u : Usage) : Wear :=
  { main := min (w.main + u.burn) u32Max
    boost := min (w.boost + u.boost) u32Max
    rounds := fun m => min (w.rounds m + u.shots m) u32Max
    overheats := min (w.overheats + u.overheats) u32Max }

def raise (v : List (System × ℚ)) (s : System) (f : ℚ) : List (System × ℚ) :=
  if v.any fun e => e.1 = s then v.map fun e => if e.1 = s then (s, max e.2 f) else e
  else v ++ [(s, f)]

/-- Each worn system and how far through its service life it is, in order. -/
def systems (w : Wear) (line : FrameId) : List (System × ℚ) :=
  let v : List (System × ℚ) :=
    [(.mainThrusters, w.main / tickHz / mainSecs), (.boosters, w.boost / tickHz / boostSecs),
      (.reactor, w.overheats / overheatsLife)]
  let v := (List.finRange 3).foldl
    (fun v m => raise v (mountSystem line m) (w.rounds m / roundsLife)) v
  (v.filter fun e => 0 < e.2).insertionSort fun a b => a.1.index ≤ b.1.index

def reset (w : Wear) (s : System) (line : FrameId) : Wear :=
  let w :=
    match s with
    | .mainThrusters => { w with main := 0 }
    | .boosters => { w with boost := 0 }
    | .reactor => { w with overheats := 0 }
    | _ => w
  { w with rounds := fun m => if mountSystem line m = s then 0 else w.rounds m }

/-- A system past its service life comes home a level worse, if its part is fitted. -/
def wearOutOne (line : FrameId) (fitted : Part → Bool)
    (st : Wear × Faults × List System) (e : System × ℚ) : Wear × Faults × List System :=
  if e.2 < 1 || ! fitted e.1.part then st
  else
    (st.1.reset e.1 line,
      st.2.1.set e.1 (min (st.2.1.levelOf e.1 + 1) Faults.failed), st.2.2 ++ [e.1])

/-- The systems past their service life, each a level worse, and which they were. -/
def wearOut (w : Wear) (faults : Faults) (line : FrameId) (fitted : Part → Bool) :
    Wear × Faults × List System :=
  (w.systems line).foldl (wearOutOne line fitted) (w, faults, [])

end Wear

/-- What restoring a system of a `line` suit from `level` takes. -/
def overhaulCost (line : FrameId) (level : ℕ) : List (Item × ℕ) :=
  let cost (c e x : ℕ) : List (Item × ℕ) :=
    [(components, c), (electronics, e)] ++ if isLodestar line then [(exotics, x)] else []
  if level = Faults.damaged then cost 20 5 5
  else if level = Faults.failed then cost 50 13 10
  else []

/-- Half of what overhauling it damaged would take. -/
def serviceCost (line : FrameId) : List (Item × ℕ) :=
  (overhaulCost line Faults.damaged).map fun e => (e.1, (e.2 + 1) / 2)

/-- What bringing a part from `worn` % to `mended` % takes: its recipe's materials in
proportion, at 60 %, rounded up. -/
def repairCost (line : FrameId) (part : Part) (worn mended : ℕ) : List (Item × ℕ) :=
  match recipe (.part line part) with
  | none => []
  | some r =>
    let missing := min (mended - worn) 100
    (r.inputs.map fun e => (e.1, (e.2 * missing * 60 + (100 * 100 - 1)) / (100 * 100))).filter
      fun e => 0 < e.2

/-- What melting down an item gives back: half of what went into it, as worn as it is. -/
def scrapYield (item : Item) (condition : ℕ) : List (Item × ℕ) :=
  match recipe item with
  | none => []
  | some r =>
    if item.bulk then []
    else
      let c := min condition 100
      (r.inputs.map fun e => (e.1, e.2 * c * 50 / (100 * 100))).filter fun e => 0 < e.2

inductive Slot where
  | part (part : Part)
  | mount (mount : ℕ)
  | module (module : ℕ)
  deriving DecidableEq, Repr

/-- What a suit brings home when it docks. Armour is a fraction of the frame's, 0 for a part
that is gone. -/
structure Homecoming where
  frame : FrameId
  parts : Part → ℚ
  mounts : ℕ
  ammo : Fin 3 → ℕ
  propellant : ℚ
  grade : Grade
  systems : Faults
  modules : Fin 5 → Option ModuleKind
  kits : Kit → Fin 4
  usage : Usage

structure Suit where
  line : FrameId
  /-- Each fitted part's condition, %. -/
  parts : Part → Option ℕ
  mounts : Fin 3 → Bool
  ammo : Fin 3 → ℕ
  propellant : ℕ
  grade : Grade
  faults : Faults
  modules : Fin 5 → Option ModuleKind
  kits : Kit → ℕ
  wear : Wear

namespace Suit

/-- A suit built on a torso: nothing else fitted yet, dry. -/
def on (torso : PartUnit) : Suit where
  line := torso.line
  parts := Function.update (fun _ => none) .torso (some (max 1 (min torso.condition 100)))
  mounts := fun _ => false
  ammo := fun _ => 0
  propellant := 0
  grade := .standard
  faults := Faults.none.withPart .torso torso.faults
  modules := fun _ => none
  kits := fun _ => 0
  wear := Wear.empty

def weaponOn (s : Suit) (m : Fin 3) : Option WeaponKind := (frameLoadout s.line m).map Mount.weapon

/-- A new suit of `line`, everything fitted, loaded and fuelled. -/
def complete (line : FrameId) : Suit where
  line := line
  parts := fun _ => some 100
  mounts := fun m => (frameLoadout line m).isSome
  ammo := fun m => (frameLoadout line m).elim 0 fun mount => roundsPerLoad mount.weapon
  propellant := tankKg line
  grade := .standard
  faults := Faults.none
  modules := fun _ => none
  kits := fun _ => 0
  wear := Wear.empty

def isFitted (s : Suit) (p : Part) : Bool := (s.parts p).isSome

def mountHasItsPart (s : Suit) (m : Fin 3) : Bool :=
  match (frameLoadout s.line m).map Mount.arm with
  | some .both => s.isFitted .armL && s.isFitted .armR
  | some arm => s.isFitted arm.part
  | none => false

/-- Where `item` would go on this suit, if it fits and that place is free. -/
def slotFor (s : Suit) : Item → Option Slot
  | .part line part =>
    if line = s.line ∧ ¬ s.isFitted part then some (.part part) else none
  | .weapon w =>
    ((List.finRange 3).find? fun m => s.weaponOn m = some w && ! s.mounts m).map
      fun (m : Fin 3) => .mount m.val
  | .module k =>
    if (List.finRange 5).all (fun i => s.modules i ≠ some k) ∧ s.isFitted k.part then
      ((List.finRange 5).find? fun i => moduleMounts i = k.part && (s.modules i).isNone).map
        fun (i : Fin 5) => .module i.val
    else none
  | _ => none

def equipment (s : Suit) : Fin 5 → Option ModuleKind :=
  cleanModules fun i => if s.isFitted (moduleMounts i) then s.modules i else none

def carries (s : Suit) (k : ModuleKind) : Bool :=
  (List.finRange 5).any fun i => s.equipment i = some k

/-- The tank's size, kg: two fifths more with an auxiliary tank, a quarter more with an
extended one. -/
def tank (s : Suit) : ℕ :=
  tankKg s.line * (if s.carries .extendedTank then 5 else 4)
    * (if s.carries .auxiliaryTank then 7 else 5) / 20

def fullLoad (s : Suit) (m : Fin 3) : ℕ :=
  match s.weaponOn m with
  | some w => if 0 < munitionsPerLoad w then roundsPerLoad w else 0
  | none => 0

def fitted (s : Suit) : List (Part × ℕ) :=
  Part.all.filterMap fun p => (s.parts p).map fun c => (p, c)

def cameHomePart (f : ℚ) : Option ℕ :=
  if 0 < f then some (max 1 (min (Catalogue.round (f * 100)) 100)) else none

/-- What is left of the suit once it has come home: parts worn or gone, a weapon gone with the
part it hung on, rounds fired, propellant burnt. -/
def cameHome (s : Suit) (home : Homecoming) : Suit :=
  let parts : Part → Option ℕ := fun p => (s.parts p).bind fun _ => cameHomePart (home.parts p)
  let s := { s with parts := Function.update parts .torso (some ((parts .torso).getD 1)) }
  -- Systems as they came, inside the parts that came.
  let faults := Part.all.foldl
    (fun f p => f.withPart p (if s.isFitted p then home.systems.ofPart p else Faults.none))
    s.faults
  let modules : Fin 5 → Option ModuleKind := fun i =>
    if ¬ s.isFitted (moduleMounts i) ∨ home.modules i ≠ s.modules i then none else s.modules i
  let mounts : Fin 3 → Bool := fun m =>
    s.mounts m && home.mounts.testBit m && s.mountHasItsPart m
  let ammo : Fin 3 → ℕ := fun m => if mounts m then min (home.ammo m) (s.fullLoad m) else 0
  let s := { s with faults, modules, mounts, ammo }
  -- No more than it went out with.
  { s with
    propellant := min (min ⌊max home.propellant 0⌋.toNat s.tank) s.propellant
    grade := home.grade }

/-- With a part fitted, and its systems as they are inside it. -/
def attach (s : Suit) (part : Part) (u : PartUnit) : Suit :=
  { s with
    parts := Function.update s.parts part (some u.condition)
    faults := s.faults.withPart part u.faults }

def equip (s : Suit) (i : ℕ) (kind : ModuleKind) : Suit :=
  { s with modules := fun j => if j = i then some kind else s.modules j }

def unequip (s : Suit) (i : Fin 5) : Suit :=
  { s with modules := Function.update s.modules i none }

def arm (s : Suit) (m : ℕ) : Suit :=
  { s with
    mounts := fun n => if n = m then true else s.mounts n
    ammo := fun n => if n = m then 0 else s.ammo n }

def disarm (s : Suit) (m : Fin 3) : Suit :=
  { s with
    mounts := Function.update s.mounts m false
    ammo := Function.update s.ammo m 0 }

/-- Without a part, its systems' lives started afresh and the equipment on it gone. -/
def detach (s : Suit) (part : Part) : Suit :=
  { s with
    parts := Function.update s.parts part none
    faults := s.faults.withPart part Faults.none
    wear := (System.ofPart part).foldl (fun w sys => w.reset sys s.line) s.wear
    modules := fun i => if moduleMounts i = part then none else s.modules i }

def gearOn (s : Suit) (part : Part) : List ModuleKind :=
  (List.finRange 5).filterMap fun i => if moduleMounts i = part then s.modules i else none

def loose (s : Suit) : List (Fin 3) :=
  (List.finRange 3).filter fun m => s.mounts m && ! s.mountHasItsPart m

/-- A suit put together as one is: on a torso, its weapons of its line's loadout and loaded no
fuller than they can be, its equipment on mounts of its own fitted part and one of a kind, and
nothing faulted but what is fitted. -/
structure Rigged (s : Suit) : Prop where
  torso : s.isFitted .torso = true
  armed : ∀ m, s.mounts m = true → (s.weaponOn m).isSome
  modules : ∀ i k, s.modules i = some k → k.part = moduleMounts i ∧ s.isFitted k.part = true
  single : ∀ i j k, s.modules i = some k → s.modules j = some k → i = j
  ammo : ∀ m, s.ammo m ≤ s.fullLoad m
  unarmed : ∀ m, s.mounts m = false → s.ammo m = 0
  faults : ∀ sys : System, s.faults.levelOf sys ≠ 0 → s.isFitted sys.part = true

/-- What a suit that could be standing in the bay, or be out, is like. -/
structure WellFormed (s : Suit) : Prop extends Rigged s where
  hung : ∀ m, s.mounts m = true → s.mountHasItsPart m = true
  propellant : s.propellant ≤ s.tank

end Suit

end BeforeColony
