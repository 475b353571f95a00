import Mathlib.Data.List.Nodup
import Mathlib.Tactic.Linarith
import BeforeColony.Proto.Bits

/-!
# The kinds of suit, part and weapon

The enumerations the economy and the wire share. Each has its number (`index`), its
list of values in that order (`all`), and, where the wire carries it, the reading of
a number back (`fromBits`). Then the body a suit stands on, as the wire names it.
-/

set_option autoImplicit false

namespace BeforeColony

inductive FrameId where
  | argo | altair | corvus | cetus | antares | algol | canopus | thuban
  | aquila | sagittarius | corona
  deriving DecidableEq, Repr, Inhabited

namespace FrameId

def bits : ℕ := 4

def all : List FrameId :=
  [argo, altair, corvus, cetus, antares, algol, canopus, thuban, aquila, sagittarius, corona]

def index : FrameId → ℕ
  | argo => 0 | altair => 1 | corvus => 2 | cetus => 3 | antares => 4 | algol => 5
  | canopus => 6 | thuban => 7 | aquila => 8 | sagittarius => 9 | corona => 10

def fromBits (v : ℕ) : Option FrameId := all[v]?

@[simp] theorem fromBits_index (f : FrameId) : fromBits f.index = some f := by
  cases f <;> rfl

theorem index_lt (f : FrameId) : f.index < 2 ^ bits := by
  cases f <;> decide

theorem index_injective : Function.Injective index := fun a b h => by
  have := congrArg fromBits h
  simpa using this

end FrameId

inductive Faction where
  | almagest | colonies | alliance
  deriving DecidableEq, Repr, Inhabited

namespace Faction

def bits : ℕ := 3

def index : Faction → ℕ
  | almagest => 0 | colonies => 1 | alliance => 2

def fromBits : ℕ → Faction
  | 1 => colonies
  | 2 => alliance
  | _ => almagest

@[simp] theorem fromBits_index (f : Faction) : fromBits f.index = f := by
  cases f <;> rfl

theorem index_lt (f : Faction) : f.index < 2 ^ bits := by
  cases f <;> decide

end Faction

inductive Part where
  | head | torso | armL | armR | legs | backpack
  deriving DecidableEq, Repr, Inhabited

namespace Part

def bits : ℕ := 3

def all : List Part := [head, torso, armL, armR, legs, backpack]

def count : ℕ := all.length

def index : Part → ℕ
  | head => 0 | torso => 1 | armL => 2 | armR => 3 | legs => 4 | backpack => 5

def fromBits (v : ℕ) : Option Part := all[v]?

@[simp] theorem fromBits_index (p : Part) : fromBits p.index = some p := by
  cases p <;> rfl

theorem index_lt (p : Part) : p.index < 2 ^ bits := by
  cases p <;> decide

theorem index_injective : Function.Injective index := fun a b h => by
  have := congrArg fromBits h
  simpa using this

end Part

inductive WeaponKind where
  | beamRifle | machineCannon | beamSaber | heavyBeamRifle | beamCannon | beamGatling
  | homingMissile | combatKnife | chestGatling | microMissile | clawShield | headGun
  | beamScythe | beamMachineGun | heatBlade | pincerStrike | talon | flamethrower
  | beamGlaive | beamRifleCharged | reactor | reactorCannon | beamGun
  deriving DecidableEq, Repr, Inhabited

namespace WeaponKind

def bits : ℕ := 5

def all : List WeaponKind :=
  [beamRifle, machineCannon, beamSaber, heavyBeamRifle, beamCannon, beamGatling,
    homingMissile, combatKnife, chestGatling, microMissile, clawShield, headGun,
    beamScythe, beamMachineGun, heatBlade, pincerStrike, talon, flamethrower,
    beamGlaive, beamRifleCharged, reactor, reactorCannon, beamGun]

def index : WeaponKind → ℕ
  | beamRifle => 0 | machineCannon => 1 | beamSaber => 2 | heavyBeamRifle => 3
  | beamCannon => 4 | beamGatling => 5 | homingMissile => 6 | combatKnife => 7
  | chestGatling => 8 | microMissile => 9 | clawShield => 10 | headGun => 11
  | beamScythe => 12 | beamMachineGun => 13 | heatBlade => 14 | pincerStrike => 15
  | talon => 16 | flamethrower => 17 | beamGlaive => 18 | beamRifleCharged => 19
  | reactor => 20 | reactorCannon => 21 | beamGun => 22

def fromBits (v : ℕ) : Option WeaponKind := all[v]?

@[simp] theorem fromBits_index (w : WeaponKind) : fromBits w.index = some w := by
  cases w <;> rfl

theorem index_lt (w : WeaponKind) : w.index < 2 ^ bits := by
  cases w <;> decide

theorem index_injective : Function.Injective index := fun a b h => by
  have := congrArg fromBits h
  simpa using this

end WeaponKind

inductive PilotKind where
  | human | agent | drone
  deriving DecidableEq, Repr, Inhabited

namespace PilotKind

def bits : ℕ := 2

def index : PilotKind → ℕ
  | human => 0 | agent => 1 | drone => 2

def fromBits : ℕ → PilotKind
  | 1 => agent
  | 2 => drone
  | _ => human

@[simp] theorem fromBits_index (k : PilotKind) : fromBits k.index = k := by
  cases k <;> rfl

theorem index_lt (k : PilotKind) : k.index < 2 ^ bits := by
  cases k <;> decide

end PilotKind

def ticksBack (tick back : ℕ) : ℕ := if back ≤ tick then tick - back else tick + 2 ^ 32 - back

theorem ticksBack_lt {tick back : ℕ} (h : tick < 2 ^ 32) : ticksBack tick back < 2 ^ 32 := by
  unfold ticksBack
  split <;> omega

def slotBits : ℕ := 10
def noSlot : ℕ := 2 ^ slotBits - 1
def chunkBits : ℕ := 10
def rockBits : ℕ := 10
def missileBits : ℕ := 10
def landmarkBits : ℕ := 4
def bayBits : ℕ := 7

/-- A rider's velocity over its body goes over ± this many m/s. -/
def riderVelMax : ℕ := 32
def riderVelBits : ℕ := 10

/-- The body a suit stands on, is in the grip of, or is parked on. -/
inductive BodyRef where
  | rock (r : ℕ)
  | landmark (k : ℕ)
  | city
  | bay (n : ℕ)
  deriving DecidableEq, Repr

namespace BodyRef

def kindBits : ℕ := 2

/-- Encoded size, in bits. -/
def bits : BodyRef → ℕ
  | rock _ => kindBits + rockBits
  | landmark _ => kindBits + landmarkBits
  | city => kindBits
  | bay _ => kindBits + bayBits

/-- How far from the body's origin a rider can be on each axis, m. -/
def localMax : BodyRef → ℕ
  | rock _ => 256
  | bay _ => 256
  | landmark _ => 1024
  | city => 16384

def localBits : BodyRef → ℕ
  | rock _ => 15
  | bay _ => 15
  | landmark _ => 17
  | city => 21

def fields : BodyRef → List Field
  | rock r => [⟨0, kindBits⟩, ⟨min r (2 ^ rockBits - 1), rockBits⟩]
  | landmark k => [⟨1, kindBits⟩, ⟨min k (2 ^ landmarkBits - 1), landmarkBits⟩]
  | city => [⟨2, kindBits⟩]
  | bay n => [⟨3, kindBits⟩, ⟨min n (2 ^ bayBits - 1), bayBits⟩]

def read : Read BodyRef := do
  match ← readBits kindBits with
  | 0 => return rock (← readBits rockBits)
  | 1 => return landmark (← readBits landmarkBits)
  | 2 => return city
  | _ => return bay (← readBits bayBits)

def InRange : BodyRef → Prop
  | rock r => r < 2 ^ rockBits
  | landmark k => k < 2 ^ landmarkBits
  | city => True
  | bay n => n < 2 ^ bayBits

instance : DecidablePred InRange := fun b => by
  cases b <;> unfold InRange <;> infer_instance

theorem localBits_le (b : BodyRef) : b.localBits ≤ 21 := by
  cases b <;> simp [localBits]

theorem localMax_le (b : BodyRef) : b.localMax ≤ 16384 := by
  cases b <;> simp [localMax]

theorem widths_fields (b : BodyRef) : Field.widths b.fields = b.bits := by
  cases b <;> rfl

theorem reads {b : BodyRef} (h : b.InRange) : Reads read (Field.all b.fields) b := by
  cases b with
  | rock r =>
    have hmin : min r (2 ^ rockBits - 1) = r := min_eq_left (Nat.le_sub_one_of_lt h)
    rw [fields, hmin]
    exact (Reads.field (v := 0) (by decide)).bind ((Reads.field h).bind (Reads.pure _))
  | landmark k =>
    have hmin : min k (2 ^ landmarkBits - 1) = k := min_eq_left (Nat.le_sub_one_of_lt h)
    rw [fields, hmin]
    exact (Reads.field (v := 1) (by decide)).bind ((Reads.field h).bind (Reads.pure _))
  | city => exact (Reads.field (v := 2) (by decide)).bind (Reads.pure _)
  | bay n =>
    have hmin : min n (2 ^ bayBits - 1) = n := min_eq_left (Nat.le_sub_one_of_lt h)
    rw [fields, hmin]
    exact (Reads.field (v := 3) (by decide)).bind ((Reads.field h).bind (Reads.pure _))

end BodyRef

end BeforeColony
