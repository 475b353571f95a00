import BeforeColony.Sim.Chunks

/-!
# Mining and salvage

Rocks worn down and shattered, limbs cut off hulks, and what a suit's free hand and its hold do
with what drifts by. Where things are, what is in reach and which part a blade is nearest to is
given to each operation, as the geometry comes out.
-/

set_option autoImplicit false

namespace BeforeColony

open Catalogue

/-! ### Tunables -/

def secs (s : ℕ) : ℕ := s * tickHz

def oreTtl : ℕ := secs 300

/-- How long wreckage drifts before it is cleared: drones' and pilots'. -/
def wreckTtl (drone : Bool) : ℕ := if drone then secs 60 else secs 180

/-- Most ore one saber stroke chips off a rock, kg. -/
def chipKg : ℕ := 200

/-- Ore a beam boils off per point of damage, kg. -/
def beamWasteKg : ℚ := 4

/-- The heaviest chunk that fits in a hold, kg. -/
def stowMaxKg : ℕ := 2500

def regrowAfter : ℕ := secs 600

/-- Credits per kg of each material: nickel-iron, titanium, volatiles, exotics. -/
def price : ℕ → ℕ
  | 0 => 1
  | 1 => 4
  | 2 => 3
  | _ => 15

/-- Parts that come off when destroyed. The torso is the suit. -/
def detachable : List Part := [.head, .armL, .armR, .legs, .backpack]

inductive WeaponClass where
  | beam | ballistic | missile | melee | cone
  deriving DecidableEq, Repr

def weaponClass : WeaponKind → WeaponClass
  | .machineCannon | .chestGatling | .headGun | .reactor => .ballistic
  | .homingMissile | .microMissile => .missile
  | .beamSaber | .combatKnife | .beamScythe | .heatBlade | .pincerStrike | .talon
  | .beamGlaive => .melee
  | .flamethrower => .cone
  | _ => .beam

def rockMultiplier (kind : WeaponKind) : ℚ :=
  match weaponClass kind with
  | .melee => 2
  | .ballistic => 1
  | .beam | .missile | .cone => 3 / 10

structure Rock where
  radius : ℚ
  ore : ℕ

def maxHp (r : Rock) : ℚ := 60 + 25 * r.radius

/-- The ore a rock holds, by its size, kg. -/
def maxOreKg (r : Rock) : ℕ := ⌊r.radius * 20⌋.toNat * 10

structure MinedRock where
  hp : ℚ
  oreKg : ℕ
  destroyed : Bool
  /-- Tick a shattered rock grows back. -/
  regrowAt : ℕ

/-! ### What a hulk weighs -/

/-- What the parts of a hulk weigh, kg. -/
def hulkMass (frame : FrameId) (parts : ℕ) : ℕ :=
  ((Part.all.filter fun p => parts.testBit p.index).map (partMassKg frame)).sum

/-- What is still on a suit whose parts in `lost` came off, kg. -/
def massWithout (frame : FrameId) (lost : ℕ) : ℕ :=
  ((Part.all.filter fun p => ¬ lost.testBit p.index).map (partMassKg frame)).sum

def goneMask (lost : Part → Bool) : ℕ :=
  (detachable.filter lost).foldl (fun mask p => mask ||| 1 <<< p.index) 0

/-! ### The sector -/

/-- What of a sector of `n` rocks and `cap` suit slots has to do with salvage. -/
structure Sim (n cap : ℕ) where
  field : Fin n → Rock
  rocks : Fin n → MinedRock
  chunks : Chunks
  frame : Fin cap → FrameId
  cargoKg : Fin cap → Fin 4 → ℕ
  /-- What is in hand: the chunk's id and generation, and whether in the right. -/
  held : Fin cap → ℕ × ℕ × Bool
  /-- What was left of it: the hulk's id and generation. -/
  hulk : Fin cap → ℕ × ℕ
  credits : Fin cap → ℕ

/-- What a suit is told to do: its grip held, the rest at a press. -/
structure Orders where
  grab : Bool
  stow : Bool
  throw : Bool
  jettison : Bool

structure Reach where
  /-- Whether a hand can hold anything, the right one or the left. -/
  works : Bool → Bool
  /-- How far from the hand a chunk in reach that isn't too fast is. -/
  gap : ℕ → Option ℚ
  /-- What its hold takes, kg. -/
  hold : ℕ
  docked : Bool
  survival : Bool

namespace Sim

variable {n cap : ℕ}

def setRock (s : Sim n cap) (i : Fin n) (r : MinedRock) : Sim n cap :=
  { s with rocks := Function.update s.rocks i r }

def spawn (s : Sim n cap) (desc : ChunkDesc) (ttl t : ℕ) : Sim n cap :=
  { s with chunks := (s.chunks.spawn desc .free (t + ttl) t).1 }

/-! ### Mining -/

/-- A rock comes apart: its ore flies off as chunks, and it is gone until it grows back. -/
def shatter (s : Sim n cap) (i : Fin n) (t : ℕ) : Sim n cap :=
  let ore := (s.rocks i).oreKg
  let pieces := max 2 (min (ore / 400) 8)
  let each := ore / pieces / 10 * 10
  let s :=
    if 0 < each then
      (List.range pieces).foldl (fun s _ => s.spawn ⟨.ore (s.field i).ore, each⟩ oreTtl t) s
    else s
  s.setRock i ⟨0, 0, true, t + regrowAfter⟩

/-- A rock takes `amount` of a weapon's damage. Beams boil off some of the ore they strike; a
blade chips a piece off, ore and all. -/
def rockHit (s : Sim n cap) (i : Fin n) (amount : ℚ) (kind : WeaponKind) (t : ℕ) : Sim n cap :=
  let r := s.rocks i
  if r.destroyed then s
  else
    let hp := r.hp - amount * rockMultiplier kind
    let oreKg :=
      if weaponClass kind = .beam then r.oreKg - ⌊amount * beamWasteKg⌋.toNat else r.oreKg
    let chip := if weaponClass kind = .melee then min oreKg chipKg / 10 * 10 else 0
    let s := s.setRock i { r with hp, oreKg := oreKg - chip }
    let s := if 0 < chip then s.spawn ⟨.ore (s.field i).ore, chip⟩ oreTtl t else s
    if hp ≤ 0 then s.shatter i t else s

/-- One shattered rock grows back in time, once nobody is near. -/
def regrow (near : Fin n → Bool) (t : ℕ) (s : Sim n cap) (i : Fin n) : Sim n cap :=
  let r := s.rocks i
  if ! r.destroyed || t < r.regrowAt then s
  else if near i then s.setRock i { r with regrowAt := t + secs 30 }
  else s.setRock i { r with
    hp := maxHp (s.field i), oreKg := maxOreKg (s.field i), destroyed := false }

def fieldStep (s : Sim n cap) (near : Fin n → Bool) (t : ℕ) : Sim n cap :=
  if t % 30 ≠ 0 then s else (List.finRange n).foldl (regrow near t) s

def nearestPart (parts : ℕ) (d2 : Part → ℚ) : Option Part :=
  detachable.foldl (fun best p =>
    if parts.testBit p.index && best.all fun b => d2 p < d2 b then some p else best) none

def lessPart (frame : FrameId) (parts : ℕ) (p : Part) (d : ChunkDesc) : ChunkDesc where
  kind := .hulk frame (parts &&& (255 ^^^ 1 <<< p.index))
  massKg := d.massKg - partMassKg frame p

def cutHulk (s : Sim n cap) (k : ℕ) (d2 : Part → ℚ) (t : ℕ) : Sim n cap :=
  match (s.chunks.slot k).desc.kind with
  | .hulk frame parts =>
    match nearestPart parts d2 with
    | none => s
    | some p =>
      let s := s.spawn ⟨.limb frame p, partMassKg frame p⟩ (wreckTtl false) t
      { s with
        chunks := s.chunks.touch k fun c => { c with desc := lessPart frame parts p c.desc } }
  | _ => s

def isHulk : ChunkKind → Bool
  | .hulk _ _ => true
  | _ => false

def hulkInBlade (s : Sim n cap) (near : ℕ → Bool) : Option ℕ :=
  (List.range chunkSlots).find? fun k =>
    s.chunks.alive k && isHulk (s.chunks.slot k).desc.kind && (s.chunks.slot k).motion = .free
      && near k

def blade (s : Sim n cap) (near : ℕ → Bool) (d2 : Part → ℚ) (t : ℕ) : Sim n cap :=
  match s.hulkInBlade near with
  | none => s
  | some k => s.cutHulk k d2 t

/-! ### Salvage -/

def heldChunk (s : Sim n cap) (i : Fin cap) : Option ℕ :=
  let (k, g, _) := s.held i
  let inHand := match (s.chunks.slot k).motion with
    | .held holder _ => holder = i.val
    | .free => false
  if k ≠ noChunk && s.chunks.isAlive k && (s.chunks.slot k).generation = g && inHand then some k
  else none

def emptyHand (s : Sim n cap) (i : Fin cap) : Sim n cap :=
  { s with held := Function.update s.held i (noChunk, 0, false) }

def release (s : Sim n cap) (i : Fin cap) (k t : ℕ) : Sim n cap :=
  let life := match (s.chunks.slot k).desc.kind with
    | .ore _ => oreTtl
    | _ => wreckTtl false
  emptyHand
    { s with chunks := s.chunks.touch k fun c => { c with motion := .free, expire := t + life } } i

def stowable (d : ChunkDesc) : Bool := ! isHulk d.kind && d.massKg ≤ stowMaxKg

def cargoTotalKg (s : Sim n cap) (i : Fin cap) : ℕ := ∑ kind, s.cargoKg i kind

def stow (s : Sim n cap) (i : Fin cap) (k hold : ℕ) : Sim n cap :=
  let desc := (s.chunks.slot k).desc
  let room := hold - s.cargoTotalKg i
  if ! stowable desc || room < desc.massKg then s
  else
    let m := material desc.kind
    -- A bin counts in sixteen bits, and stops at the most they count to.
    let cargo kind :=
      if kind.val = m then min (s.cargoKg i kind + desc.massKg % 2 ^ 16) (2 ^ 16 - 1)
      else s.cargoKg i kind
    emptyHand
      { s with
        cargoKg := Function.update s.cargoKg i cargo
        chunks := s.chunks.kill k } i

def grabHand (r : Reach) : Option Bool :=
  if r.works false then some false else if r.works true then some true else none

def nearestChunk (s : Sim n cap) (gap : ℕ → Option ℚ) : Option (ℚ × ℕ) :=
  (List.range chunkSlots).foldl (fun best k =>
    if s.chunks.alive k && (s.chunks.slot k).motion = .free then
      match gap k with
      | none => best
      | some g => if best.all fun b => g < b.1 then some (g, k) else best
    else best) none

/-- Closes suit `i`'s free hand on the nearest free chunk in reach. -/
def grab (s : Sim n cap) (i : Fin cap) (r : Reach) : Sim n cap :=
  match grabHand r, s.nearestChunk r.gap with
  | some right, some (_, k) =>
    { s with
      chunks := s.chunks.setMotion k (.held i right)
      held := Function.update s.held i (k, (s.chunks.slot k).generation, right) }
  | _, _ => s

def spillBin (i : Fin cap) (t : ℕ) (s : Sim n cap) (kind : Fin 4) : Sim n cap :=
  let kg := s.cargoKg i kind / 10 * 10
  let s := { s with
    cargoKg := Function.update s.cargoKg i (Function.update (s.cargoKg i) kind 0) }
  if kg = 0 then s else s.spawn ⟨.ore kind, kg⟩ oreTtl t

/-- Empties suit `i`'s hold as loose ore. With `all`, what is in hand goes too. -/
def spill (s : Sim n cap) (i : Fin cap) (all : Bool) (t : ℕ) : Sim n cap :=
  let s := match all, s.heldChunk i with
    | true, some k => s.release i k t
    | _, _ => s
  (List.finRange 4).foldl (spillBin i t) s

def u32Sat (x : ℕ) : ℕ := min x (2 ^ 32 - 1)

/-- Sells suit `i`'s hold, and whatever it has in hand, for credits. -/
def sell (s : Sim n cap) (i : Fin cap) : Sim n cap :=
  let value := (List.finRange 4).foldl
    (fun value kind => u32Sat (value + s.cargoKg i kind * price kind)) 0
  let s := { s with cargoKg := Function.update s.cargoKg i fun _ => 0 }
  let (s, value) := match s.heldChunk i with
    | none => (s, value)
    | some k =>
      let desc := (s.chunks.slot k).desc
      (emptyHand { s with chunks := s.chunks.kill k } i,
        u32Sat (value + desc.massKg * price (material desc.kind)))
  { s with credits := Function.update s.credits i (u32Sat (s.credits i + value)) }

def hands (s : Sim n cap) (i : Fin cap) (r : Reach) (o : Orders) (t : ℕ) : Sim n cap :=
  match s.heldChunk i with
  | some k =>
    -- Let go when told to, or when the hand holding it is gone or can't grip.
    if ! o.grab || ! r.works (s.held i).2.2 then s.release i k t
    else if o.stow then s.stow i k r.hold
    else if o.throw then s.release i k t
    else s
  | none =>
    let s := s.emptyHand i
    if o.grab then s.grab i r else s

def salvage (s : Sim n cap) (i : Fin cap) (r : Reach) (o : Orders) (t : ℕ) : Sim n cap :=
  let s := s.hands i r o t
  let s := if o.jettison then s.spill i false t else s
  if ! r.survival && r.docked then s.sell i else s

/-! ### Wrecks -/

def detach (s : Sim n cap) (j : Fin cap) (part : Part) (drone : Bool) (t : ℕ) : Sim n cap :=
  s.spawn ⟨.limb (s.frame j) part, partMassKg (s.frame j) part⟩ (wreckTtl drone) t

/-- What is left of a suit destroyed drifts on as a hulk. -/
def wreck (s : Sim n cap) (j : Fin cap) (lost : Part → Bool) (drone : Bool) (t : ℕ) : Sim n cap :=
  let gone := goneMask lost
  let desc : ChunkDesc :=
    ⟨.hulk (s.frame j) ((255 ^^^ gone) &&& 63), massWithout (s.frame j) gone⟩
  match s.chunks.spawn desc .free (t + wreckTtl drone) t with
  | (_, none) => s
  | (chunks, some k) =>
    { s with chunks, hulk := Function.update s.hulk j (k, (chunks.slot k).generation) }

/-- Suit `j` is destroyed, its parts in `lost` gone before: a hulk and what it held and carried are
left of it, or, blown up, what it held. -/
def destroy (s : Sim n cap) (j : Fin cap) (lost : Part → Bool) (drone hulk : Bool) (t : ℕ) :
    Sim n cap :=
  if hulk then (s.wreck j lost drone t).spill j true t
  else
    let s := match s.heldChunk j with
      | some k => s.release j k t
      | none => s
    { s with cargoKg := Function.update s.cargoKg j fun _ => 0 }

/-- A pilot leaves: their suit sleeps, nothing in hand. Its hold stays as it is. -/
def sleep (s : Sim n cap) (i : Fin cap) (t : ℕ) : Sim n cap :=
  match s.heldChunk i with
  | some k => s.release i k t
  | none => s

/-- The colony's tugs take a hulk home: what it was, if it is there to take. -/
def tow (s : Sim n cap) (hulk generation : ℕ) : Sim n cap × Option ChunkDesc :=
  if hulk = noChunk ∨ s.chunks.isAlive hulk = false
      ∨ (s.chunks.slot hulk).generation ≠ generation ∨ (s.chunks.slot hulk).motion ≠ .free then
    (s, none)
  else ({ s with chunks := s.chunks.kill hulk }, some (s.chunks.slot hulk).desc)

/-- What a suit brings home: its hold, and what it has in hand. -/
structure Brought where
  cargoKg : Fin 4 → ℕ
  held : Option ChunkDesc

def dock (s : Sim n cap) (i : Fin cap) (docked : Bool) : Sim n cap × Option Brought :=
  if ! docked then (s, none)
  else
    let held := s.heldChunk i
    let home : Brought := ⟨s.cargoKg i, held.map fun k => (s.chunks.slot k).desc⟩
    let s := match held with
      | none => s
      | some k => { s with chunks := s.chunks.kill k }
    let s := s.emptyHand i
    ({ s with cargoKg := Function.update s.cargoKg i fun _ => 0 }, some home)

/-- A free chunk drifts: out of the sector or past its time it is cleared, and off what it meets
it bounces. -/
def drift (outside meets : ℕ → Bool) (t : ℕ) (s : Sim n cap) (k : ℕ) : Sim n cap :=
  let c := s.chunks.slot k
  if ! s.chunks.alive k || c.motion ≠ .free then s
  else if c.expire ≤ t || outside k then { s with chunks := s.chunks.kill k }
  else if meets k then { s with chunks := s.chunks.setMotion k .free }
  else s

def chunkStep (s : Sim n cap) (outside meets : ℕ → Bool) (t : ℕ) : Sim n cap :=
  if s.chunks.count = 0 then s
  else (List.range chunkSlots).foldl (drift outside meets t) s

def place (s : Sim n cap) (i : Fin cap) (frame : FrameId) : Sim n cap :=
  emptyHand
    { s with
      frame := Function.update s.frame i frame
      cargoKg := Function.update s.cargoKg i fun _ => 0
      hulk := Function.update s.hulk i (noChunk, 0) } i

/-! ### Runs -/

/-- A sector opens: its rocks whole, nothing adrift, and its suits, if any sleep there, with what
they carried when they lay down. -/
def opened (field : Fin n → Rock) (frame : Fin cap → FrameId) (cargoKg : Fin cap → Fin 4 → ℕ) :
    Sim n cap where
  field := field
  rocks := fun i => ⟨maxHp (field i), maxOreKg (field i), false, 0⟩
  chunks := .new
  frame := frame
  cargoKg := cargoKg
  held := fun _ => (noChunk, 0, false)
  hulk := fun _ => (noChunk, 0)
  credits := fun _ => 0

end Sim

/-- What happens in a sector that has to do with salvage, with the geometry it happens in. -/
inductive SimOp (n cap : ℕ) where
  | rockHit (i : Fin n) (amount : ℚ) (kind : WeaponKind) (t : ℕ)
  | fieldStep (near : Fin n → Bool) (t : ℕ)
  | blade (near : ℕ → Bool) (d2 : Part → ℚ) (t : ℕ)
  | salvage (i : Fin cap) (r : Reach) (o : Orders) (t : ℕ)
  | detach (j : Fin cap) (part : Part) (drone : Bool) (t : ℕ)
  | destroy (j : Fin cap) (lost : Part → Bool) (drone hulk : Bool) (t : ℕ)
  | sleep (i : Fin cap) (t : ℕ)
  | spill (i : Fin cap) (all : Bool) (t : ℕ)
  | tow (hulk generation : ℕ)
  | dock (i : Fin cap) (docked : Bool)
  | chunkStep (outside meets : ℕ → Bool) (t : ℕ)
  | place (i : Fin cap) (frame : FrameId)

namespace Sim

variable {n cap : ℕ}

def step (s : Sim n cap) : SimOp n cap → Sim n cap
  | .rockHit i amount kind t => s.rockHit i amount kind t
  | .fieldStep near t => s.fieldStep near t
  | .blade near d2 t => s.blade near d2 t
  | .salvage i r o t => s.salvage i r o t
  | .detach j part drone t => s.detach j part drone t
  | .destroy j lost drone hulk t => s.destroy j lost drone hulk t
  | .sleep i t => s.sleep i t
  | .spill i all t => s.spill i all t
  | .tow hulk generation => (s.tow hulk generation).1
  | .dock i docked => (s.dock i docked).1
  | .chunkStep outside meets t => s.chunkStep outside meets t
  | .place i frame => s.place i frame

end Sim

end BeforeColony
