import BeforeColony.Proto.Events
import BeforeColony.Proto.Layouts
import BeforeColony.Proto.Quant

/-!
# Events written and read

An event goes as its kind, how long before the snapshot it was, and its fields, positions, speeds,
directions and damage in codes. Its size, its writer and its reader each have the layout; whatever
the event, they have the same.
-/

set_option autoImplicit false

namespace BeforeColony

open Quant (Lengths quantizeSigned dequantizeSigned quantizeUnit dequantizeUnit dirCode dirFromCode)

namespace SimEvent

/-- An event's kind and, past the last of three bits, the sub-kinds that follow its age. -/
def kind : SimEvent → ℕ
  | beamSpawn .. => 0
  | hit .. => 1
  | kill .. => 2
  | clash .. => 4
  | seizure .. => 5
  | detach .. => 6
  | _ => 7

def ext : SimEvent → List Field
  | rockBreak .. => [⟨0, extBits⟩]
  | missileBurst .. => [⟨1, extBits⟩]
  | systemHit .. => [⟨2, extBits⟩]
  | targetHit .. => [⟨3, extBits⟩]
  | doomed .. => [⟨4, extBits⟩]
  | eject .. => [⟨5, extBits⟩]
  | blast .. => [⟨6, extBits⟩]
  | staggered .. => [⟨7, extBits⟩, ⟨0, ext2Bits⟩]
  | _ => []

end SimEvent

def lastBlowField (weapon : Option WeaponKind) : Field :=
  ⟨weapon.elim 0 fun k => k.index + 1, WeaponKind.bits⟩

def BurstCause.index : BurstCause → ℕ
  | hit => 0 | proximity => 1 | expired => 2 | blocked => 3 | shotDown => 4

namespace SimEvent

def fields : SimEvent → List Field
  | beamSpawn shooter weapon shotSeq origin dir speed =>
    [⟨shooter, slotBits⟩, ⟨weapon.index, WeaponKind.bits⟩, ⟨shotSeq, 8⟩] ++ vecFields posBits origin
      ++ dirFields dirBits dir ++ [⟨speed, speedBits⟩]
  | hit target part shooter weapon damage =>
    [⟨target, slotBits⟩, ⟨part.index, Part.bits⟩, ⟨shooter, slotBits⟩,
      ⟨weapon.index, WeaponKind.bits⟩, ⟨damage, damageBits⟩]
  | kill victim killer weapon hulk =>
    [⟨victim, slotBits⟩, ⟨killer, slotBits⟩, lastBlowField weapon, ⟨hulk, chunkBits⟩]
  | clash a b => [⟨a, slotBits⟩, ⟨b, slotBits⟩]
  | seizure pilot active => [⟨pilot, slotBits⟩, .flag active]
  | detach source fromHulk part chunk =>
    [.flag fromHulk, ⟨source, if fromHulk then chunkBits else slotBits⟩, ⟨part.index, Part.bits⟩,
      ⟨chunk, chunkBits⟩]
  | rockBreak rock by_ => [⟨rock, rockBits⟩, ⟨by_, slotBits⟩]
  | missileBurst missile pos cause =>
    ⟨missile, missileBits⟩ :: vecFields posBits pos ++ [⟨cause.index, BurstCause.bits⟩]
  | systemHit target system level =>
    [⟨target, slotBits⟩, ⟨system, systemBits⟩, ⟨level, levelBits⟩]
  | targetHit target shooter => [⟨target, targetBits⟩, ⟨shooter, slotBits⟩]
  | doomed suit => [⟨suit, slotBits⟩]
  | eject suit pos vel => ⟨suit, slotBits⟩ :: vecFields posBits pos ++ vecFields velBits vel
  | blast suit pos => ⟨suit, slotBits⟩ :: vecFields posBits pos
  | staggered suit => [⟨suit, slotBits⟩]

/-- What an event takes after its kind and its age. -/
def encodedBits : SimEvent → ℕ
  | beamSpawn .. => 16 + slotBits + WeaponKind.bits + 8 + 3 * posBits + 2 * dirBits + speedBits
  | hit .. => 16 + 2 * slotBits + Part.bits + WeaponKind.bits + damageBits
  | kill .. => 16 + 2 * slotBits + WeaponKind.bits + chunkBits
  | clash .. => 16 + 2 * slotBits
  | seizure .. => 16 + slotBits + 1
  | detach _ fromHulk _ _ => 16 + 1 + (if fromHulk then chunkBits else slotBits) + Part.bits + chunkBits
  | rockBreak .. => extBits + 16 + rockBits + slotBits
  | missileBurst .. => extBits + 16 + missileBits + 3 * posBits + BurstCause.bits
  | systemHit .. => extBits + 16 + slotBits + (systemBits + levelBits)
  | targetHit .. => extBits + 16 + targetBits + slotBits
  | doomed .. => extBits + 16 + slotBits
  | eject .. => extBits + 16 + slotBits + 3 * (posBits + velBits)
  | blast .. => extBits + 16 + slotBits + 3 * posBits
  | staggered .. => (extBits + ext2Bits) + 16 + slotBits

end SimEvent

namespace Event

def age (e : Event) (snapshotTick : ℕ) : ℕ := min (snapshotTick - e.tick) 255

def fields (snapshotTick : ℕ) (e : Event) : List Field :=
  match e with
  | leave _ slot => [⟨3, kindBits⟩, ⟨e.age snapshotTick, 8⟩, ⟨slot, slotBits⟩]
  | sim id _ what =>
    [⟨what.kind, kindBits⟩, ⟨e.age snapshotTick, 8⟩] ++ what.ext ++ ⟨id, 16⟩ :: what.fields

def write (snapshotTick : ℕ) (e : Event) (w : BitWriter) : BitWriter := w.put (e.fields snapshotTick)

/-- Exact encoded size in bits. -/
def encodedBits : Event → ℕ
  | leave _ _ => (kindBits + 8) + slotBits
  | sim _ _ what => (kindBits + 8) + what.encodedBits

end Event

/-! ## The layouts agree -/

theorem reads_weapon (k : WeaponKind) :
    Reads readWeapon (Field.bits ⟨k.index, WeaponKind.bits⟩) k :=
  (Reads.field k.index_lt).map (orInvalid_of_eq k.fromBits_index)

theorem reads_part (p : Part) : Reads readPart (Field.bits ⟨p.index, Part.bits⟩) p :=
  (Reads.field p.index_lt).map (orInvalid_of_eq p.fromBits_index)

theorem reads_lastBlow (weapon : Option WeaponKind) :
    Reads readLastBlow (lastBlowField weapon).bits weapon := by
  cases weapon with
  | none => exact (Reads.field (v := 0) (by decide)).map rfl
  | some k =>
    have hlt : k.index + 1 < 2 ^ WeaponKind.bits := by cases k <;> decide
    refine (Reads.field hlt).map ?_
    simp only [orInvalid_of_eq k.fromBits_index, pure_bind]

theorem Event.ticksBack_age {tick snapshotTick : ℕ} (hle : tick ≤ snapshotTick)
    (hage : snapshotTick - tick ≤ 255) :
    ticksBack snapshotTick (min (snapshotTick - tick) 255) = tick := by
  rw [min_eq_left hage, ticksBack, if_pos (Nat.sub_le _ _)]
  omega

@[simp] theorem BurstCause.fromBits_index (c : BurstCause) : fromBits c.index = some c := by
  cases c <;> rfl

theorem BurstCause.index_lt (c : BurstCause) : c.index < 2 ^ bits := by
  cases c <;> decide

namespace SimEvent

theorem kind_lt (what : SimEvent) : what.kind < 2 ^ kindBits := by
  cases what <;> simp only [kind] <;> decide

variable {what : SimEvent} {id tick : ℕ}

/-- An event's sub-kinds, its id and its fields are read back as it. -/
theorem reads (hid : id < 2 ^ 16) (h : what.InRange) :
    Reads (Event.readKind what.kind tick) (Field.all (what.ext ++ ⟨id, 16⟩ :: what.fields))
      (.sim id tick what) := by
  have hnum := Reads.field hid
  cases what with
  | beamSpawn shooter weapon shotSeq origin dir speed =>
    obtain ⟨hshooter, hseq, horigin, hdir, hspeed⟩ := h
    simp only [ext, fields, List.nil_append, List.cons_append, List.append_assoc, Field.all_cons,
      Field.all_append]
    refine hnum.bind ((Reads.field hshooter).bind ?_)
    refine (reads_weapon weapon).bind ((Reads.field hseq).bind ?_)
    refine (reads_vecFields horigin).bind ((reads_dirFields hdir).bind ?_)
    exact (Reads.field hspeed).bind (Reads.pure _)
  | hit target part shooter weapon damage =>
    obtain ⟨htarget, hshooter, hdamage⟩ := h
    refine hnum.bind ((Reads.field htarget).bind ?_)
    refine (reads_part part).bind ((Reads.field hshooter).bind ?_)
    exact (reads_weapon weapon).bind ((Reads.field hdamage).bind (Reads.pure _))
  | kill victim killer weapon hulk =>
    obtain ⟨hvictim, hkiller, hhulk⟩ := h
    refine hnum.bind ((Reads.field hvictim).bind ((Reads.field hkiller).bind ?_))
    exact (reads_lastBlow weapon).bind ((Reads.field hhulk).bind (Reads.pure _))
  | clash a b =>
    exact hnum.bind ((Reads.field h.1).bind ((Reads.field h.2).bind (Reads.pure _)))
  | seizure pilot active =>
    exact hnum.bind ((Reads.field h).bind ((Reads.bool active).bind (Reads.pure _)))
  | detach source fromHulk part chunk =>
    obtain ⟨hsource, hchunk⟩ := h
    refine hnum.bind ((Reads.bool fromHulk).bind ((Reads.field hsource).bind ?_))
    exact (reads_part part).bind ((Reads.field hchunk).bind (Reads.pure _))
  | rockBreak rock by_ =>
    refine (Reads.field (v := 0) (by decide)).bind (hnum.bind ?_)
    exact (Reads.field h.1).bind ((Reads.field h.2).bind (Reads.pure _))
  | missileBurst missile pos cause =>
    simp only [ext, fields, List.cons_append, List.nil_append, Field.all_cons, Field.all_append]
    refine (Reads.field (v := 1) (by decide)).bind (hnum.bind ((Reads.field h.1).bind ?_))
    refine (reads_vecFields h.2).bind ((Reads.field cause.index_lt).bind ?_)
    rw [orInvalid_of_eq cause.fromBits_index]
    exact Reads.pure _
  | systemHit target system level =>
    obtain ⟨htarget, hsystem, hlevel⟩ := h
    refine (Reads.field (v := 2) (by decide)).bind (hnum.bind ((Reads.field htarget).bind ?_))
    exact (Reads.field hsystem).bind ((Reads.field hlevel).bind (Reads.pure _))
  | targetHit target shooter =>
    refine (Reads.field (v := 3) (by decide)).bind (hnum.bind ?_)
    exact (Reads.field h.1).bind ((Reads.field h.2).bind (Reads.pure _))
  | doomed suit =>
    refine (Reads.field (v := 4) (by decide)).bind (hnum.bind ?_)
    exact (Reads.field h).bind (Reads.pure _)
  | eject suit pos vel =>
    obtain ⟨hsuit, hpos, hvel⟩ := h
    simp only [ext, fields, List.cons_append, List.nil_append, Field.all_cons, Field.all_append]
    refine (Reads.field (v := 5) (by decide)).bind (hnum.bind ((Reads.field hsuit).bind ?_))
    exact (reads_vecFields hpos).bind ((reads_vecFields hvel).map rfl)
  | blast suit pos =>
    refine (Reads.field (v := 6) (by decide)).bind (hnum.bind ((Reads.field h.1).bind ?_))
    exact (reads_vecFields h.2).map rfl
  | staggered suit =>
    refine (Reads.field (v := 7) (by decide)).bind ((Reads.field (v := 0) (by decide)).bind ?_)
    exact hnum.bind ((Reads.field h).bind (Reads.pure _))

theorem widths (what : SimEvent) :
    Field.widths what.ext + 16 + Field.widths what.fields = what.encodedBits := by
  cases what with
  | missileBurst => simp [ext, fields, encodedBits]; ring
  | beamSpawn => simp [ext, fields, encodedBits]; ring
  | eject => simp [ext, fields, encodedBits]; ring
  | blast => simp [ext, fields, encodedBits]; ring
  | kill _ _ weapon _ => simp [ext, fields, encodedBits, lastBlowField]; ring
  | seizure => rfl
  | detach => simp [ext, fields, encodedBits, Field.flag]; ring
  | _ => rfl

end SimEvent

namespace Event

variable {e : Event} {snapshotTick : ℕ}

theorem widths_fields (e : Event) (snapshotTick : ℕ) :
    Field.widths (e.fields snapshotTick) = e.encodedBits := by
  cases e with
  | leave tick slot => rfl
  | sim id tick what =>
    have h := what.widths
    simp only [fields, encodedBits, Field.widths_append, Field.widths_cons, Field.widths_nil]
    omega

theorem reads (h : e.InRange) (hle : e.tick ≤ snapshotTick) (hage : snapshotTick - e.tick ≤ 255) :
    Reads (read snapshotTick) (Field.all (e.fields snapshotTick)) e := by
  have hlt : e.age snapshotTick < 2 ^ 8 := by
    unfold age
    omega
  refine Reads.whole ?_
  cases e with
  | leave tick slot =>
    refine (Reads.field (v := 3) (by decide)).bind ((Reads.field hlt).bind ?_)
    rw [age, ticksBack_age hle hage]
    exact (Reads.field h.2).bind (Reads.pure _)
  | sim id tick what =>
    simp only [fields, List.cons_append, List.nil_append, Field.all_cons]
    refine (Reads.field what.kind_lt).bind ((Reads.field hlt).bind ?_)
    rw [age, ticksBack_age hle hage]
    exact SimEvent.reads h.1 h.2.2

/-- An event in range that is not too long past goes in the bits its size says, and back. -/
theorem roundTrips (h : e.InRange) (hle : e.tick ≤ snapshotTick)
    (hage : snapshotTick - e.tick ≤ 255) :
    RoundTrips (e.write snapshotTick) (read snapshotTick) e.encodedBits e :=
  roundTrips_put (reads h hle hage) (widths_fields e snapshotTick)

end Event

/-! ## Events as the simulation has them -/

/-- What the simulation tells of, in its own numbers. -/
inductive Occurrence where
  | beamSpawn (shooter : ℕ) (weapon : WeaponKind) (shotSeq : ℕ) (origin velocity : Fin 3 → ℚ)
  | hit (target : ℕ) (part : Part) (shooter : ℕ) (weapon : WeaponKind) (damage : ℚ)
  | kill (victim killer : ℕ) (weapon : Option WeaponKind) (hulk : ℕ)
  | clash (a b : ℕ)
  | seizure (pilot : ℕ) (active : Bool)
  | detach (source : ℕ) (fromHulk : Bool) (part : Part) (chunk : ℕ)
  | rockBreak (rock by_ : ℕ)
  | missileBurst (missile : ℕ) (pos : Fin 3 → ℚ) (cause : BurstCause)
  | systemHit (target system level : ℕ)
  | targetHit (target shooter : ℕ)
  | doomed (suit : ℕ)
  | eject (suit : ℕ) (pos vel : Fin 3 → ℚ)
  | blast (suit : ℕ) (pos : Fin 3 → ℚ)
  | staggered (suit : ℕ)
  deriving DecidableEq

/-- Beam speeds go up to this, m/s. -/
def speedMax : ℚ := 16384

def posCodes (v : Fin 3 → ℚ) (k : Fin 3) : ℕ := quantizeSigned (v k) sectorHalfExtent posBits

def posOf (c : Fin 3 → ℕ) (k : Fin 3) : ℚ := dequantizeSigned (c k) sectorHalfExtent posBits

def velCodes (v : Fin 3 → ℚ) (k : Fin 3) : ℕ := quantizeSigned (v k) velMax velBits

def velOf (c : Fin 3 → ℕ) (k : Fin 3) : ℚ := dequantizeSigned (c k) velMax velBits

/-- Where a beam goes: the codes of its direction, up if it hardly moves. -/
def flightDir (l : Lengths) (velocity : Fin 3 → ℚ) : Fin 2 → ℕ :=
  let speed := l.length velocity
  dirCode (if 1 / 1000 < speed then fun k => velocity k / speed else ![0, 0, 1]) dirBits

def flightSpeed (l : Lengths) (velocity : Fin 3 → ℚ) : ℕ :=
  quantizeUnit (l.length velocity / speedMax) speedBits

/-- The velocity of a direction's codes and a speed's. -/
def flightOf (l : Lengths) (dir : Fin 2 → ℕ) (speed : ℕ) (k : Fin 3) : ℚ :=
  dirFromCode l dir dirBits k * (dequantizeUnit speed speedBits * speedMax)

def Occurrence.coded (l : Lengths) : Occurrence → SimEvent
  | beamSpawn shooter weapon shotSeq origin velocity =>
    .beamSpawn shooter weapon shotSeq (posCodes origin) (flightDir l velocity)
      (flightSpeed l velocity)
  | hit target part shooter weapon damage =>
    .hit target part shooter weapon (quantizeUnit damage damageBits)
  | kill victim killer weapon hulk => .kill victim killer weapon hulk
  | clash a b => .clash a b
  | seizure pilot active => .seizure pilot active
  | detach source fromHulk part chunk => .detach source fromHulk part chunk
  | rockBreak rock by_ => .rockBreak rock by_
  | missileBurst missile pos cause => .missileBurst missile (posCodes pos) cause
  | systemHit target system level => .systemHit target system level
  | targetHit target shooter => .targetHit target shooter
  | doomed suit => .doomed suit
  | eject suit pos vel => .eject suit (posCodes pos) (velCodes vel)
  | blast suit pos => .blast suit (posCodes pos)
  | staggered suit => .staggered suit

def SimEvent.told (l : Lengths) : SimEvent → Occurrence
  | beamSpawn shooter weapon shotSeq origin dir speed =>
    .beamSpawn shooter weapon shotSeq (posOf origin) (flightOf l dir speed)
  | hit target part shooter weapon damage =>
    .hit target part shooter weapon (dequantizeUnit damage damageBits)
  | kill victim killer weapon hulk => .kill victim killer weapon hulk
  | clash a b => .clash a b
  | seizure pilot active => .seizure pilot active
  | detach source fromHulk part chunk => .detach source fromHulk part chunk
  | rockBreak rock by_ => .rockBreak rock by_
  | missileBurst missile pos cause => .missileBurst missile (posOf pos) cause
  | systemHit target system level => .systemHit target system level
  | targetHit target shooter => .targetHit target shooter
  | doomed suit => .doomed suit
  | eject suit pos vel => .eject suit (posOf pos) (velOf vel)
  | blast suit pos => .blast suit (posOf pos)
  | staggered suit => .staggered suit

namespace Occurrence

/-- An event with its numbers at the nearest their codes stand for, and all else as it is. -/
def quantized (l : Lengths) : Occurrence → Occurrence
  | beamSpawn shooter weapon shotSeq origin velocity =>
    beamSpawn shooter weapon shotSeq (posOf (posCodes origin))
      (flightOf l (flightDir l velocity) (flightSpeed l velocity))
  | hit target part shooter weapon damage =>
    hit target part shooter weapon (dequantizeUnit (quantizeUnit damage damageBits) damageBits)
  | missileBurst missile pos cause => missileBurst missile (posOf (posCodes pos)) cause
  | eject suit pos vel => eject suit (posOf (posCodes pos)) (velOf (velCodes vel))
  | blast suit pos => blast suit (posOf (posCodes pos))
  | what => what

/-- Ids and counts in their bits. -/
def InRange : Occurrence → Prop
  | beamSpawn shooter _ shotSeq _ _ => shooter < 2 ^ slotBits ∧ shotSeq < 2 ^ 8
  | hit target _ shooter _ _ => target < 2 ^ slotBits ∧ shooter < 2 ^ slotBits
  | kill victim killer _ hulk =>
    victim < 2 ^ slotBits ∧ killer < 2 ^ slotBits ∧ hulk < 2 ^ chunkBits
  | clash a b => a < 2 ^ slotBits ∧ b < 2 ^ slotBits
  | seizure pilot _ => pilot < 2 ^ slotBits
  | detach source fromHulk _ chunk =>
    source < 2 ^ (if fromHulk then chunkBits else slotBits) ∧ chunk < 2 ^ chunkBits
  | rockBreak rock by_ => rock < 2 ^ rockBits ∧ by_ < 2 ^ slotBits
  | missileBurst missile _ _ => missile < 2 ^ missileBits
  | systemHit target system level =>
    target < 2 ^ slotBits ∧ system < 2 ^ systemBits ∧ level < 2 ^ levelBits
  | targetHit target shooter => target < 2 ^ targetBits ∧ shooter < 2 ^ slotBits
  | doomed suit => suit < 2 ^ slotBits
  | eject suit _ _ => suit < 2 ^ slotBits
  | blast suit _ => suit < 2 ^ slotBits
  | staggered suit => suit < 2 ^ slotBits

theorem coded_inRange (l : Lengths) {what : Occurrence} (h : what.InRange) :
    (what.coded l).InRange := by
  have hpos (v : Fin 3 → ℚ) (k : Fin 3) : posCodes v k < 2 ^ posBits := Quant.quantizeSigned_lt _ _ _
  have hvel (v : Fin 3 → ℚ) (k : Fin 3) : velCodes v k < 2 ^ velBits := Quant.quantizeSigned_lt _ _ _
  cases what with
  | beamSpawn shooter weapon shotSeq origin velocity =>
    exact ⟨h.1, h.2, hpos origin, Quant.dirCode_lt _ _, Quant.quantizeUnit_lt _ _⟩
  | hit target part shooter weapon damage => exact ⟨h.1, h.2, Quant.quantizeUnit_lt _ _⟩
  | missileBurst missile pos cause => exact ⟨h, hpos pos⟩
  | eject suit pos vel => exact ⟨h, hpos pos, hvel vel⟩
  | blast suit pos => exact ⟨h, hpos pos⟩
  | _ => exact h

theorem told_coded (l : Lengths) (what : Occurrence) : (what.coded l).told l = what.quantized l := by
  cases what <;> rfl

end Occurrence

inductive Told where
  | leave (tick slot : ℕ)
  | sim (id tick : ℕ) (what : Occurrence)
  deriving DecidableEq

namespace Told

def tick : Told → ℕ
  | leave tick _ => tick
  | sim _ tick _ => tick

def coded (l : Lengths) : Told → Event
  | leave tick slot => .leave tick slot
  | sim id tick what => .sim id tick (what.coded l)

def ofEvent (l : Lengths) : Event → Told
  | .leave tick slot => leave tick slot
  | .sim id tick what => sim id tick (what.told l)

def quantized (l : Lengths) : Told → Told
  | leave tick slot => leave tick slot
  | sim id tick what => sim id tick (what.quantized l)

def InRange : Told → Prop
  | leave tick slot => tick < 2 ^ 32 ∧ slot < 2 ^ slotBits
  | sim id tick what => id < 2 ^ 16 ∧ tick < 2 ^ 32 ∧ what.InRange

def write (l : Lengths) (snapshotTick : ℕ) (e : Told) : BitWriter → BitWriter :=
  (e.coded l).write snapshotTick

def read (l : Lengths) (snapshotTick : ℕ) : Read Told := do
  let e ← Event.read snapshotTick
  return ofEvent l e

def encodedBits (l : Lengths) (e : Told) : ℕ := (e.coded l).encodedBits

variable {l : Lengths} {e : Told} {snapshotTick : ℕ}

@[simp] theorem tick_coded : (e.coded l).tick = e.tick := by cases e <;> rfl

theorem coded_inRange (h : e.InRange) : (e.coded l).InRange := by
  cases e with
  | leave tick slot => exact h
  | sim id tick what => exact ⟨h.1, h.2.1, what.coded_inRange l h.2.2⟩

theorem ofEvent_coded : ofEvent l (e.coded l) = e.quantized l := by
  cases e with
  | leave tick slot => rfl
  | sim id tick what => exact congrArg (sim id tick) (what.told_coded l)

end Told

namespace Told

variable {l : Lengths} {e : Told} {snapshotTick : ℕ}

/-- Every event in range and up to 255 ticks old goes over in exactly the bits its size says, and is
read back with its tick and all else it says, its positions, velocities and damage as their codes
have them. -/
theorem event_codec (h : e.InRange) (hle : e.tick ≤ snapshotTick)
    (hage : snapshotTick - e.tick ≤ 255) :
    RoundTrips (e.write l snapshotTick) (read l snapshotTick) (e.encodedBits l) (e.quantized l) := by
  have hcoded := Event.roundTrips (coded_inRange (l := l) h) (tick_coded.symm ▸ hle)
    (tick_coded.symm ▸ hage)
  rw [← ofEvent_coded]
  exact hcoded.map (ofEvent l)

def halfHit : Told := .sim 7 90 (.hit 5 .torso 4 .beamRifle (1 / 2))

theorem event_codec_halfHit : RoundTrips (halfHit.write .axial 100) (read .axial 100)
    (halfHit.encodedBits .axial) (halfHit.quantized .axial) :=
  event_codec ⟨by decide, by decide, by decide, by decide⟩ (by decide) (by decide)

/-- Half of the armour comes back as 512 of 1023 parts of it. -/
theorem damage_not_same : halfHit.InRange ∧ halfHit.tick = 90
    ∧ ¬RoundTrips (halfHit.write .axial 100) (read .axial 100) (halfHit.encodedBits .axial) halfHit := by
  have hrange : halfHit.InRange := ⟨by decide, by decide, by decide, by decide⟩
  refine ⟨hrange, rfl, ?_⟩
  intro hsame
  have hcoded : RoundTrips ((halfHit.coded .axial).write 100) (Event.read 100)
      (halfHit.coded .axial).encodedBits (halfHit.coded .axial) :=
    Event.roundTrips (coded_inRange hrange) (by decide) (by decide)
  have heq := hsame.unique (hcoded.map (ofEvent .axial))
  have hdamage : (1 / 2 : ℚ) = dequantizeUnit (quantizeUnit (1 / 2 : ℚ) damageBits) damageBits := by
    simpa [halfHit, ofEvent_coded, quantized, Occurrence.quantized] using heq
  have hcode : quantizeUnit (1 / 2 : ℚ) damageBits = 512 := by
    rw [quantizeUnit, Quant.clamp_eq (by norm_num) (by norm_num)]
    norm_num [damageBits, maxCode, Quant.round]
    rfl
  rw [hcode] at hdamage
  norm_num [dequantizeUnit, damageBits, maxCode] at hdamage

end Told

end BeforeColony
