import BeforeColony.Proto.Entity
import BeforeColony.Proto.Reading

/-!
# Events carried inside snapshots

Events repeat in every snapshot until the client acks one that had them; an event's `id`, the low
16 bits of its number in the simulation, lets the client tell the repeats. A notice that a suit
left the client's sensors has none: taking it twice does no harm.
-/

set_option autoImplicit false

namespace BeforeColony

inductive BurstCause where
  | hit | proximity | expired | blocked | shotDown
  deriving DecidableEq, Repr

namespace BurstCause

def bits : ℕ := 3

def all : List BurstCause := [hit, proximity, expired, blocked, shotDown]

def fromBits (v : ℕ) : Option BurstCause := all[v]?

end BurstCause

/-- What the simulation tells of, its positions, directions and speeds in codes. -/
inductive SimEvent where
  | beamSpawn (shooter : ℕ) (weapon : WeaponKind) (shotSeq : ℕ) (origin : Fin 3 → ℕ)
    (dir : Fin 2 → ℕ) (speed : ℕ)
  | hit (target : ℕ) (part : Part) (shooter : ℕ) (weapon : WeaponKind) (damage : ℕ)
  | kill (victim killer : ℕ) (weapon : Option WeaponKind) (hulk : ℕ)
  | clash (a b : ℕ)
  | seizure (pilot : ℕ) (active : Bool)
  | detach (source : ℕ) (fromHulk : Bool) (part : Part) (chunk : ℕ)
  | rockBreak (rock by_ : ℕ)
  | missileBurst (missile : ℕ) (pos : Fin 3 → ℕ) (cause : BurstCause)
  | systemHit (target system level : ℕ)
  | targetHit (target shooter : ℕ)
  | doomed (suit : ℕ)
  | eject (suit : ℕ) (pos vel : Fin 3 → ℕ)
  | blast (suit : ℕ) (pos : Fin 3 → ℕ)
  | staggered (suit : ℕ)
  deriving DecidableEq

inductive Event where
  | leave (tick slot : ℕ)
  | sim (id tick : ℕ) (what : SimEvent)
  deriving DecidableEq

namespace Event

def tick : Event → ℕ
  | leave tick _ => tick
  | sim _ tick _ => tick

/-- `none` for a notice that needs no telling apart. -/
def id : Event → Option ℕ
  | leave _ _ => none
  | sim id _ _ => some id

def withId (e : Event) (id : ℕ) : Event :=
  match e with
  | leave tick slot => leave tick slot
  | sim _ tick what => sim id tick what

end Event

/-! ## Reading -/

def kindBits : ℕ := 3
def extBits : ℕ := 3
def ext2Bits : ℕ := 4
def dirBits : ℕ := 16
def speedBits : ℕ := 16
def damageBits : ℕ := 10
def systemBits : ℕ := 4
def levelBits : ℕ := 2
def targetBits : ℕ := 4

def readSlot : Read ℕ := readBits slotBits

def readWeapon : Read WeaponKind := do
  let code ← readBits WeaponKind.bits
  orInvalid (WeaponKind.fromBits code)

def readPart : Read Part := do
  let code ← readBits Part.bits
  orInvalid (Part.fromBits code)

def readLastBlow : Read (Option WeaponKind) := do
  match ← readBits WeaponKind.bits with
  | 0 => return none
  | v + 1 =>
    let weapon ← orInvalid (WeaponKind.fromBits v)
    return some weapon

namespace Event

/-- Reads what the later kinds share a code for. -/
def readExt (tick : ℕ) : Read Event := do
  match ← readBits extBits with
  | 0 =>
    let id ← readBits 16
    let rock ← readBits rockBits
    let by_ ← readSlot
    return sim id tick (.rockBreak rock by_)
  | 1 =>
    let id ← readBits 16
    let missile ← readBits missileBits
    let pos ← readVec posBits
    let code ← readBits BurstCause.bits
    let cause ← orInvalid (BurstCause.fromBits code)
    return sim id tick (.missileBurst missile pos cause)
  | 2 =>
    let id ← readBits 16
    let target ← readSlot
    let system ← readBits systemBits
    let level ← readBits levelBits
    return sim id tick (.systemHit target system level)
  | 3 =>
    let id ← readBits 16
    let target ← readBits targetBits
    let shooter ← readSlot
    return sim id tick (.targetHit target shooter)
  | 4 =>
    let id ← readBits 16
    let suit ← readSlot
    return sim id tick (.doomed suit)
  | 5 =>
    let id ← readBits 16
    let suit ← readSlot
    let pos ← readVec posBits
    let vel ← readVec velBits
    return sim id tick (.eject suit pos vel)
  | 6 =>
    let id ← readBits 16
    let suit ← readSlot
    let pos ← readVec posBits
    return sim id tick (.blast suit pos)
  | 7 =>
    match ← readBits ext2Bits with
    | 0 =>
      let id ← readBits 16
      let suit ← readSlot
      return sim id tick (.staggered suit)
    | _ => invalid
  | _ => invalid

def readKind (kind tick : ℕ) : Read Event :=
  match kind with
  | 0 => do
    let id ← readBits 16
    let shooter ← readSlot
    let weapon ← readWeapon
    let shotSeq ← readBits 8
    let origin ← readVec posBits
    let dir ← readDir dirBits
    let speed ← readBits speedBits
    return sim id tick (.beamSpawn shooter weapon shotSeq origin dir speed)
  | 1 => do
    let id ← readBits 16
    let target ← readSlot
    let part ← readPart
    let shooter ← readSlot
    let weapon ← readWeapon
    let damage ← readBits damageBits
    return sim id tick (.hit target part shooter weapon damage)
  | 2 => do
    let id ← readBits 16
    let victim ← readSlot
    let killer ← readSlot
    let weapon ← readLastBlow
    let hulk ← readBits chunkBits
    return sim id tick (.kill victim killer weapon hulk)
  | 3 => do
    let slot ← readSlot
    return leave tick slot
  | 4 => do
    let id ← readBits 16
    let a ← readSlot
    let b ← readSlot
    return sim id tick (.clash a b)
  | 5 => do
    let id ← readBits 16
    let pilot ← readSlot
    let active ← readBool
    return sim id tick (.seizure pilot active)
  | 6 => do
    let id ← readBits 16
    let fromHulk ← readBool
    let source ← readBits (if fromHulk then chunkBits else slotBits)
    let part ← readPart
    let chunk ← readBits chunkBits
    return sim id tick (.detach source fromHulk part chunk)
  | 7 => readExt tick
  | _ => invalid

def read (snapshotTick : ℕ) : Read Event := whole do
  let kind ← readBits kindBits
  let age ← readBits 8
  readKind kind (ticksBack snapshotTick age)

end Event

/-- Slots, chunks and codes in their bits. -/
def SimEvent.InRange : SimEvent → Prop
  | beamSpawn shooter _ shotSeq origin dir speed =>
    shooter < 2 ^ slotBits ∧ shotSeq < 2 ^ 8 ∧ (∀ k, origin k < 2 ^ posBits)
      ∧ (∀ k, dir k < 2 ^ dirBits) ∧ speed < 2 ^ speedBits
  | hit target _ shooter _ damage =>
    target < 2 ^ slotBits ∧ shooter < 2 ^ slotBits ∧ damage < 2 ^ damageBits
  | kill victim killer _ hulk =>
    victim < 2 ^ slotBits ∧ killer < 2 ^ slotBits ∧ hulk < 2 ^ chunkBits
  | clash a b => a < 2 ^ slotBits ∧ b < 2 ^ slotBits
  | seizure pilot _ => pilot < 2 ^ slotBits
  | detach source fromHulk _ chunk =>
    source < 2 ^ (if fromHulk then chunkBits else slotBits) ∧ chunk < 2 ^ chunkBits
  | rockBreak rock by_ => rock < 2 ^ rockBits ∧ by_ < 2 ^ slotBits
  | missileBurst missile pos _ => missile < 2 ^ missileBits ∧ ∀ k, pos k < 2 ^ posBits
  | systemHit target system level =>
    target < 2 ^ slotBits ∧ system < 2 ^ systemBits ∧ level < 2 ^ levelBits
  | targetHit target shooter => target < 2 ^ targetBits ∧ shooter < 2 ^ slotBits
  | doomed suit => suit < 2 ^ slotBits
  | eject suit pos vel =>
    suit < 2 ^ slotBits ∧ (∀ k, pos k < 2 ^ posBits) ∧ ∀ k, vel k < 2 ^ velBits
  | blast suit pos => suit < 2 ^ slotBits ∧ ∀ k, pos k < 2 ^ posBits
  | staggered suit => suit < 2 ^ slotBits

namespace Event

def InRange : Event → Prop
  | leave tick slot => tick < 2 ^ 32 ∧ slot < 2 ^ slotBits
  | sim id tick what => id < 2 ^ 16 ∧ tick < 2 ^ 32 ∧ what.InRange

end Event

theorem safe_slot : Safe readSlot fun v => v < 2 ^ slotBits := .bits (by decide)

theorem safe_weapon : Safe readWeapon fun _ => True :=
  .bind (.bits (by decide)) fun _ _ => (Safe.orInvalid _).any

theorem safe_part : Safe readPart fun _ => True :=
  .bind (.bits (by decide)) fun _ _ => (Safe.orInvalid _).any

theorem safe_lastBlow : Safe readLastBlow fun _ => True := by
  refine .bind (.bits (by decide)) fun v _ => ?_
  split
  · exact .pure trivial
  · exact (Safe.orInvalid _).map fun _ _ => trivial

namespace Event

variable {tick : ℕ}

theorem safe_ext (htick : tick < 2 ^ 32) : Safe (readExt tick) InRange := by
  refine .bind (.bits (by decide)) fun ext _ => ?_
  split
  · refine .bind (.bits (by decide)) fun id hid => ?_
    refine .bind (.bits (by decide)) fun rock hrock => ?_
    exact safe_slot.map fun by_ hby => ⟨hid, htick, hrock, hby⟩
  · refine .bind (.bits (by decide)) fun id hid => ?_
    refine .bind (.bits (by decide)) fun missile hmissile => ?_
    refine .bind (safe_vec (by decide)) fun pos hpos => ?_
    refine .bind (.bits (by decide)) fun code _ => ?_
    exact (Safe.orInvalid _).map fun cause _ => ⟨hid, htick, hmissile, hpos⟩
  · refine .bind (.bits (by decide)) fun id hid => ?_
    refine .bind safe_slot fun target htarget => ?_
    refine .bind (.bits (by decide)) fun system hsystem => ?_
    exact (Safe.bits (by decide)).map fun level hlevel => ⟨hid, htick, htarget, hsystem, hlevel⟩
  · refine .bind (.bits (by decide)) fun id hid => ?_
    refine .bind (.bits (by decide)) fun target htarget => ?_
    exact safe_slot.map fun shooter hshooter => ⟨hid, htick, htarget, hshooter⟩
  · refine .bind (.bits (by decide)) fun id hid => ?_
    exact safe_slot.map fun suit hsuit => ⟨hid, htick, hsuit⟩
  · refine .bind (.bits (by decide)) fun id hid => ?_
    refine .bind safe_slot fun suit hsuit => ?_
    refine .bind (safe_vec (by decide)) fun pos hpos => ?_
    exact (safe_vec (by decide)).map fun vel hvel => ⟨hid, htick, hsuit, hpos, hvel⟩
  · refine .bind (.bits (by decide)) fun id hid => ?_
    refine .bind safe_slot fun suit hsuit => ?_
    exact (safe_vec (by decide)).map fun pos hpos => ⟨hid, htick, hsuit, hpos⟩
  · refine .bind (.bits (by decide)) fun ext2 _ => ?_
    split
    · refine .bind (.bits (by decide)) fun id hid => ?_
      exact safe_slot.map fun suit hsuit => ⟨hid, htick, hsuit⟩
    · exact .invalid
  · exact .invalid

theorem safe_kind (kind : ℕ) (htick : tick < 2 ^ 32) : Safe (readKind kind tick) InRange := by
  unfold readKind
  split
  · refine .bind (.bits (by decide)) fun id hid => ?_
    refine .bind safe_slot fun shooter hshooter => ?_
    refine .bind safe_weapon fun weapon _ => ?_
    refine .bind (.bits (by decide)) fun shotSeq hseq => ?_
    refine .bind (safe_vec (by decide)) fun origin horigin => ?_
    refine .bind (safe_dir (by decide)) fun dir hdir => ?_
    refine (Safe.bits (by decide)).map fun speed hspeed => ?_
    exact ⟨hid, htick, hshooter, hseq, horigin, hdir, hspeed⟩
  · refine .bind (.bits (by decide)) fun id hid => ?_
    refine .bind safe_slot fun target htarget => ?_
    refine .bind safe_part fun part _ => ?_
    refine .bind safe_slot fun shooter hshooter => ?_
    refine .bind safe_weapon fun weapon _ => ?_
    refine (Safe.bits (by decide)).map fun damage hdamage => ?_
    exact ⟨hid, htick, htarget, hshooter, hdamage⟩
  · refine .bind (.bits (by decide)) fun id hid => ?_
    refine .bind safe_slot fun victim hvictim => ?_
    refine .bind safe_slot fun killer hkiller => ?_
    refine .bind safe_lastBlow fun weapon _ => ?_
    exact (Safe.bits (by decide)).map fun hulk hhulk => ⟨hid, htick, hvictim, hkiller, hhulk⟩
  · exact safe_slot.map fun slot hslot => ⟨htick, hslot⟩
  · refine .bind (.bits (by decide)) fun id hid => ?_
    refine .bind safe_slot fun a ha => ?_
    exact safe_slot.map fun b hb => ⟨hid, htick, ha, hb⟩
  · refine .bind (.bits (by decide)) fun id hid => ?_
    refine .bind safe_slot fun pilot hpilot => ?_
    exact Safe.bool.map fun active _ => ⟨hid, htick, hpilot⟩
  · refine .bind (.bits (by decide)) fun id hid => ?_
    refine .bind .bool fun fromHulk _ => ?_
    refine .bind (.bits (by split <;> decide)) fun source hsource => ?_
    refine .bind safe_part fun part _ => ?_
    exact (Safe.bits (by decide)).map fun chunk hchunk => ⟨hid, htick, hsource, hchunk⟩
  · exact safe_ext htick
  · exact .invalid

theorem safe_read (htick : tick < 2 ^ 32) : Safe (read tick) InRange :=
  .whole (.bind (.bits (by decide)) fun kind _ => .bind (.bits (by decide)) fun _ _ =>
    safe_kind kind (ticksBack_lt htick))

end Event

end BeforeColony
