import BeforeColony.Proto.Entity
import BeforeColony.Proto.Reading

/-!
# Rocks, missiles and salvage

The lists of a snapshot beside its events and its suits: the rocks whose state changed, the missiles
in flight, and the chunks in range, free or in someone's hand. Masses go in steps of 10 kg.
-/

set_option autoImplicit false

namespace BeforeColony

def missileVelBits : ℕ := 12
def massBits : ℕ := 12
def massStep : ℕ := 10
def spinBits : ℕ := 10
def segmentRotBits : ℕ := 10
/-- A segment's start travels as its age in ticks. -/
def ageBits : ℕ := 16
def heldRotBits : ℕ := 9

structure RockState where
  id : ℕ
  destroyed : Bool
  hp : ℕ
  ore : ℕ
  deriving DecidableEq

/-- One missile in flight, as the receiving pilot sees it. -/
structure MissileState where
  id : ℕ
  generation : ℕ
  kind : WeaponKind
  guided : Bool
  targetsYou : Bool
  friendly : Bool
  pos : Fin 3 → ℕ
  vel : Fin 3 → ℕ
  deriving DecidableEq

inductive Snapshot.ChunkKind where
  | ore (ore : ℕ)
  | limb (frame : FrameId) (faction : Faction) (part : Part)
  /-- What's left of a suit: a bit for each part still on it. -/
  | hulk (frame : FrameId) (faction : Faction) (parts : ℕ)
  deriving DecidableEq

structure Snapshot.ChunkDesc where
  kind : Snapshot.ChunkKind
  seed : ℕ
  massKg : ℕ
  deriving DecidableEq

/-- A free chunk's motion from tick `t0` on. -/
structure Segment where
  t0 : ℕ
  pos : Fin 3 → ℕ
  vel : Fin 3 → ℕ
  rot : Quat
  spin : Fin 3 → ℕ
  deriving DecidableEq

/-- One chunk as the receiving pilot sees it. -/
inductive ObjectState where
  | gone (id : ℕ)
  | free (id generation : ℕ) (desc : Snapshot.ChunkDesc) (seg : Segment)
  | held (id generation : ℕ) (desc : Snapshot.ChunkDesc) (holder : ℕ) (right : Bool) (rot : Quat) (since : ℕ)
  deriving DecidableEq

namespace RockState

def read : Read RockState := do
  let id ← readBits rockBits
  let destroyed ← readBool
  let hp ← readBits 3
  let ore ← readBits 4
  return { id, destroyed, hp, ore }

structure InRange (s : RockState) : Prop where
  id : s.id < 2 ^ rockBits
  hp : s.hp < 2 ^ 3
  ore : s.ore < 2 ^ 4

theorem safe_read : Safe read InRange := by
  refine .bind (.bits (by decide)) fun id hid => ?_
  refine .bind .bool fun destroyed _ => ?_
  refine .bind (.bits (by decide)) fun hp hhp => ?_
  exact (Safe.bits (by decide)).map fun ore hore => ⟨hid, hhp, hore⟩

end RockState

namespace MissileState

def read : Read MissileState := do
  let id ← readBits missileBits
  let generation ← readBits 2
  let code ← readBits WeaponKind.bits
  let kind ← orInvalid (WeaponKind.fromBits code)
  let guided ← readBool
  let targetsYou ← readBool
  let friendly ← readBool
  let pos ← readVec posBits
  let vel ← readVec missileVelBits
  return { id, generation, kind, guided, targetsYou, friendly, pos, vel }

structure InRange (m : MissileState) : Prop where
  id : m.id < 2 ^ missileBits
  generation : m.generation < 2 ^ 2
  pos : ∀ k, m.pos k < 2 ^ posBits
  vel : ∀ k, m.vel k < 2 ^ missileVelBits

theorem safe_read : Safe read InRange := by
  refine .bind (.bits (by decide)) fun id hid => ?_
  refine .bind (.bits (by decide)) fun generation hgeneration => ?_
  refine .bind (.bits (by decide)) fun code _ => ?_
  refine .bind (Safe.orInvalid _) fun kind _ => ?_
  refine .bind .bool fun guided _ => ?_
  refine .bind .bool fun targetsYou _ => ?_
  refine .bind .bool fun friendly _ => ?_
  refine .bind (safe_vec (by decide)) fun pos hpos => ?_
  exact (safe_vec (by decide)).map fun vel hvel => ⟨hid, hgeneration, hpos, hvel⟩

end MissileState

namespace Snapshot.ChunkDesc

def readFrame : Read FrameId := do
  let code ← readBits FrameId.bits
  orInvalid (FrameId.fromBits code)

def readKind : Read ChunkKind := do
  match ← readBits 2 with
  | 0 =>
    let ore ← readBits 2
    return .ore ore
  | 1 =>
    let frame ← readFrame
    let faction ← readBits Faction.bits
    let code ← readBits Part.bits
    let part ← orInvalid (Part.fromBits code)
    return .limb frame (Faction.fromBits faction) part
  | 2 =>
    let frame ← readFrame
    let faction ← readBits Faction.bits
    let parts ← readBits Part.count
    return .hulk frame (Faction.fromBits faction) parts
  | _ => invalid

def read : Read ChunkDesc := do
  let kind ← readKind
  let seed ← readBits 8
  let mass ← readBits massBits
  return { kind, seed, massKg := mass * massStep }

end Snapshot.ChunkDesc

/-- An ore there is, or parts a suit has. -/
def Snapshot.ChunkKind.InRange : Snapshot.ChunkKind → Prop
  | ore k => k < 4
  | limb _ _ _ => True
  | hulk _ _ parts => parts < 2 ^ Part.count

namespace Snapshot.ChunkDesc

structure InRange (d : ChunkDesc) : Prop where
  kind : d.kind.InRange
  seed : d.seed < 2 ^ 8
  massKg : d.massKg < 2 ^ massBits * massStep

theorem safe_frame : Safe readFrame fun _ => True :=
  .bind (.bits (by decide)) fun _ _ => (Safe.orInvalid _).any

theorem safe_kind : Safe readKind ChunkKind.InRange := by
  refine .bind (.bits (by decide)) fun kind _ => ?_
  split
  · exact (Safe.bits (by decide)).map fun ore hore => hore
  · refine .bind safe_frame fun frame _ => ?_
    refine .bind (.bits (by decide)) fun faction _ => ?_
    refine .bind (.bits (by decide)) fun code _ => ?_
    exact (Safe.orInvalid _).map fun part _ => trivial
  · refine .bind safe_frame fun frame _ => ?_
    refine .bind (.bits (by decide)) fun faction _ => ?_
    exact (Safe.bits (by decide)).map fun parts hparts => hparts
  · exact .invalid

theorem safe_read : Safe read InRange := by
  refine .bind safe_kind fun kind hkind => ?_
  refine .bind (.bits (by decide)) fun seed hseed => ?_
  refine (Safe.bits (by decide)).map fun mass hmass => ⟨hkind, hseed, ?_⟩
  exact Nat.mul_lt_mul_of_pos_right hmass (by decide)

end Snapshot.ChunkDesc

namespace Segment

def read (snapshotTick : ℕ) : Read Segment := do
  let age ← readBits ageBits
  let pos ← readVec posBits
  let vel ← readVec velBits
  let rot ← readQuat segmentRotBits
  let spin ← readVec spinBits
  return { t0 := ticksBack snapshotTick age, pos, vel, rot, spin }

structure InRange (s : Segment) : Prop where
  t0 : s.t0 < 2 ^ 32
  pos : ∀ k, s.pos k < 2 ^ posBits
  vel : ∀ k, s.vel k < 2 ^ velBits
  rotLargest : s.rot.largest < 2 ^ 2
  rot : ∀ k, s.rot.codes k < 2 ^ segmentRotBits
  spin : ∀ k, s.spin k < 2 ^ spinBits

theorem safe_read {tick : ℕ} (htick : tick < 2 ^ 32) : Safe (read tick) InRange := by
  refine .bind (.bits (by decide)) fun age _ => ?_
  refine .bind (safe_vec (by decide)) fun pos hpos => ?_
  refine .bind (safe_vec (by decide)) fun vel hvel => ?_
  refine .bind (safe_quat (by decide)) fun rot hrot => ?_
  refine (safe_vec (by decide)).map fun spin hspin => ?_
  exact ⟨ticksBack_lt htick, hpos, hvel, hrot.1, hrot.2, hspin⟩

end Segment

namespace ObjectState

def read (snapshotTick : ℕ) : Read ObjectState := do
  let kind ← readBits 2
  let id ← readBits chunkBits
  match kind with
  | 0 => return gone id
  | 1 =>
    let generation ← readBits 2
    let desc ← Snapshot.ChunkDesc.read
    let seg ← Segment.read snapshotTick
    return free id generation desc seg
  | 2 =>
    let generation ← readBits 2
    let desc ← Snapshot.ChunkDesc.read
    let holder ← readBits slotBits
    let right ← readBool
    let rot ← readQuat heldRotBits
    let age ← readBits ageBits
    return held id generation desc holder right rot (ticksBack snapshotTick age)
  | _ => invalid

def InRange : ObjectState → Prop
  | gone id => id < 2 ^ chunkBits
  | free id generation desc seg =>
    id < 2 ^ chunkBits ∧ generation < 2 ^ 2 ∧ desc.InRange ∧ seg.InRange
  | held id generation desc holder _ rot since =>
    id < 2 ^ chunkBits ∧ generation < 2 ^ 2 ∧ desc.InRange ∧ holder < 2 ^ slotBits
      ∧ rot.largest < 2 ^ 2 ∧ (∀ k, rot.codes k < 2 ^ heldRotBits) ∧ since < 2 ^ 32

theorem safe_read {tick : ℕ} (htick : tick < 2 ^ 32) : Safe (read tick) InRange := by
  refine .bind (.bits (by decide)) fun kind _ => ?_
  refine .bind (.bits (by decide)) fun id hid => ?_
  split
  · exact .pure hid
  · refine .bind (.bits (by decide)) fun generation hgeneration => ?_
    refine .bind Snapshot.ChunkDesc.safe_read fun desc hdesc => ?_
    exact (Segment.safe_read htick).map fun seg hseg => ⟨hid, hgeneration, hdesc, hseg⟩
  · refine .bind (.bits (by decide)) fun generation hgeneration => ?_
    refine .bind Snapshot.ChunkDesc.safe_read fun desc hdesc => ?_
    refine .bind (.bits (by decide)) fun holder hholder => ?_
    refine .bind .bool fun right _ => ?_
    refine .bind (safe_quat (by decide)) fun rot hrot => ?_
    refine (Safe.bits (by decide)).map fun age _ => ?_
    exact ⟨hid, hgeneration, hdesc, hholder, hrot.1, hrot.2, ticksBack_lt htick⟩
  · exact .invalid

end ObjectState

end BeforeColony
