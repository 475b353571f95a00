import BeforeColony.Proto.Types

/-!
# A suit's record on the wire

A record is codes: it travels whole, or as a delta against an earlier record of the same suit.
A delta carries each group of codes as nothing, as small or medium differences, or whole, the
position's differences being from where the baseline's velocity has carried it.
-/

set_option autoImplicit false

namespace BeforeColony

open Lib.BitString

def posBits : ℕ := 21
def velBits : ℕ := 14
def velMax : ℕ := 2048
def sectorHalfExtent : ℕ := 32768
def entityAimBits : ℕ := 9
def entityRotBits : ℕ := 10
def entFlagsBits : ℕ := 16

def backBits : ℕ := 8
/-- How many records of each suit a client keeps. -/
def kept : ℕ := 16
/-- The tick rate a delta's position is carried on at. -/
def hz : ℤ := 30

/-- The largest code of `bits` bits. -/
def maxCode (bits : ℕ) : ℕ := 2 ^ bits - 1

/-- The body a suit is on, and whether it's in the air in the body's grip. -/
structure RiderOn where
  body : BodyRef
  aloft : Bool
  deriving DecidableEq, Repr

structure QEntity where
  slot : ℕ
  generation : ℕ
  frame : FrameId
  faction : Faction
  pilot : PilotKind
  on : Option RiderOn
  pos : Fin 3 → ℕ
  vel : Fin 3 → ℤ
  rotLargest : ℕ
  rot : Fin 3 → ℕ
  aim : Fin 2 → ℕ
  flags : ℕ
  parts : Fin Part.count → ℕ
  deriving DecidableEq

def posBitsOf (on : Option RiderOn) : ℕ := on.elim posBits fun on => on.body.localBits

def velBitsOf (on : Option RiderOn) : ℕ := if on.isSome then riderVelBits else velBits

def entityCommonBits : ℕ :=
  slotBits + 1 + 2 + (FrameId.bits + Faction.bits + PilotKind.bits) + 1 + 2 + 3 * entityRotBits
    + 2 * entityAimBits + entFlagsBits + 3 * Part.count

def entityMaxBits : ℕ := entityCommonBits + 3 * posBits + 3 * velBits

def wholeRecordBits : Option RiderOn → ℕ
  | none => entityMaxBits
  | some on => entityCommonBits + on.body.bits + 1 + 3 * on.body.localBits + 3 * riderVelBits

def posFields (bits : ℕ) (pos : Fin 3 → ℕ) : List Field :=
  Field.array (fun c => ⟨min c (maxCode bits), bits⟩) pos

def rotFields (largest : ℕ) (codes : Fin 3 → ℕ) : List Field :=
  ⟨largest % 4, 2⟩ :: Field.array (fun c => ⟨c, entityRotBits⟩) codes

def velFields (on : Option RiderOn) (vel : Fin 3 → ℤ) : List Field :=
  Field.array
    (fun c => match on with
      | none => .i32 c velBits
      | some _ => .i32 c riderVelBits) vel

def aimFields (aim : Fin 2 → ℕ) : List Field := Field.array (fun c => ⟨c, entityAimBits⟩) aim

def partsFields (parts : Fin Part.count → ℕ) : List Field :=
  Field.array (fun p => ⟨min p 7, 3⟩) parts

def readRot : Read (ℕ × (Fin 3 → ℕ)) := do
  let largest ← readBits 2
  let codes ← readArray (readBits entityRotBits) 3
  return (largest, codes)

def readVel (on : Option RiderOn) : Read (Fin 3 → ℤ) :=
  readArray
    (match on with
      | none => do
        let v ← readBits velBits
        return (v : ℤ)
      | some _ => readI32 riderVelBits) 3

namespace QEntity

/-- A delta can be taken against `base`: the same suit, life and body. -/
def sameSuit (q base : QEntity) : Bool :=
  q.slot = base.slot && q.generation = base.generation && q.frame = base.frame
    && q.faction = base.faction && q.pilot = base.pilot
    && q.on.map RiderOn.body = base.on.map RiderOn.body

def absoluteBits (q : QEntity) : ℕ := wholeRecordBits q.on

def onFields (on : Option RiderOn) : List Field :=
  .flag on.isSome :: on.elim [] fun on => on.body.fields ++ [.flag on.aloft]

def headFields (q : QEntity) : List Field :=
  [⟨q.generation % 4, 2⟩, ⟨q.frame.index, FrameId.bits⟩, ⟨q.faction.index, Faction.bits⟩,
    ⟨q.pilot.index, PilotKind.bits⟩] ++ onFields q.on

def bodyFields (q : QEntity) : List Field :=
  posFields (posBitsOf q.on) q.pos ++ rotFields q.rotLargest q.rot ++ velFields q.on q.vel
    ++ aimFields q.aim ++ [⟨q.flags, entFlagsBits⟩] ++ partsFields q.parts

def writeAbsolute (q : QEntity) (w : BitWriter) : BitWriter :=
  (w.put q.headFields).pack q.bodyFields

def readOn : Read (Option RiderOn) := do
  if ← readBool then
    let body ← BodyRef.read
    let aloft ← readBool
    return some ⟨body, aloft⟩
  else return none

/-- Reads a whole record of `slot`, after its delta bit. -/
def readAbsolute (slot : ℕ) : Read QEntity := do
  let generation ← readBits 2
  let code ← readBits FrameId.bits
  match FrameId.fromBits code with
  | none => invalid
  | some frame =>
    let faction ← readBits Faction.bits
    let pilot ← readBits PilotKind.bits
    let on ← readOn
    let pos ← readArray (readBits (posBitsOf on)) 3
    let rot ← readRot
    let vel ← readVel on
    let aim ← readArray (readBits entityAimBits) 2
    let flags ← readBits entFlagsBits
    let parts ← readArray (readBits 3) Part.count
    return {
      slot, generation, frame, on, pos, vel, aim, flags, parts
      faction := Faction.fromBits faction
      pilot := PilotKind.fromBits pilot
      rotLargest := rot.1
      rot := rot.2 }

end QEntity

/-- Where a velocity code of a suit on `on` lies. -/
def VelInRange (on : Option RiderOn) (c : ℤ) : Prop :=
  match on with
  | none => 0 ≤ c ∧ c < 2 ^ velBits
  | some _ => -2 ^ (riderVelBits - 1) ≤ c ∧ c < 2 ^ (riderVelBits - 1)

instance (on : Option RiderOn) : DecidablePred (VelInRange on) := fun c => by
  cases on <;> unfold VelInRange <;> infer_instance

namespace QEntity

/-- A record whose codes lie on their grids. -/
structure InRange (q : QEntity) : Prop where
  slot : q.slot < 2 ^ slotBits
  generation : q.generation < 4
  on : ∀ on, q.on = some on → on.body.InRange
  pos : ∀ k, q.pos k ≤ maxCode (posBitsOf q.on)
  vel : ∀ k, VelInRange q.on (q.vel k)
  rotLargest : q.rotLargest < 4
  rot : ∀ k, q.rot k < 2 ^ entityRotBits
  aim : ∀ k, q.aim k < 2 ^ entityAimBits
  flags : q.flags < 2 ^ entFlagsBits
  parts : ∀ k, q.parts k ≤ 7

end QEntity

/-! ## A whole record's round trip -/

section Groups

variable {on : Option RiderOn}

theorem reads_pos {bits : ℕ} {pos : Fin 3 → ℕ} (h : ∀ k, pos k ≤ maxCode bits) :
    Reads (readArray (readBits bits) 3) (Field.all (posFields bits pos)) pos := by
  rw [posFields, Field.all_array]
  apply Reads.array
  intro k
  rw [min_eq_left (h k)]
  exact Reads.field ((h k).trans_lt (Nat.sub_lt (Nat.two_pow_pos bits) Nat.one_pos))

theorem reads_rot {largest : ℕ} {codes : Fin 3 → ℕ} (hl : largest < 4)
    (hc : ∀ k, codes k < 2 ^ entityRotBits) :
    Reads readRot (Field.all (rotFields largest codes)) (largest, codes) := by
  rw [rotFields, Field.all_cons, Field.all_array, Nat.mod_eq_of_lt hl]
  apply (Reads.field (show largest < 2 ^ 2 from hl)).bind
  have hcodes : Reads (readArray (readBits entityRotBits) 3)
      ((List.ofFn codes).flatMap fun c => Field.bits ⟨c, entityRotBits⟩) codes :=
    Reads.array fun k => Reads.field (hc k)
  exact hcodes.map rfl

theorem reads_vel {vel : Fin 3 → ℤ} (h : ∀ k, VelInRange on (vel k)) :
    Reads (readVel on) (Field.all (velFields on vel)) vel := by
  rw [velFields, Field.all_array]
  apply Reads.array
  intro k
  have hk := h k
  cases on with
  | none =>
    obtain ⟨v, hv⟩ := Int.eq_ofNat_of_zero_le hk.1
    rw [hv] at hk ⊢
    have hlt : v < 2 ^ velBits := by exact_mod_cast hk.2
    have h32 : v < 2 ^ 32 := hlt.trans (by decide)
    simp only [Field.i32, unsigned_of_nat h32]
    exact (Reads.field hlt).map rfl
  | some on => exact Reads.i32 (by decide) (by decide) hk.1 hk.2

theorem reads_aim {aim : Fin 2 → ℕ} (h : ∀ k, aim k < 2 ^ entityAimBits) :
    Reads (readArray (readBits entityAimBits) 2) (Field.all (aimFields aim)) aim := by
  rw [aimFields, Field.all_array]
  exact Reads.array fun k => Reads.field (h k)

theorem reads_parts {parts : Fin Part.count → ℕ} (h : ∀ k, parts k ≤ 7) :
    Reads (readArray (readBits 3) Part.count) (Field.all (partsFields parts)) parts := by
  rw [partsFields, Field.all_array]
  apply Reads.array
  intro k
  rw [min_eq_left (h k)]
  exact Reads.field (Nat.lt_succ_of_le (h k))

theorem reads_on (h : ∀ o, on = some o → o.body.InRange) :
    Reads QEntity.readOn (Field.all (QEntity.onFields on)) on := by
  unfold QEntity.onFields
  rw [Field.all_cons]
  apply (Reads.bool on.isSome).bind
  cases on with
  | none => exact Reads.pure none
  | some o =>
    simp only [Option.isSome_some, Option.elim_some, if_true, Field.all_append, Field.all_cons,
      Field.all_nil, List.append_nil]
    exact (BodyRef.reads (h o rfl)).bind ((Reads.bool o.aloft).map rfl)

theorem widths_pos (bits : ℕ) (pos : Fin 3 → ℕ) : Field.widths (posFields bits pos) = 3 * bits :=
  Field.widths_array pos fun _ => rfl

theorem widths_rot (largest : ℕ) (codes : Fin 3 → ℕ) :
    Field.widths (rotFields largest codes) = 2 + 3 * entityRotBits := by
  rw [rotFields, Field.widths_cons]
  exact congrArg (2 + ·) (Field.widths_array codes fun _ => rfl)

theorem widths_vel (on : Option RiderOn) (vel : Fin 3 → ℤ) :
    Field.widths (velFields on vel) = 3 * velBitsOf on := by
  cases on <;> exact Field.widths_array vel fun _ => rfl

theorem widths_aim (aim : Fin 2 → ℕ) : Field.widths (aimFields aim) = 2 * entityAimBits :=
  Field.widths_array aim fun _ => rfl

theorem widths_parts (parts : Fin Part.count → ℕ) :
    Field.widths (partsFields parts) = 3 * Part.count := by
  rw [Nat.mul_comm]
  exact Field.widths_array parts fun _ => rfl

theorem posBitsOf_le (on : Option RiderOn) : posBitsOf on ≤ 32 := by
  cases on with
  | none => decide
  | some on => exact on.body.localBits_le.trans (by decide)

theorem narrow_pos {bits : ℕ} (h : bits ≤ 32) (pos : Fin 3 → ℕ) :
    Field.Narrow (posFields bits pos) :=
  Field.narrow_array pos fun _ => h

theorem narrow_rot (largest : ℕ) (codes : Fin 3 → ℕ) : Field.Narrow (rotFields largest codes) :=
  Field.Narrow.cons (show 2 ≤ 32 by decide)
    (Field.narrow_array codes fun _ => show entityRotBits ≤ 32 by decide)

theorem narrow_vel (on : Option RiderOn) (vel : Fin 3 → ℤ) : Field.Narrow (velFields on vel) := by
  cases on with
  | none => exact Field.narrow_array vel fun _ => show velBits ≤ 32 by decide
  | some on => exact Field.narrow_array vel fun _ => show riderVelBits ≤ 32 by decide

theorem narrow_aim (aim : Fin 2 → ℕ) : Field.Narrow (aimFields aim) :=
  Field.narrow_array aim fun _ => show entityAimBits ≤ 32 by decide

theorem narrow_parts (parts : Fin Part.count → ℕ) : Field.Narrow (partsFields parts) :=
  Field.narrow_array parts fun _ => show 3 ≤ 32 by decide

theorem widths_on (on : Option RiderOn) :
    Field.widths (QEntity.onFields on) = 1 + on.elim 0 fun on => on.body.bits + 1 := by
  cases on with
  | none => rfl
  | some on => simp [QEntity.onFields, BodyRef.widths_fields, Field.flag]

end Groups

namespace QEntity

variable {q : QEntity}

theorem reads_absolute (h : q.InRange) :
    Reads (readAbsolute q.slot) (Field.all (q.headFields ++ q.bodyFields)) q := by
  simp only [headFields, bodyFields, Field.all_append, Field.all_cons, Field.all_nil,
    List.append_nil, List.append_assoc, Nat.mod_eq_of_lt h.generation]
  apply (Reads.field (show q.generation < 2 ^ 2 from h.generation)).bind
  apply (Reads.field q.frame.index_lt).bind
  simp only [FrameId.fromBits_index]
  apply (Reads.field q.faction.index_lt).bind
  apply (Reads.field q.pilot.index_lt).bind
  apply (reads_on h.on).bind
  apply (reads_pos h.pos).bind
  apply (reads_rot h.rotLargest h.rot).bind
  apply (reads_vel h.vel).bind
  apply (reads_aim h.aim).bind
  apply (Reads.field h.flags).bind
  apply (reads_parts h.parts).map
  simp only [Faction.fromBits_index, PilotKind.fromBits_index]

theorem widths_absolute (q : QEntity) :
    slotBits + 1 + Field.widths (q.headFields ++ q.bodyFields) = q.absoluteBits := by
  simp only [headFields, bodyFields, Field.widths_append, Field.widths_cons, Field.widths_nil,
    widths_on, widths_pos, widths_rot, widths_vel, widths_aim, widths_parts, absoluteBits]
  cases q.on with
  | none => rfl
  | some on =>
    simp only [Option.elim_some, wholeRecordBits, entityCommonBits, posBitsOf, velBitsOf,
      Option.isSome_some, if_true]
    omega

theorem narrow_body (q : QEntity) : Field.Narrow q.bodyFields :=
  (((((narrow_pos (posBitsOf_le q.on) q.pos).append (narrow_rot _ _)).append
    (narrow_vel _ _)).append (narrow_aim _)).append (Field.Narrow.cons
      (show entFlagsBits ≤ 32 by decide) Field.narrow_nil)).append (narrow_parts _)

/-- A whole record goes into a writer with room for it as its fields, in order. -/
theorem writeAbsolute_eq {w : BitWriter} (h : w.Fits (Field.widths (q.headFields ++ q.bodyFields))) :
    q.writeAbsolute w = w.append (Field.all (q.headFields ++ q.bodyFields)) := by
  rw [Field.widths_append] at h
  have hbody : (w.append (Field.all q.headFields)).Fits (Field.widths q.bodyFields) :=
    h.append (by simp)
  rw [writeAbsolute, BitWriter.put_eq (h.le (Nat.le_add_right _ _)),
    BitWriter.pack_eq hbody q.narrow_body, BitWriter.append_append, Field.all_append]

end QEntity

end BeforeColony
