import BeforeColony.Proto.EventCodec
import BeforeColony.Proto.Objects
import BeforeColony.Proto.Own

/-!
# Rocks and salvage written and read

A record's size, its writer and its reader agree whatever it is of. Ticks go as how long ago they
were, up to sixteen bits of it, and masses in tens of kilograms. What the simulation sends is
already as its codes have it, so it is read back exactly.
-/

set_option autoImplicit false

namespace BeforeColony

open Quant (quantizeSigned dequantizeSigned quatCode quatFromCode)

/-- How long ago a tick was, as far as a record can say. -/
def ageField (snapshotTick t : ℕ) : Field := ⟨min (snapshotTick - t) (2 ^ ageBits - 1), ageBits⟩

namespace RockState

def rockRecordBits : ℕ := rockBits + 1 + 3 + 4

def fields (s : RockState) : List Field :=
  [⟨s.id, rockBits⟩, .flag s.destroyed, ⟨min s.hp 7, 3⟩, ⟨min s.ore 15, 4⟩]

def write (s : RockState) (w : BitWriter) : BitWriter := w.put s.fields

end RockState

namespace Snapshot.ChunkKind

def fields : Snapshot.ChunkKind → List Field
  | ore k => [⟨0, 2⟩, ⟨k % cargoKinds, 2⟩]
  | limb frame faction part =>
    [⟨1, 2⟩, ⟨frame.index, FrameId.bits⟩, ⟨faction.index, Faction.bits⟩, ⟨part.index, Part.bits⟩]
  | hulk frame faction parts =>
    [⟨2, 2⟩, ⟨frame.index, FrameId.bits⟩, ⟨faction.index, Faction.bits⟩, ⟨parts, Part.count⟩]

end Snapshot.ChunkKind

namespace Snapshot.ChunkDesc

def fields (d : ChunkDesc) : List Field :=
  d.kind.fields ++ [⟨d.seed, 8⟩, ⟨min (d.massKg / massStep) (2 ^ massBits - 1), massBits⟩]

def encodedBits (d : ChunkDesc) : ℕ :=
  2 + (match d.kind with
    | .ore _ => 2
    | .limb _ _ _ => FrameId.bits + Faction.bits + Part.bits
    | .hulk _ _ _ => FrameId.bits + Faction.bits + Part.count) + 8 + massBits

end Snapshot.ChunkDesc

namespace Segment

def segmentBits : ℕ := ageBits + 3 * posBits + 3 * velBits + 2 + 3 * segmentRotBits + 3 * spinBits

def fields (s : Segment) (snapshotTick : ℕ) : List Field :=
  ageField snapshotTick s.t0 :: vecFields posBits s.pos ++ vecFields velBits s.vel
    ++ quatFields segmentRotBits s.rot ++ vecFields spinBits s.spin

end Segment

namespace ObjectState

def fields (snapshotTick : ℕ) : ObjectState → List Field
  | gone id => [⟨0, 2⟩, ⟨id, chunkBits⟩]
  | free id generation desc seg =>
    [⟨1, 2⟩, ⟨id, chunkBits⟩, ⟨generation % 4, 2⟩] ++ desc.fields ++ seg.fields snapshotTick
  | held id generation desc holder right rot since =>
    [⟨2, 2⟩, ⟨id, chunkBits⟩, ⟨generation % 4, 2⟩] ++ desc.fields
      ++ [⟨holder, slotBits⟩, .flag right] ++ quatFields heldRotBits rot
      ++ [ageField snapshotTick since]

def write (snapshotTick : ℕ) (o : ObjectState) (w : BitWriter) : BitWriter :=
  w.put (o.fields snapshotTick)

def encodedBits (o : ObjectState) : ℕ :=
  2 + chunkBits + match o with
    | gone _ => 0
    | free _ _ desc _ => 2 + desc.encodedBits + Segment.segmentBits
    | held _ _ desc _ _ _ _ => 2 + desc.encodedBits + slotBits + 1 + 2 + 3 * heldRotBits + ageBits

/-- The tick a record says something was since. -/
def since : ObjectState → Option ℕ
  | gone _ => none
  | free _ _ _ seg => some seg.t0
  | held _ _ _ _ _ _ since => some since

end ObjectState

/-! ## The layouts agree -/

theorem ageField_lt (snapshotTick t : ℕ) :
    min (snapshotTick - t) (2 ^ ageBits - 1) < 2 ^ ageBits :=
  (min_le_right _ _).trans_lt (by decide)

theorem ticksBack_ageField {snapshotTick t : ℕ} (hle : t ≤ snapshotTick)
    (hage : snapshotTick - t ≤ 65535) :
    ticksBack snapshotTick (min (snapshotTick - t) (2 ^ ageBits - 1)) = t := by
  have hmin : min (snapshotTick - t) (2 ^ ageBits - 1) = snapshotTick - t := min_eq_left hage
  rw [hmin, ticksBack, if_pos (Nat.sub_le _ _)]
  omega

namespace RockState

theorem reads {s : RockState} (h : s.InRange) : Reads read (Field.all s.fields) s := by
  have hhp : min s.hp 7 = s.hp := min_eq_left (Nat.le_of_lt_succ h.hp)
  have hore : min s.ore 15 = s.ore := min_eq_left (Nat.le_of_lt_succ h.ore)
  rw [fields, hhp, hore]
  refine (Reads.field h.id).bind ((Reads.bool s.destroyed).bind ?_)
  exact (Reads.field h.hp).bind ((Reads.field h.ore).bind (Reads.pure _))

end RockState

namespace Snapshot.ChunkDesc

variable {d : ChunkDesc}

theorem reads_frame (f : FrameId) : Reads readFrame (Field.bits ⟨f.index, FrameId.bits⟩) f :=
  (Reads.field f.index_lt).map (orInvalid_of_eq f.fromBits_index)

theorem reads_kind {kind : ChunkKind} (h : kind.InRange) :
    Reads readKind (Field.all kind.fields) kind := by
  cases kind with
  | ore k =>
    rw [ChunkKind.fields, cargoKinds, Nat.mod_eq_of_lt h]
    exact (Reads.field (v := 0) (by decide)).bind ((Reads.field h).bind (Reads.pure _))
  | limb frame faction part =>
    refine (Reads.field (v := 1) (by decide)).bind ((reads_frame frame).bind ?_)
    refine (Reads.field faction.index_lt).bind ((Reads.field part.index_lt).bind ?_)
    rw [orInvalid_of_eq part.fromBits_index, Faction.fromBits_index]
    exact Reads.pure _
  | hulk frame faction parts =>
    refine (Reads.field (v := 2) (by decide)).bind ((reads_frame frame).bind ?_)
    refine (Reads.field faction.index_lt).bind ((Reads.field h).bind ?_)
    rw [Faction.fromBits_index]
    exact Reads.pure _

theorem reads (h : d.InRange) (hmass : massStep ∣ d.massKg) : Reads read (Field.all d.fields) d := by
  have hlt : d.massKg / massStep < 2 ^ massBits := (Nat.div_lt_iff_lt_mul (by decide)).mpr h.massKg
  rw [fields, Field.all_append, min_eq_left (Nat.le_sub_one_of_lt hlt)]
  refine (reads_kind h.kind).bind ((Reads.field h.seed).bind ((Reads.field hlt).map ?_))
  rw [Nat.div_mul_cancel hmass]

theorem widths_fields (d : ChunkDesc) : Field.widths d.fields = d.encodedBits := by
  obtain ⟨kind, seed, massKg⟩ := d
  cases kind <;> rfl

end Snapshot.ChunkDesc

namespace Segment

theorem reads {s : Segment} {snapshotTick : ℕ} (h : s.InRange) (hle : s.t0 ≤ snapshotTick)
    (hage : snapshotTick - s.t0 ≤ 65535) :
    Reads (read snapshotTick) (Field.all (s.fields snapshotTick)) s := by
  simp only [fields, List.cons_append, List.append_assoc, Field.all_cons, Field.all_append]
  refine (Reads.field (ageField_lt snapshotTick s.t0)).bind ?_
  rw [ticksBack_ageField hle hage]
  refine (reads_vecFields h.pos).bind ((reads_vecFields h.vel).bind ?_)
  exact (reads_quatFields h.rotLargest h.rot).bind ((reads_vecFields h.spin).map rfl)

theorem widths_fields (s : Segment) (snapshotTick : ℕ) :
    Field.widths (s.fields snapshotTick) = segmentBits := by
  simp [fields, ageField, segmentBits]
  ring

end Segment

namespace ObjectState

variable {o : ObjectState} {snapshotTick : ℕ}

/-- A chunk's mass is in tens of kilograms. -/
def TenKg : ObjectState → Prop
  | gone _ => True
  | free _ _ desc _ => massStep ∣ desc.massKg
  | held _ _ desc _ _ _ _ => massStep ∣ desc.massKg

/-- What a record says since when is not too long ago to say. -/
def Recent (snapshotTick : ℕ) (o : ObjectState) : Prop :=
  ∀ t, o.since = some t → t ≤ snapshotTick ∧ snapshotTick - t ≤ 65535

theorem reads (h : o.InRange) (hmass : o.TenKg) (hrecent : o.Recent snapshotTick) :
    Reads (read snapshotTick) (Field.all (o.fields snapshotTick)) o := by
  cases o with
  | gone id => exact (Reads.field (v := 0) (by decide)).bind ((Reads.field h).bind (Reads.pure _))
  | free id generation desc seg =>
    obtain ⟨hid, hgeneration, hdesc, hseg⟩ := h
    obtain ⟨hle, hage⟩ := hrecent _ rfl
    simp only [fields, List.cons_append, List.nil_append, Field.all_cons, Field.all_append,
      Nat.mod_eq_of_lt (show generation < 4 from hgeneration)]
    refine (Reads.field (v := 1) (by decide)).bind ((Reads.field hid).bind ?_)
    refine (Reads.field hgeneration).bind ((Snapshot.ChunkDesc.reads hdesc hmass).bind ?_)
    exact (Segment.reads hseg hle hage).map rfl
  | held id generation desc holder right rot since =>
    obtain ⟨hid, hgeneration, hdesc, hholder, hlargest, hcodes, -⟩ := h
    obtain ⟨hle, hage⟩ := hrecent _ rfl
    simp only [fields, List.cons_append, List.nil_append, List.append_assoc, Field.all_cons,
      Field.all_append, Nat.mod_eq_of_lt (show generation < 4 from hgeneration)]
    refine (Reads.field (v := 2) (by decide)).bind ((Reads.field hid).bind ?_)
    refine (Reads.field hgeneration).bind ((Snapshot.ChunkDesc.reads hdesc hmass).bind ?_)
    refine (Reads.field hholder).bind ((Reads.bool right).bind ?_)
    refine (reads_quatFields hlargest hcodes).bind ?_
    refine (Reads.field (ageField_lt snapshotTick since)).bind ?_
    rw [ticksBack_ageField hle hage]
    exact Reads.pure _

theorem widths_fields (o : ObjectState) (snapshotTick : ℕ) :
    Field.widths (o.fields snapshotTick) = o.encodedBits := by
  cases o with
  | gone id => rfl
  | free id generation desc seg =>
    simp only [fields, encodedBits, Field.widths_append, Field.widths_cons, Field.widths_nil,
      Snapshot.ChunkDesc.widths_fields, Segment.widths_fields]
    ring
  | held id generation desc holder right rot since =>
    simp only [fields, encodedBits, Field.widths_append, Field.widths_cons, Field.widths_nil,
      Snapshot.ChunkDesc.widths_fields, widths_quatFields, Field.flag, ageField]
    ring

end ObjectState

/-! ## Chunks as the simulation has them -/

/-- Chunks spin at most this fast, rad/s. -/
def spinMax : ℚ := 4

/-- A free chunk's motion in the simulation's own numbers. -/
structure SimSegment where
  t0 : ℕ
  pos : Fin 3 → ℚ
  vel : Fin 3 → ℚ
  rot : Fin 4 → ℚ
  spin : Fin 3 → ℚ
  deriving DecidableEq

inductive SimObject where
  | gone (id : ℕ)
  | free (id generation : ℕ) (desc : Snapshot.ChunkDesc) (seg : SimSegment)
  | held (id generation : ℕ) (desc : Snapshot.ChunkDesc) (holder : ℕ) (right : Bool)
    (rot : Fin 4 → ℚ) (since : ℕ)
  deriving DecidableEq

/-- A rotation after it went over the wire. -/
def quantizedRot (sqrt : ℚ → ℚ) (bits : ℕ) (rot : Fin 4 → ℚ) : Fin 4 → ℚ :=
  quatFromCode (.float sqrt) (quatCode (.float sqrt) rot bits) bits

/-- A rotation that went over the wire is coded as it was. -/
def RotSettled (sqrt : ℚ → ℚ) (bits : ℕ) (rot : Fin 4 → ℚ) : Prop :=
  quatCode (.float sqrt) (quantizedRot sqrt bits rot) bits = quatCode (.float sqrt) rot bits

section

variable (sqrt : ℚ → ℚ)

namespace SimSegment

def coded (s : SimSegment) : Segment where
  t0 := s.t0
  pos := posCodes s.pos
  vel := velCodes s.vel
  rot := quatCode (.float sqrt) s.rot segmentRotBits
  spin k := quantizeSigned (s.spin k) spinMax spinBits

def ofSegment (s : Segment) : SimSegment where
  t0 := s.t0
  pos := posOf s.pos
  vel := velOf s.vel
  rot := quatFromCode (.float sqrt) s.rot segmentRotBits
  spin k := dequantizeSigned (s.spin k) spinMax spinBits

/-- The same motion after it went over the wire. -/
def quantized (s : SimSegment) : SimSegment := ofSegment sqrt (s.coded sqrt)

theorem coded_inRange {s : SimSegment} (h : s.t0 < 2 ^ 32) : (s.coded sqrt).InRange :=
  ⟨h, fun _ => Quant.quantizeSigned_lt _ _ _, fun _ => Quant.quantizeSigned_lt _ _ _,
    (Quant.quatCode_lt _ _ _).1, (Quant.quatCode_lt _ _ _).2, fun _ => Quant.quantizeSigned_lt _ _ _⟩

theorem coded_quantized {s : SimSegment} (h : RotSettled sqrt segmentRotBits s.rot) :
    (s.quantized sqrt).coded sqrt = s.coded sqrt := by
  have hpos : posCodes (posOf (posCodes s.pos)) = posCodes s.pos := funext fun k =>
    Quant.quantizeSigned_dequantize (by decide) (by decide) (Quant.quantizeSigned_le _ _ _)
  have hvel : velCodes (velOf (velCodes s.vel)) = velCodes s.vel := funext fun k =>
    Quant.quantizeSigned_dequantize (by decide) (by decide) (Quant.quantizeSigned_le _ _ _)
  have hspin (k : Fin 3) : quantizeSigned
      (dequantizeSigned (quantizeSigned (s.spin k) spinMax spinBits) spinMax spinBits) spinMax
      spinBits = quantizeSigned (s.spin k) spinMax spinBits :=
    Quant.quantizeSigned_dequantize (by decide) (by decide) (Quant.quantizeSigned_le _ _ _)
  have hrot : quatCode (.float sqrt) (quatFromCode (.float sqrt) (quatCode (.float sqrt) s.rot segmentRotBits) segmentRotBits)
      segmentRotBits = quatCode (.float sqrt) s.rot segmentRotBits := h
  simp only [coded, quantized, ofSegment, hpos, hvel, hspin, hrot]

end SimSegment

namespace SimObject

def coded : SimObject → ObjectState
  | gone id => .gone id
  | free id generation desc seg => .free id generation desc (seg.coded sqrt)
  | held id generation desc holder right rot since =>
    .held id generation desc holder right (quatCode (.float sqrt) rot heldRotBits) since

def ofState : ObjectState → SimObject
  | .gone id => gone id
  | .free id generation desc seg => free id generation desc (.ofSegment sqrt seg)
  | .held id generation desc holder right rot since =>
    held id generation desc holder right (quatFromCode (.float sqrt) rot heldRotBits) since

/-- A chunk as the simulation keeps it to send: its motion, or its attitude in the hand, as its
codes have it. -/
def quantized : SimObject → SimObject
  | gone id => gone id
  | free id generation desc seg => free id generation desc (seg.quantized sqrt)
  | held id generation desc holder right rot since =>
    held id generation desc holder right (quantizedRot sqrt heldRotBits rot) since

/-- The quantiser of rotations fixes what it made of a chunk's. -/
def Settled : SimObject → Prop
  | gone _ => True
  | free _ _ _ seg => RotSettled sqrt segmentRotBits seg.rot
  | held _ _ _ _ _ rot _ => RotSettled sqrt heldRotBits rot

/-- Ids in their bits, generations modulo 4, ticks of 32 bits and masses of tens of kilograms up to
what there are codes for. -/
def InRange : SimObject → Prop
  | gone id => id < 2 ^ chunkBits
  | free id generation desc seg =>
    id < 2 ^ chunkBits ∧ generation < 4 ∧ desc.kind.InRange ∧ desc.seed < 2 ^ 8
      ∧ massStep ∣ desc.massKg ∧ desc.massKg ≤ 40950 ∧ seg.t0 < 2 ^ 32
  | held id generation desc holder _ _ since =>
    id < 2 ^ chunkBits ∧ generation < 4 ∧ desc.kind.InRange ∧ desc.seed < 2 ^ 8
      ∧ massStep ∣ desc.massKg ∧ desc.massKg ≤ 40950 ∧ holder < 2 ^ slotBits ∧ since < 2 ^ 32

def since : SimObject → Option ℕ
  | gone _ => none
  | free _ _ _ seg => some seg.t0
  | held _ _ _ _ _ _ since => some since

/-- What a record says since when is up to 65535 ticks ago. -/
def Recent (snapshotTick : ℕ) (o : SimObject) : Prop :=
  ∀ t, o.since = some t → t ≤ snapshotTick ∧ snapshotTick - t ≤ 65535

def write (snapshotTick : ℕ) (o : SimObject) : BitWriter → BitWriter :=
  (o.coded sqrt).write snapshotTick

def read (snapshotTick : ℕ) : Read SimObject := do
  let o ← ObjectState.read snapshotTick
  return ofState sqrt o

def encodedBits (o : SimObject) : ℕ := (o.coded sqrt).encodedBits

variable {sqrt} {o : SimObject} {snapshotTick : ℕ}

theorem coded_inRange (h : o.InRange) : (o.coded sqrt).InRange ∧ (o.coded sqrt).TenKg := by
  cases o with
  | gone id => exact ⟨h, trivial⟩
  | free id generation desc seg =>
    obtain ⟨hid, hgeneration, hkind, hseed, htens, hmass, ht0⟩ := h
    have hlt : desc.massKg < 2 ^ massBits * massStep := hmass.trans_lt (by decide)
    exact ⟨⟨hid, hgeneration, ⟨hkind, hseed, hlt⟩, SimSegment.coded_inRange sqrt ht0⟩, htens⟩
  | held id generation desc holder right rot since =>
    obtain ⟨hid, hgeneration, hkind, hseed, htens, hmass, hholder, hsince⟩ := h
    have hlt : desc.massKg < 2 ^ massBits * massStep := hmass.trans_lt (by decide)
    obtain ⟨hlargest, hcodes⟩ := Quant.quatCode_lt (.float sqrt) rot heldRotBits
    exact ⟨⟨hid, hgeneration, ⟨hkind, hseed, hlt⟩, hholder, hlargest, hcodes, hsince⟩, htens⟩

theorem since_coded : (o.coded sqrt).since = o.since := by cases o <;> rfl

theorem ofState_coded : ofState sqrt (o.coded sqrt) = o.quantized sqrt := by cases o <;> rfl

theorem coded_quantized (h : o.Settled sqrt) : (o.quantized sqrt).coded sqrt = o.coded sqrt := by
  cases o with
  | gone id => rfl
  | free id generation desc seg =>
    exact congrArg (ObjectState.free id generation desc) (SimSegment.coded_quantized sqrt h)
  | held id generation desc holder right rot since =>
    exact congrArg (ObjectState.held id generation desc holder right · since) h

end SimObject

end

theorem quat_eq {q r : Quat} (hlargest : q.largest = r.largest) (hcodes : ∀ k, q.codes k = r.codes k) :
    q = r := by
  cases q
  cases r
  exact Quat.mk.injEq .. |>.mpr ⟨hlargest, funext hcodes⟩

def rootNearOne (x : ℚ) : ℚ := (x + 1) / 2

def heldArm : SimObject :=
  .held 4 1 ⟨.limb .altair .colonies .armR, 7, 720⟩ 311 false ![0, 0, 0, 1] 9321

end BeforeColony
