import BeforeColony.Proto.Foot
import BeforeColony.Proto.Layouts
import BeforeColony.Proto.Snapshot

/-!
# People on foot, written and read

The walker, a person's whole record and a person's delta as they are written. A delta says how a
person turned, the short way round, and where they are from where their heading and speed have
carried them; the reader carries the same baseline to the same place, so whatever that place is,
what it reads is the record the delta was planned for.
-/

set_option autoImplicit false

namespace BeforeColony

open Lib

/-! ## What is written -/

namespace FootMode

def bits : FootMode → ℕ
  | foot => 0
  | train .. => trainBits + carBits + 3 * 32
  | seated .. => seatBits
  | lift .. => storeyBits + liftTicksBits

def fields : FootMode → List Field
  | foot => [⟨0, modeBits⟩]
  | train k car at_ => [⟨1, modeBits⟩, ⟨k, trainBits⟩, ⟨car, carBits⟩] ++ vecFields 32 at_
  | seated seat => [⟨2, modeBits⟩, ⟨seat, seatBits⟩]
  | lift storey left => [⟨3, modeBits⟩, ⟨storey, storeyBits⟩, ⟨left, liftTicksBits⟩]

end FootMode

/-- Bits of the walker's record but for its mode's. -/
def footOwnBits : ℕ := stripBits + 6 * 32 + 2 * 32 + 1 + modeBits

namespace FootOwn

def bits (f : FootOwn) : ℕ := footOwnBits + f.mode.bits

def fields (f : FootOwn) : List Field :=
  ⟨min f.strip (strips - 1), stripBits⟩ :: vecFields 32 f.feet ++ vecFields 32 f.vel
    ++ [⟨f.yaw, 32⟩, ⟨f.pitch, 32⟩, .flag f.grounded] ++ f.mode.fields

def write (f : FootOwn) (w : BitWriter) : BitWriter := w.put f.fields

end FootOwn

namespace Pose

/-- A pose's body on the wire, its strip apart. -/
def poseBits : ℕ :=
  xBits + sBits + hBits + yawBits + pitchBits + rollBits + Pose.speedBits + 2 + rideBits + jetBits

end Pose

def PoseFlags.fields (f : PoseFlags) : List Field :=
  [.flag f.grounded, .flag f.running, ⟨f.ride, Pose.rideBits⟩, ⟨f.jets, Pose.jetBits⟩]

def PoseCodes.placeFields (c : PoseCodes) : List Field :=
  [⟨c.x, Pose.xBits⟩, ⟨c.s, Pose.sBits⟩, ⟨c.h, Pose.hBits⟩]

def PoseCodes.fields (c : PoseCodes) : List Field :=
  c.placeFields ++ [⟨c.yaw, Pose.yawBits⟩, ⟨c.pitch, Pose.pitchBits⟩, ⟨c.roll, Pose.rollBits⟩,
    ⟨c.speed, Pose.speedBits⟩] ++ c.flags.fields

namespace QPerson

/-- Whether a delta can be taken against `base`: the same person, life and strip. -/
def samePerson (q base : QPerson) : Bool :=
  q.id = base.id ∧ q.generation = base.generation ∧ q.strip = base.strip

def absoluteBits (_ : QPerson) : ℕ := slotBits + 1 + 2 + stripBits + Pose.poseBits

/-- What follows the id and the delta bit of a whole record. -/
def absoluteFields (q : QPerson) : List Field :=
  [⟨q.generation % 2 ^ 2, 2⟩, ⟨q.strip, stripBits⟩] ++ q.codes.fields

def writeAbsolute (q : QPerson) (w : BitWriter) : BitWriter := w.put q.absoluteFields

end QPerson

/-- The signed difference between two heading codes, the short way round. -/
def turn (cur base : ℕ) : ℤ :=
  let full : ℤ := 2 ^ Pose.yawBits
  ((cur : ℤ) - base + full / 2) % full - full / 2

/-- A person's record as a delta against a baseline, worked out once. -/
structure PersonDelta where
  back : ℕ
  yaw : Group 1
  pitch : Group 1
  rollSame : Bool
  speedSame : Bool
  flagsSame : Bool
  pos : Group 3
  cur : QPerson

namespace PersonDelta

open Pose

def plan (walked : ℕ → ℕ → ℕ → ℤ × ℤ) (cur base : QPerson) (back : ℕ) : Option PersonDelta :=
  if ¬ (1 ≤ back ∧ back ≤ 255) ∨ ¬ cur.samePerson base then none
  else
    let c := cur.codes
    let b := base.codes
    let dy : Fin 1 → ℤ := ![turn c.yaw b.yaw]
    let dp : Fin 1 → ℤ := ![(c.pitch : ℤ) - b.pitch]
    let at_ := carried walked base c.yaw c.speed back
    let dpos : Fin 3 → ℤ := ![(c.x : ℤ) - at_.1, (c.s : ℤ) - at_.2.1, (c.h : ℤ) - at_.2.2]
    some {
      back, cur
      yaw := ⟨Mode.of dy yawSmall yawMedium, dy⟩
      pitch := ⟨Mode.of dp pitchSmall pitchMedium, dp⟩
      rollSame := c.roll = b.roll
      speedSame := c.speed = b.speed
      flagsSame := c.flags = b.flags
      pos := ⟨Mode.of dpos Pose.posSmall Pose.posMedium, dpos⟩ }

def bits (d : PersonDelta) : ℕ :=
  slotBits + 1 + backBits
    + d.yaw.bits yawSmall yawMedium yawBits
    + d.pitch.bits pitchSmall pitchMedium pitchBits
    + 1 + (if d.rollSame then 0 else rollBits)
    + 1 + (if d.speedSame then 0 else Pose.speedBits)
    + 1 + (if d.flagsSame then 0 else 2 + rideBits + jetBits)
    + d.pos.bits Pose.posSmall Pose.posMedium (xBits + sBits + hBits)

/-- What follows the id and the delta bit. -/
def fields (d : PersonDelta) : List Field :=
  let c := d.cur.codes
  ⟨d.back, backBits⟩ :: d.yaw.fields yawSmall yawMedium [⟨c.yaw, yawBits⟩]
    ++ d.pitch.fields pitchSmall pitchMedium [⟨c.pitch, pitchBits⟩]
    ++ .flag d.rollSame :: (if d.rollSame then [] else [⟨c.roll, rollBits⟩])
    ++ .flag d.speedSame :: (if d.speedSame then [] else [⟨c.speed, Pose.speedBits⟩])
    ++ .flag d.flagsSame :: (if d.flagsSame then [] else c.flags.fields)
    ++ d.pos.fields Pose.posSmall Pose.posMedium c.placeFields

def write (d : PersonDelta) (w : BitWriter) : BitWriter := w.put d.fields

end PersonDelta

def QPerson.write (q : QPerson) (delta : Option PersonDelta) (w : BitWriter) : BitWriter :=
  let w := w.put [⟨q.id, slotBits⟩, .flag delta.isSome]
  match delta with
  | some d => d.write w
  | none => q.writeAbsolute w

/-! ## The walker -/

theorem FootMode.widths_fields (m : FootMode) : Field.widths m.fields = modeBits + m.bits := by
  cases m with
  | foot => rfl
  | train k car at_ =>
    simp only [fields, bits, Field.widths_append, Field.widths_cons, Field.widths_nil,
      widths_vecFields]
    omega
  | seated seat => rfl
  | lift storey left => rfl

theorem FootMode.reads {m : FootMode} (h : m.InRange) :
    Reads FootOwn.readMode (Field.all m.fields) m := by
  cases m with
  | foot => exact (Reads.field (v := 0) (by decide)).bind (Reads.pure _)
  | train k car at_ =>
    obtain ⟨hk, hcar, hat⟩ := h
    apply (Reads.field (v := 1) (by decide)).bind
    exact (Reads.field hk).bind ((Reads.field hcar).bind ((reads_vecFields hat).map rfl))
  | seated seat =>
    apply (Reads.field (v := 2) (by decide)).bind
    exact (Reads.field h).bind (Reads.pure _)
  | lift storey left =>
    obtain ⟨hstorey, hleft⟩ := h
    apply (Reads.field (v := 3) (by decide)).bind
    exact (Reads.field hstorey).bind ((Reads.field hleft).bind (Reads.pure _))

namespace FootOwn

variable {f : FootOwn}

theorem widths_fields (f : FootOwn) : Field.widths f.fields = f.bits := by
  have hflag : (Field.flag f.grounded).width = 1 := rfl
  simp only [fields, bits, footOwnBits, List.cons_append, Field.widths_append, Field.widths_cons,
    Field.widths_nil, widths_vecFields, FootMode.widths_fields, hflag]
  omega

theorem reads_fields (h : f.InRange) : Reads read (Field.all f.fields) f := by
  have hstrip : f.strip < strips := h.strip
  have hmin : min f.strip (strips - 1) = f.strip := min_eq_left (Nat.le_sub_one_of_lt hstrip)
  have hbits : f.strip < 2 ^ stripBits := hstrip.trans (by decide)
  simp only [fields, hmin, List.cons_append, List.nil_append, List.append_assoc, Field.all_cons,
    Field.all_append]
  refine (Reads.field hbits).bind ((reads_vecFields h.feet).bind ((reads_vecFields h.vel).bind ?_))
  refine (Reads.field h.yaw).bind ((Reads.field h.pitch).bind ((Reads.bool f.grounded).bind ?_))
  refine (FootMode.reads h.mode).map ?_
  rw [if_neg (not_le.mpr hstrip)]

theorem roundTrips (h : f.InRange) : RoundTrips f.write read f.bits f :=
  roundTrips_put (reads_fields h) (widths_fields f)

end FootOwn

/-! ## Whole records -/

theorem PoseFlags.reads {f : PoseFlags} (hride : f.ride < 2 ^ Pose.rideBits)
    (hjets : f.jets < 2 ^ Pose.jetBits) : Reads PoseCodes.readFlags (Field.all f.fields) f := by
  refine (Reads.bool f.grounded).bind ((Reads.bool f.running).bind ?_)
  exact (Reads.field hride).bind ((Reads.field hjets).bind (Reads.pure _))

theorem PoseCodes.widths_fields (c : PoseCodes) : Field.widths c.fields = Pose.poseBits := rfl

theorem PoseCodes.reads {c : PoseCodes} (h : c.InRange) : Reads read (Field.all c.fields) c := by
  refine (Reads.field h.x).bind ((Reads.field h.s).bind ((Reads.field h.h).bind ?_))
  refine (Reads.field h.yaw).bind ((Reads.field h.pitch).bind ((Reads.field h.roll).bind ?_))
  exact (Reads.field h.speed).bind ((PoseFlags.reads h.ride h.jets).map rfl)

namespace QPerson

variable {q base : QPerson}

theorem samePerson_iff :
    q.samePerson base = true ↔ q.id = base.id ∧ q.generation = base.generation
      ∧ q.strip = base.strip := by
  simp [samePerson]

theorem reads_absolute (h : q.InRange) :
    Reads (readAbsolute q.id) (Field.all q.absoluteFields) q := by
  have hgeneration : q.generation % 2 ^ 2 = q.generation := Nat.mod_eq_of_lt h.generation
  have hstrip : q.strip < 2 ^ stripBits := h.strip.trans (by decide)
  rw [absoluteFields, hgeneration, Field.all_append]
  refine (Reads.field h.generation).bind ((Reads.field hstrip).bind ?_)
  refine (PoseCodes.reads h.codes).map ?_
  rw [if_neg (not_le.mpr h.strip)]

end QPerson

/-! ## Deltas -/

/-- A heading turned by the difference is the heading it was taken to. -/
theorem emod_turn {cur : ℕ} (h : cur < 2 ^ Pose.yawBits) (base : ℕ) :
    ((base : ℤ) + turn cur base) % (maxCode Pose.yawBits + 1) = cur := by
  have hfull : (maxCode Pose.yawBits : ℤ) + 1 = 1024 := by decide
  have hyaw : (2 : ℤ) ^ Pose.yawBits = 1024 := by decide
  have hcur : cur < 1024 := h
  simp only [turn, hfull, hyaw]
  omega

namespace PersonDelta

open Pose

variable {walked : ℕ → ℕ → ℕ → ℤ × ℤ} {cur base : QPerson} {back : ℕ} {d : PersonDelta}

theorem moved_turn {c : ℕ} (h : c < 2 ^ yawBits) (b : ℕ) :
    moved yawBits true b (turn c b) = c := by
  rw [moved, if_pos rfl, emod_turn h b, Int.toNat_natCast]

theorem moved_sub {bits c : ℕ} (h : c < 2 ^ bits) (b : ℕ) :
    moved bits false b ((c : ℤ) - b) = c := by
  have hcode : (c : ℤ) ≤ maxCode bits := by exact_mod_cast Delta.maxCode_of_lt h
  simp only [moved, Bool.false_eq_true, if_false]
  rw [add_sub_cancel, clamp_of_mem (Int.natCast_nonneg c) hcode, Int.toNat_natCast]

theorem put_sub {bits c : ℕ} (h : c < 2 ^ bits) (at_ : ℤ) : put bits (at_ + ((c : ℤ) - at_)) = c := by
  have hcode : (c : ℤ) ≤ maxCode bits := by exact_mod_cast Delta.maxCode_of_lt h
  rw [put, add_sub_cancel, clamp_of_mem (Int.natCast_nonneg c) hcode, Int.toNat_natCast]

/-- One code's group reads back as the code its difference comes to. -/
theorem reads_one {was small medium bits c : ℕ} {wrap : Bool} {diff : ℤ} (hc : c < 2 ^ bits)
    (hs : 0 < small ∧ small ≤ 32) (hm : 0 < medium ∧ medium ≤ 32)
    (hmoved : moved bits wrap was diff = c) :
    Reads (readOne was small medium bits wrap)
      (Field.all (Group.fields ⟨Mode.of ![diff] small medium, ![diff]⟩ small medium [⟨c, bits⟩])) c := by
  have hn := Group.narrow_of ![diff] small medium
  have hbits {width : ℕ} (hw : 0 < width) (h32 : width ≤ 32) (hfits : Mode.Fits width ![diff]) :
      Reads (readI32 width >>= fun d => pure (moved bits wrap was d))
        (Field.all (Field.array (.i32 · width) ![diff])) c := by
    have hone : Field.all (Field.array (.i32 · width) ![diff]) = (Field.i32 diff width).bits := by
      simp [Field.array]
    rw [hone]
    refine (Reads.i32 hw h32 (hfits 0).1 (hfits 0).2).map ?_
    exact congrArg pure hmoved
  unfold Group.fields readOne
  rw [Field.all_cons]
  cases hmode : Mode.of ![diff] small medium with
  | same =>
    have hzero : diff = 0 := hn.same hmode 0
    apply (Reads.field (show Mode.code .same < 2 ^ 2 by decide)).bind
    rw [← hmoved, hzero]
    exact Reads.pure _
  | small =>
    apply (Reads.field (show Mode.code .small < 2 ^ 2 by decide)).bind
    exact hbits hs.1 hs.2 (hn.small hmode)
  | medium =>
    apply (Reads.field (show Mode.code .medium < 2 ^ 2 by decide)).bind
    exact hbits hm.1 hm.2 (hn.medium hmode)
  | whole =>
    apply (Reads.field (show Mode.code .whole < 2 ^ 2 by decide)).bind
    rw [Field.all_cons, Field.all_nil, List.append_nil]
    exact Reads.field hc

theorem reads_three {width : ℕ} {diffs : Fin 3 → ℤ} (hw : 0 < width) (h32 : width ≤ 32)
    (h : Mode.Fits width diffs) :
    Reads (readThree width) (Field.all (Field.array (.i32 · width) diffs))
      (diffs 0, diffs 1, diffs 2) := by
  have hone (k : Fin 3) : Reads (readI32 width) (Field.i32 (diffs k) width).bits (diffs k) :=
    Reads.i32 hw h32 (h k).1 (h k).2
  exact (hone 0).bind ((hone 1).bind ((hone 2).bind (Reads.pure _)))

/-- A place's group reads back as the differences from where it was carried to. -/
theorem reads_pos {c : PoseCodes} (hc : c.InRange) (at_ : ℤ × ℤ × ℤ) {diffs : Fin 3 → ℤ}
    (hdiffs : diffs = ![(c.x : ℤ) - at_.1, (c.s : ℤ) - at_.2.1, (c.h : ℤ) - at_.2.2]) :
    Reads (readPos at_)
      (Field.all (Group.fields ⟨Mode.of diffs Pose.posSmall Pose.posMedium, diffs⟩ Pose.posSmall
        Pose.posMedium c.placeFields))
      ((c.x : ℤ) - at_.1, (c.s : ℤ) - at_.2.1, (c.h : ℤ) - at_.2.2) := by
  have hn := Group.narrow_of diffs Pose.posSmall Pose.posMedium
  have hthree : ((c.x : ℤ) - at_.1, (c.s : ℤ) - at_.2.1, (c.h : ℤ) - at_.2.2)
      = (diffs 0, diffs 1, diffs 2) := by
    rw [hdiffs]
    rfl
  unfold Group.fields readPos
  rw [Field.all_cons]
  cases hmode : Mode.of diffs Pose.posSmall Pose.posMedium with
  | same =>
    have hzero := hn.same hmode
    apply (Reads.field (show Mode.code .same < 2 ^ 2 by decide)).bind
    rw [hthree, show diffs 0 = 0 from hzero 0, show diffs 1 = 0 from hzero 1,
      show diffs 2 = 0 from hzero 2]
    exact Reads.pure _
  | small =>
    apply (Reads.field (show Mode.code .small < 2 ^ 2 by decide)).bind
    rw [hthree]
    exact reads_three (by decide) (by decide) (hn.small hmode)
  | medium =>
    apply (Reads.field (show Mode.code .medium < 2 ^ 2 by decide)).bind
    rw [hthree]
    exact reads_three (by decide) (by decide) (hn.medium hmode)
  | whole =>
    apply (Reads.field (show Mode.code .whole < 2 ^ 2 by decide)).bind
    exact (Reads.field hc.x).bind ((Reads.field hc.s).bind ((Reads.field hc.h).bind (Reads.pure _)))

theorem plan_isSome (walked : ℕ → ℕ → ℕ → ℤ × ℤ) (hsame : cur.samePerson base = true) (hlow : 1 ≤ back) (hhigh : back ≤ 255) :
    ∃ d, plan walked cur base back = some d := by
  unfold plan
  rw [if_neg (by simp [hsame, hlow, hhigh])]
  exact ⟨_, rfl⟩

theorem plan_eq (h : plan walked cur base back = some d) :
    1 ≤ back ∧ back ≤ 255 ∧ cur.samePerson base = true ∧ d.back = back ∧ d.cur = cur := by
  unfold plan at h
  split at h
  · cases h
  · rename_i hok
    simp only [not_or, not_not] at hok
    cases h
    exact ⟨hok.1.1, hok.1.2, hok.2, rfl, rfl⟩

theorem widths_fields (d : PersonDelta) : slotBits + 1 + Field.widths d.fields = d.bits := by
  have hflag (b : Bool) : (Field.flag b).width = 1 := rfl
  have hplace : Field.widths d.cur.codes.placeFields = xBits + sBits + hBits := rfl
  have hflags : Field.widths d.cur.codes.flags.fields = 2 + rideBits + jetBits := rfl
  simp only [fields, bits, List.cons_append, List.append_assoc, Field.widths_append,
    Field.widths_cons, Field.widths_nil, Group.widths_fields, Delta.widths_unless, hplace, hflags,
    hflag, add_zero]
  omega

/-- What follows a delta's age, read against its baseline, is the record it was planned for. -/
theorem reads_fields (hc : cur.InRange) (h : plan walked cur base back = some d) :
    ∃ rest, Field.all d.fields = Field.bits ⟨back, backBits⟩ ++ rest
      ∧ Reads (read walked base back) rest cur := by
  obtain ⟨hlow, hhigh, hsame, -, -⟩ := plan_eq h
  obtain ⟨hid, hgeneration, hstrip⟩ := QPerson.samePerson_iff.mp hsame
  have hcodes := hc.codes
  unfold plan at h
  split at h
  · cases h
  rw [← Option.some.inj h]
  simp only [fields, List.append_assoc, List.cons_append, Field.all_append, Field.all_cons]
  refine ⟨_, rfl, ?_⟩
  apply (reads_one hcodes.yaw (by decide) (by decide) (moved_turn hcodes.yaw _)).bind
  apply (reads_one hcodes.pitch (by decide) (by decide) (moved_sub hcodes.pitch _)).bind
  have hone {v n : ℕ} (hv : v < 2 ^ n) : Reads (readBits n) (Field.all [⟨v, n⟩]) v := by
    simpa using Reads.field hv
  rw [← List.append_assoc]
  apply (Delta.reads_unless (fun heq => (of_decide_eq_true heq).symm) (hone hcodes.roll)).bind
  rw [← List.append_assoc]
  apply (Delta.reads_unless (fun heq => (of_decide_eq_true heq).symm) (hone hcodes.speed)).bind
  rw [← List.append_assoc]
  apply (Delta.reads_unless (fun heq => (of_decide_eq_true heq).symm)
    (PoseFlags.reads hcodes.ride hcodes.jets)).bind
  refine (reads_pos hcodes _ rfl).map ?_
  simp only [put_sub hcodes.x, put_sub hcodes.s, put_sub hcodes.h]
  cases cur
  cases base
  simp_all

end PersonDelta

/-! ## Records in a snapshot -/

namespace QPerson

variable {walked : ℕ → ℕ → ℕ → ℤ × ℤ} {cur base : QPerson} {back : ℕ}
  {baseline : ℕ → ℕ → Option QPerson} {tick : ℕ}

theorem reads_check {β : Type} {f : Unit → Read β} {bs : List Bool} {b : β} (h : Reads (f ()) bs b) :
    Reads (check >>= f) bs b := by
  intro rest
  rw [bind_apply]
  exact h rest

/-- A whole record goes into a snapshot and comes back. -/
theorem roundTrips_absolute (hc : cur.InRange) :
    RoundTrips (cur.write none) (readPerson walked baseline tick) cur.absoluteBits cur := by
  have hfields (w : BitWriter) : cur.write none w
      = w.put (⟨cur.id, slotBits⟩ :: .flag false :: cur.absoluteFields) := rfl
  rw [show cur.write none = _ from funext hfields]
  have hwidths : Field.widths (⟨cur.id, slotBits⟩ :: .flag false :: cur.absoluteFields)
      = cur.absoluteBits := by
    have hflag : (Field.flag false).width = 1 := rfl
    simp only [absoluteFields, absoluteBits, List.cons_append, List.nil_append, Field.widths_cons,
      PoseCodes.widths_fields, hflag]
    omega
  refine roundTrips_put (Reads.whole ?_) hwidths
  simp only [Field.all_cons]
  apply (Reads.field hc.id).bind
  apply (Reads.bool false).bind
  exact reads_absolute hc

/-- A delta goes into a snapshot and, read by one that has its baseline, is the record it was
planned for. -/
theorem roundTrips_delta (hc : cur.InRange) {d : PersonDelta}
    (hd : PersonDelta.plan walked cur base back = some d)
    (hbase : baseline cur.id (ticksBack tick back) = some base) :
    RoundTrips (cur.write (some d)) (readPerson walked baseline tick) d.bits cur := by
  obtain ⟨hlow, hhigh, hsame, -, -⟩ := PersonDelta.plan_eq hd
  have hid := (samePerson_iff.mp hsame).1
  obtain ⟨rest, hall, hreads⟩ := PersonDelta.reads_fields hc hd
  have hfields (w : BitWriter) : cur.write (some d) w
      = w.put (⟨cur.id, slotBits⟩ :: .flag true :: d.fields) := rfl
  rw [show cur.write (some d) = _ from funext hfields]
  have hwidths : Field.widths (⟨cur.id, slotBits⟩ :: .flag true :: d.fields) = d.bits := by
    rw [← PersonDelta.widths_fields d, Field.widths_cons, Field.widths_cons, ← Nat.add_assoc]
    rfl
  have hback : back < 2 ^ backBits := by
    rw [show 2 ^ backBits = 256 from rfl]
    omega
  have hfor : personFor baseline cur.id tick back = some base := by
    rw [personFor, if_pos ⟨hlow, hhigh⟩, hbase]
    simp [hid]
  refine roundTrips_put (Reads.whole ?_) hwidths
  simp only [Field.all_cons]
  apply (Reads.field hc.id).bind
  apply (Reads.bool true).bind
  rw [hall]
  apply (Reads.field hback).bind
  refine reads_check ?_
  rw [hfor]
  exact hreads

end QPerson

end BeforeColony
