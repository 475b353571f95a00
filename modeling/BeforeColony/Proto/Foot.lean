import BeforeColony.Proto.Delta
import BeforeColony.Proto.Reading

/-!
# People on foot

The pilot's own walker, and the people near: whole, or as a delta against an earlier record of the
same person. How far a heading and a speed carry someone is worked out in floating point, and is a
parameter here.
-/

set_option autoImplicit false

namespace BeforeColony

open Lib

def strips : ℕ := 3
def stripBits : ℕ := 2

def modeBits : ℕ := 3
def trainBits : ℕ := 4
def carBits : ℕ := 2
def seatBits : ℕ := 6
def storeyBits : ℕ := 5
def liftTicksBits : ℕ := 8

inductive FootMode where
  | foot
  | train (k car : ℕ) (at_ : Fin 3 → ℕ)
  | seated (seat : ℕ)
  | lift (storey left : ℕ)
  deriving DecidableEq

structure FootOwn where
  strip : ℕ
  feet : Fin 3 → ℕ
  vel : Fin 3 → ℕ
  yaw : ℕ
  pitch : ℕ
  grounded : Bool
  mode : FootMode
  deriving DecidableEq

namespace FootOwn

def readMode : Read FootMode := do
  match ← readBits modeBits with
  | 0 => return .foot
  | 1 =>
    let k ← readBits trainBits
    let car ← readBits carBits
    let at_ ← readVec 32
    return .train k car at_
  | 2 =>
    let seat ← readBits seatBits
    return .seated seat
  | 3 =>
    let storey ← readBits storeyBits
    let left ← readBits liftTicksBits
    return .lift storey left
  | _ => invalid

/-- Reads the walker, after its presence bit. -/
def read : Read FootOwn := do
  let strip ← readBits stripBits
  let feet ← readVec 32
  let vel ← readVec 32
  let yaw ← readBits 32
  let pitch ← readBits 32
  let grounded ← readBool
  let mode ← readMode
  if strips ≤ strip then invalid
  else return { strip, feet, vel, yaw, pitch, grounded, mode }

end FootOwn

def FootMode.InRange : FootMode → Prop
  | foot => True
  | train k car at_ => k < 2 ^ trainBits ∧ car < 2 ^ carBits ∧ ∀ i, at_ i < 2 ^ 32
  | seated seat => seat < 2 ^ seatBits
  | lift storey left => storey < 2 ^ storeyBits ∧ left < 2 ^ liftTicksBits

namespace FootOwn

/-- A strip there is, and codes in their bits. -/
structure InRange (f : FootOwn) : Prop where
  strip : f.strip < strips
  feet : ∀ k, f.feet k < 2 ^ 32
  vel : ∀ k, f.vel k < 2 ^ 32
  yaw : f.yaw < 2 ^ 32
  pitch : f.pitch < 2 ^ 32
  mode : f.mode.InRange

theorem safe_mode : Safe readMode FootMode.InRange := by
  refine .bind (.bits (by decide)) fun mode _ => ?_
  split
  · exact .pure trivial
  · refine .bind (.bits (by decide)) fun k hk => ?_
    refine .bind (.bits (by decide)) fun car hcar => ?_
    exact (safe_vec (by decide)).map fun at_ hat => ⟨hk, hcar, hat⟩
  · exact (Safe.bits (by decide)).map fun seat hseat => hseat
  · refine .bind (.bits (by decide)) fun storey hstorey => ?_
    exact (Safe.bits (by decide)).map fun left hleft => ⟨hstorey, hleft⟩
  · exact .invalid

theorem safe_read : Safe read InRange := by
  refine .bind (.bits (by decide)) fun strip _ => ?_
  refine .bind (safe_vec (by decide)) fun feet hfeet => ?_
  refine .bind (safe_vec (by decide)) fun vel hvel => ?_
  refine .bind (.bits (by decide)) fun yaw hyaw => ?_
  refine .bind (.bits (by decide)) fun pitch hpitch => ?_
  refine .bind .bool fun grounded _ => ?_
  refine .bind safe_mode fun mode hmode => ?_
  split
  · exact .invalid
  · rename_i hstrip
    exact .pure ⟨not_le.mp hstrip, hfeet, hvel, hyaw, hpitch, hmode⟩

end FootOwn

/-! ## People -/

namespace Pose

def xBits : ℕ := 22
def sBits : ℕ := 19
def hBits : ℕ := 15
def yawBits : ℕ := 10
def pitchBits : ℕ := 8
def rollBits : ℕ := 8
def speedBits : ℕ := 6
def rideBits : ℕ := 5
def jetBits : ℕ := 2

def posSmall : ℕ := 6
def posMedium : ℕ := 12
def yawSmall : ℕ := 5
def yawMedium : ℕ := 8
def pitchSmall : ℕ := 4
def pitchMedium : ℕ := 6

end Pose

/-- What a pose says beside where it is: whether grounded and running, what is ridden, and which
jets fire. -/
structure PoseFlags where
  grounded : Bool
  running : Bool
  ride : ℕ
  jets : ℕ
  deriving DecidableEq

structure PoseCodes where
  x : ℕ
  s : ℕ
  h : ℕ
  yaw : ℕ
  pitch : ℕ
  roll : ℕ
  speed : ℕ
  flags : PoseFlags
  deriving DecidableEq

structure QPerson where
  id : ℕ
  generation : ℕ
  strip : ℕ
  codes : PoseCodes
  deriving DecidableEq

namespace PoseCodes

open Pose

def readFlags : Read PoseFlags := do
  let grounded ← readBool
  let running ← readBool
  let ride ← readBits rideBits
  let jets ← readBits jetBits
  return { grounded, running, ride, jets }

def read : Read PoseCodes := do
  let x ← readBits xBits
  let s ← readBits sBits
  let h ← readBits hBits
  let yaw ← readBits yawBits
  let pitch ← readBits pitchBits
  let roll ← readBits rollBits
  let speed ← readBits Pose.speedBits
  let flags ← readFlags
  return { x, s, h, yaw, pitch, roll, speed, flags }

structure InRange (c : PoseCodes) : Prop where
  x : c.x < 2 ^ xBits
  s : c.s < 2 ^ sBits
  h : c.h < 2 ^ hBits
  yaw : c.yaw < 2 ^ yawBits
  pitch : c.pitch < 2 ^ pitchBits
  roll : c.roll < 2 ^ rollBits
  speed : c.speed < 2 ^ Pose.speedBits
  ride : c.flags.ride < 2 ^ rideBits
  jets : c.flags.jets < 2 ^ jetBits

theorem safe_flags : Safe readFlags fun f => f.ride < 2 ^ rideBits ∧ f.jets < 2 ^ jetBits := by
  refine .bind .bool fun grounded _ => ?_
  refine .bind .bool fun running _ => ?_
  refine .bind (.bits (by decide)) fun ride hride => ?_
  exact (Safe.bits (by decide)).map fun jets hjets => ⟨hride, hjets⟩

theorem safe_read : Safe read InRange := by
  refine .bind (.bits (by decide)) fun x hx => ?_
  refine .bind (.bits (by decide)) fun s hs => ?_
  refine .bind (.bits (by decide)) fun h hh => ?_
  refine .bind (.bits (by decide)) fun yaw hyaw => ?_
  refine .bind (.bits (by decide)) fun pitch hpitch => ?_
  refine .bind (.bits (by decide)) fun roll hroll => ?_
  refine .bind (.bits (by decide)) fun speed hspeed => ?_
  exact safe_flags.map fun flags hflags =>
    ⟨hx, hs, hh, hyaw, hpitch, hroll, hspeed, hflags.1, hflags.2⟩

end PoseCodes

namespace QPerson

/-- A strip there is, and codes in their bits. -/
structure InRange (q : QPerson) : Prop where
  id : q.id < 2 ^ slotBits
  generation : q.generation < 2 ^ 2
  strip : q.strip < strips
  codes : q.codes.InRange

/-- Reads a whole record of a person, after its delta bit. -/
def readAbsolute (id : ℕ) : Read QPerson := do
  let generation ← readBits 2
  let strip ← readBits stripBits
  let codes ← PoseCodes.read
  if strips ≤ strip then invalid
  else return { id, generation, strip, codes }

theorem safe_absolute {id : ℕ} (hid : id < 2 ^ slotBits) : Safe (readAbsolute id) InRange := by
  refine .bind (.bits (by decide)) fun generation hgeneration => ?_
  refine .bind (.bits (by decide)) fun strip _ => ?_
  refine .bind PoseCodes.safe_read fun codes hcodes => ?_
  split
  · exact .invalid
  · rename_i hstrip
    exact .pure ⟨hid, hgeneration, not_le.mp hstrip, hcodes⟩

end QPerson

namespace PersonDelta

open Pose

/-- A code moved by a difference: round the circle, or no further than its ends. -/
def moved (bits : ℕ) (wrap : Bool) (was : ℕ) (d : ℤ) : ℕ :=
  let v : ℤ := was + d
  (if wrap then v % (maxCode bits + 1) else clamp 0 (maxCode bits) v).toNat

def readOne (was small medium bits : ℕ) (wrap : Bool) : Read ℕ := do
  let mode ← readBits 2
  match Mode.fromCode mode with
  | .same => return moved bits wrap was 0
  | .small =>
    let d ← readI32 small
    return moved bits wrap was d
  | .medium =>
    let d ← readI32 medium
    return moved bits wrap was d
  | .whole => readBits bits

/-- Where a person's position codes come to, `walked` of their heading, their speed and the ticks
gone by being how far that carries them in `x` and `s`; their height stays. -/
def carried (walked : ℕ → ℕ → ℕ → ℤ × ℤ) (base : QPerson) (yaw speed dt : ℕ) : ℤ × ℤ × ℤ :=
  let d := walked yaw speed dt
  (clamp 0 (maxCode xBits) (base.codes.x + d.1), clamp 0 (maxCode sBits) (base.codes.s + d.2),
    base.codes.h)

def readThree (width : ℕ) : Read (ℤ × ℤ × ℤ) := do
  let x ← readI32 width
  let y ← readI32 width
  let z ← readI32 width
  return (x, y, z)

/-- Reads the differences of the position codes from where they were carried. -/
def readPos (at_ : ℤ × ℤ × ℤ) : Read (ℤ × ℤ × ℤ) := do
  let mode ← readBits 2
  match Mode.fromCode mode with
  | .same => return (0, 0, 0)
  | .small => readThree Pose.posSmall
  | .medium => readThree Pose.posMedium
  | .whole =>
    let x ← readBits xBits
    let s ← readBits sBits
    let h ← readBits hBits
    return ((x : ℤ) - at_.1, (s : ℤ) - at_.2.1, (h : ℤ) - at_.2.2)

def put (bits : ℕ) (p : ℤ) : ℕ := (clamp 0 (maxCode bits) p).toNat

/-- Reads a delta record's age, after its id and delta bit. -/
def readBack : Read ℕ := readBits backBits

/-- Reads the rest of a delta record against `base`, `back` ticks older. -/
def read (walked : ℕ → ℕ → ℕ → ℤ × ℤ) (base : QPerson) (back : ℕ) : Read QPerson := do
  let b := base.codes
  let yaw ← readOne b.yaw yawSmall yawMedium yawBits true
  let pitch ← readOne b.pitch pitchSmall pitchMedium pitchBits false
  let roll ← Delta.readUnless b.roll (readBits rollBits)
  let speed ← Delta.readUnless b.speed (readBits Pose.speedBits)
  let flags ← Delta.readUnless b.flags PoseCodes.readFlags
  let at_ := carried walked base yaw speed back
  let pos ← readPos at_
  return { base with codes := {
    yaw, pitch, roll, speed, flags
    x := put xBits (at_.1 + pos.1)
    s := put sBits (at_.2.1 + pos.2.1)
    h := put hBits (at_.2.2 + pos.2.2) } }

theorem clamp_mem {low high x : ℤ} (h : low ≤ high) : low ≤ clamp low high x ∧ clamp low high x ≤ high :=
  ⟨le_max_left _ _, max_le h (min_le_left _ _)⟩

theorem put_lt (bits : ℕ) (p : ℤ) : put bits p < 2 ^ bits := by
  have hcode : (maxCode bits : ℤ) + 1 = 2 ^ bits := by
    have hpos := Nat.two_pow_pos bits
    rw [maxCode]
    push_cast [hpos]
    ring
  have hmem := clamp_mem (x := p) (Int.natCast_nonneg (maxCode bits))
  zify
  rw [put, Int.toNat_of_nonneg hmem.1]
  omega

theorem moved_lt (bits : ℕ) (wrap : Bool) (was : ℕ) (d : ℤ) : moved bits wrap was d < 2 ^ bits := by
  have hcode : (maxCode bits : ℤ) + 1 = 2 ^ bits := by
    have hpos := Nat.two_pow_pos bits
    rw [maxCode]
    push_cast [hpos]
    ring
  cases wrap with
  | false => exact put_lt bits _
  | true =>
    have hpos : (0 : ℤ) < 2 ^ bits := by positivity
    rw [moved, if_pos rfl, hcode]
    zify
    rw [Int.toNat_of_nonneg (Int.emod_nonneg _ hpos.ne')]
    exact Int.emod_lt_of_pos _ hpos

theorem safe_one {was small medium bits : ℕ} {wrap : Bool} (hs : 0 < small ∧ small ≤ 32)
    (hm : 0 < medium ∧ medium ≤ 32) (hb : bits ≤ 32) :
    Safe (readOne was small medium bits wrap) fun v => v < 2 ^ bits := by
  refine .bind (.bits (by decide)) fun mode _ => ?_
  split
  · exact .pure (moved_lt ..)
  · exact (Safe.i32 hs.1 hs.2).map fun d _ => moved_lt ..
  · exact (Safe.i32 hm.1 hm.2).map fun d _ => moved_lt ..
  · exact .bits hb

theorem safe_unless {α : Type} {P : α → Prop} {a : α} {rd : Read α} (ha : P a) (h : Safe rd P) :
    Safe (Delta.readUnless a rd) P := by
  refine .bind .bool fun same _ => ?_
  split
  · exact .pure ha
  · exact h

theorem safe_three {width : ℕ} (hpos : 0 < width) (hwidth : width ≤ 32) :
    Safe (readThree width) fun _ => True := by
  refine .bind (.i32 hpos hwidth) fun _ _ => .bind (.i32 hpos hwidth) fun _ _ => ?_
  exact (Safe.i32 hpos hwidth).map fun _ _ => trivial

theorem safe_pos (at_ : ℤ × ℤ × ℤ) : Safe (readPos at_) fun _ => True := by
  refine .bind (.bits (by decide)) fun mode _ => ?_
  split
  · exact .pure trivial
  · exact safe_three (by decide) (by decide)
  · exact safe_three (by decide) (by decide)
  · refine .bind (.bits (by decide)) fun x _ => ?_
    refine .bind (.bits (by decide)) fun s _ => ?_
    exact (Safe.bits (by decide)).map fun h _ => trivial

theorem safe_read (walked : ℕ → ℕ → ℕ → ℤ × ℤ) {base : QPerson} (hbase : base.InRange) (back : ℕ) :
    Safe (read walked base back) QPerson.InRange := by
  have hcodes := hbase.codes
  refine .bind (safe_one (by decide) (by decide) (by decide)) fun yaw hyaw => ?_
  refine .bind (safe_one (by decide) (by decide) (by decide)) fun pitch hpitch => ?_
  refine .bind (safe_unless hcodes.roll (.bits (by decide))) fun roll hroll => ?_
  refine .bind (safe_unless hcodes.speed (.bits (by decide))) fun speed hspeed => ?_
  refine .bind (safe_unless ⟨hcodes.ride, hcodes.jets⟩ PoseCodes.safe_flags) fun flags hflags => ?_
  refine (safe_pos _).map fun pos _ => ?_
  exact ⟨hbase.id, hbase.generation, hbase.strip,
    ⟨put_lt .., put_lt .., put_lt .., hyaw, hpitch, hroll, hspeed, hflags.1, hflags.2⟩⟩

end PersonDelta

end BeforeColony
