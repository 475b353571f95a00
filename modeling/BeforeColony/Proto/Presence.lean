import BeforeColony.Proto.Commands
import BeforeColony.Proto.FootCodec

/-!
# The plaza's datagrams

The colony's people on foot as each viewer is told of them: a header that says the viewer's floor,
and the people there one after the other until the bits run out. Nothing says how many there are:
a reader stops where less is left than a person takes, as in the bits that fill the last byte.
A datagram for nobody on foot has no floor, and nobody is read from it.
-/

set_option autoImplicit false

namespace BeforeColony

open Lib

namespace Presence

def maxDatagram : ℕ := 1100
def packetPlaza : ℕ := 4
def floors : ℕ := strips + 1
def ageBits : ℕ := 6
/-- What one person takes in a plaza datagram. -/
def personBits : ℕ := slotBits + ageBits + Pose.poseBits
/-- The most people a plaza datagram carries. -/
def maxPeople : ℕ := 48
def plazaHeaderBits : ℕ := packetKindBits + 32 + 1 + stripBits

end Presence

open Presence

/-- Someone in a plaza datagram, as codes: their slot, how long ago they were heard, the floor they
are on and their pose there. -/
structure PlazaPerson where
  id : ℕ
  age : ℕ
  strip : ℕ
  codes : PoseCodes
  deriving DecidableEq

namespace PlazaPerson

def fields (a : PlazaPerson) : List Field :=
  [⟨a.id, slotBits⟩, ⟨a.age, Presence.ageBits⟩] ++ a.codes.fields

structure InRange (a : PlazaPerson) : Prop where
  id : a.id < 2 ^ slotBits
  age : a.age < 2 ^ Presence.ageBits
  codes : a.codes.InRange

def on (strip : ℕ) (a : PlazaPerson) : PlazaPerson := { a with strip }

def read (strip : ℕ) : Read PlazaPerson := do
  let id ← readBits slotBits
  let age ← readBits Presence.ageBits
  let codes ← PoseCodes.read
  return { id, age, strip, codes }

end PlazaPerson

def Words.BitWriter.bitsRemaining (w : Words.BitWriter) : ℕ := w.limitBits - w.bitPos

structure PlazaWriter where
  w : Words.BitWriter
  count : ℕ

namespace PlazaWriter

/-- `strip` is the viewer's floor, if they're on foot in the city or on the base's deck. -/
def header (tick : ℕ) (strip : Option ℕ) : List Field :=
  [⟨packetPlaza, packetKindBits⟩, ⟨tick, 32⟩, .flag strip.isSome,
    ⟨min (strip.getD 0) (floors - 1), stripBits⟩]

def new (buf : List UInt8) (tick : ℕ) (strip : Option ℕ) : PlazaWriter where
  w := (Words.BitWriter.withLimit buf maxDatagram).put (header tick strip)
  count := 0

def push (p : PlazaWriter) (a : PlazaPerson) : Bool × PlazaWriter :=
  if maxPeople ≤ p.count ∨ p.w.bitsRemaining < personBits then (false, p)
  else (true, ⟨p.w.put a.fields, p.count + 1⟩)

def finish (p : PlazaWriter) : List UInt8 := p.w.written

/-- Pushes people one after the other: those it took, and the writer they leave. -/
def pushAll (p : PlazaWriter) : List PlazaPerson → List PlazaPerson × PlazaWriter
  | [] => ([], p)
  | a :: rest =>
    let (taken, p) := p.push a
    let (accepted, p) := p.pushAll rest
    (if taken then a :: accepted else accepted, p)

end PlazaWriter

structure PlazaReader where
  r : BitReader
  tick : ℕ
  strip : Option ℕ

namespace PlazaReader

def readHeader : Read (ℕ × Option ℕ) := do
  let kind ← readBits packetKindBits
  if kind ≠ packetPlaza then throw .wrongKind
  else
    let tick ← readBits 32
    let city ← readBool
    let strip ← readBits stripBits
    check
    if floors ≤ strip then invalid
    else return (tick, if city then some strip else none)

def new (bytes : List UInt8) : Except DecodeError PlazaReader :=
  match readHeader (.ofBytes bytes) with
  | (.ok (tick, strip), r) => .ok ⟨r, tick, strip⟩
  | (.error e, _) => .error e

def nextPerson (p : PlazaReader) : Option PlazaPerson × PlazaReader :=
  match p.strip with
  | none => (none, p)
  | some strip =>
    if p.r.rest.length < personBits then (none, p)
    else
      match PlazaPerson.read strip p.r with
      | (.ok a, r) => (if r.overflow then none else some a, { p with r })
      | (.error _, r) => (none, { p with r })

inductive Gives : PlazaReader → List PlazaPerson → Prop where
  | nobody {p : PlazaReader} (h : p.nextPerson.1 = none) : Gives p []
  | person {p p' : PlazaReader} {a : PlazaPerson} {rest : List PlazaPerson}
      (h : p.nextPerson = (some a, p')) (hrest : Gives p' rest) : Gives p (a :: rest)

theorem Gives.unique {p : PlazaReader} {people people' : List PlazaPerson} (h : Gives p people)
    (h' : Gives p people') : people = people' := by
  induction h generalizing people' with
  | nobody hnone =>
    cases h' with
    | nobody => rfl
    | person hsome _ =>
      rw [hsome] at hnone
      cases hnone
  | person hsome _ ih =>
    cases h' with
    | nobody hnone =>
      rw [hsome] at hnone
      cases hnone
    | person hsome' hrest' =>
      rw [hsome] at hsome'
      cases hsome'
      rw [ih hrest']

end PlazaReader

/-! ## Writing -/

theorem PlazaPerson.widths_fields (a : PlazaPerson) : Field.widths a.fields = personBits := by
  simp only [fields, personBits, List.cons_append, List.nil_append, Field.widths_cons,
    PoseCodes.widths_fields]
  omega

theorem PlazaPerson.narrow_fields (a : PlazaPerson) : Field.Narrow a.fields := by
  intro f hf
  simp only [fields, PoseCodes.fields, PoseCodes.placeFields, PoseFlags.fields, List.mem_append,
    List.mem_cons, List.not_mem_nil, or_false] at hf
  rcases hf with (rfl | rfl) | ((rfl | rfl | rfl) | rfl | rfl | rfl | rfl) | rfl | rfl | rfl | rfl <;>
    exact width_le rfl

namespace PlazaWriter

variable {tick : ℕ} {strip : Option ℕ}

theorem narrow_header (tick : ℕ) (strip : Option ℕ) : Field.Narrow (header tick strip) := by
  intro f hf
  simp only [header, List.mem_cons, List.not_mem_nil, or_false] at hf
  rcases hf with rfl | rfl | rfl | rfl <;> exact width_le rfl

structure Holds (p : PlazaWriter) (head : List Field) (accepted : List PlazaPerson) : Prop where
  sound : p.w.Sound
  ok : p.w.overflow = false
  bits : p.w.view.bits = Field.all (head ++ accepted.flatMap PlazaPerson.fields)

variable {p : PlazaWriter} {head : List Field} {accepted : List PlazaPerson}

theorem sound_put {w : Words.BitWriter} {fs : List Field} (h : w.Sound) (hok : w.overflow = false)
    (hfs : Field.Narrow fs) (hroom : Field.widths fs ≤ w.bitsRemaining) :
    (w.put fs).Sound ∧ (w.put fs).overflow = false
      ∧ (w.put fs).view.bits = w.view.bits ++ Field.all fs := by
  obtain ⟨hsound, hview⟩ := h.put hfs
  have hwithin := h.within
  have hfits : w.view.Fits (Field.widths fs) := by
    refine ⟨hok, ?_⟩
    rw [h.length]
    rw [Words.BitWriter.bitsRemaining] at hroom
    exact Nat.add_le_of_le_sub' hwithin hroom
  rw [BitWriter.put_eq hfits] at hview
  refine ⟨hsound, ?_, congrArg BitWriter.bits hview⟩
  rw [show (w.put fs).overflow = (w.put fs).view.overflow from rfl, hview]
  exact hok

theorem Holds.push (h : p.Holds head accepted) (a : PlazaPerson) :
    (p.push a).2.Holds head (if (p.push a).1 then accepted ++ [a] else accepted) := by
  unfold PlazaWriter.push
  split
  · exact h
  · rename_i hroom
    have hremaining := not_lt.mp (not_or.mp hroom).2
    obtain ⟨hsound, hok, hbits⟩ := sound_put h.sound h.ok a.narrow_fields
      (a.widths_fields ▸ hremaining)
    refine ⟨hsound, hok, ?_⟩
    simp only [hbits, h.bits, Field.all_append, List.flatMap_append, List.flatMap_singleton, if_true,
      List.append_assoc]

theorem pushAll_cons (p : PlazaWriter) (a : PlazaPerson) (rest : List PlazaPerson) :
    p.pushAll (a :: rest)
      = (if (p.push a).1 then a :: ((p.push a).2.pushAll rest).1 else ((p.push a).2.pushAll rest).1,
        ((p.push a).2.pushAll rest).2) := rfl

theorem Holds.pushAll (h : p.Holds head accepted) (people : List PlazaPerson) :
    (p.pushAll people).2.Holds head (accepted ++ (p.pushAll people).1) := by
  induction people generalizing p accepted with
  | nil => simpa [PlazaWriter.pushAll] using h
  | cons a rest ih =>
    have hrest := ih (h.push a)
    rw [pushAll_cons]
    cases htaken : (p.push a).1 with
    | true => simpa [htaken] using hrest
    | false => simpa [htaken] using hrest

theorem holds_new (tick : ℕ) (strip : Option ℕ) {buf : List UInt8} (h : plazaHeaderBits ≤ buf.length * 8) :
    (new buf tick strip).Holds (header tick strip) [] := by
  have hstart := Words.BitWriter.sound_withLimit buf maxDatagram
  have hroom : Field.widths (header tick strip)
      ≤ (Words.BitWriter.withLimit buf maxDatagram).bitsRemaining := by
    have hmax : plazaHeaderBits ≤ min buf.length maxDatagram * 8 := by
      have hbits : plazaHeaderBits = 39 := rfl
      have hbytes : maxDatagram = 1100 := rfl
      omega
    exact hmax
  obtain ⟨hsound, hok, hbits⟩ := sound_put hstart rfl (narrow_header tick strip) hroom
  refine ⟨hsound, hok, hbits.trans ?_⟩
  simp [Words.BitWriter.withLimit, Words.BitWriter.view]

/-- Those it took are of those pushed, in their order. -/
theorem pushAll_sublist (p : PlazaWriter) (people : List PlazaPerson) :
    (p.pushAll people).1.Sublist people := by
  induction people generalizing p with
  | nil => exact List.Sublist.refl []
  | cons a rest ih =>
    rw [pushAll_cons]
    cases (p.push a).1 with
    | true => exact (ih _).cons_cons a
    | false => exact (ih _).cons a

theorem limit_new (buf : List UInt8) :
    (new buf tick strip).w.limitBits = min buf.length maxDatagram * 8 := by
  have hone (w : Words.BitWriter) (f : Field) :
      (w.writeBits f.value f.width).limitBits = w.limitBits := by
    unfold Words.BitWriter.writeBits
    split
    · rfl
    · split <;> rfl
  refine List.foldlRecOn (motive := fun w : Words.BitWriter => w.limitBits = _) _ _ ?_ ?_
  · rfl
  · intro w hw f _
    exact (hone w f).trans hw

theorem pushAll_short {p : PlazaWriter} (h : p.w.limitBits < personBits)
    (people : List PlazaPerson) : p.pushAll people = ([], p) := by
  induction people with
  | nil => rfl
  | cons a rest ih =>
    have hpush : p.push a = (false, p) :=
      if_pos (.inr ((Nat.sub_le _ _).trans_lt h))
    rw [pushAll_cons, hpush, ih]
    rfl

end PlazaWriter

/-! ## Reading -/

theorem PlazaPerson.reads {a : PlazaPerson} (h : a.InRange) (strip : ℕ) :
    Reads (read strip) (Field.all a.fields) (a.on strip) :=
  (Reads.field h.id).bind ((Reads.field h.age).bind ((PoseCodes.reads h.codes).map rfl))

namespace PlazaReader

theorem reads_header {tick : ℕ} {strip : Option ℕ} (htick : tick < 2 ^ 32)
    (hstrip : ∀ s, strip = some s → s < floors) :
    Reads readHeader (Field.all (PlazaWriter.header tick strip)) (tick, strip) := by
  have hmin : min (strip.getD 0) (floors - 1) = strip.getD 0 := by
    refine min_eq_left (Nat.le_sub_one_of_lt ?_)
    cases strip with
    | none => decide
    | some s => exact hstrip s rfl
  have hlt : strip.getD 0 < floors := hmin ▸ (min_le_right _ _).trans_lt (by decide)
  have hbits : strip.getD 0 < 2 ^ stripBits := hlt.trans_le (by decide)
  rw [PlazaWriter.header, hmin]
  apply (Reads.field (v := packetPlaza) (by decide)).bind
  rw [if_neg (not_not.mpr rfl)]
  apply (Reads.field htick).bind
  apply (Reads.bool strip.isSome).bind
  apply (Reads.field hbits).bind
  refine QPerson.reads_check ?_
  rw [if_neg (not_le.mpr hlt)]
  cases strip with
  | none => exact Reads.pure _
  | some s => exact Reads.pure _

theorem gives_people {tick strip : ℕ} {people : List PlazaPerson} (h : ∀ a ∈ people, a.InRange)
    {pad : List Bool} (hpad : pad.length < personBits) :
    Gives ⟨⟨Field.all (people.flatMap PlazaPerson.fields) ++ pad, false⟩, tick, some strip⟩
      (people.map (PlazaPerson.on strip)) := by
  induction people with
  | nil =>
    refine .nobody ?_
    simp [nextPerson, hpad]
  | cons a rest ih =>
    refine .person ?_ (ih fun b hb => h b (List.mem_cons_of_mem a hb))
    have hread := (PlazaPerson.reads (h a List.mem_cons_self) strip)
      (Field.all (rest.flatMap PlazaPerson.fields) ++ pad)
    have hlength : ¬ (Field.all a.fields ++ (Field.all (rest.flatMap PlazaPerson.fields) ++ pad)).length
        < personBits := by
      rw [List.length_append, Field.length_all, a.widths_fields]
      omega
    simp only [nextPerson, List.flatMap_cons, Field.all_append, List.append_assoc]
    rw [if_neg hlength, hread]
    rfl

theorem gives_nobody {r : BitReader} {tick : ℕ} : Gives ⟨r, tick, none⟩ [] := .nobody rfl

end PlazaReader

/-- A plaza datagram, read to its end, gives the people whose push was accepted, in order and each on
the datagram's floor, and nobody if it has none; a buffer too short for a header takes nobody. -/
theorem plaza_read (buf : List UInt8) {tick : ℕ} {strip : Option ℕ} {people : List PlazaPerson}
    (htick : tick < 2 ^ 32) (hstrip : ∀ s, strip = some s → s < floors)
    (hpeople : ∀ a ∈ people, a.InRange) :
    (plazaHeaderBits ≤ buf.length * 8 →
      ∃ r, PlazaReader.new ((PlazaWriter.new buf tick strip).pushAll people).2.finish = .ok r
        ∧ r.tick = tick ∧ r.strip = strip
        ∧ r.Gives (strip.elim [] fun s =>
          ((PlazaWriter.new buf tick strip).pushAll people).1.map (PlazaPerson.on s)))
      ∧ (buf.length * 8 < plazaHeaderBits →
        ((PlazaWriter.new buf tick strip).pushAll people).1 = []) := by
  constructor
  · intro hroom
    have hheld := (PlazaWriter.holds_new tick strip hroom).pushAll people
    rw [List.nil_append] at hheld
    have hin : ∀ a ∈ ((PlazaWriter.new buf tick strip).pushAll people).1, a.InRange :=
      fun a ha => hpeople a ((PlazaWriter.pushAll_sublist _ _).subset ha)
    generalize (PlazaWriter.new buf tick strip).pushAll people = written at hheld hin ⊢
    obtain ⟨accepted, p⟩ := written
    obtain ⟨hsound, hok, hbits⟩ := hheld
    have hpad : (List.replicate (8 * p.w.bytesWritten - p.w.bitPos) false).length < personBits := by
      have hbody : personBits = 113 := rfl
      rw [List.length_replicate, Words.BitWriter.bytesWritten]
      omega
    have hheader := PlazaReader.reads_header htick hstrip
      (Field.all (accepted.flatMap PlazaPerson.fields)
        ++ List.replicate (8 * p.w.bytesWritten - p.w.bitPos) false)
    have hbytes : BitReader.ofBytes p.finish = ⟨Field.all (PlazaWriter.header tick strip)
        ++ (Field.all (accepted.flatMap PlazaPerson.fields)
          ++ List.replicate (8 * p.w.bytesWritten - p.w.bitPos) false), false⟩ := by
      rw [BitReader.ofBytes, PlazaWriter.finish, hsound.zeros, hbits, Field.all_append,
        List.append_assoc]
    refine ⟨⟨⟨Field.all (accepted.flatMap PlazaPerson.fields)
      ++ List.replicate (8 * p.w.bytesWritten - p.w.bitPos) false, false⟩, tick, strip⟩,
      ?_, rfl, rfl, ?_⟩
    · rw [PlazaReader.new, hbytes, hheader]
    · cases strip with
      | none => exact PlazaReader.gives_nobody
      | some s => exact PlazaReader.gives_people hin hpad
  · intro hshort
    rw [PlazaWriter.pushAll_short]
    rw [PlazaWriter.limit_new]
    have hheader : plazaHeaderBits = 39 := rfl
    have hbody : personBits = 113 := rfl
    omega

/-! ## Everyone on foot -/

/-- People on foot come back exactly: a delta in the bits it counts, read by whoever has its
baseline, wherever that is carried to; a whole record; the walker; and everyone a plaza datagram
took. -/
theorem people_come_back (walked : ℕ → ℕ → ℕ → ℤ × ℤ) {cur base : QPerson} {back tick : ℕ}
    {baseline : ℕ → ℕ → Option QPerson} {own : FootOwn} (buf : List UInt8) {strip : Option ℕ}
    {people : List PlazaPerson} (hcur : cur.InRange) (hsame : cur.samePerson base = true)
    (hback : 1 ≤ back ∧ back ≤ 255) (hbase : baseline cur.id (ticksBack tick back) = some base)
    (hown : own.InRange) (htick : tick < 2 ^ 32) (hstrip : ∀ s, strip = some s → s < floors)
    (hpeople : ∀ a ∈ people, a.InRange) :
    (∃ d, PersonDelta.plan walked cur base back = some d
        ∧ RoundTrips (cur.write (some d)) (readPerson walked baseline tick) d.bits cur)
      ∧ RoundTrips (cur.write none) (readPerson walked baseline tick) cur.absoluteBits cur
      ∧ RoundTrips own.write FootOwn.read own.bits own
      ∧ (plazaHeaderBits ≤ buf.length * 8 →
        ∃ r, PlazaReader.new ((PlazaWriter.new buf tick strip).pushAll people).2.finish = .ok r
          ∧ r.tick = tick ∧ r.strip = strip
          ∧ r.Gives (strip.elim [] fun s =>
            ((PlazaWriter.new buf tick strip).pushAll people).1.map (PlazaPerson.on s)))
      ∧ (buf.length * 8 < plazaHeaderBits →
        ((PlazaWriter.new buf tick strip).pushAll people).1 = []) := by
  obtain ⟨d, hd⟩ := PersonDelta.plan_isSome walked hsame hback.1 hback.2
  obtain ⟨hread, hshort⟩ := plaza_read buf htick hstrip hpeople
  exact ⟨⟨d, hd, QPerson.roundTrips_delta hcur hd hbase⟩, QPerson.roundTrips_absolute hcur,
    FootOwn.roundTrips hown, hread, hshort⟩

def standing (x yaw : ℕ) : PoseCodes where
  x
  s := 20000
  h := 1024
  yaw
  pitch := 128
  roll := 0
  speed := 12
  flags := ⟨true, false, 0, 0⟩

theorem standing_inRange {x yaw : ℕ} (hx : x < 2 ^ Pose.xBits) (hyaw : yaw < 2 ^ Pose.yawBits) :
    (standing x yaw).InRange := by
  constructor
  case x => exact hx
  case yaw => exact hyaw
  case s => exact show 20000 < 2 ^ Pose.sBits by decide
  case h => exact show 1024 < 2 ^ Pose.hBits by decide
  case pitch => exact show 128 < 2 ^ Pose.pitchBits by decide
  case speed => exact show 12 < 2 ^ Pose.speedBits by decide
  all_goals exact Nat.two_pow_pos _

def passenger (strip : ℕ) : FootOwn where
  strip
  feet := ![7, 8, 9]
  vel := ![0, 0, 0]
  yaw := 1
  pitch := 2
  grounded := true
  mode := .train 3 1 ![4, 5, 6]

theorem passenger_inRange {strip : ℕ} (h : strip < strips) : (passenger strip).InRange := by
  constructor
  case strip => exact h
  case feet => exact show ∀ k, (![7, 8, 9] : Fin 3 → ℕ) k < 2 ^ 32 by decide
  case vel => exact show ∀ k, (![0, 0, 0] : Fin 3 → ℕ) k < 2 ^ 32 by decide
  case yaw => exact show 1 < 2 ^ 32 by decide
  case pitch => exact show 2 < 2 ^ 32 by decide
  case mode =>
    exact show 3 < 2 ^ trainBits ∧ 1 < 2 ^ carBits ∧ ∀ k, (![4, 5, 6] : Fin 3 → ℕ) k < 2 ^ 32
      by decide

theorem people_come_back_turned :
    (∃ d, PersonDelta.plan (fun _ _ _ => (9, -4)) ⟨5, 1, 2, standing 4194303 1020⟩
          ⟨5, 1, 2, standing 0 3⟩ 255 = some d
        ∧ RoundTrips (QPerson.write ⟨5, 1, 2, standing 4194303 1020⟩ (some d))
          (readPerson (fun _ _ _ => (9, -4)) (fun _ _ => some ⟨5, 1, 2, standing 0 3⟩) 300) d.bits
          ⟨5, 1, 2, standing 4194303 1020⟩)
      ∧ RoundTrips (QPerson.write ⟨5, 1, 2, standing 4194303 1020⟩ none)
        (readPerson (fun _ _ _ => (9, -4)) (fun _ _ => some ⟨5, 1, 2, standing 0 3⟩) 300)
        (QPerson.absoluteBits ⟨5, 1, 2, standing 4194303 1020⟩) ⟨5, 1, 2, standing 4194303 1020⟩
      ∧ RoundTrips (passenger 2).write FootOwn.read (passenger 2).bits (passenger 2)
      ∧ (plazaHeaderBits ≤ (List.replicate 30 (255 : UInt8)).length * 8 →
        ∃ r, PlazaReader.new ((PlazaWriter.new (List.replicate 30 255) 300 (some 3)).pushAll
            [⟨1000, 63, 3, standing 12 34⟩]).2.finish = .ok r
          ∧ r.tick = 300 ∧ r.strip = some 3
          ∧ r.Gives (((PlazaWriter.new (List.replicate 30 255) 300 (some 3)).pushAll
            [⟨1000, 63, 3, standing 12 34⟩]).1.map (PlazaPerson.on 3)))
      ∧ ((List.replicate 30 (255 : UInt8)).length * 8 < plazaHeaderBits →
        ((PlazaWriter.new (List.replicate 30 255) 300 (some 3)).pushAll
          [⟨1000, 63, 3, standing 12 34⟩]).1 = []) :=
  people_come_back (fun _ _ _ => (9, -4)) (List.replicate 30 255)
    ⟨by decide, by decide, by decide, standing_inRange (by decide) (by decide)⟩ rfl (by decide) rfl
    (passenger_inRange (by decide)) (by decide) (by rintro s ⟨⟩; decide)
    (by
      intro a ha
      rw [List.mem_singleton.mp ha]
      exact ⟨by decide, by decide, standing_inRange (by decide) (by decide)⟩)

/-- A datagram for nobody on foot takes a person who is not read from it; and a walker on the base's
deck, whose floor their strip's bits hold, comes back on the last strip. -/
theorem deck_and_bay :
    (((PlazaWriter.new (List.replicate 20 0) 5 none).pushAll [⟨7, 3, 0, standing 0 0⟩]).1
        = [⟨7, 3, 0, standing 0 0⟩]
      ∧ ∃ r, PlazaReader.new ((PlazaWriter.new (List.replicate 20 0) 5 none).pushAll
          [⟨7, 3, 0, standing 0 0⟩]).2.finish = .ok r
        ∧ r.Gives [] ∧ ¬ r.Gives [⟨7, 3, 0, standing 0 0⟩])
      ∧ (passenger 3).strip < 2 ^ stripBits
      ∧ ¬ RoundTrips (passenger 3).write FootOwn.read (passenger 3).bits (passenger 3) := by
  refine ⟨⟨by decide +kernel, ?_⟩, by decide, fun h => ?_⟩
  · have hin : ∀ a ∈ [(⟨7, 3, 0, standing 0 0⟩ : PlazaPerson)], a.InRange := by
      intro a ha
      rw [List.mem_singleton.mp ha]
      exact ⟨by decide, by decide, standing_inRange (by decide) (by decide)⟩
    have hnone : ∀ s, (none : Option ℕ) = some s → s < floors := by
      intro s hs
      cases hs
    obtain ⟨r, hr, -, -, hgives⟩ :=
      (plaza_read (List.replicate 20 0) (show 5 < 2 ^ 32 by decide) hnone hin).1 (by decide)
    refine ⟨r, hr, hgives, fun hperson => ?_⟩
    cases hgives.unique hperson
  · have hsame : (passenger 3).write = (passenger 2).write := rfl
    rw [hsame] at h
    have htwo := FootOwn.roundTrips (passenger_inRange (show 2 < strips by decide))
    have heq := congrArg FootOwn.strip (h.unique htwo)
    exact absurd heq (by decide)

end BeforeColony
