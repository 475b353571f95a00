import Mathlib.Data.Fin.VecNotation
import BeforeColony.Proto.Entity

/-!
# Deltas

A record against a baseline: which mode each group takes, the bits that says, and the record
the reader rebuilds from the same baseline. The position is carried on from the baseline in
integer arithmetic; the sums and products on the way fit an `i64`.
-/

set_option autoImplicit false

namespace BeforeColony

open Lib.BitString

/-- How a delta carries a group of codes. -/
inductive Mode where
  | same | small | medium | whole
  deriving DecidableEq, Repr

namespace Mode

def code : Mode → ℕ
  | same => 0 | small => 1 | medium => 2 | whole => 3

def fromCode (c : ℕ) : Mode :=
  match c % 4 with
  | 0 => same
  | 1 => small
  | 2 => medium
  | _ => whole

def Fits {n : ℕ} (bits : ℕ) (diffs : Fin n → ℤ) : Prop :=
  ∀ k, -2 ^ (bits - 1) ≤ diffs k ∧ diffs k < 2 ^ (bits - 1)

instance {n : ℕ} (bits : ℕ) (diffs : Fin n → ℤ) : Decidable (Fits bits diffs) :=
  inferInstanceAs (Decidable (∀ _, _))

/-- The narrowest mode the differences fit. -/
def of {n : ℕ} (diffs : Fin n → ℤ) (small medium : ℕ) : Mode :=
  if ∀ k, diffs k = 0 then same
  else if Fits small diffs then .small
  else if Fits medium diffs then .medium
  else whole

end Mode

def velSmall : ℕ := 5
def velMedium : ℕ := 9
def posSmall : ℕ := 6
def posMedium : ℕ := 12
def rotSmall : ℕ := 5
def rotMedium : ℕ := 8
def aimSmall : ℕ := 5
def aimMedium : ℕ := 7

/-- Integer division rounding half away from zero. -/
def divRound (n d : ℤ) : ℤ :=
  if 0 ≤ n then (n + d.tdiv 2).tdiv d else -((-n + d.tdiv 2).tdiv d)

def clamp (low high x : ℤ) : ℤ := max low (min high x)

/-- What a position code moves by, over what: the mean of two velocity codes for `dt` ticks. -/
def carry (base : QEntity) (vel : Fin 3 → ℤ) (dt : ℕ) (k : Fin 3) : ℤ × ℤ :=
  match base.on with
  | none =>
    let mv : ℤ := maxCode velBits
    let mp : ℤ := maxCode posBits
    let sum := base.vel k + vel k - mv
    (sum * velMax * dt * mp, mv * hz * 2 * sectorHalfExtent)
  | some on =>
    let mc : ℤ := maxCode (riderVelBits - 1)
    let mp : ℤ := maxCode (posBitsOf base.on)
    let sum := base.vel k + vel k
    (sum * riderVelMax * dt * mp, mc * hz * 2 * 2 * on.body.localMax)

/-- Where `base`'s position codes come to after `dt` ticks, clamped to the grid. -/
def carried (base : QEntity) (vel : Fin 3 → ℤ) (dt : ℕ) : Fin 3 → ℤ := fun k =>
  let c := carry base vel dt k
  clamp 0 (maxCode (posBitsOf base.on)) (base.pos k + divRound c.1 c.2)

def i64 (x : ℤ) : Option ℤ := if -2 ^ 63 ≤ x ∧ x < 2 ^ 63 then some x else none

def divRoundI64 (n d : ℤ) : Option ℤ :=
  if 0 ≤ n then do
    let sum ← i64 (n + d.tdiv 2)
    return sum.tdiv d
  else do
    let neg ← i64 (-n)
    let sum ← i64 (neg + d.tdiv 2)
    i64 (-sum.tdiv d)

def carryI64 (base : QEntity) (vel : Fin 3 → ℤ) (dt : ℕ) (k : Fin 3) : Option (ℤ × ℤ) :=
  match base.on with
  | none => do
    let both ← i64 (base.vel k + vel k)
    let sum ← i64 (both - maxCode velBits)
    let a ← i64 (sum * velMax)
    let b ← i64 (a * dt)
    let num ← i64 (b * maxCode posBits)
    let c ← i64 (maxCode velBits * hz)
    let d ← i64 (c * 2)
    let den ← i64 (d * sectorHalfExtent)
    return (num, den)
  | some on => do
    let sum ← i64 (base.vel k + vel k)
    let a ← i64 (sum * riderVelMax)
    let b ← i64 (a * dt)
    let num ← i64 (b * maxCode (posBitsOf base.on))
    let c ← i64 (maxCode (riderVelBits - 1) * hz)
    let d ← i64 (c * 2)
    let e ← i64 (d * 2)
    let den ← i64 (e * on.body.localMax)
    return (num, den)

def carriedI64 (base : QEntity) (vel : Fin 3 → ℤ) (dt : ℕ) (k : Fin 3) : Option ℤ := do
  let c ← carryI64 base vel dt k
  let moved ← divRoundI64 c.1 c.2
  let x ← i64 (base.pos k + moved)
  return clamp 0 (maxCode (posBitsOf base.on)) x

/-- A group of codes of a delta: its mode, and the differences. -/
structure Group (n : ℕ) where
  mode : Mode
  diffs : Fin n → ℤ
  deriving DecidableEq

namespace Group

variable {n : ℕ}

/-- Bits of the group, given the small and medium widths and the whole's bits. -/
def bits (g : Group n) (small medium whole : ℕ) : ℕ :=
  2 + match g.mode with
    | .same => 0
    | .small => n * small
    | .medium => n * medium
    | .whole => whole

def fields (g : Group n) (small medium : ℕ) (whole : List Field) : List Field :=
  ⟨g.mode.code, 2⟩ ::
    match g.mode with
    | .same => []
    | .small => Field.array (.i32 · small) g.diffs
    | .medium => Field.array (.i32 · medium) g.diffs
    | .whole => whole

/-- Reads a group: `put` makes its codes of the differences, and `same` of none. -/
def read {α : Type} (n small medium : ℕ) (same : α) (put : (Fin n → ℤ) → α) (whole : Read α) :
    Read α := do
  let mode ← readBits 2
  match Mode.fromCode mode with
  | .same => return same
  | .small => do
    let diffs ← readArray (readI32 small) n
    return put diffs
  | .medium => do
    let diffs ← readArray (readI32 medium) n
    return put diffs
  | .whole => whole

/-- The differences fit the mode the group goes in. -/
structure Narrow (g : Group n) (small medium : ℕ) : Prop where
  same : g.mode = .same → ∀ k, g.diffs k = 0
  small : g.mode = .small → Mode.Fits small g.diffs
  medium : g.mode = .medium → Mode.Fits medium g.diffs

theorem narrow_of (diffs : Fin n → ℤ) (small medium : ℕ) :
    Narrow ⟨Mode.of diffs small medium, diffs⟩ small medium := by
  unfold Mode.of
  constructor
  · intro h
    simp only at h
    split at h
    · assumption
    · split at h
      · cases h
      · split at h <;> cases h
  · intro h
    simp only at h
    split at h
    · cases h
    · split at h
      · assumption
      · split at h <;> cases h
  · intro h
    simp only at h
    split at h
    · cases h
    · split at h
      · cases h
      · split at h
        · assumption
        · cases h

theorem narrow_whole (diffs : Fin n → ℤ) (small medium : ℕ) :
    Narrow ⟨.whole, diffs⟩ small medium := by
  constructor <;> intro h <;> cases h

theorem widths_fields (g : Group n) (small medium : ℕ) (whole : List Field) :
    Field.widths (g.fields small medium whole) = g.bits small medium (Field.widths whole) := by
  unfold fields bits
  rw [Field.widths_cons]
  cases g.mode with
  | same => rfl
  | small => exact congrArg (2 + ·) (Field.widths_array g.diffs fun _ => rfl)
  | medium => exact congrArg (2 + ·) (Field.widths_array g.diffs fun _ => rfl)
  | whole => rfl

theorem reads_diffs {width : ℕ} {diffs : Fin n → ℤ} (hw : 0 < width) (h32 : width ≤ 32)
    (h : Mode.Fits width diffs) :
    Reads (readArray (readI32 width) n) (Field.all (Field.array (.i32 · width) diffs)) diffs := by
  rw [Field.all_array]
  exact Reads.array fun k => Reads.i32 hw h32 (h k).1 (h k).2

theorem reads {α : Type} {g : Group n} {small medium : ℕ} {whole : List Field} {same : α}
    {put : (Fin n → ℤ) → α} {rd : Read α} {a : α} (hn : g.Narrow small medium)
    (hs : 0 < small ∧ small ≤ 32) (hm : 0 < medium ∧ medium ≤ 32)
    (hsame : g.mode = .same → same = a) (hput : g.mode ≠ .whole → put g.diffs = a)
    (hwhole : g.mode = .whole → Reads rd (Field.all whole) a) :
    Reads (read n small medium same put rd) (Field.all (g.fields small medium whole)) a := by
  unfold fields read
  rw [Field.all_cons]
  cases hmode : g.mode with
  | same =>
    apply (Reads.field (show Mode.code .same < 2 ^ 2 by decide)).bind
    rw [← hsame hmode]
    exact Reads.pure same
  | small =>
    apply (Reads.field (show Mode.code .small < 2 ^ 2 by decide)).bind
    rw [← hput (by rw [hmode]; decide)]
    exact (reads_diffs hs.1 hs.2 (hn.small hmode)).map rfl
  | medium =>
    apply (Reads.field (show Mode.code .medium < 2 ^ 2 by decide)).bind
    rw [← hput (by rw [hmode]; decide)]
    exact (reads_diffs hm.1 hm.2 (hn.medium hmode)).map rfl
  | whole =>
    apply (Reads.field (show Mode.code .whole < 2 ^ 2 by decide)).bind
    exact hwhole hmode

end Group

/-- A record's delta against a baseline, worked out once. -/
structure Delta where
  back : ℕ
  rider : Bool
  aloft : Bool
  vel : Group 3
  pos : Group 3
  rot : Group 3
  aim : Group 2
  cur : QEntity
  flagsSame : Bool
  partsSame : Bool

namespace Delta

def plan (cur base : QEntity) (back : ℕ) : Option Delta :=
  if ¬ (1 ≤ back ∧ back ≤ 255) ∨ ¬ cur.sameSuit base then none
  else
    let dv := fun k => cur.vel k - base.vel k
    let dp := fun k => (cur.pos k : ℤ) - carried base cur.vel back k
    let dr := fun k => (cur.rot k : ℤ) - base.rot k
    let da := fun k => (cur.aim k : ℤ) - base.aim k
    some {
      back, cur
      rider := cur.on.isSome
      aloft := cur.on.elim false RiderOn.aloft
      vel := ⟨Mode.of dv velSmall velMedium, dv⟩
      pos := ⟨Mode.of dp posSmall posMedium, dp⟩
      rot :=
        if cur.rotLargest = base.rotLargest then ⟨Mode.of dr rotSmall rotMedium, dr⟩
        else ⟨.whole, dr⟩
      aim := ⟨Mode.of da aimSmall aimMedium, da⟩
      flagsSame := cur.flags = base.flags
      partsSame := cur.parts = base.parts }

def bits (d : Delta) : ℕ :=
  slotBits + 1 + backBits + d.rider.toNat
    + d.vel.bits velSmall velMedium (3 * velBitsOf d.cur.on)
    + d.pos.bits posSmall posMedium (3 * posBitsOf d.cur.on)
    + d.rot.bits rotSmall rotMedium (2 + 3 * entityRotBits)
    + d.aim.bits aimSmall aimMedium (2 * entityAimBits)
    + 1 + (if d.flagsSame then 0 else entFlagsBits)
    + 1 + (if d.partsSame then 0 else 3 * Part.count)

def fields (d : Delta) : List Field :=
  ⟨d.back, backBits⟩ :: (if d.rider then [.flag d.aloft] else [])
    ++ d.vel.fields velSmall velMedium (velFields d.cur.on d.cur.vel)
    ++ d.pos.fields posSmall posMedium (posFields (posBitsOf d.cur.on) d.cur.pos)
    ++ d.rot.fields rotSmall rotMedium (rotFields d.cur.rotLargest d.cur.rot)
    ++ d.aim.fields aimSmall aimMedium (aimFields d.cur.aim)
    ++ .flag d.flagsSame :: (if d.flagsSame then [] else [⟨d.cur.flags, entFlagsBits⟩])
    ++ .flag d.partsSame :: (if d.partsSame then [] else partsFields d.cur.parts)

def write (d : Delta) (w : BitWriter) : BitWriter := w.pack d.fields

/-- Reads a delta record's age, after its slot and delta bit. -/
def readBack : Read ℕ := readBits backBits

def readAloft : Option RiderOn → Read (Option RiderOn)
  | none => return none
  | some on => do
    let aloft ← readBool
    return some { on with aloft }

def asI32 (c : ℤ) : ℤ := signed 32 (unsigned 32 c)

/-- Reads a value, unless a bit says it is `a`. -/
def readUnless {α : Type} (a : α) (rd : Read α) : Read α := do
  let same ← readBool
  if same then return a else rd

/-- Codes moved by differences, on a grid of `bits` bits. -/
def put {n : ℕ} (bits : ℕ) (at_ diffs : Fin n → ℤ) : Fin n → ℕ := fun k =>
  (clamp 0 (maxCode bits) (at_ k + diffs k)).toNat

/-- Reads the rest of a delta record against `base`, `back` ticks older. -/
def read (base : QEntity) (back : ℕ) : Read QEntity := do
  let on ← readAloft base.on
  let vel ← Group.read 3 velSmall velMedium base.vel (fun d k => asI32 (base.vel k + d k))
    (readVel on)
  let at_ := carried base vel back
  let pos ← Group.read 3 posSmall posMedium (put (posBitsOf on) at_ 0) (put (posBitsOf on) at_)
    (readArray (readBits (posBitsOf on)) 3)
  let (rotLargest, rot) ← Group.read 3 rotSmall rotMedium (base.rotLargest, base.rot)
    (fun d => (base.rotLargest, put entityRotBits (fun k => base.rot k) d)) readRot
  let aim ← Group.read 2 aimSmall aimMedium base.aim
    (put entityAimBits fun k => base.aim k) (readArray (readBits entityAimBits) 2)
  let flags ← readUnless base.flags (readBits entFlagsBits)
  let parts ← readUnless base.parts (readArray (readBits 3) Part.count)
  return { base with on, vel, pos, rotLargest, rot, aim, flags, parts }

def readRecord (base : QEntity) : Read QEntity := do
  let back ← readBack
  read base back

end Delta

/-! ## The round trip -/

theorem clamp_of_mem {low high x : ℤ} (h : low ≤ x) (h' : x ≤ high) : clamp low high x = x := by
  rw [clamp, min_eq_right h', max_eq_right h]

theorem sameSuit_iff {q base : QEntity} :
    q.sameSuit base = true ↔ q.slot = base.slot ∧ q.generation = base.generation
      ∧ q.frame = base.frame ∧ q.faction = base.faction ∧ q.pilot = base.pilot
      ∧ q.on.map RiderOn.body = base.on.map RiderOn.body := by
  simp [QEntity.sameSuit, and_assoc]

namespace Delta

variable {cur base : QEntity} {back : ℕ} {d : Delta}

/-- A code moved by its difference from where it starts is the code. -/
theorem put_diff {n bits : ℕ} {codes : Fin n → ℕ} {at_ diffs : Fin n → ℤ}
    (hc : ∀ k, codes k ≤ maxCode bits) (hd : ∀ k, at_ k + diffs k = codes k) :
    put bits at_ diffs = codes := by
  funext k
  have hcode : (codes k : ℤ) ≤ maxCode bits := by exact_mod_cast hc k
  rw [put, hd k, clamp_of_mem (Int.natCast_nonneg _) hcode, Int.toNat_natCast]

theorem reads_aloft (h : cur.on.map RiderOn.body = base.on.map RiderOn.body) :
    Reads (readAloft base.on)
      (Field.all (if cur.on.isSome then [.flag (cur.on.elim false RiderOn.aloft)] else [])) cur.on := by
  cases hb : base.on with
  | none =>
    rw [hb, Option.map_none, Option.map_eq_none_iff] at h
    rw [h]
    exact Reads.pure none
  | some on =>
    rw [hb, Option.map_some, Option.map_eq_some_iff] at h
    obtain ⟨on', hon, hbody⟩ := h
    rw [hon]
    simp only [Option.isSome_some, if_true, Field.all_cons, Field.all_nil, List.append_nil,
      Option.elim_some]
    refine (Reads.bool on'.aloft).map ?_
    rw [← hbody]

theorem reads_unless {α : Type} {same : Bool} {rd : Read α} {fs : List Field} {a b : α}
    (hsame : same = true → a = b) (hrd : Reads rd (Field.all fs) b) :
    Reads (readUnless a rd)
      ((Field.flag same).bits ++ Field.all (if same then [] else fs)) b := by
  apply (Reads.bool same).bind
  cases same with
  | true =>
    rw [← hsame rfl]
    exact Reads.pure a
  | false => exact hrd

theorem maxCode_of_lt {bits v : ℕ} (h : v < 2 ^ bits) : v ≤ maxCode bits := Nat.le_sub_one_of_lt h

theorem plan_eq (h : plan cur base back = some d) :
    1 ≤ back ∧ back ≤ 255 ∧ cur.sameSuit base = true := by
  unfold plan at h
  split at h
  · cases h
  · rename_i hok
    simp only [not_or, not_not] at hok
    exact ⟨hok.1.1, hok.1.2, hok.2⟩

theorem asI32_of_range {on : Option RiderOn} {c : ℤ} (h : VelInRange on c) : asI32 c = c := by
  apply signed_unsigned (by decide)
  · cases on with
    | none => exact (by decide : (-2 ^ 31 : ℤ) ≤ 0).trans h.1
    | some on => exact (by decide : (-2 ^ 31 : ℤ) ≤ -2 ^ 9).trans h.1
  · cases on with
    | none => exact h.2.trans_le (by decide)
    | some on => exact h.2.trans_le (by decide)

/-- Codes that are on their grid read back from their differences to where they start. -/
theorem reads_codes {n bits small medium : ℕ} {codes : Fin n → ℕ} {at_ : Fin n → ℤ}
    {whole : List Field} {rd : Read (Fin n → ℕ)} {same : Fin n → ℕ}
    (hc : ∀ k, codes k ≤ maxCode bits) (hs : 0 < small ∧ small ≤ 32) (hm : 0 < medium ∧ medium ≤ 32)
    (hsame : (∀ k, (codes k : ℤ) = at_ k) → same = codes) (hwhole : Reads rd (Field.all whole) codes) :
    Reads (Group.read n small medium same (put bits at_) rd)
      (Field.all (Group.fields
        ⟨Mode.of (fun k => (codes k : ℤ) - at_ k) small medium, fun k => (codes k : ℤ) - at_ k⟩
        small medium whole)) codes := by
  have hn := Group.narrow_of (fun k => (codes k : ℤ) - at_ k) small medium
  apply Group.reads hn hs hm
  · intro hmode
    exact hsame fun k => sub_eq_zero.mp (hn.same hmode k)
  · intro _
    apply put_diff hc
    intro k
    exact add_sub_cancel _ _
  · exact fun _ => hwhole

theorem reads_velGroup {on : Option RiderOn} {from_ vel : Fin 3 → ℤ}
    (h : ∀ k, VelInRange on (vel k)) :
    Reads (Group.read 3 velSmall velMedium from_ (fun d k => asI32 (from_ k + d k)) (readVel on))
      (Field.all (Group.fields
        ⟨Mode.of (fun k => vel k - from_ k) velSmall velMedium, fun k => vel k - from_ k⟩
        velSmall velMedium (velFields on vel))) vel := by
  have hn := Group.narrow_of (fun k => vel k - from_ k) velSmall velMedium
  apply Group.reads hn (by decide) (by decide)
  · intro hmode
    funext k
    exact (sub_eq_zero.mp (hn.same hmode k)).symm
  · intro _
    funext k
    rw [add_sub_cancel]
    exact asI32_of_range (h k)
  · exact fun _ => reads_vel h

theorem reads_posGroup {bits : ℕ} {pos : Fin 3 → ℕ} {at_ : Fin 3 → ℤ}
    (h : ∀ k, pos k ≤ maxCode bits) :
    Reads (Group.read 3 posSmall posMedium (put bits at_ 0) (put bits at_)
        (readArray (readBits bits) 3))
      (Field.all (Group.fields
        ⟨Mode.of (fun k => (pos k : ℤ) - at_ k) posSmall posMedium, fun k => (pos k : ℤ) - at_ k⟩
        posSmall posMedium (posFields bits pos))) pos := by
  refine reads_codes h (by decide) (by decide) (fun heq => ?_) (reads_pos h)
  apply put_diff h
  intro k
  rw [Pi.zero_apply, add_zero, heq k]

theorem reads_aimGroup {from_ aim : Fin 2 → ℕ} (h : ∀ k, aim k < 2 ^ entityAimBits) :
    Reads (Group.read 2 aimSmall aimMedium from_ (put entityAimBits fun k => from_ k)
        (readArray (readBits entityAimBits) 2))
      (Field.all (Group.fields
        ⟨Mode.of (fun k => (aim k : ℤ) - from_ k) aimSmall aimMedium,
          fun k => (aim k : ℤ) - from_ k⟩
        aimSmall aimMedium (aimFields aim))) aim := by
  refine reads_codes (fun k => maxCode_of_lt (h k)) (by decide) (by decide) (fun heq => ?_)
    (reads_aim h)
  funext k
  exact_mod_cast (heq k).symm

theorem reads_rotGroup {fromLargest largest : ℕ} {from_ rot : Fin 3 → ℕ} (hl : largest < 4)
    (h : ∀ k, rot k < 2 ^ entityRotBits) :
    Reads (Group.read 3 rotSmall rotMedium (fromLargest, from_)
        (fun d => (fromLargest, put entityRotBits (fun k => from_ k) d)) readRot)
      (Field.all (Group.fields
        (if largest = fromLargest then
          ⟨Mode.of (fun k => (rot k : ℤ) - from_ k) rotSmall rotMedium,
            fun k => (rot k : ℤ) - from_ k⟩
        else ⟨.whole, fun k => (rot k : ℤ) - from_ k⟩)
        rotSmall rotMedium (rotFields largest rot))) (largest, rot) := by
  split
  · rename_i heq
    have hn := Group.narrow_of (fun k => (rot k : ℤ) - from_ k) rotSmall rotMedium
    apply Group.reads hn (by decide) (by decide)
    · intro hmode
      rw [heq]
      refine congrArg _ (funext fun k => ?_)
      exact_mod_cast (sub_eq_zero.mp (hn.same hmode k)).symm
    · intro _
      rw [heq]
      refine congrArg _ (put_diff (fun k => maxCode_of_lt (h k)) fun k => ?_)
      exact add_sub_cancel _ _
    · exact fun _ => reads_rot hl h
  · apply Group.reads (Group.narrow_whole _ _ _) (by decide) (by decide)
    · intro hmode
      cases hmode
    · intro hmode
      exact absurd rfl hmode
    · exact fun _ => reads_rot hl h

/-- What a delta writes, read against its baseline, is the record it was planned for. -/
theorem reads_fields (hc : cur.InRange) (h : plan cur base back = some d) :
    Reads (readRecord base) (Field.all d.fields) cur := by
  obtain ⟨hlow, hhigh, hsuit⟩ := plan_eq h
  obtain ⟨hslot, hgen, hframe, hfaction, hpilot, hbody⟩ := sameSuit_iff.mp hsuit
  unfold plan at h
  split at h
  · cases h
  rw [← Option.some.inj h]
  simp only [fields, List.append_assoc, List.cons_append, Field.all_append, Field.all_cons]
  have hback : back < 2 ^ backBits := by
    rw [show 2 ^ backBits = 256 from rfl]
    omega
  apply (Reads.field hback).bind
  apply (reads_aloft hbody).bind
  apply (reads_velGroup hc.vel).bind
  apply (reads_posGroup hc.pos).bind
  apply (reads_rotGroup hc.rotLargest hc.rot).bind
  apply (reads_aimGroup hc.aim).bind
  have hflags : Reads (readBits entFlagsBits) (Field.all [⟨cur.flags, entFlagsBits⟩]) cur.flags := by
    simpa using Reads.field hc.flags
  rw [← List.append_assoc]
  apply (reads_unless (fun hsame => (of_decide_eq_true hsame).symm) hflags).bind
  apply (reads_unless (fun hsame => (of_decide_eq_true hsame).symm) (reads_parts hc.parts)).map
  cases cur
  cases base
  simp_all

theorem widths_unless (same : Bool) (fs : List Field) :
    Field.widths (if same then [] else fs) = if same then 0 else Field.widths fs := by
  split <;> rfl

theorem widths_fields (d : Delta) :
    slotBits + 1 + Field.widths d.fields = d.bits := by
  have hrider : Field.widths (if d.rider then [Field.flag d.aloft] else []) = d.rider.toNat := by
    cases d.rider <;> rfl
  have hflag (b : Bool) : (Field.flag b).width = 1 := rfl
  simp only [fields, bits, List.cons_append, List.append_assoc, Field.widths_append,
    Field.widths_cons, Group.widths_fields, widths_unless, widths_vel, widths_pos, widths_rot,
    widths_aim, widths_parts, hrider, hflag, Field.widths_nil, add_zero]
  omega

theorem narrow_group {n small medium : ℕ} (g : Group n) {whole : List Field} (hs : small ≤ 32)
    (hm : medium ≤ 32) (hw : Field.Narrow whole) : Field.Narrow (g.fields small medium whole) := by
  unfold Group.fields
  refine Field.Narrow.cons (show 2 ≤ 32 by decide) ?_
  cases g.mode with
  | same => exact Field.narrow_nil
  | small => exact Field.narrow_array g.diffs fun _ => hs
  | medium => exact Field.narrow_array g.diffs fun _ => hm
  | whole => exact hw

theorem narrow_fields (d : Delta) : Field.Narrow d.fields := by
  have hrider : Field.Narrow (if d.rider then [Field.flag d.aloft] else []) := by
    split
    · exact Field.Narrow.cons (show 1 ≤ 32 by decide) Field.narrow_nil
    · exact Field.narrow_nil
  have hflags : Field.Narrow (if d.flagsSame then [] else [⟨d.cur.flags, entFlagsBits⟩]) := by
    split
    · exact Field.narrow_nil
    · exact Field.Narrow.cons (show entFlagsBits ≤ 32 by decide) Field.narrow_nil
  have hparts : Field.Narrow (if d.partsSame then [] else partsFields d.cur.parts) := by
    split
    · exact Field.narrow_nil
    · exact narrow_parts _
  have hvel : Field.Narrow (d.vel.fields velSmall velMedium (velFields d.cur.on d.cur.vel)) :=
    narrow_group _ (by decide) (by decide) (narrow_vel _ _)
  have hpos : Field.Narrow (d.pos.fields posSmall posMedium
      (posFields (posBitsOf d.cur.on) d.cur.pos)) :=
    narrow_group _ (by decide) (by decide) (narrow_pos (posBitsOf_le _) _)
  have hrot : Field.Narrow (d.rot.fields rotSmall rotMedium
      (rotFields d.cur.rotLargest d.cur.rot)) :=
    narrow_group _ (by decide) (by decide) (narrow_rot _ _)
  have haim : Field.Narrow (d.aim.fields aimSmall aimMedium (aimFields d.cur.aim)) :=
    narrow_group _ (by decide) (by decide) (narrow_aim _)
  have hback : Field.Narrow (⟨d.back, backBits⟩ :: if d.rider then [Field.flag d.aloft] else []) :=
    Field.Narrow.cons (show backBits ≤ 32 by decide) hrider
  exact (((((hback.append hvel).append hpos).append hrot).append haim).append
    (Field.Narrow.cons (show 1 ≤ 32 by decide) hflags)).append
    (Field.Narrow.cons (show 1 ≤ 32 by decide) hparts)

theorem write_eq {w : BitWriter} (h : w.Fits (Field.widths d.fields)) :
    d.write w = w.append (Field.all d.fields) :=
  BitWriter.pack_eq h d.narrow_fields

theorem plan_isSome (hsuit : cur.sameSuit base = true) (hlow : 1 ≤ back) (hhigh : back ≤ 255) :
    ∃ d, plan cur base back = some d := by
  unfold plan
  rw [if_neg (by simp [hsuit, hlow, hhigh])]
  exact ⟨_, rfl⟩

end Delta

/-! ## The carried position's arithmetic -/

theorem i64_of_abs {x b : ℤ} (h : |x| ≤ b) (hb : b < 2 ^ 63) : i64 x = some x := by
  have := abs_le.mp h
  exact if_pos ⟨by omega, by omega⟩

theorem i64_bind {α : Type} {x b : ℤ} (h : |x| ≤ b) (hb : b < 2 ^ 63) (f : ℤ → Option α) :
    (i64 x >>= f) = f x := by
  rw [i64_of_abs h hb]
  rfl

theorem abs_mul_le {x y a b : ℤ} (hx : |x| ≤ a) (hy : |y| ≤ b) : |x * y| ≤ a * b := by
  rw [abs_mul]
  exact mul_le_mul hx hy (abs_nonneg y) ((abs_nonneg x).trans hx)

theorem abs_tdiv_le (x d : ℤ) : |x.tdiv d| ≤ |x| := by
  rw [Int.abs_eq_natAbs, Int.abs_eq_natAbs, Int.natAbs_tdiv]
  exact_mod_cast Nat.div_le_self _ _

theorem divRoundI64_eq {n d b : ℤ} (hn : |n| ≤ b) (hd : 0 ≤ d) (hdb : d ≤ b) (hb : b < 2 ^ 61) :
    divRoundI64 n d = some (divRound n d) ∧ |divRound n d| ≤ 2 * b := by
  have hhalf : |d.tdiv 2| ≤ b := (abs_tdiv_le d 2).trans (by rwa [abs_of_nonneg hd])
  have hsum (m : ℤ) (hm : |m| ≤ b) : |m + d.tdiv 2| ≤ 2 * b := by
    have := abs_add_le m (d.tdiv 2)
    omega
  unfold divRoundI64 divRound
  split
  · have h := hsum n hn
    rw [i64_of_abs h (by omega)]
    exact ⟨rfl, (abs_tdiv_le _ d).trans h⟩
  · have hneg : |-n| ≤ b := by rwa [abs_neg]
    have h := hsum (-n) hneg
    have hdiv : |-(-n + d.tdiv 2).tdiv d| ≤ 2 * b := by
      rw [abs_neg]
      exact (abs_tdiv_le _ d).trans h
    rw [i64_of_abs hneg (by omega)]
    simp only [Option.bind_eq_bind, Option.bind_some]
    rw [i64_of_abs h (by omega)]
    simp only [Option.bind_some]
    exact ⟨i64_of_abs hdiv (by omega), hdiv⟩

theorem maxCode_posBits_le (on : Option RiderOn) : maxCode (posBitsOf on) ≤ 2 ^ 21 := by
  have hbits : posBitsOf on ≤ 21 := by
    cases on with
    | none => exact le_rfl
    | some on => exact on.body.localBits_le
  exact (Nat.sub_le _ _).trans (Nat.pow_le_pow_right (by decide) hbits)

theorem carryI64_free {base : QEntity} {vel : Fin 3 → ℤ} {dt : ℕ} (k : Fin 3)
    (hon : base.on = none) (hbase : VelInRange none (base.vel k)) (hvel : VelInRange none (vel k))
    (hdt : dt ≤ 255) :
    carryI64 base vel dt k = some (carry base vel dt k) ∧ |(carry base vel dt k).1| ≤ 2 ^ 56
      ∧ 0 ≤ (carry base vel dt k).2 ∧ (carry base vel dt k).2 ≤ 2 ^ 56 := by
  simp only [VelInRange, velBits] at hbase hvel
  have hboth : |base.vel k + vel k| ≤ 2 ^ 15 := abs_le.mpr ⟨by omega, by omega⟩
  have hsum : |base.vel k + vel k - maxCode velBits| ≤ 2 ^ 15 := by
    rw [show (maxCode velBits : ℤ) = 16383 from rfl]
    exact abs_le.mpr ⟨by omega, by omega⟩
  have hdtAbs : |(dt : ℤ)| ≤ 255 := abs_le.mpr ⟨by omega, by omega⟩
  have ha := abs_mul_le hsum (show |(velMax : ℤ)| ≤ 2048 by decide)
  have hb := abs_mul_le ha hdtAbs
  have hnum := abs_mul_le hb (show |(maxCode posBits : ℤ)| ≤ 2 ^ 21 by decide)
  have hc : |(maxCode velBits * hz : ℤ)| ≤ 2 ^ 56 := by decide
  have hd : |(maxCode velBits * hz * 2 : ℤ)| ≤ 2 ^ 56 := by decide
  have hden : |(maxCode velBits * hz * 2 * sectorHalfExtent : ℤ)| ≤ 2 ^ 56 := by decide
  have hcarry : carry base vel dt k
      = ((base.vel k + vel k - maxCode velBits) * velMax * dt * maxCode posBits,
        maxCode velBits * hz * 2 * sectorHalfExtent) := by
    simp only [carry, hon]
  have hdenPos : (0 : ℤ) ≤ maxCode velBits * hz * 2 * sectorHalfExtent := by decide
  have hdenLe : (maxCode velBits * hz * 2 * sectorHalfExtent : ℤ) ≤ 2 ^ 56 := by decide
  rw [hcarry]
  refine ⟨?_, hnum.trans (by norm_num), hdenPos, hdenLe⟩
  simp only [carryI64, hon]
  rw [i64_bind hboth (by norm_num), i64_bind hsum (by norm_num), i64_bind ha (by norm_num),
    i64_bind hb (by norm_num), i64_bind hnum (by norm_num), i64_bind hc (by norm_num),
    i64_bind hd (by norm_num), i64_bind hden (by norm_num)]
  rfl

theorem carryI64_rider {base : QEntity} {vel : Fin 3 → ℤ} {dt : ℕ} {on : RiderOn} (k : Fin 3)
    (hon : base.on = some on) (hbase : VelInRange (some on) (base.vel k))
    (hvel : VelInRange (some on) (vel k)) (hdt : dt ≤ 255) :
    carryI64 base vel dt k = some (carry base vel dt k) ∧ |(carry base vel dt k).1| ≤ 2 ^ 56
      ∧ 0 ≤ (carry base vel dt k).2 ∧ (carry base vel dt k).2 ≤ 2 ^ 56 := by
  simp only [VelInRange, riderVelBits] at hbase hvel
  have hsum : |base.vel k + vel k| ≤ 2 ^ 10 := abs_le.mpr ⟨by omega, by omega⟩
  have hdtAbs : |(dt : ℤ)| ≤ 255 := abs_le.mpr ⟨by omega, by omega⟩
  have hgrid : |(maxCode (posBitsOf base.on) : ℤ)| ≤ 2 ^ 21 := by
    rw [abs_of_nonneg (Int.natCast_nonneg _)]
    exact_mod_cast maxCode_posBits_le base.on
  have ha := abs_mul_le hsum (show |(riderVelMax : ℤ)| ≤ 32 by decide)
  have hb := abs_mul_le ha hdtAbs
  have hnum := abs_mul_le hb hgrid
  have hc : |(maxCode (riderVelBits - 1) * hz : ℤ)| ≤ 2 ^ 56 := by decide
  have hd : |(maxCode (riderVelBits - 1) * hz * 2 : ℤ)| ≤ 2 ^ 56 := by decide
  have he : |(maxCode (riderVelBits - 1) * hz * 2 * 2 : ℤ)| ≤ 2 ^ 56 := by decide
  have hmax : (on.body.localMax : ℤ) ≤ 16384 := by exact_mod_cast on.body.localMax_le
  have hdenPos : 0 ≤ (maxCode (riderVelBits - 1) * hz * 2 * 2 * on.body.localMax : ℤ) := by
    rw [show (maxCode (riderVelBits - 1) * hz * 2 * 2 : ℤ) = 61320 by decide]
    omega
  have hdenLe : (maxCode (riderVelBits - 1) * hz * 2 * 2 * on.body.localMax : ℤ) ≤ 2 ^ 56 := by
    rw [show (maxCode (riderVelBits - 1) * hz * 2 * 2 : ℤ) = 61320 by decide]
    omega
  have hden : |(maxCode (riderVelBits - 1) * hz * 2 * 2 * on.body.localMax : ℤ)| ≤ 2 ^ 56 := by
    rwa [abs_of_nonneg hdenPos]
  have hcarry : carry base vel dt k
      = ((base.vel k + vel k) * riderVelMax * dt * maxCode (posBitsOf base.on),
        maxCode (riderVelBits - 1) * hz * 2 * 2 * on.body.localMax) := by
    simp only [carry]
    rw [hon]
  rw [hcarry]
  refine ⟨?_, hnum.trans (by norm_num), hdenPos, hdenLe⟩
  have hfirst : carryI64 base vel dt k = (do
      let sum ← i64 (base.vel k + vel k)
      let a ← i64 (sum * riderVelMax)
      let b ← i64 (a * dt)
      let num ← i64 (b * maxCode (posBitsOf base.on))
      let c ← i64 (maxCode (riderVelBits - 1) * hz)
      let d ← i64 (c * 2)
      let e ← i64 (d * 2)
      let den ← i64 (e * on.body.localMax)
      return (num, den)) := by
    simp only [carryI64]
    rw [hon]
  rw [hfirst, i64_bind hsum (by norm_num), i64_bind ha (by norm_num), i64_bind hb (by norm_num),
    i64_bind hnum (by norm_num), i64_bind hc (by norm_num), i64_bind hd (by norm_num),
    i64_bind he (by norm_num), i64_bind hden (by norm_num)]
  rfl

/-- Carrying a position between two records of a suit never leaves an `i64`. -/
theorem carriedI64_eq {base : QEntity} {vel : Fin 3 → ℤ} {dt : ℕ} (k : Fin 3)
    (hb : base.InRange) (hvel : VelInRange base.on (vel k)) (hdt : dt ≤ 255) :
    carriedI64 base vel dt k = some (carried base vel dt k) := by
  have hcarry : carryI64 base vel dt k = some (carry base vel dt k)
      ∧ |(carry base vel dt k).1| ≤ 2 ^ 56 ∧ 0 ≤ (carry base vel dt k).2
      ∧ (carry base vel dt k).2 ≤ 2 ^ 56 := by
    have hbase := hb.vel k
    cases hon : base.on with
    | none =>
      rw [hon] at hbase hvel
      exact carryI64_free k hon hbase hvel hdt
    | some on =>
      rw [hon] at hbase hvel
      exact carryI64_rider k hon hbase hvel hdt
  obtain ⟨hstep, hnum, hpos, hden⟩ := hcarry
  obtain ⟨hround, hmoved⟩ := divRoundI64_eq hnum hpos hden (by norm_num)
  have hgrid : base.pos k ≤ 2 ^ 21 :=
     (hb.pos k).trans (maxCode_posBits_le base.on)
  have hsum : |(base.pos k : ℤ) + divRound (carry base vel dt k).1 (carry base vel dt k).2|
      ≤ 2 ^ 58 := by
    have := abs_le.mp hmoved
    exact abs_le.mpr ⟨by omega, by omega⟩
  simp only [carriedI64, carried, hstep, hround, i64_of_abs hsum (by norm_num), Option.bind_eq_bind,
    Option.bind_some]
  rfl

/-! ## The codec -/

/-- A writer with room for `n` bits puts some bits, `n` of them, and the reader makes `a` of
exactly those. -/
def RoundTrips {α : Type} (write : BitWriter → BitWriter) (rd : Read α) (n : ℕ) (a : α) : Prop :=
  ∃ bs, bs.length = n ∧ (∀ w, w.Fits n → write w = w.append bs) ∧ Reads rd bs a

/-- Every record in range goes over whole, and against every baseline that can carry it at every
distance, exactly and in the bits its size says; and carrying its position stays in an `i64`. -/
theorem suit_codec (cur base : QEntity) (back : ℕ) (hc : cur.InRange) (hb : base.InRange)
    (hsuit : cur.sameSuit base = true) (hlow : 1 ≤ back) (hhigh : back ≤ 255) :
    (∃ d, Delta.plan cur base back = some d
      ∧ RoundTrips d.write (Delta.readRecord base) (d.bits - (slotBits + 1)) cur)
    ∧ RoundTrips cur.writeAbsolute (QEntity.readAbsolute cur.slot)
      (cur.absoluteBits - (slotBits + 1)) cur
    ∧ ∀ k, carriedI64 base cur.vel back k = some (carried base cur.vel back k) := by
  have hbody := (sameSuit_iff.mp hsuit).2.2.2.2.2
  refine ⟨?_, ?_, fun k => ?_⟩
  · obtain ⟨d, hd⟩ := Delta.plan_isSome hsuit hlow hhigh
    have hwidth : Field.widths d.fields = d.bits - (slotBits + 1) := by
      rw [← Delta.widths_fields d]
      omega
    refine ⟨d, hd, Field.all d.fields, ?_, fun w hw => ?_, Delta.reads_fields hc hd⟩
    · rw [Field.length_all, hwidth]
    · exact Delta.write_eq (hwidth ▸ hw)
  · have hwidth : Field.widths (cur.headFields ++ cur.bodyFields)
        = cur.absoluteBits - (slotBits + 1) := by
      rw [← QEntity.widths_absolute cur]
      omega
    refine ⟨Field.all (cur.headFields ++ cur.bodyFields), ?_, fun w hw => ?_,
      QEntity.reads_absolute hc⟩
    · rw [Field.length_all, hwidth]
    · exact QEntity.writeAbsolute_eq (hwidth ▸ hw)
  · have hvel := hc.vel k
    refine carriedI64_eq k hb ?_ hhigh
    cases hon : base.on with
    | none =>
      rw [hon, Option.map_none, Option.map_eq_none_iff] at hbody
      rwa [hbody] at hvel
    | some on =>
      rw [hon, Option.map_some, Option.map_eq_some_iff] at hbody
      obtain ⟨on', hon', -⟩ := hbody
      rwa [hon'] at hvel

/-- A suit in a rock's grip at `pos`, moving at `vel`. -/
def rider (pos : Fin 3 → ℕ) (vel : Fin 3 → ℤ) (flags : ℕ) : QEntity where
  slot := 5
  generation := 1
  frame := .corvus
  faction := .colonies
  pilot := .agent
  on := some ⟨.rock 7, flags = 0⟩
  pos
  vel
  rotLargest := 3
  rot := ![511, 0, 1023]
  aim := ![0, 256]
  flags
  parts := fun _ => 7

theorem rider_inRange {pos : Fin 3 → ℕ} {vel : Fin 3 → ℤ} {flags : ℕ} (hp : ∀ k, pos k < 2 ^ 15)
    (hv : ∀ k, -2 ^ 9 ≤ vel k ∧ vel k < 2 ^ 9) (hf : flags < 2 ^ 16) :
    (rider pos vel flags).InRange := by
  constructor
  · exact show 5 < 2 ^ slotBits by decide
  · exact show 1 < 4 by decide
  · intro on hon
    rw [← Option.some.inj hon]
    exact show 7 < 2 ^ rockBits by decide
  · exact fun k => Nat.le_sub_one_of_lt (hp k)
  · exact hv
  · exact show 3 < 4 by decide
  · exact show ∀ k, (![511, 0, 1023] : Fin 3 → ℕ) k < 2 ^ entityRotBits by decide
  · exact show ∀ k, (![0, 256] : Fin 2 → ℕ) k < 2 ^ entityAimBits by decide
  · exact hf
  · exact fun _ => le_rfl

theorem suit_codec_rider :
    (∃ d, Delta.plan (rider ![9000, 16384, 77] ![-512, 3, 40] 0)
        (rider ![9100, 16383, 32767] ![-500, 0, 511] 9) 255 = some d
      ∧ RoundTrips d.write (Delta.readRecord (rider ![9100, 16383, 32767] ![-500, 0, 511] 9))
        (d.bits - (slotBits + 1)) (rider ![9000, 16384, 77] ![-512, 3, 40] 0))
    ∧ RoundTrips (rider ![9000, 16384, 77] ![-512, 3, 40] 0).writeAbsolute
      (QEntity.readAbsolute 5) ((rider ![9000, 16384, 77] ![-512, 3, 40] 0).absoluteBits
        - (slotBits + 1)) (rider ![9000, 16384, 77] ![-512, 3, 40] 0)
    ∧ ∀ k, carriedI64 (rider ![9100, 16383, 32767] ![-500, 0, 511] 9) ![-512, 3, 40] 255 k
      = some (carried (rider ![9100, 16383, 32767] ![-500, 0, 511] 9) ![-512, 3, 40] 255 k) :=
  suit_codec _ _ 255 (rider_inRange (by decide) (by decide) (by decide))
    (rider_inRange (by decide) (by decide) (by decide)) rfl (by decide) (by decide)

end BeforeColony
