import BeforeColony.Proto.Delta
import BeforeColony.Proto.Events

/-!
# A suit's record in a snapshot

A record starts with the suit's slot and a bit: whole, or a delta against the record the reader
took of that suit some ticks back. Whatever the reader holds, a delta it reads is undone against
the record the writer planned it for, or not at all. A datagram is what a snapshot carries that
acks and deltas are about.
-/

set_option autoImplicit false

namespace BeforeColony

open Lib

/-- The suit's record on the wire, whole or as `delta`. -/
def recordFields (q : QEntity) (delta : Option Delta) : List Field :=
  ⟨q.slot, slotBits⟩ :: .flag delta.isSome :: delta.elim (q.headFields ++ q.bodyFields) Delta.fields

def recordBits (q : QEntity) (delta : Option Delta) : ℕ := delta.elim q.absoluteBits Delta.bits

def baselineFor (baseline : ℕ → ℕ → Option QEntity) (slot tick back : ℕ) : Option QEntity :=
  if 1 ≤ back ∧ back ≤ 255 then
    (baseline slot (ticksBack tick back)).filter fun b => b.slot = slot
  else none

/-- Reads a suit's record in the snapshot of `tick`, a delta against what `baseline` holds. -/
def readEntity (baseline : ℕ → ℕ → Option QEntity) (tick : ℕ) : Read QEntity := do
  let slot ← readBits slotBits
  if ← readBool then
    let back ← Delta.readBack
    match baselineFor baseline slot tick back with
    | none => throw .noBaseline
    | some base => Delta.read base back
  else QEntity.readAbsolute slot

variable {q base : QEntity} {d : Delta} {back tick : ℕ} {baseline : ℕ → ℕ → Option QEntity}

theorem reads_whole (hq : q.InRange) :
    Reads (readEntity baseline tick) (Field.all (recordFields q none)) q := by
  simp only [recordFields, Field.all_cons, Option.isSome_none, Option.elim_none]
  apply (Reads.field hq.slot).bind
  apply (Reads.bool false).bind
  exact QEntity.reads_absolute hq

theorem all_fields (d : Delta) :
    Field.all d.fields = Field.bits ⟨d.back, backBits⟩ ++ Field.all d.fields.tail := rfl

theorem plan_back (h : Delta.plan q base back = some d) : d.back = back := by
  unfold Delta.plan at h
  split at h
  · cases h
  · rw [← Option.some.inj h]

theorem back_lt (h : Delta.plan q base back = some d) : back < 2 ^ backBits := by
  have hle := (Delta.plan_eq h).2.1
  rw [show 2 ^ backBits = 256 from rfl]
  omega

theorem reads_back (h : Delta.plan q base back = some d) :
    Reads Delta.readBack (Field.bits ⟨d.back, backBits⟩) back := by
  rw [plan_back h]
  exact Reads.field (back_lt h)

/-- What follows a delta's age, read against its baseline. -/
theorem reads_rest (hq : q.InRange) (h : Delta.plan q base back = some d) :
    Reads (Delta.read base back) (Field.all d.fields.tail) q := by
  intro rest
  have hrecord := Delta.reads_fields hq h rest
  rw [all_fields, List.append_assoc, Delta.readRecord, (reads_back h).step] at hrecord
  exact hrecord

theorem reads_delta (hq : q.InRange) (hplan : Delta.plan q base back = some d)
    (hbase : baselineFor baseline q.slot tick back = some base) :
    Reads (readEntity baseline tick) (Field.all (recordFields q (some d))) q := by
  simp only [recordFields, Field.all_cons, Option.isSome_some, Option.elim_some]
  apply (Reads.field hq.slot).bind
  apply (Reads.bool true).bind
  rw [if_pos rfl, all_fields]
  apply (reads_back hplan).bind
  rw [hbase]
  exact reads_rest hq hplan

theorem readEntity_noBaseline (hslot : q.slot < 2 ^ slotBits)
    (hplan : Delta.plan q base back = some d)
    (hbase : baselineFor baseline q.slot tick back = none) (rest : List Bool) :
    (readEntity baseline tick ⟨Field.all (recordFields q (some d)) ++ rest, false⟩).1
      = .error .noBaseline := by
  simp only [recordFields, Field.all_cons, Option.isSome_some, Option.elim_some, List.append_assoc]
  rw [readEntity, (Reads.field hslot).step, (Reads.bool true).step, if_pos rfl, all_fields,
    List.append_assoc, (reads_back hplan).step, hbase]
  rfl

theorem widths_record (q : QEntity) (delta : Option Delta) :
    Field.widths (recordFields q delta) = recordBits q delta := by
  cases delta with
  | none =>
    rw [recordBits, Option.elim_none, ← QEntity.widths_absolute]
    simp only [recordFields, Field.widths_cons, Field.flag, Option.elim_none]
    omega
  | some d =>
    rw [recordBits, Option.elim_some, ← Delta.widths_fields]
    simp only [recordFields, Field.widths_cons, Field.flag, Option.elim_some]
    omega

/-- A snapshot datagram: its number's low 16 bits and its lists, each suit's record in bits. An
object is a chunk and what the client holds of it once it has the datagram, a rock is one with its
version. -/
structure Datagram where
  stream : ℕ
  seq : ℕ
  tick : ℕ
  more : Bool
  events : List Event
  rocks : List (ℕ × ℕ)
  suits : List (List Bool)
  objects : List (ℕ × Option ℕ)
  deriving DecidableEq

end BeforeColony
