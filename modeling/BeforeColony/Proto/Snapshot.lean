import BeforeColony.Proto.Foot
import BeforeColony.Proto.Objects
import BeforeColony.Proto.Own
import BeforeColony.Proto.Record

/-!
# Reading a snapshot

A snapshot is read section by section: the header, the pilot's own state, the Orrery, then lists,
each of its records preceded by a bit that says there is one. Asking for a later section skips what
comes before it. The reader goes on from where it got to, also after an error.
-/

set_option autoImplicit false

namespace BeforeColony

open Lib

def packetKindBits : ℕ := 4
def packetInput : ℕ := 1
def packetSnapshot : ℕ := 2

structure SnapshotHeader where
  tick : ℕ
  seq : ℕ
  stream : ℕ
  ackInputTick : ℕ
  inputHealth : ℤ
  timeEchoMs : ℕ
  echoHoldMs : ℕ
  tidiPct : ℕ
  flags : ℕ
  deriving DecidableEq

namespace SnapshotHeader

def read : Read SnapshotHeader := whole do
  let kind ← readBits packetKindBits
  if kind ≠ packetSnapshot then throw .wrongKind
  else
    let tick ← readBits 32
    let seq ← readBits 16
    let stream ← readBits 8
    let ackInputTick ← readBits 32
    let inputHealth ← readI32 8
    let timeEchoMs ← readBits 16
    let echoHoldMs ← readBits 8
    let tidiPct ← readBits 8
    let flags ← readBits 8
    return {
      tick, seq, stream, ackInputTick, inputHealth, timeEchoMs, echoHoldMs, tidiPct, flags }

/-- Whether it carries the walker's sections. -/
def onFoot (h : SnapshotHeader) : Bool := h.flags.testBit 2

end SnapshotHeader

inductive SnapshotReader.Stage where
  | own | orrery | events | rocks | missiles | entities | objects | footOwn | people | done
  deriving DecidableEq, Repr

def SnapshotReader.Stage.index : SnapshotReader.Stage → ℕ
  | own => 0 | orrery => 1 | events => 2 | rocks => 3 | missiles => 4 | entities => 5
  | objects => 6 | footOwn => 7 | people => 8 | done => 9

structure SnapshotReader where
  r : BitReader
  header : SnapshotHeader
  stage : SnapshotReader.Stage

/-- Decoding, which leaves the snapshot's reader where it got to, also when it fails. -/
abbrev Decode := ExceptT DecodeError (StateM SnapshotReader)

def BitReader.ofBytes (bytes : List UInt8) : BitReader := ⟨Bytes.unpack bytes, false⟩

def readSuit (baseline : ℕ → ℕ → Option QEntity) (tick : ℕ) : Read QEntity := whole do
  let slot ← readBits slotBits
  if ← readBool then
    let back ← Delta.readBack
    check
    match baselineFor baseline slot tick back with
    | none => throw .noBaseline
    | some base => Delta.read base back
  else QEntity.readAbsolute slot

/-- The record a delta of person `id` from `back` ticks before `tick` stands on, if the reader has
it. -/
def personFor (baseline : ℕ → ℕ → Option QPerson) (id tick back : ℕ) : Option QPerson :=
  if 1 ≤ back ∧ back ≤ 255 then
    (baseline id (ticksBack tick back)).filter fun b => b.id = id
  else none

/-- Reads a person's record of the snapshot of `tick`, whole or as a delta. -/
def readPerson (walked : ℕ → ℕ → ℕ → ℤ × ℤ) (baseline : ℕ → ℕ → Option QPerson) (tick : ℕ) :
    Read QPerson := whole do
  let id ← readBits slotBits
  if ← readBool then
    let back ← PersonDelta.readBack
    check
    match personFor baseline id tick back with
    | none => throw .noBaseline
    | some base => PersonDelta.read walked base back
  else QPerson.readAbsolute id

namespace SnapshotReader

def new (bytes : List UInt8) : Except DecodeError SnapshotReader :=
  match SnapshotHeader.read (.ofBytes bytes) with
  | (.ok header, r) => .ok ⟨r, header, .own⟩
  | (.error e, _) => .error e

def onBits {α : Type} (rd : Read α) : Decode α := fun s =>
  let o := rd s.r
  (o.1, { s with r := o.2 })

def setStage (stage : Stage) : Decode Unit := fun s => (.ok (), { s with stage })

/-- Reads the bit before a record: false, moving on to `after`, at the list's end. -/
def more (after : Stage) : Decode Bool := do
  if ← onBits readBool then return true
  else
    setStage after
    onBits check
    return false

/-- Reads what a bit says is there, moving on to `after`. -/
def present {α : Type} (after : Stage) (rd : Read α) : Decode (Option α) := do
  setStage after
  if ← onBits readBool then
    let a ← onBits (whole rd)
    return some a
  else
    onBits check
    return none

def own : Decode (Option OwnState) := do
  if (← get).stage ≠ .own then throw .invalid
  else present .orrery OwnState.read

def orrery : Decode (Option OrreryInfo) := do
  if (← get).stage.index < Stage.orrery.index then
    let _ ← own
  if (← get).stage ≠ .orrery then throw .invalid
  else present .events OrreryInfo.read

/-! What each list's reader does once whatever comes before the list is read. -/

def listed {α : Type} (here after : Stage) (rd : SnapshotHeader → Read α) : Decode (Option α) := do
  if (← get).stage ≠ here then return none
  else if ← more after then
    let header := (← get).header
    let a ← onBits (rd header)
    return some a
  else return none

def eventHere : Decode (Option Event) := listed .events .rocks fun h => Event.read h.tick

def rockHere : Decode (Option RockState) := listed .rocks .missiles fun _ => whole RockState.read

def missileHere : Decode (Option MissileState) :=
  listed .missiles .entities fun _ => whole MissileState.read

def entityHere (baseline : ℕ → ℕ → Option QEntity) : Decode (Option QEntity) :=
  listed .entities .objects fun h => readSuit baseline h.tick

def objectHere : Decode (Option ObjectState) := do
  let after : Stage := if (← get).header.onFoot then .footOwn else .done
  listed .objects after fun h => whole (ObjectState.read h.tick)

def footOwnHere : Decode (Option FootOwn) := do
  if (← get).stage ≠ .footOwn then return none
  else present .people FootOwn.read

def personHere (walked : ℕ → ℕ → ℕ → ℤ × ℤ) (baseline : ℕ → ℕ → Option QPerson) :
    Decode (Option QPerson) :=
  listed .people .done fun h => readPerson walked baseline h.tick

/-! Skipping. -/

variable (walked : ℕ → ℕ → ℕ → ℤ × ℤ)

def dropNext : Decode Unit := do
  match (← get).stage with
  | .own | .orrery => let _ ← orrery
  | .events => let _ ← eventHere
  | .rocks => let _ ← rockHere
  | .missiles => let _ ← missileHere
  | .entities => let _ ← entityHere fun _ _ => none
  | .objects => let _ ← objectHere
  | .footOwn => let _ ← footOwnHere
  | .people | .done => let _ ← personHere walked fun _ _ => none

def skipTurn (stage : Stage) (o : Except DecodeError Unit × SnapshotReader) :
    Except DecodeError Unit × SnapshotReader :=
  match o with
  | (.ok _, s) => if s.stage.index < stage.index then dropNext walked s else (.ok (), s)
  | (.error e, s) => (.error e, s)

/-- Bits and stages left: more turns than skipping takes. -/
def left (s : SnapshotReader) : ℕ := s.r.rest.length + (Stage.done.index - s.stage.index)

/-- Reads, and drops, whatever comes before `stage`. -/
def skipTo (stage : Stage) : Decode Unit := fun s => (skipTurn walked stage)^[s.left] (.ok (), s)

def nextEvent : Decode (Option Event) := do
  skipTo walked .events
  eventHere

def nextRock : Decode (Option RockState) := do
  skipTo walked .rocks
  rockHere

def nextMissile : Decode (Option MissileState) := do
  skipTo walked .missiles
  missileHere

def nextEntity (baseline : ℕ → ℕ → Option QEntity) : Decode (Option QEntity) := do
  skipTo walked .entities
  entityHere baseline

def nextObject : Decode (Option ObjectState) := do
  skipTo walked .objects
  objectHere

def footOwn : Decode (Option FootOwn) := do
  skipTo walked .footOwn
  footOwnHere

def nextPerson (baseline : ℕ → ℕ → Option QPerson) : Decode (Option QPerson) := do
  skipTo walked .people
  personHere walked baseline

end SnapshotReader

/-! ## Whatever is asked of a reader -/

inductive Call where
  | own
  | orrery
  | event
  | rock
  | missile
  | entity (baseline : ℕ → ℕ → Option QEntity)
  | object
  | footOwn
  | person (baseline : ℕ → ℕ → Option QPerson)

inductive Record where
  | own (o : OwnState)
  | orrery (z : OrreryInfo)
  | event (e : Event)
  | rock (s : RockState)
  | missile (m : MissileState)
  | entity (q : QEntity)
  | object (o : ObjectState)
  | footOwn (f : FootOwn)
  | person (q : QPerson)
  deriving DecidableEq

namespace SnapshotReader

variable (walked : ℕ → ℕ → ℕ → ℤ × ℤ)

def call : Call → Decode (Option Record)
  | .own => return (← own).map .own
  | .orrery => return (← orrery).map .orrery
  | .event => return (← nextEvent walked).map .event
  | .rock => return (← nextRock walked).map .rock
  | .missile => return (← nextMissile walked).map .missile
  | .entity baseline => return (← nextEntity walked baseline).map .entity
  | .object => return (← nextObject walked).map .object
  | .footOwn => return (← footOwn walked).map .footOwn
  | .person baseline => return (← nextPerson walked baseline).map .person

def given : Except DecodeError (Option Record) → Option Record
  | .ok o => o
  | .error _ => none

def calls : List Call → SnapshotReader →
    List (Except DecodeError (Option Record)) × SnapshotReader
  | [], s => ([], s)
  | c :: rest, s =>
    let o := call walked c s
    let later := calls rest o.2
    (o.1 :: later.1, later.2)

end SnapshotReader

end BeforeColony
