import Mathlib.Logic.Function.Basic
import Mathlib.Tactic.Tauto
import BeforeColony.Lib.Run

/-!
# Seats

Sessions and the two sectors they fly in, the space around the colony and its inside: leases of the
sectors' slots, the queue of what sessions ask (`Control`), the report rings, and the pilots' records,
of which each session has its own copy. What is asked for different slots never meets, so each slot
has its own queue here, and a lease its session is done with goes back in a step of its own.
`wait_slot` may time out at any look, the store may fail, and a pilot's next session may come in
whatever the last is still at. A hangar is where its suit is.
-/

set_option autoImplicit false

namespace BeforeColony.Seats

/-- The sector around the colony, or its inside. -/
inductive Side
  | space
  | colony
  deriving DecidableEq

structure SlotId where
  side : Side
  n : ℕ
  deriving DecidableEq

/-- A pilot's session: the how-manieth to arrive, of everyone's. -/
structure Who where
  pilot : ℕ
  visit : ℕ
  deriving DecidableEq

/-! ## What the sectors keep -/

inductive Shape
  | awake
  | asleep
  | wreck
  deriving DecidableEq

/-- A suit in a sector: whose, whether it left their bay (a trainer is the Charter Board's). -/
structure Craft where
  pilot : ℕ
  own : Bool
  side : Side
  shape : Shape
  deriving DecidableEq

inductive SlotState
  | free
  | active
  | refused
  deriving DecidableEq

inductive Outcome
  | fresh
  | woke
  | asleep
  | released
  | docked
  | lost
  deriving DecidableEq

structure SlotStatus where
  state : SlotState
  suit : Option ℕ
  /-- Bumped every time the slot is joined. -/
  epoch : ℕ
  outcome : Outcome
  deriving DecidableEq

def SlotStatus.new : SlotStatus := ⟨.free, none, 0, .fresh⟩

def SlotStatus.publish (st : SlotStatus) (state : SlotState) (suit : Option ℕ)
    (outcome : Outcome) : SlotStatus :=
  ⟨state, suit, if state = .free then st.epoch else st.epoch + 1, outcome⟩

inductive Loss
  | destroyed
  | ejected
  | blown
  deriving DecidableEq

inductive Report
  | home
  | dockRefused
  | towed
  | aceDown
  | course
  | drill
  | lost (how : Loss)
  | parked
  deriving DecidableEq

/-- What became of a suit, or of its wreck. -/
def Report.fate : Report → Bool
  | .home | .towed | .lost _ => true
  | _ => false

/-- A report: the how-manieth, the ring it goes on, and whose suit or wreck it is about. -/
structure Note where
  id : ℕ
  slot : SlotId
  who : Who
  report : Report
  deriving DecidableEq

inductive Verb
  | join (comeback : Option ℕ) (launch : Bool)
  | board
  | watch
  | leave (sleep : Bool)
  | dock
  | eject (destruct : Bool)
  | claim
  | tow
  deriving DecidableEq

def Verb.asks : Verb → Bool
  | .join _ _ | .board | .watch => true
  | _ => false

structure Control where
  who : Who
  verb : Verb
  deriving DecidableEq

/-- The client seated in a slot: its suit, and whether the session was told of its loss, and how it
was lost. -/
structure Client where
  suit : ℕ
  who : Who
  lost : Bool
  loss : Loss
  deriving DecidableEq

/-- A slot, and who holds its lease: `telling` is what the sector is about to push on its ring, once
it has said that the slot is free. -/
structure Berth where
  holder : Option Who
  queue : List Control
  client : Option Client
  watched : Bool
  status : SlotStatus
  telling : Option Note
  ring : List Note
  claim : Option Who

def Berth.new : Berth := ⟨none, [], none, false, .new, none, [], none⟩

def REPORTS : ℕ := 8

/-! ## What the sessions keep -/

inductive Bay
  | docked
  | out
  | empty
  deriving DecidableEq

namespace Bay

def launch : Bay → Bay
  | docked => out
  | bay => bay

def recover : Bay → Bay
  | out => docked
  | bay => bay

def cameHome : Bay → Bay := fun _ => docked

def lost : Bay → Bay := fun _ => empty

end Bay

/-- What the store keeps of a pilot: where the suit of their hangar is, and what sleeps out there. -/
structure HangarRecord where
  bay : Bay
  sleeper : Option ℕ
  deriving DecidableEq

/-- A pilot with no record yet has a starter's suit in their bay. -/
def HangarRecord.new : HangarRecord := ⟨.docked, none⟩

/-- What a session waits for a seat for, in its own slot or in one inside the colony. -/
inductive Errand
  | enter
  | launch
  | launchInside (n : ℕ)
  | board (n : ℕ)
  deriving DecidableEq

def Errand.slot? : Errand → Option SlotId
  | .launchInside n | .board n => some ⟨.colony, n⟩
  | _ => none

inductive Stage
  | arrived
  | seating (errand : Errand) (epoch : ℕ)
  | play
  | leavingColony (n : ℕ)
  | leavingSpace
  | tugs
  deriving DecidableEq

def Stage.slot? : Stage → Option SlotId
  | .seating errand _ => errand.slot?
  | .leavingColony n => some ⟨.colony, n⟩
  | _ => none

structure Session where
  /-- The slot whose lease it keeps until it's over. -/
  slot : ℕ
  /-- Its own copy, the hangar in it. -/
  record : HangarRecord
  inside : Option ℕ
  /-- The slot it watches the colony from, and whether it has asked to leave it. -/
  spectating : Option (ℕ × Bool)
  suit : Option ℕ
  trainer : Bool
  lost : Bool
  towing : Bool
  stage : Stage
  deriving DecidableEq

namespace Session

def new (slot : ℕ) (record : HangarRecord) : Session :=
  ⟨slot, record, none, none, none, false, false, false, .arrived⟩

def main (a : Session) : SlotId := ⟨.space, a.slot⟩

def flying (a : Session) : SlotId := (a.inside.map (⟨.colony, ·⟩)).getD a.main

def seat (a : Session) (errand : Errand) : SlotId := errand.slot?.getD a.main

def rebay (a : Session) (f : Bay → Bay) : Session :=
  { a with record := { a.record with bay := f a.record.bay } }

/-- What became of a suit that its pilot did not wake in: lost, or towed in. -/
def settleBay (a : Session) (destroyed : Bool) : Session :=
  if a.record.bay = .out then a.rebay (if destroyed then .lost else .recover) else a

/-- A suit that doesn't sleep out there is in its bay if it never left, or gone. -/
def settleLeft (survival : Bool) (a : Session) (slept home : Bool) : Session :=
  if slept ∨ survival = false ∨ a.record.bay ≠ .out then a
  else a.rebay (if home then .cameHome else .lost)

/-- The slots whose leases the session means to keep for now. -/
def slots (a : Session) : List SlotId :=
  a.main :: a.inside.toList.map (⟨.colony, ·⟩) ++ a.spectating.toList.map (⟨.colony, ·.1⟩) ++
    a.stage.slot?.toList

theorem mem_slots {a : Session} {sl : SlotId} :
    sl ∈ a.slots ↔ sl = a.main ∨ (∃ n, a.inside = some n ∧ sl = ⟨.colony, n⟩) ∨
      (∃ k, a.spectating = some k ∧ sl = ⟨.colony, k.1⟩) ∨ a.stage.slot? = some sl := by
  simp only [slots, List.cons_append, List.mem_cons, List.mem_append, List.mem_map, Option.mem_toList, or_assoc,
    @eq_comm _ sl]

end Session

end BeforeColony.Seats

namespace BeforeColony

open Seats

/-- Everything: the slots, the suits in the sectors, the sessions, the pilots' records, and one that
was read to be written back (`apply_park_news`). The last lists are what happened: each report the
sectors made, what each session read, and what was lost on the way. -/
structure Seats where
  berths : SlotId → Berth
  suits : ℕ → Option Craft
  nextSuit : ℕ
  sessions : Who → Option Session
  visits : ℕ
  records : ℕ → HangarRecord
  news : Option (ℕ × HangarRecord)
  notes : ℕ
  sent : List Note
  read : List (Who × Note)
  thrown : List Note
  dropped : List Note

namespace Seats

def start (bays : ℕ → Bay) : Seats where
  berths _ := .new
  suits _ := none
  nextSuit := 0
  sessions _ := none
  visits := 0
  records pilot := ⟨bays pilot, none⟩
  news := none
  notes := 0
  sent := []
  read := []
  thrown := []
  dropped := []

/-- What chance decides: whether what's asked comes off, whether the suit is in its bay's cradle
still, and whether what's left of it lies in a hide spot or makes a hulk. -/
structure Luck where
  ok : Bool
  inBay : Bool
  found : Bool
  deriving DecidableEq

def setBerth (s : Seats) (sl : SlotId) (b : Berth) : Seats :=
  { s with berths := Function.update s.berths sl b }

def setSuit (s : Seats) (suit : ℕ) (craft : Option Craft) : Seats :=
  { s with suits := Function.update s.suits suit craft }

def setSession (s : Seats) (who : Who) (a : Option Session) : Seats :=
  { s with sessions := Function.update s.sessions who a }

def setRecord (s : Seats) (pilot : ℕ) (r : HangarRecord) : Seats :=
  { s with records := Function.update s.records pilot r }

def shape? (s : Seats) (suit : ℕ) : Option Shape := (s.suits suit).map (·.shape)

/-! ## The sectors -/

/-- A report is made: its number, and that it was. -/
def make (s : Seats) (sl : SlotId) (who : Who) (report : Report) : Note × Seats :=
  let note : Note := ⟨s.notes, sl, who, report⟩
  (note, { s with notes := s.notes + 1, sent := note :: s.sent })

/-- A full ring is counted, and the report lost. -/
def pushNote (s : Seats) (sl : SlotId) (note : Note) : Seats :=
  let b := s.berths sl
  if b.ring.length < REPORTS then s.setBerth sl { b with ring := b.ring ++ [note] }
  else { s with dropped := note :: s.dropped }

def report (s : Seats) (sl : SlotId) (who : Who) (report : Report) : Seats :=
  (s.make sl who report).2.pushNote sl (s.make sl who report).1

/-- The tugs take the slot's claim home now, if it has one. -/
def tow (s : Seats) (sl : SlotId) : Seats :=
  match (s.berths sl).claim with
  | none => s
  | some who => (s.setBerth sl { s.berths sl with claim := none }).report sl who .towed

def publish (s : Seats) (sl : SlotId) (state : SlotState) (suit : Option ℕ)
    (outcome : Outcome) : Seats :=
  s.setBerth sl { s.berths sl with status := (s.berths sl).status.publish state suit outcome }

def unclient (s : Seats) (sl : SlotId) : Seats :=
  s.setBerth sl { s.berths sl with client := none }

def seat (s : Seats) (sl : SlotId) (suit : ℕ) (who : Who) (outcome : Outcome) : Seats :=
  (s.setBerth sl { s.berths sl with
    client := some ⟨suit, who, false, .destroyed⟩, watched := false }).publish sl .active (some suit)
      outcome

def refuse (s : Seats) (sl : SlotId) : Seats := s.publish sl .refused none .fresh

def spawn (s : Seats) (craft : Craft) : Seats :=
  { s.setSuit s.nextSuit (some craft) with nextSuit := s.nextSuit + 1 }

/-- The suit of whoever is seated in the slot already leaves. -/
def replace (s : Seats) (sl : SlotId) : Seats :=
  match (s.berths sl).client with
  | none => s
  | some c => s.setSuit c.suit none

def wake (s : Seats) (suit : ℕ) : Seats :=
  s.setSuit suit ((s.suits suit).map fun craft => { craft with shape := .awake })

def drainJoin (survival : Bool) (s : Seats) (sl : SlotId) (luck : Luck) (who : Who)
    (comeback : Option ℕ) (launch : Bool) : Seats :=
  let s := s.replace sl
  match comeback.filter fun suit => s.shape? suit = some .asleep with
  | some suit => (s.wake suit).seat sl suit who .woke
  | none =>
    if (launch || !survival) && luck.ok then
      (s.spawn ⟨who.pilot, launch, sl.side, .awake⟩).seat sl s.nextSuit who .fresh
    else s.refuse sl

def drainBoard (s : Seats) (sl : SlotId) (luck : Luck) (who : Who) : Seats :=
  let s := s.replace sl
  if luck.ok then (s.spawn ⟨who.pilot, false, sl.side, .awake⟩).seat sl s.nextSuit who .fresh
  else s.refuse sl

def drainWatch (s : Seats) (sl : SlotId) : Seats :=
  let b := s.berths sl
  if b.client = none ∧ b.watched = false then
    (s.setBerth sl { b with watched := true }).publish sl .active none .fresh
  else s

/-- How the suit of the client leaves the slot: put back in its bay, asleep, or gone. -/
def leaveSuit (survival : Bool) (s : Seats) (sl : SlotId) (luck : Luck) (sleep : Bool)
    (c : Client) : Seats × Option ℕ × Outcome :=
  if sl.side = .space ∧ luck.inBay then
    if s.shape? c.suit = some .awake then
      ((s.setSuit c.suit none).report sl c.who .home, none, .docked)
    else (s, none, .released)
  else if sleep ∧ s.shape? c.suit = some .awake then
    let s := s.setSuit c.suit ((s.suits c.suit).map fun craft => { craft with shape := .asleep })
    (if survival ∧ luck.found then s.report sl c.who .parked else s, some c.suit, .asleep)
  else (s.setSuit c.suit none, none, .released)

def drainLeave (survival : Bool) (s : Seats) (sl : SlotId) (luck : Luck) (sleep : Bool) : Seats :=
  let s := s.tow sl
  let s := s.setBerth sl { s.berths sl with watched := false }
  match (s.berths sl).client with
  | none => s.publish sl .free none .released
  | some c =>
    let left := s.leaveSuit survival sl luck sleep c
    (left.1.unclient sl).publish sl .free left.2.1 left.2.2

/-- The slot is free before the report is on its ring. -/
def drainDock (s : Seats) (sl : SlotId) (luck : Luck) (who : Who) : Seats :=
  match (s.berths sl).client.filter fun c => luck.ok ∧ s.shape? c.suit = some .awake with
  | some c =>
    let s := (((s.setSuit c.suit none).unclient sl).publish sl .free none .docked)
    let (note, s) := s.make sl c.who .home
    s.setBerth sl { s.berths sl with telling := some note }
  | none =>
    let (note, s) := s.make sl who .dockRefused
    s.setBerth sl { s.berths sl with telling := some note }

def drainEject (survival : Bool) (s : Seats) (sl : SlotId) (luck : Luck) (destruct : Bool) : Seats :=
  match (s.berths sl).client.filter fun c =>
      sl.side = .space ∧ luck.ok ∧ s.shape? c.suit = some .awake with
  | none => s
  | some c =>
    let s := s.setSuit c.suit ((s.suits c.suit).map fun craft => { craft with shape := .wreck })
    if destruct then s.setBerth sl { s.berths sl with client := some { c with loss := .blown } }
    else
      let s := s.setBerth sl { s.berths sl with client := some { c with loss := .ejected } }
      if survival ∧ luck.found then
        let s := s.tow sl
        s.setBerth sl { s.berths sl with claim := some c.who }
      else s

def drainClaim (survival : Bool) (s : Seats) (sl : SlotId) (who : Who) : Seats :=
  if survival then
    let s := s.tow sl
    s.setBerth sl { s.berths sl with claim := some who }
  else s

def drainControl (survival : Bool) (s : Seats) (sl : SlotId) (luck : Luck) : Seats :=
  let b := s.berths sl
  match b.telling, b.queue with
  | none, m :: queue =>
    let s := s.setBerth sl { b with queue := queue }
    match m.verb with
    | .join comeback launch => s.drainJoin survival sl luck m.who comeback launch
    | .board => s.drainBoard sl luck m.who
    | .watch => s.drainWatch sl
    | .leave sleep => s.drainLeave survival sl luck sleep
    | .dock => s.drainDock sl luck m.who
    | .eject destruct => s.drainEject survival sl luck destruct
    | .claim => s.drainClaim survival sl m.who
    | .tow => s.tow sl
  | _, _ => s

/-- What `Dock` is answered goes on the ring. -/
def tell (s : Seats) (sl : SlotId) : Seats :=
  match (s.berths sl).telling with
  | none => s
  | some note => (s.setBerth sl { s.berths sl with telling := none }).pushNote sl note

def destroy (s : Seats) (suit : ℕ) : Seats :=
  match s.suits suit with
  | none => s
  | some craft =>
    if craft.side = .space then s.setSuit suit (some { craft with shape := .wreck }) else s

def clearSleeper (s : Seats) (suit : ℕ) : Seats :=
  if s.shape? suit = some .asleep then s.setSuit suit none else s

def clearWreck (s : Seats) (sl : SlotId) : Seats :=
  match (s.berths sl).client with
  | none => s
  | some c => if c.lost ∧ s.shape? c.suit = some .wreck then s.setSuit c.suit none else s

def watchLosses (survival : Bool) (s : Seats) (sl : SlotId) : Seats :=
  match (s.berths sl).client with
  | none => s
  | some c =>
    if survival = false then s
    else if s.suits c.suit = none then (s.unclient sl).publish sl .free none .lost
    else if c.lost = false ∧ s.shape? c.suit = some .wreck then
      (s.setBerth sl { s.berths sl with client := some { c with lost := true } }).report sl c.who
        (.lost c.loss)
    else s

/-- A course flown, a drill cleared or an ace downed. -/
def reportFeat (s : Seats) (sl : SlotId) (feat : Report) : Seats :=
  match (s.berths sl).client with
  | none => s
  | some c => if feat = .course ∨ feat = .drill ∨ feat = .aceDown then s.report sl c.who feat else s

/-- Before anyone has come, a suit left in a hide spot is put back, and its record says so, if the
answer came in time and was stored. -/
def restore (signedIn : ℕ → Bool) (s : Seats) (pilot : ℕ) (named : Bool) : Seats :=
  let r := s.records pilot
  if s.visits = 0 ∧ signedIn pilot ∧ r.bay = .out ∧ r.sleeper = none then
    let back := s.spawn ⟨pilot, true, .space, .asleep⟩
    if named then back.setRecord pilot { r with sleeper := some s.nextSuit } else back
  else s

/-! ## The sessions -/

def push (s : Seats) (sl : SlotId) (m : Control) : Seats :=
  s.setBerth sl { s.berths sl with queue := (s.berths sl).queue ++ [m] }

/-- What a session reads of the ring, with what it leaves there. -/
def take (s : Seats) (sl : SlotId) (who : Who) (notes ring : List Note) : Seats :=
  { s.setBerth sl { s.berths sl with ring := ring } with read := notes.map (Prod.mk who) ++ s.read }

/-- What a session takes off the ring and doesn't look at. -/
def throw (s : Seats) (sl : SlotId) (notes ring : List Note) : Seats :=
  { s.setBerth sl { s.berths sl with ring := ring } with thrown := notes ++ s.thrown }

def lease (s : Seats) (sl : SlotId) (who : Who) : Seats :=
  s.setBerth sl { s.berths sl with holder := some who }

def IsFree (s : Seats) (sl : SlotId) : Prop := (s.berths sl).holder = none

instance (s : Seats) (sl : SlotId) : Decidable (s.IsFree sl) := inferInstanceAs (Decidable (_ = _))

variable (survival : Bool) (signedIn : ℕ → Bool)

/-- A pilot's session: of a record that can't be loaded it makes a new one, and a guest has none. -/
def arrive (s : Seats) (pilot n : ℕ) (loaded : Bool) : Seats :=
  if s.IsFree ⟨.space, n⟩ then
    let who : Who := ⟨pilot, s.visits⟩
    let record := if signedIn pilot ∧ loaded then s.records pilot else .new
    { (s.lease ⟨.space, n⟩ who).setSession who (some (.new n record)) with visits := s.visits + 1 }
  else s

def save (s : Seats) (who : Who) (a : Session) (stored : Bool) : Seats :=
  if signedIn who.pilot ∧ stored then s.setRecord who.pilot a.record else s

/-- The session saves its record for the last time. -/
def saveLast (s : Seats) (who : Who) (a : Session) (stored : Bool) : Seats :=
  (s.save signedIn who a stored).setSession who none

def loadNews (s : Seats) (pilot : ℕ) : Seats := { s with news := some (pilot, s.records pilot) }

/-- The record goes back as it was read, but for what is kept of the suit in its hide spot. -/
def saveNews (s : Seats) : Seats :=
  match s.news with
  | none => s
  | some (pilot, r) => { s.setRecord pilot r with news := none }

def ask (s : Seats) (who : Who) (a : Session) (errand : Errand) (verb : Verb) : Seats :=
  (s.push (a.seat errand) ⟨who, verb⟩).setSession who
    (some { a with stage := .seating errand (s.berths (a.seat errand)).status.epoch })

/-- In from the record, awake: no longer asleep out there. -/
def entered (s : Seats) (who : Who) (a : Session) (suit : Option ℕ) : Seats :=
  s.setSession who
    (some { a with stage := .play, suit := suit, record := { a.record with sleeper := none } })

def enter (s : Seats) (who : Who) (a : Session) (destroyed : Bool) : Seats :=
  if survival then
    match a.record.bay, a.record.sleeper with
    | .out, some suit => s.ask who a .enter (.join (some suit) false)
    | _, _ => s.entered who (a.settleBay destroyed) none
  else s.ask who a .enter (.join a.record.sleeper false)

/-- `seat`, and each copy of it, once the slot is active. -/
def seated (s : Seats) (who : Who) (a : Session) (errand : Errand) (suit : ℕ) : Seats :=
  match errand with
  | .enter => s.entered who a (some suit)
  | .launch => s.setSession who (some { a with stage := .play, suit := some suit, lost := false })
  | .launchInside n =>
    s.setSession who
      (some { a with stage := .play, suit := some suit, lost := false, inside := some n })
  | .board n =>
    s.setSession who
      (some { a with
        stage := .play, suit := some suit, lost := false, inside := some n, trainer := true })

/-- Refused, or waited for too long: the suit is in its bay again. -/
def notSeated (s : Seats) (who : Who) (a : Session) (errand : Errand) (destroyed : Bool) : Seats :=
  match errand with
  | .enter =>
    if survival then s.entered who (a.settleBay destroyed) none else s.setSession who none
  | .launch | .launchInside _ => s.setSession who (some { a.rebay .recover with stage := .play })
  | .board _ => s.setSession who (some { a with stage := .play })

/-- Whether the slot has been joined, or refused, since. -/
def SlotStatus.Answers (st : SlotStatus) (epoch : ℕ) : Prop := st.epoch ≠ epoch ∧ st.state ≠ .free

instance (st : SlotStatus) (epoch : ℕ) : Decidable (st.Answers epoch) :=
  inferInstanceAs (Decidable (_ ∧ _))

def look (s : Seats) (who : Who) (a : Session) (timedOut destroyed : Bool) : Seats :=
  match a.stage with
  | .seating errand epoch =>
    let st := (s.berths (a.seat errand)).status
    if st.Answers epoch then
      match st.state, st.suit with
      | .active, some suit => s.seated who a errand suit
      | _, _ => s.notSeated survival who a errand destroyed
    else if timedOut then s.notSeated survival who a errand destroyed
    else s
  | _ => s

def launch (s : Seats) (who : Who) (a : Session) : Seats :=
  if a.suit = none ∧ a.record.bay = .docked then
    s.ask who (a.rebay .launch) .launch (.join none true)
  else s

def launchInside (s : Seats) (who : Who) (a : Session) (n : ℕ) : Seats :=
  if a.suit = none ∧ a.record.bay = .docked ∧ s.IsFree ⟨.colony, n⟩ then
    (s.lease ⟨.colony, n⟩ who).ask who (a.rebay .launch) (.launchInside n) (.join none true)
  else s

def boardTrainer (s : Seats) (who : Who) (a : Session) (n : ℕ) : Seats :=
  if a.suit = none ∧ s.IsFree ⟨.colony, n⟩ then
    (s.lease ⟨.colony, n⟩ who).ask who a (.board n) .board
  else s

/-- Watches the colony's inside from a slot of it, or moves where from. -/
def watch (s : Seats) (who : Who) (a : Session) (n : ℕ) : Seats :=
  match a.spectating with
  | none =>
    if s.IsFree ⟨.colony, n⟩ then
      ((s.lease ⟨.colony, n⟩ who).push ⟨.colony, n⟩ ⟨who, .watch⟩).setSession who
        (some { a with spectating := some (n, false) })
    else s
  | some (k, false) => s.push ⟨.colony, k⟩ ⟨who, .watch⟩
  | some (_, true) => s

def unwatch (s : Seats) (who : Who) (a : Session) : Seats :=
  match a.spectating with
  | some (n, false) =>
    (s.push ⟨.colony, n⟩ ⟨who, .leave false⟩).setSession who
      (some { a with spectating := some (n, true) })
  | _ => s

def unwatched (s : Seats) (who : Who) (a : Session) : Seats :=
  match a.spectating with
  | some (n, true) =>
    (s.throw ⟨.colony, n⟩ (s.berths ⟨.colony, n⟩).ring []).setSession who
      (some { a with spectating := none })
  | _ => s

def dock (s : Seats) (who : Who) (a : Session) : Seats :=
  if a.suit ≠ none ∧ a.lost = false then s.push a.flying ⟨who, .dock⟩ else s

def eject (s : Seats) (who : Who) (a : Session) (destruct : Bool) : Seats :=
  if a.suit ≠ none ∧ a.lost = false ∧ a.inside = none then s.push a.main ⟨who, .eject destruct⟩
  else s

/-- Under arcade rules nothing becomes of the hangar in the record. -/
def onReport (s : Seats) (who : Who) (a : Session) (claims : Bool) : Report → Seats
  | .home =>
    let a := if a.trainer ∨ survival = false then a else a.rebay .cameHome
    s.setSession who (some { a with suit := none, inside := none, trainer := false })
  | .towed => s.setSession who (some { a with towing := false })
  | .aceDown =>
    if survival ∧ claims ∧ a.towing = false then
      (s.push a.main ⟨who, .claim⟩).setSession who (some { a with towing := true })
    else s
  | .lost how =>
    if a.trainer then s
    else
      let a := if survival then a.rebay .lost else a
      s.setSession who (some { a with lost := true, towing := a.towing || how = .ejected })
  | _ => s

def hear (s : Seats) (who : Who) (a : Session) (colony claims : Bool) : Seats :=
  match if colony then a.inside.map (⟨.colony, ·⟩) else some a.main with
  | none => s
  | some sl =>
    match (s.berths sl).ring with
    | [] => s
    | note :: ring => (s.take sl who [note] ring).onReport survival who a claims note.report

/-- The wreck is gone: the pilot is back in the hangar. -/
def cleared (s : Seats) (who : Who) (a : Session) : Seats :=
  if a.lost ∧ (s.berths a.main).status.state = .free then
    s.setSession who (some { a with lost := false, suit := none })
  else s

/-- A suit built, advanced or taken apart in the bay. -/
def work (s : Seats) (who : Who) (a : Session) (bay : Bay) : Seats :=
  if a.record.bay ≠ .out ∧ bay ≠ .out then s.setSession who (some (a.rebay fun _ => bay)) else s

/-- The wreck the tugs were going out for comes in now. -/
def settleTow (s : Seats) (who : Who) (a : Session) (stored : Bool) : Seats :=
  if a.towing ∧ survival then
    (s.push a.main ⟨who, .tow⟩).setSession who (some { a with stage := .tugs })
  else s.saveLast signedIn who a stored

def leave (s : Seats) (who : Who) (a : Session) (stored : Bool) : Seats :=
  if a.spectating ≠ none then s
  else match a.inside, a.suit with
    | some n, _ =>
      (s.push ⟨.colony, n⟩ ⟨who, .leave false⟩).setSession who
        (some { a with inside := none, stage := .leavingColony n })
    | none, some _ =>
      (s.push a.main ⟨who, .leave (signedIn who.pilot)⟩).setSession who
        (some { a with stage := .leavingSpace })
    | none, none => s.settleTow survival signedIn who a stored

/-- The wait for the slot inside the colony to be free is over, in time or not. -/
def leftColony (s : Seats) (who : Who) (a : Session) (stored : Bool) : Seats :=
  match a.stage with
  | .leavingColony n =>
    let a := if survival ∧ a.trainer = false then a.rebay .recover else a
    (s.throw ⟨.colony, n⟩ (s.berths ⟨.colony, n⟩).ring []).settleTow survival signedIn who
      { a with suit := none, trainer := false } stored
  | _ => s

/-- The suit that the slot's last sleeper went to sleep in. -/
def SlotStatus.asleep (st : SlotStatus) : Option ℕ := if st.outcome = .asleep then st.suit else none

/-- The wait for the session's own slot to be free is over, in time or not. -/
def leftSpace (s : Seats) (who : Who) (a : Session) (stored : Bool) : Seats :=
  let b := s.berths a.main
  let asleep := if signedIn who.pilot then b.status.asleep else none
  let left := a.settleLeft survival asleep.isSome (b.ring.any (·.report = .home))
  (s.take a.main who b.ring []).settleTow survival signedIn who
    { left with
      suit := none, record := { left.record with sleeper := asleep },
      towing := a.towing && !b.ring.any (·.report = .towed) } stored

def awaitTugs (s : Seats) (who : Who) (a : Session) (timedOut stored : Bool) : Seats :=
  match (s.berths a.main).ring with
  | [] => if timedOut then s.saveLast signedIn who a stored else s
  | note :: ring =>
    if note.report = .towed then (s.take a.main who [note] ring).saveLast signedIn who a stored
    else s.throw a.main [note] ring

def Uses (s : Seats) (who : Who) (sl : SlotId) : Prop :=
  ∃ a ∈ s.sessions who, sl ∈ a.slots

instance (s : Seats) (who : Who) (sl : SlotId) : Decidable (s.Uses who sl) :=
  decidable_of_iff ((s.sessions who).any fun a => sl ∈ a.slots) (by simp [Uses, Option.any_eq_true])

/-- A lease its session has no more use for goes back. -/
def giveBack (s : Seats) (who : Who) (sl : SlotId) : Seats :=
  if (s.berths sl).holder = some who ∧ ¬ s.Uses who sl then
    s.setBerth sl { s.berths sl with holder := none }
  else s

/-! ## Steps -/

/-- What a sector does, a session, or the server with a pilot's record. -/
inductive Act
  | drainControl (sl : SlotId) (luck : Luck)
  | tell (sl : SlotId)
  | destroy (suit : ℕ)
  | clearSleeper (suit : ℕ)
  | clearWreck (sl : SlotId)
  | watchLosses (sl : SlotId)
  | runTugs (sl : SlotId)
  | reportFeat (sl : SlotId) (feat : Report)
  | restore (pilot : ℕ) (named : Bool)
  | loadNews (pilot : ℕ)
  | saveNews
  | arrive (pilot n : ℕ) (loaded : Bool)
  | enter (who : Who) (destroyed : Bool)
  | look (who : Who) (timedOut destroyed : Bool)
  | launch (who : Who)
  | launchInside (who : Who) (n : ℕ)
  | boardTrainer (who : Who) (n : ℕ)
  | watch (who : Who) (n : ℕ)
  | unwatch (who : Who)
  | unwatched (who : Who)
  | dock (who : Who)
  | eject (who : Who) (destruct : Bool)
  | hear (who : Who) (colony claims : Bool)
  | cleared (who : Who)
  | work (who : Who) (bay : Bay)
  | save (who : Who) (stored : Bool)
  | leave (who : Who) (stored : Bool)
  | leftColony (who : Who) (stored : Bool)
  | leftSpace (who : Who) (stored : Bool)
  | awaitTugs (who : Who) (timedOut stored : Bool)
  | giveBack (who : Who) (sl : SlotId)

def during (s : Seats) (who : Who) (stage : Stage) (f : Session → Seats) : Seats :=
  match s.sessions who with
  | some a => if a.stage = stage then f a else s
  | none => s

/-- What a pilot asks for is survival's alone, but for ejecting. -/
def requested (s : Seats) (who : Who) (f : Session → Seats) : Seats :=
  if survival then s.during who .play f else s

def step (s : Seats) : Act → Seats
  | .drainControl sl luck => s.drainControl survival sl luck
  | .tell sl => s.tell sl
  | .destroy suit => s.destroy suit
  | .clearSleeper suit => s.clearSleeper suit
  | .clearWreck sl => s.clearWreck sl
  | .watchLosses sl => s.watchLosses survival sl
  | .runTugs sl => s.tow sl
  | .reportFeat sl feat => s.reportFeat sl feat
  | .restore pilot named => s.restore signedIn pilot named
  | .loadNews pilot => s.loadNews pilot
  | .saveNews => s.saveNews
  | .arrive pilot n loaded => s.arrive signedIn pilot n loaded
  | .enter who destroyed => s.during who .arrived fun a => s.enter survival who a destroyed
  | .look who timedOut destroyed =>
    match s.sessions who with
    | some a => s.look survival who a timedOut destroyed
    | none => s
  | .launch who => s.requested survival who fun a => s.launch who a
  | .launchInside who n => s.requested survival who fun a => s.launchInside who a n
  | .boardTrainer who n => s.requested survival who fun a => s.boardTrainer who a n
  | .watch who n => s.requested survival who fun a => s.watch who a n
  | .unwatch who => s.during who .play fun a => s.unwatch who a
  | .unwatched who => s.during who .play fun a => s.unwatched who a
  | .dock who => s.requested survival who fun a => s.dock who a
  | .eject who destruct => s.during who .play fun a => s.eject who a destruct
  | .hear who colony claims => s.during who .play fun a => s.hear survival who a colony claims
  | .cleared who => s.during who .play fun a => s.cleared who a
  | .work who bay => s.requested survival who fun a => s.work who a bay
  | .save who stored => s.during who .play fun a => s.save signedIn who a stored
  | .leave who stored => s.during who .play fun a => s.leave survival signedIn who a stored
  | .leftColony who stored =>
    match s.sessions who with
    | some a => s.leftColony survival signedIn who a stored
    | none => s
  | .leftSpace who stored =>
    s.during who .leavingSpace fun a => s.leftSpace survival signedIn who a stored
  | .awaitTugs who timedOut stored =>
    s.during who .tugs fun a => s.awaitTugs signedIn who a timedOut stored
  | .giveBack who sl => s.giveBack who sl

end Seats

end BeforeColony
