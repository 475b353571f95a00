import BeforeColony.Lib.Run
import BeforeColony.Lib.Scalar

/-!
# The plaza

The pose each pilot in the city last sent, checked against the city before anyone else sees it. The
city's own shape is a parameter (its walls, trams, pools, seats, lifts and homes), and so is the
square root that distances are taken with; numbers are exact.
-/

set_option autoImplicit false

namespace BeforeColony.Plaza

open Lib

def baseDeck : ℕ := 3

def maxTrains : ℕ := 12

def rideCar : ℕ := 13
def rideScooter : ℕ := 14
def rideSeated : ℕ := 15
def rideMarkab : ℕ := 16

/-- One pilot on foot in the city: their strip, along it, across it and up, and what they ride. -/
structure PersonPose (K : Type) where
  strip : ℕ
  x : K
  s : K
  h : K
  ride : ℕ
  deriving DecidableEq

inductive Mode
  | foot
  | train (k : ℕ)
  | drive (ride : ℕ)
  | seated
  deriving DecidableEq

namespace PersonPose

variable {K : Type} (p : PersonPose K)

def driving : Bool := p.ride = rideCar || p.ride = rideScooter || p.ride = rideMarkab

def markab : Bool := p.ride = rideMarkab

def seated : Bool := p.ride = rideSeated

def riding : Option ℕ := if 1 ≤ p.ride ∧ p.ride - 1 < maxTrains then some (p.ride - 1) else none

def mode : Mode :=
  if p.seated then .seated
  else
    match p.riding with
    | some k => .train k
    | none => if p.driving then .drive p.ride else .foot

variable {p} in
theorem riding_of_foot (h : p.mode = .foot) : p.riding = none := by
  unfold mode at h
  split at h
  · cases h
  · split at h
    · cases h
    · assumption

end PersonPose

structure Train (K : Type) where
  s : K
  x : K
  doors : Bool

structure Streets (K Home : Type) where
  stripWidth : K
  halfLength : K
  /-- Whether a box on a strip, from its least corner to its greatest, meets a wall. -/
  solid : ℕ → K × K × K → K × K × K → Bool
  deckSolid : K × K × K → K × K × K → Bool
  /-- Train `k` of a strip's line, by tick. -/
  train : ℕ → ℕ → ℕ → Train K
  /-- The seats, by strip, across and along. -/
  seats : List (ℕ × K × K)
  /-- Whether a motor pool is near, by strip, across and along. -/
  poolNear : ℕ → K → K → Bool
  /-- The lift doors at a place, by strip, across, along and up: which building's, and which
  storey's. -/
  lift : ℕ → K → K → K → Option ((ℤ × ℤ × ℕ) × ℕ)
  /-- The home at a place, by strip, across, along and up. -/
  homeAt : ℕ → K → K → K → Option Home

inductive Why
  | strip
  | wall
  | reach
  | arrival
  | board
  | alight
  | pool
  | mode
  | seat
  | locked
  deriving DecidableEq

inductive Verdict
  | taken
  | stale
  | implausibleBy (why : Why)
  deriving DecidableEq

structure Person (K : Type) where
  key : String
  strip : ℕ
  /-- Where they came into the city, across and along. -/
  arrival : K × K
  pose : Option (PersonPose K)
  seq : UInt16
  heard : K
  /-- Reach carried from their last pose, s. -/
  bank : K

/-- A pose as it is handed over: its number, when it was heard, the sector's tick and the register of
homes then. -/
structure Sent (K Home : Type) where
  seq : UInt16
  pose : PersonPose K
  now : K
  tick : ℕ
  register : Option (Home → String → Bool)

variable {K : Type} [Scalar K] {Home : Type}

/-- Faster than anyone runs, with room for a late packet on top, m/s. -/
def maxSpeed : K := 27 / (2 : ℕ)

def maxDrive : K := 91 / (2 : ℕ)

def maxMarkab : K := 403 / 5

def slack : K := (2 : ℕ)

/-- Reach a pilot carries from one pose to the next, s of the fastest they could go, at most. -/
def bank : K := (2 : ℕ)

/-- A pilot's first pose must be this near where they came in, m. -/
def arrivalReach : K := 150

/-- How near a tram's body to get on or off it, m. -/
def doorstep : K := 8

/-- How far either side of the tick its doors may have been open, ticks. -/
def doorSlack : ℕ := 90

def seatedSlack : K := 3 / 10

def trainLength : K := 74

def carWidth : K := 3

def riderS : K := 2048

/-- The pavements' height over the street, m. -/
def kerb : K := 3 / 20

/-- Nothing in the city stands taller, m. -/
def maxHeight : K := 240

section

variable (sqrt : K → K) (c : Streets K Home)

def hypot (a b : K) : K := sqrt (a * a + b * b)

def apart (p q : PersonPose K) : K := hypot sqrt (p.x - q.x) (p.s - q.s)

def atOpenDoors (strip k : ℕ) (s x : K) (tick : ℕ) : Bool :=
  (List.range ((tick + doorSlack - (tick - doorSlack)) / 10 + 1)).any fun i =>
    let tr := c.train strip k (tick - doorSlack + 10 * i)
    let dx := max (|x - tr.x| - 1 / (2 : ℕ) * trainLength) 0
    let ds := max (|s - tr.s| - 1 / (2 : ℕ) * carWidth) 0
    tr.doors && hypot sqrt dx ds ≤ doorstep

def onSeat (p : PersonPose K) : Bool :=
  c.seats.any fun t => t.1 = p.strip && hypot sqrt (t.2.1 - p.s) (t.2.2 - p.x) ≤ seatedSlack

/-- Whether a rider's place in their train could be. -/
def aboard (p : PersonPose K) : Bool :=
  |p.x| ≤ 1 / (2 : ℕ) * trainLength + 1 / (2 : ℕ) && |p.s - riderS| ≤ 1 / (2 : ℕ) * carWidth + 3 / 10
    && -1 / (2 : ℕ) ≤ p.h && p.h ≤ 3 && p.riding.isSome

def onTheBase (p : PersonPose K) : Bool :=
  let e : K := 1 / 20
  p.mode = .foot && ! p.markab
    && ! c.deckSolid (p.x - e, p.h + (2 : ℕ) / 5, -p.s - e) (p.x + e, p.h + 7 / 5, -p.s + e)

/-- Whether a pose could be anyone's: inside the colony, its body out of the walls. -/
def possible (p : PersonPose K) : Bool :=
  if p.strip = baseDeck then onTheBase c p
  else if p.riding.isSome then aboard p
  else
    let lo : K := if p.markab then -1 / 10 else (2 : ℕ) / 5
    let hi : K := if p.markab then 1 / 10 else 7 / 5
    let e : K := if p.markab then 1 / 10 else 1 / 20
    |p.x| ≤ c.halfLength && 0 ≤ p.s && p.s ≤ c.stripWidth && -4 ≤ p.h && p.h ≤ maxHeight + 4
      && ! c.solid p.strip (p.x - e, p.h + lo, -p.s - e) (p.x + e, p.h + hi, -p.s + e)

def lifted (last now : PersonPose K) : Bool :=
  if last.strip = baseDeck ∨ now.strip = baseDeck then false
  else
    match c.lift last.strip last.s last.x last.h, c.lift now.strip now.s now.x now.h with
    | some (a, ka), some (b, kb) => a = b && ka ≠ kb
    | _, _ => false

/-- The fastest anyone can go getting about as a pose does. -/
def top (p : PersonPose K) : K :=
  match p.mode with
  | .drive _ => if p.markab then maxMarkab else maxDrive
  | _ => maxSpeed

/-- The reach someone has by `now`, s: what they carried, and the time since. -/
def banked (me : Person K) (now : K) : K := me.bank + max (now - me.heard) 0

/-- Whether a move is within `speed` for `dt`, and the slack. -/
def moved (last now : PersonPose K) (dt speed : K) : Bool :=
  apart sqrt now last ≤ speed * dt + slack && |now.h - last.h| ≤ speed * dt + slack

/-- Whether someone may have gone from one pose to the next; if not, why not. -/
def went (last now : PersonPose K) (dt : K) (tick : ℕ) : Option Why :=
  let check (ok : Bool) (why : Why) := if ok then none else some why
  match last.mode, now.mode with
  | .foot, .foot => check (moved sqrt last now dt maxSpeed || lifted c last now) .reach
  | .train a, .train b => check (a = b && moved sqrt last now dt maxSpeed) .reach
  | .foot, .train k => check (atOpenDoors sqrt c now.strip k last.s last.x tick) .board
  | .train k, .foot => check (atOpenDoors sqrt c now.strip k now.s now.x tick) .alight
  | .drive a, .drive b => check (a = b && moved sqrt last now dt (top last)) .reach
  | .foot, .drive _ => check (c.poolNear now.strip last.s last.x && moved sqrt last now dt maxSpeed) .pool
  | .drive _, .foot => check (moved sqrt last now dt (top last)) .reach
  | .foot, .seated => check (onSeat sqrt c now && moved sqrt last now dt maxSpeed) .seat
  | .seated, .seated => check (onSeat sqrt c now && apart sqrt now last ≤ seatedSlack) .seat
  | .seated, .foot => check (moved sqrt last now dt maxSpeed) .reach
  | _, _ => some .mode

def judge (me : Person K) (sent : Sent K Home) : Verdict :=
  if sent.pose.strip ≠ me.strip then .implausibleBy .strip
  else if ! possible c sent.pose then .implausibleBy .wall
  else
    match me.pose with
    | some last =>
      let ahead := sent.seq - me.seq
      -- as a signed word, not above zero
      if ahead = 0 ∨ 2 ^ 15 ≤ ahead.toNat then .stale
      else
        match went sqrt c last sent.pose (banked me sent.now) sent.tick with
        | some why => .implausibleBy why
        | none => .taken
    | none =>
      if sent.pose.riding.isNone
          && hypot sqrt (sent.pose.x - me.arrival.2) (sent.pose.s - me.arrival.1) ≤ arrivalReach then
        .taken
      else .implausibleBy .arrival

def homeOf (p : PersonPose K) : Option Home := c.homeAt p.strip p.s p.x (p.h + 1)

/-- Whether someone may cross from `last` into where `now` is: into a home only if it's the one they
were in or the register lets them in. -/
def mayCross [DecidableEq Home] (register : Option (Home → String → Bool)) (key : String) (last now : PersonPose K) : Bool :=
  match register with
  | none => true
  | some mayEnter =>
    if last.mode ≠ .foot ∨ now.mode ≠ .foot ∨ now.strip = baseDeck then true
    else
      match homeOf c now with
      | some into => homeOf c last = some into || mayEnter into key
      | none => true

def bankAfter (me : Person K) (sent : Sent K Home) : K :=
  match me.pose with
  | none => 0
  | some last =>
    let speed := max (top last) (top sent.pose)
    let d := if last.riding = sent.pose.riding then apart sqrt sent.pose last else 0
    max 0 (min bank (banked me sent.now - d / speed))

/-- A pose someone sent: whether it's taken, and they as they are then. -/
def accept [DecidableEq Home] (me : Person K) (sent : Sent K Home) : Verdict × Person K :=
  match judge sqrt c me sent with
  | .taken =>
    if me.pose.any fun last => ! mayCross c sent.register me.key last sent.pose then
      (.implausibleBy .locked, me)
    else
      (.taken, { me with
        bank := bankAfter sqrt me sent
        pose := some sent.pose
        seq := sent.seq
        heard := sent.now })
  | verdict => (verdict, me)

end

def enterAt (key : String) (strip : ℕ) (arrival : K × K) (now : K) : Person K :=
  ⟨key, min strip baseDeck, arrival, none, 0, now, 0⟩

/-! ## What is taken -/

theorem strip_of_judge {sqrt : K → K} {c : Streets K Home} {me : Person K} {sent : Sent K Home}
    (h : judge sqrt c me sent = .taken) : sent.pose.strip = me.strip := by
  unfold judge at h
  split at h
  · cases h
  · rename_i hstrip
    exact not_not.mp hstrip

/-- What is taken has been judged, and is their pose from then on; else they're as they were. -/
theorem accept_cases [DecidableEq Home] (sqrt : K → K) (c : Streets K Home) (me : Person K) (sent : Sent K Home) :
    (judge sqrt c me sent = .taken
        ∧ (∀ last, me.pose = some last → mayCross c sent.register me.key last sent.pose = true)
        ∧ accept sqrt c me sent = (.taken, { me with
            bank := bankAfter sqrt me sent
            pose := some sent.pose
            seq := sent.seq
            heard := sent.now }))
      ∨ ∃ v, v ≠ .taken ∧ accept sqrt c me sent = (v, me) := by
  unfold accept
  cases hjudge : judge sqrt c me sent with
  | taken =>
    simp only [true_and]
    by_cases hcross : (me.pose.any fun last => ! mayCross c sent.register me.key last sent.pose) = true
    · rw [if_pos hcross]
      exact Or.inr ⟨_, by simp, rfl⟩
    · rw [if_neg hcross]
      refine Or.inl ⟨fun last hlast => ?_, rfl⟩
      rw [hlast] at hcross
      simpa using hcross
  | stale => exact Or.inr ⟨_, by simp, rfl⟩
  | implausibleBy why => exact Or.inr ⟨_, by simp, rfl⟩

end BeforeColony.Plaza
