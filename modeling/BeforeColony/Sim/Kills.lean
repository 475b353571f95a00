import BeforeColony.Sim.Pools

/-!
# Kills

Suits come and go in slots that are handed on; rounds, missiles, blows and dooms remember a suit by
its slot, and a kill is paid to whoever is in it. What meets what, and which blows breach a torso, is
the space's doing: every step takes it as given.
-/

set_option autoImplicit false

namespace BeforeColony.Kills

/-- A breached torso's: ticks until its reactor goes (0: it isn't doomed), and who breached it. (Here
and below, who is remembered by slot alone: no step reads the generation kept beside it.) -/
structure Doom where
  left : ℕ
  killer : Option SuitId
  deriving DecidableEq

namespace Doom

def none : Doom := ⟨0, .none⟩

def ticks : ℕ := 90

end Doom

structure Suit where
  alive : Bool := false
  sleeping : Bool := false
  frame : FrameId := .argo
  pilot : PilotKind := .human
  ace : Option ℕ := none
  doom : Doom := .none
  kills : ℕ := 0
  credits : ℕ := 0

structure DamageEvent where
  target : ℕ
  shooter : SuitId

structure Kill where
  victim : ℕ
  killer : Option SuitId

structure Client where
  active : Bool
  suit : SuitId

/-- Something paid for a kill: to the suit there then, if there was one, and who made it. -/
structure Credit where
  payee : Option SuitId
  killer : SuitId
  deriving DecidableEq

namespace Credit

/-- A kill is paid to the suit that made it, or to nobody. -/
def Right (c : Credit) : Prop := c.payee = none ∨ c.payee = some c.killer

end Credit

inductive Pool
  | projectiles
  | missiles
  deriving DecidableEq

structure Cfg where
  maxSuits : ℕ
  maxClients : ℕ
  maxDamage : ℕ
  survival : Bool
  interior : Bool

structure Sector where
  suits : Suits
  slots : ℕ → Suit
  inFlight : Pool → List SuitId
  damage : List DamageEvent
  /-- Kills the sector hasn't looked at yet. -/
  unseen : List Kill
  clients : List Client
  /-- Every credit so far, the last first. -/
  paid : List Credit

def bounty : FrameId → ℕ
  | .cetus => 600
  | .sagittarius | .corona => 800
  | _ => 250

namespace Sector

def start (cfg : Cfg) : Sector where
  suits := .new cfg.maxSuits
  slots _ := {}
  inFlight _ := []
  damage := []
  unseen := []
  clients := List.replicate cfg.maxClients ⟨false, 0, 0⟩
  paid := []

/-! ## Slots -/

def setSlot (st : Sector) (j : ℕ) (s : Suit) : Sector :=
  { st with slots := Function.update st.slots j s }

def idOf (st : Sector) (j : ℕ) : SuitId := ⟨j, st.suits.generation j⟩

def valid (st : Sector) (id : SuitId) : Bool := st.suits.valid id

/-- Claims a slot for a new suit and puts it in the world. -/
def allocate (st : Sector) (frame : FrameId) (pilot : PilotKind) (ace : Option ℕ) (credits : ℕ) :
    Option (SuitId × Sector) :=
  match st.suits.allocate with
  | (suits, some id) => some (id, { st.setSlot id.idx { alive := true, frame, pilot, ace, credits } with suits })
  | (_, none) => none

def release (st : Sector) (j : ℕ) : Sector :=
  if st.suits.used j then
    { st.setSlot j { st.slots j with alive := false, sleeping := false } with suits := st.suits.release j }
  else st

def leave (st : Sector) (id : SuitId) : Sector := if st.valid id then st.release id.idx else st

/-! ## Kills -/

section

variable (cfg : Cfg)

def queueDamage (st : Sector) (target : ℕ) (shooter : SuitId) : Sector :=
  if cfg.interior ∨ cfg.maxDamage ≤ st.damage.length then st
  else { st with damage := st.damage ++ [⟨target, shooter⟩] }

def paidFor (st : Sector) (j k : ℕ) : Suit :=
  let s := st.slots k
  let pay := cfg.survival && (st.slots j).pilot = .drone && s.pilot ≠ .drone
  { s with
    kills := s.kills + 1
    credits := if pay then min (s.credits + bounty (st.slots j).frame) (2 ^ 32 - 1) else s.credits }

def credit (st : Sector) (j : ℕ) (killer : SuitId) : Sector :=
  let payee := if st.suits.used killer.idx then some (st.idOf killer.idx) else none
  { st.setSlot killer.idx (st.paidFor cfg j killer.idx) with paid := ⟨payee, killer⟩ :: st.paid }

def destroy (st : Sector) (j : ℕ) (killer : Option SuitId) : Sector :=
  let st := st.setSlot j { st.slots j with alive := false, doom := .none }
  let st :=
    match killer with
    | some k => if k.idx ≠ j then st.credit cfg j k else st
    | none => st
  { st with unseen := st.unseen ++ [⟨j, killer⟩] }

/-- Whether a breach dooms a suit rather than destroying it. -/
def doomable (st : Sector) (j : ℕ) : Bool := (st.slots j).pilot ≠ .drone && ! (st.slots j).sleeping

/-- A blow on a breached torso, that takes `cut` ticks off a doom. -/
def breach (st : Sector) (j cut : ℕ) (shooter : SuitId) : Sector :=
  let doom := (st.slots j).doom
  if 0 < doom.left then
    let left := doom.left - cut
    let st := st.setSlot j { st.slots j with doom := { doom with left } }
    if left = 0 then st.destroy cfg j doom.killer else st
  else if st.doomable j then st.setSlot j { st.slots j with doom := ⟨Doom.ticks, some shooter⟩ }
  else st.destroy cfg j (some shooter)

/-- One of the tick's blows: a suit's torso is breached by it, or isn't. -/
def land (st : Sector) (d : DamageEvent) (breached : Option ℕ) : Sector :=
  match breached with
  | some cut => if (st.slots d.target).alive then st.breach cfg d.target cut d.shooter else st
  | none => st

def damageStep (st : Sector) (breached : ℕ → Option ℕ) : Sector :=
  { (st.damage.zipIdx.foldl (fun st d => st.land cfg d.1 (breached d.2)) st) with damage := [] }

def runDown (st : Sector) (j : ℕ) : Sector :=
  let doom := (st.slots j).doom
  if doom.left = 0 then st
  else
    let st := st.setSlot j { st.slots j with doom := { doom with left := doom.left - 1 } }
    if doom.left = 1 then st.destroy cfg j doom.killer else st

def doomStep (st : Sector) : Sector :=
  ((List.range cfg.maxSuits).filter fun j => (st.slots j).alive).foldl (runDown cfg) st

/-- A pilot leaves their suit; doomed, they may blow its reactor, aboard, among the suits near it. -/
def eject (st : Sector) (id : SuitId) (destruct : Bool) (near : List ℕ) : Sector :=
  let j := id.idx
  let doom := (st.slots j).doom
  if ! st.valid id || ! (st.slots j).alive || ! st.doomable j || cfg.interior then st
  else if destruct then
    if doom.left = 0 then st
    else (near.foldl (fun st q => st.queueDamage cfg q (st.idOf j)) st).destroy cfg j doom.killer
  else st.destroy cfg j (if 0 < doom.left then doom.killer else none)

/-! ## Clients -/

def setClient (st : Sector) (s : ℕ) (c : Client) : Sector :=
  { st with clients := st.clients.set s c }

/-- The suit a client has is let go, on its way to another. -/
def vacate (st : Sector) (s : ℕ) : Sector :=
  match st.clients[s]? with
  | some c => if c.active then st.leave c.suit else st
  | none => st

def unseat (st : Sector) (s : ℕ) (go : Sector → SuitId → Sector) : Sector :=
  match st.clients[s]? with
  | some c => if c.active then (go st c.suit).setClient s { c with active := false } else st
  | none => st

def stay (st : Sector) (_ : SuitId) : Sector := st

/-- A suit falls asleep where it can, or else goes. -/
def sleepOrLeave (st : Sector) (id : SuitId) : Sector :=
  if st.valid id && (st.slots id.idx).alive then
    st.setSlot id.idx { st.slots id.idx with sleeping := true }
  else st.leave id

def dockable (st : Sector) (id : SuitId) : Bool :=
  let s := st.slots id.idx
  st.valid id && s.alive && ! s.sleeping && s.doom.left = 0

def wakeable (st : Sector) (id : SuitId) : Bool :=
  st.valid id && (st.slots id.idx).sleeping && (st.slots id.idx).alive

/-- One kill looked at: an ace downed by a client's suit is its pilot's. -/
def watchAce (st : Sector) (e : Kill) : Sector :=
  match (st.slots e.victim).ace, e.killer with
  | some _, some k =>
    match st.clients.find? fun c => c.active && c.suit.idx = k.idx with
    | some c => { st with paid := ⟨some c.suit, k⟩ :: st.paid }
    | none => st
  | _, _ => st

def watchAces (st : Sector) : Sector := { (st.unseen.foldl watchAce st) with unseen := [] }

def watchLosses (st : Sector) : Sector :=
  if cfg.survival then
    { st with clients := st.clients.map fun c => { c with active := c.active && st.valid c.suit } }
  else st

/-- A destroyed suit's wait is up: a drone's, a sleeper's or, under survival rules, anyone's slot is
freed, and anyone else is back. -/
def waited (st : Sector) (j : ℕ) : Sector :=
  let s := st.slots j
  if ! st.suits.used j || s.alive then st
  else if s.pilot = .drone || s.sleeping || cfg.survival then st.release j
  else st.setSlot j { s with alive := true, doom := .none }

end

/-! ## Steps -/

inductive Op
  /-- A client joins in a new suit, with what they have earned. -/
  | join (s : ℕ) (frame : FrameId) (pilot : PilotKind) (credits : ℕ)
  /-- A client is back in the suit they left asleep. -/
  | wake (s : ℕ) (id : SuitId)
  /-- A client joins with nothing to wake and nothing to launch: the suit it had goes all the same. -/
  | refused (s : ℕ)
  | leave (s : ℕ)
  | sleep (s : ℕ)
  | dock (s : ℕ)
  /-- A client goes whose suit, in its bay still, can't be docked. -/
  | strand (s : ℕ)
  | evict (id : SuitId)
  /-- A drone is fielded, or an ace. -/
  | field (frame : FrameId) (ace : Option ℕ)
  /-- A parked suit is put back, asleep. -/
  | putBack (frame : FrameId) (pilot : PilotKind) (credits : ℕ)
  /-- A suit fires a round, or launches a missile. -/
  | fire (pool : Pool) (i : ℕ)
  | spent (pool : Pool) (k : ℕ)
  | hit (pool : Pool) (k target : ℕ)
  /-- A suit's blade, flame or shot meets another's as it is fired. -/
  | strike (i target : ℕ)
  | damage (breached : ℕ → Option ℕ)
  | doom
  | eject (id : SuitId) (destruct : Bool) (near : List ℕ)
  | waited (j : ℕ)
  | watchAces
  | watchLosses
  /-- An event not yet looked at is written over. -/
  | overwrite

variable (cfg : Cfg)

def seat (st : Sector) (s : ℕ) (found : Option (SuitId × Sector)) : Sector :=
  match found with
  | some (id, st') => st'.setClient s ⟨true, id⟩
  | none => st

def woken (st : Sector) (id : SuitId) : Option (SuitId × Sector) :=
  if st.wakeable id then some (id, st.setSlot id.idx { st.slots id.idx with sleeping := false }) else none

def setInFlight (st : Sector) (pool : Pool) (l : List SuitId) : Sector :=
  { st with inFlight := Function.update st.inFlight pool l }

def step (st : Sector) : Op → Sector
  | .join s frame pilot credits =>
    if s < st.clients.length then (st.vacate s).seat s ((st.vacate s).allocate frame pilot none credits)
    else st
  | .wake s id => if s < st.clients.length then (st.vacate s).seat s ((st.vacate s).woken id) else st
  | .refused s => if s < st.clients.length then st.vacate s else st
  | .leave s => st.unseat s leave
  | .sleep s => st.unseat s sleepOrLeave
  | .dock s =>
    match st.clients[s]? with
    | some c => if c.active && st.dockable c.suit then st.unseat s leave else st
    | none => st
  | .strand s => st.unseat s stay
  | .evict id => if st.valid id && (st.slots id.idx).sleeping then st.release id.idx else st
  | .field frame ace =>
    match st.allocate frame .drone ace 0 with
    | some (_, st') => st'
    | none => st
  | .putBack frame pilot credits =>
    match st.allocate frame pilot none credits with
    | some (id, st') => st'.setSlot id.idx { st'.slots id.idx with sleeping := true }
    | none => st
  | .fire pool i =>
    if (st.slots i).alive then st.setInFlight pool (st.idOf i :: st.inFlight pool) else st
  | .spent pool k => st.setInFlight pool ((st.inFlight pool).eraseIdx k)
  | .hit pool k target =>
    match (st.inFlight pool)[k]? with
    | some shooter =>
      (st.queueDamage cfg target shooter).setInFlight pool ((st.inFlight pool).eraseIdx k)
    | none => st
  | .strike i target => if (st.slots i).alive then st.queueDamage cfg target (st.idOf i) else st
  | .damage breached => st.damageStep cfg breached
  | .doom => st.doomStep cfg
  | .eject id destruct near => st.eject cfg id destruct near
  | .waited j => st.waited cfg j
  | .watchAces => st.watchAces
  | .watchLosses => st.watchLosses cfg
  | .overwrite => { st with unseen := st.unseen.tail }

def run (st : Sector) (ops : List Op) : Sector := ops.foldl (step cfg) st

end Sector

end BeforeColony.Kills
