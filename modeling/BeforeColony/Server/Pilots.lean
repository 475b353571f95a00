import Mathlib.Data.String.Basic
import BeforeColony.Lib.Table

/-!
# The server's pilots

Which session is a pilot's, and which resume tokens are good. A claim is several sections, each
under one lock, and others come between them; so is a release. What is said of a pilot's parked
suit while their session is live is kept for whoever releases it, and is a parameter here.
-/

set_option autoImplicit false

namespace BeforeColony

open Lib

abbrev PlayerId := String

/-- How long a session being taken over gets to tear down, ms. -/
def takeoverWait : ℕ := 5000

/-- A pilot's live session: whether it can still be told to go, and the news kept for it. Its
`gone` goes by its session's number. -/
structure Online (News : Type) where
  session : ℕ
  kick : Bool
  pending : List News
  deriving DecidableEq

structure Token where
  address : PlayerId
  /-- `none` while its session is live. -/
  expires : Option ℕ
  deriving DecidableEq

structure Pilots (News : Type) where
  online : Table PlayerId (Online News)
  tokens : Table ℕ Token
  nextSession : ℕ
  ttl : ℕ

namespace Pilots

variable {News : Type}

def new (ttl : ℕ) : Pilots News := ⟨Table.empty, Table.empty, 1, ttl⟩

/-! ## A claim -/

/-- Looks whether the pilot has a session, and takes its kick. -/
def check (p : Pilots News) (address : PlayerId) : Pilots News × Option (Online News) :=
  match p.online.get? address with
  | some o => ({ p with online := p.online.insert address { o with kick := false } }, some o)
  | none => (p, none)

/-- It didn't go in time: whatever is there by now is forgotten, but for its news. -/
def forget (p : Pilots News) (address : PlayerId) : Pilots News × Option (Online News) :=
  ({ p with online := p.online.erase address }, p.online.get? address)

def number (p : Pilots News) : Pilots News × ℕ :=
  ({ p with nextSession := p.nextSession + 1 }, p.nextSession)

def insert (p : Pilots News) (address : PlayerId) (session : ℕ) (carried : List News) :
    Pilots News × Option (Online News) :=
  ({ p with online := p.online.insert address ⟨session, true, carried⟩ }, p.online.get? address)

/-! ## A release -/

def free (p : Pilots News) (address : PlayerId) (session : ℕ) : Pilots News × Option (Online News) :=
  match p.online.get? address with
  | some o =>
    if o.session = session then ({ p with online := p.online.erase address }, some o) else (p, none)
  | none => (p, none)

def age (p : Pilots News) (address : PlayerId) (now : ℕ) : Pilots News :=
  let aged (t : Token) : Token :=
    if t.address = address ∧ t.expires = none then { t with expires := some (now + p.ttl) } else t
  { p with tokens := p.tokens.mapVal fun _ t => aged t }

/-! ## Tokens -/

def good (t : Token) (now : ℕ) : Bool := t.expires.all fun e => now < e

/-- A new token, the bytes drawn for it given; the pilot's older ones stop working. -/
def issueToken (p : Pilots News) (address : PlayerId) (token now : ℕ) : Pilots News :=
  let kept := p.tokens.filterMapVal fun _ t =>
    if t.address ≠ address ∧ good t now then some t else none
  { p with tokens := kept.insert token ⟨address, none⟩ }

def redeem (p : Pilots News) (token now : ℕ) : Pilots News × Option PlayerId :=
  match p.tokens.get? token with
  | none => (p, none)
  | some t =>
    ({ p with tokens := p.tokens.erase token }, if good t now then some t.address else none)

end Pilots

/-! ## The sessions of a server -/

/-- How far a connection has come: claiming its pilot, with the news it carries; waiting for a
session to go, since some time; theirs; or letting the pilot go. -/
inductive Stage (News : Type) where
  | checking (carried : List News)
  | waiting (on since : ℕ) (carried : List News)
  | clear (carried : List News)
  | numbered (session : ℕ) (carried : List News)
  | live (session : ℕ)
  | leaving (session : ℕ)
  | released (session since : ℕ)
  deriving DecidableEq

structure Connection (News : Type) where
  address : PlayerId
  stage : Stage News
  deriving DecidableEq

/-- A token issued: to whom, and by which connection's session. -/
structure Issue where
  token : ℕ
  address : PlayerId
  task : ℕ
  deriving DecidableEq

/-- A server: its clock, its pilots, the sessions whose `gone` is signalled, when each session told
to go was told (its kick sent, or dropped), and its connections. And the tokens issued, the newest
first, and those handed back since, good or not. -/
structure Server (News : Type) where
  now : ℕ
  pilots : Pilots News
  gone : List ℕ
  told : Table ℕ ℕ
  tasks : Table ℕ (Connection News)
  issued : List Issue
  spent : List ℕ

/-- What a connection does next, each under one lock; someone redeems a token; or time goes by. -/
inductive Server.Act where
  | claim (task : ℕ) (address : PlayerId)
  | check (task : ℕ)
  | wake (task : ℕ)
  | timeout (task : ℕ)
  | number (task : ℕ)
  | insert (task : ℕ)
  | issue (task token : ℕ)
  | free (task : ℕ)
  | age (task : ℕ)
  | redeem (token : ℕ)
  | pass (time : ℕ)

namespace Server

variable {News : Type}

def new (ttl : ℕ) : Server News := ⟨0, Pilots.new ttl, [], Table.empty, Table.empty, [], []⟩

/-- The session whose kick was sent or dropped is told to go, if it hadn't been. -/
def tell (s : Server News) : Option (Online News) → Table ℕ ℕ
  | some o => if o.kick then s.told.insert o.session s.now else s.told
  | none => s.told

def setStage (s : Server News) (task : ℕ) (address : PlayerId) (stage : Stage News) :
    Table ℕ (Connection News) := s.tasks.insert task ⟨address, stage⟩

/-- One thing done; `none` where it can't be now. -/
def step (s : Server News) : Act → Option (Server News)
  | .claim task address =>
    match s.tasks.get? task with
    | none => some { s with tasks := s.setStage task address (.checking []) }
    | some _ => none
  | .check task =>
    match s.tasks.get? task with
    | some ⟨address, .checking carried⟩ =>
      match s.pilots.check address with
      | (pilots, some o) => some { s with
          pilots
          told := s.tell (some o)
          tasks := s.setStage task address (.waiting o.session s.now carried) }
      | (pilots, none) => some { s with
          pilots
          tasks := s.setStage task address (.clear carried) }
    | _ => none
  | .wake task =>
    match s.tasks.get? task with
    | some ⟨address, .waiting on _ carried⟩ =>
      if on ∈ s.gone then some { s with
        gone := s.gone.erase on
        tasks := s.setStage task address (.checking carried) }
      else none
    | _ => none
  | .timeout task =>
    match s.tasks.get? task with
    | some ⟨address, .waiting _ since carried⟩ =>
      if since + takeoverWait ≤ s.now then
        let (pilots, o) := s.pilots.forget address
        some { s with
          pilots
          told := s.tell o
          tasks := s.setStage task address (.checking (carried ++ o.elim [] Online.pending)) }
      else none
    | _ => none
  | .number task =>
    match s.tasks.get? task with
    | some ⟨address, .clear carried⟩ =>
      let (pilots, session) := s.pilots.number
      some { s with pilots, tasks := s.setStage task address (.numbered session carried) }
    | _ => none
  | .insert task =>
    match s.tasks.get? task with
    | some ⟨address, .numbered session carried⟩ =>
      let (pilots, o) := s.pilots.insert address session carried
      some { s with
        pilots
        told := s.tell o
        tasks := s.setStage task address (.live session) }
    | _ => none
  | .issue task token =>
    match s.tasks.get? task with
    | some ⟨address, .live _⟩ => some { s with
        pilots := s.pilots.issueToken address token s.now
        issued := ⟨token, address, task⟩ :: s.issued }
    | _ => none
  | .free task =>
    match s.tasks.get? task with
    | some ⟨address, .live session⟩ =>
      let (pilots, o) := s.pilots.free address session
      some { s with
        pilots
        gone := if o.isSome then session :: s.gone else s.gone
        tasks := s.setStage task address (.leaving session) }
    | _ => none
  | .age task =>
    match s.tasks.get? task with
    | some ⟨address, .leaving session⟩ => some { s with
        pilots := s.pilots.age address s.now
        tasks := s.setStage task address (.released session s.now) }
    | _ => none
  | .redeem token => some { s with
      pilots := (s.pilots.redeem token s.now).1
      spent := if s.pilots.tokens.contains token then token :: s.spent else s.spent }
  | .pass time => some { s with now := s.now + time }

def run (s : Server News) (acts : List Act) : Option (Server News) := acts.foldlM step s

end Server

end BeforeColony
