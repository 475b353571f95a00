import Mathlib.Logic.Function.Basic
import BeforeColony.Lib.Run

/-!
# News of hidden suits

A pilot's suit left in a hide spot is in their record, and news of it (gone, or hit) goes into the
record too: at once if nobody is online, else when the session ends. Each load, each save and each
section under the `online` lock is a step; only one piece of news is applied at a time. The store may
fail a load or a save, which nobody is told of.
-/

set_option autoImplicit false

namespace BeforeColony

open Lib

variable {S D R : Type}

/-- Where a pilot's suit sleeps, and in which server run. -/
structure Sleeper (S : Type) where
  run : ℕ
  suit : S
  deriving DecidableEq

/-- The state `rec` of a suit in a hide spot at a sector tick, there since some time. -/
structure ParkState (D : Type) where
  tick : ℕ
  since : ℕ
  rec_ : D
  deriving DecidableEq

structure PilotRecord (S D R : Type) where
  sleeper : Option (Sleeper S)
  parked : Option (ParkState D)
  rest : R
  deriving DecidableEq

inductive ParkNews (S D : Type)
  | gone (suit : S)
  | hit (suit : S) (tick : ℕ) (rec : D)
  deriving DecidableEq

def ParkNews.suit : ParkNews S D → S
  | .gone suit => suit
  | .hit suit _ _ => suit

namespace PilotRecord

def Keeps (run : ℕ) (r : PilotRecord S D R) (suit : S) (kept : ParkState D) : Prop :=
  r.sleeper = some ⟨run, suit⟩ ∧ r.parked = some kept

/-- What news makes of a record; `none` if it isn't for it, or is older than what it has. -/
def change [DecidableEq S] (run : ℕ) (news : ParkNews S D) (r : PilotRecord S D R) :
    Option (PilotRecord S D R) :=
  if r.sleeper = some ⟨run, news.suit⟩ then
    match r.parked with
    | none => none
    | some kept =>
      match news with
      | .gone _ => some { r with parked := none }
      | .hit _ tick rec =>
        if tick ≤ kept.tick then none else some { r with parked := some ⟨tick, kept.since, rec⟩ }
  else none

end PilotRecord

/-- A session of the pilot: none yet; claiming, with the news it carries; about to be theirs; or
theirs, the how-manieth it was, with the record it loaded and the suit it flies, since a tick. -/
inductive PilotTask (S D R : Type)
  | idle
  | claiming (carried : List (ParkNews S D))
  | clear (carried : List (ParkNews S D))
  | live (claim : ℕ) (record : Option (PilotRecord S D R)) (suit : Option (S × ℕ))

def PilotTask.carried : PilotTask S D R → List (ParkNews S D)
  | .claiming carried => carried
  | .clear carried => carried
  | _ => []

@[simp] theorem PilotTask.carried_idle : (.idle : PilotTask S D R).carried = [] := rfl

@[simp] theorem PilotTask.carried_claiming (news : List (ParkNews S D)) :
    (.claiming news : PilotTask S D R).carried = news := rfl

@[simp] theorem PilotTask.carried_clear (news : List (ParkNews S D)) :
    (.clear news : PilotTask S D R).carried = news := rfl

@[simp] theorem PilotTask.carried_live (claim : ℕ) (record : Option (PilotRecord S D R))
    (suit : Option (S × ℕ)) : (.live claim record suit : PilotTask S D R).carried = [] := rfl

/-- How far `apply_park_news` is: past its first look; with the record changed, loaded after so many
claims, and whether a session has saved since; or past its second look too. -/
inductive Applying (S D R : Type)
  | looked
  | changed (record : PilotRecord S D R) (loaded : ℕ) (late : Bool)
  | clear (record : PilotRecord S D R) (loaded : ℕ) (late : Bool)

/-- A save of news: what was stored, by the how-manieth session to claim, and what it stored, loaded
after so many claims. -/
structure Applied (S D R : Type) where
  news : ParkNews S D
  before : Option (PilotRecord S D R)
  savedBy : ℕ
  after : PilotRecord S D R
  loaded : ℕ

/-- One pilot: the sector's tick, the store, the live session with the news kept for it, all their
sessions, and the news to apply. And all news delivered, all a session parked, and the saves made
of news. -/
structure Parking (S D R : Type) where
  now : ℕ
  stored : Option (PilotRecord S D R)
  savedBy : ℕ
  online : Option (ℕ × List (ParkNews S D))
  claims : ℕ
  tasks : ℕ → PilotTask S D R
  waiting : List (ParkNews S D)
  applying : Option (ParkNews S D × Applying S D R)
  delivered : List (ParkNews S D)
  parks : List (S × ParkState D)
  applied : List (Applied S D R)

namespace Parking

inductive Act (S D R : Type)
  | tick
  | deliver (news : ParkNews S D)
  | claim (task : ℕ)
  | look (task : ℕ)
  | forget (task : ℕ)
  | insert (task : ℕ)
  | load (task : ℕ) (ok : Bool)
  | take (task : ℕ) (suit : S)
  | park (task : ℕ) (since : ℕ) (rec : Option D)
  | edit (task : ℕ) (rest : R)
  | save (task : ℕ) (ok : Bool)
  | release (task : ℕ)
  | start (i : ℕ)
  | applyLoad (ok : Bool)
  | recheck
  | applySave (ok : Bool)

variable [DecidableEq S] [DecidableEq D] (run : ℕ) (new : PilotRecord S D R)

def setTask (s : Parking S D R) (task : ℕ) (t : PilotTask S D R) : ℕ → PilotTask S D R :=
  Function.update s.tasks task t

/-- News from the sector, of what it has seen by now. -/
def deliver (s : Parking S D R) (news : ParkNews S D) : Parking S D R :=
  match news with
  | .gone _ => { s with waiting := s.waiting ++ [news], delivered := news :: s.delivered }
  | .hit _ tick _ =>
    if tick ≤ s.now then
      { s with waiting := s.waiting ++ [news], delivered := news :: s.delivered }
    else s

/-- A claim looks whether the pilot has a session. -/
def look (s : Parking S D R) (task : ℕ) : Parking S D R :=
  match s.tasks task, s.online with
  | .claiming carried, none => { s with tasks := s.setTask task (.clear carried) }
  | _, _ => s

/-- It didn't go in time: it's forgotten, but for its news. -/
def forget (s : Parking S D R) (task : ℕ) : Parking S D R :=
  match s.tasks task, s.online with
  | .claiming carried, some (_, pending) => { s with
      online := none
      tasks := s.setTask task (.claiming (carried ++ pending)) }
  | _, _ => s

def insert (s : Parking S D R) (task : ℕ) : Parking S D R :=
  match s.tasks task with
  | .clear carried => { s with
      online := some (task, carried)
      claims := s.claims + 1
      tasks := s.setTask task (.live (s.claims + 1) none none) }
  | _ => s

/-- `load_or_new`; the session has the record forget the suit before it first saves. -/
def load (s : Parking S D R) (task : ℕ) (ok : Bool) : Parking S D R :=
  match s.tasks task with
  | .live claim none suit =>
    let r := if ok then s.stored.getD new else new
    { s with tasks := s.setTask task (.live claim (some { r with sleeper := none, parked := none }) suit) }
  | _ => s

/-- The session flies a suit, or wakes in one: none that is gone. -/
def take (s : Parking S D R) (task : ℕ) (suit : S) : Parking S D R :=
  match s.tasks task with
  | .live claim (some r) _ =>
    if r.sleeper = none ∧ .gone suit ∉ s.delivered then
      { s with tasks := s.setTask task (.live claim (some r) (some (suit, s.now))) }
    else s
  | _ => s

/-- The session leaves its suit asleep, in a hide spot or not. -/
def park (s : Parking S D R) (task since : ℕ) (rec : Option D) : Parking S D R :=
  match s.tasks task with
  | .live claim (some r) (some (suit, at_)) =>
    let kept := rec.map (⟨s.now, since, ·⟩)
    { s with
      tasks := s.setTask task
        (.live claim (some { r with sleeper := some ⟨run, suit⟩, parked := kept }) (some (suit, at_)))
      parks := kept.toList.map (suit, ·) ++ s.parks }
  | _ => s

def edit (s : Parking S D R) (task : ℕ) (rest : R) : Parking S D R :=
  match s.tasks task with
  | .live claim (some r) suit =>
    { s with tasks := s.setTask task (.live claim (some { r with rest := rest }) suit) }
  | _ => s

/-- News that was loaded before a session's save is late from then on. -/
def Applying.overtake : Applying S D R → Applying S D R
  | .looked => .looked
  | .changed record loaded _ => .changed record loaded true
  | .clear record loaded _ => .clear record loaded true

/-- A save that fails leaves what is stored as it is. -/
def save (s : Parking S D R) (task : ℕ) (ok : Bool) : Parking S D R :=
  match s.tasks task, ok with
  | .live claim (some r) _, true => { s with
      stored := some r
      savedBy := claim
      applying := s.applying.map fun a => (a.1, Applying.overtake a.2) }
  | _, _ => s

/-- The pilot is free, if the session is still theirs; what was kept for it is applied next. -/
def release (s : Parking S D R) (task : ℕ) : Parking S D R :=
  match s.tasks task with
  | .live _ _ _ =>
    match s.online with
    | some (session, pending) =>
      if session = task then { s with
        online := none
        waiting := s.waiting ++ pending
        tasks := s.setTask task .idle }
      else { s with tasks := s.setTask task .idle }
    | none => { s with tasks := s.setTask task .idle }
  | _ => s

/-- `unless_online` finds somebody: the news is kept for when their session ends. -/
def keep (s : Parking S D R) (news : ParkNews S D) (session : ℕ) (pending : List (ParkNews S D)) :
    Parking S D R :=
  { s with online := some (session, pending ++ [news]), applying := none }

def start (s : Parking S D R) (i : ℕ) : Parking S D R :=
  match s.applying, s.waiting[i]? with
  | none, some news =>
    let s := { s with waiting := s.waiting.eraseIdx i }
    match s.online with
    | some (session, pending) => s.keep news session pending
    | none => { s with applying := some (news, .looked) }
  | _, _ => s

def applyLoad (s : Parking S D R) (ok : Bool) : Parking S D R :=
  match s.applying with
  | some (news, .looked) =>
    match if ok then s.stored.bind (PilotRecord.change run news) else none with
    | none => { s with applying := none }
    | some r => { s with applying := some (news, .changed r s.claims false) }
  | _ => s

def recheck (s : Parking S D R) : Parking S D R :=
  match s.applying with
  | some (news, .changed r loaded late) =>
    match s.online with
    | some (session, pending) => s.keep news session pending
    | none => { s with applying := some (news, .clear r loaded late) }
  | _ => s

/-- The news is done with, whether or not it could be saved. -/
def applySave (s : Parking S D R) (ok : Bool) : Parking S D R :=
  match s.applying with
  | some (news, .clear r loaded _) =>
    if ok then { s with
      stored := some r
      applying := none
      applied := ⟨news, s.stored, s.savedBy, r, loaded⟩ :: s.applied }
    else { s with applying := none }
  | _ => s

def step (s : Parking S D R) : Act S D R → Parking S D R
  | .tick => { s with now := s.now + 1 }
  | .deliver news => s.deliver news
  | .claim task =>
    match s.tasks task with
    | .idle => { s with tasks := s.setTask task (.claiming []) }
    | _ => s
  | .look task => s.look task
  | .forget task => s.forget task
  | .insert task => s.insert task
  | .load task ok => s.load new task ok
  | .take task suit => s.take task suit
  | .park task since rec => s.park run task since rec
  | .edit task rest => s.edit task rest
  | .save task ok => s.save task ok
  | .release task => s.release task
  | .start i => s.start i
  | .applyLoad ok => s.applyLoad run ok
  | .recheck => s.recheck
  | .applySave ok => s.applySave ok

/-- Nobody is online and nothing is delivered yet; the record may keep a suit. -/
def begin (now : ℕ) (stored : Option (PilotRecord S D R)) : Parking S D R where
  now := now
  stored := stored
  savedBy := 0
  online := none
  claims := 0
  tasks := fun _ => .idle
  waiting := []
  applying := none
  delivered := []
  parks := (stored.bind fun r => r.sleeper.bind fun z => r.parked.map (z.suit, ·)).toList
  applied := []

/-! ## What is asked of it -/

/-- News on its way: waiting, being applied, or kept for a session. -/
def InFlight (s : Parking S D R) (news : ParkNews S D) : Prop :=
  news ∈ s.waiting ∨ (∃ stage, s.applying = some (news, stage)) ∨
    (∃ session pending, s.online = some (session, pending) ∧ news ∈ pending) ∨
      ∃ task, news ∈ (s.tasks task).carried

def Quiet (s : Parking S D R) : Prop := ∀ news, ¬ s.InFlight news

def Stores (s : Parking S D R) (suit : S) (kept : ParkState D) : Prop :=
  ∃ r, s.stored = some r ∧ r.Keeps run suit kept

/-- Once all news is applied, a suit gone isn't kept, one kept is as it was last parked or hit, and
the latest hit is what stays; and each save of news changes only the suit it is of, in what is
stored by then, which no session claimed since the load has saved. -/
structure Kept (s : Parking S D R) : Prop where
  gone : s.Quiet → ∀ suit, .gone suit ∈ s.delivered → ∀ kept, ¬ s.Stores run suit kept
  latest : s.Quiet → ∀ suit tick rec, .hit suit tick rec ∈ s.delivered →
    ∀ kept, s.Stores run suit kept → tick ≤ kept.tick
  source : ∀ suit kept, s.Stores run suit kept →
    .hit suit kept.tick kept.rec_ ∈ s.delivered ∨ (suit, kept) ∈ s.parks
  applied : ∀ a ∈ s.applied, a.before.bind (PilotRecord.change run a.news) = some a.after ∧
    a.savedBy ≤ a.loaded

/-- A session put in the place of another finds no news kept for it. One that isn't the pilot's any
more saves no suit that there was news of. News is loaded and saved without fail, and isn't saved if
a session has saved since its load. -/
def Clean (s : Parking S D R) : Act S D R → Prop
  | .insert _ => ∀ session pending, s.online = some (session, pending) → pending = []
  | .save task ok => ok = true → ∀ claim r suit, s.tasks task = .live claim (some r) suit →
      (∀ pending, s.online ≠ some (task, pending)) →
        ∀ news ∈ s.delivered, r.sleeper ≠ some ⟨run, news.suit⟩
  | .applyLoad ok => ok = true
  | .applySave ok => ok = true ∧
      ∀ news r loaded late, s.applying = some (news, .clear r loaded late) → late = false
  | _ => True

end Parking

end BeforeColony
