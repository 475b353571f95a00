import BeforeColony.Lib.Ring
import BeforeColony.Proto.Ack
import BeforeColony.Proto.Record

/-!
# The client's side of a stream

The client takes a datagram whole or not at all. It keeps the newest records of each suit, which
deltas are undone against, applies each event it hasn't just heard, and holds what it was last
told of each rock and chunk.
-/

set_option autoImplicit false

namespace BeforeColony

open Lib

/-- The newest records of each suit taken, with their ticks. -/
abbrev Baselines : Type := ℕ → History (ℕ × QEntity) kept

namespace Baselines

def blank : QEntity where
  slot := 0
  generation := 0
  frame := .argo
  faction := .almagest
  pilot := .human
  on := none
  pos := fun _ => 0
  vel := fun _ => 0
  rotLargest := 0
  rot := fun _ => 0
  aim := fun _ => 0
  flags := 0
  parts := fun _ => 0

def clear : Baselines := fun _ => History.empty (show 0 < kept by decide) (0, blank)

/-- The record of `slot` taken at `tick`, if it's kept. -/
def get (b : Baselines) (slot tick : ℕ) : Option QEntity :=
  ((b slot).newest.find? fun e => e.1 = tick).map Prod.snd

def put (b : Baselines) (tick : ℕ) (q : QEntity) : Baselines :=
  Function.update b q.slot ((b q.slot).push (tick, q))

end Baselines

/-- How many event ids the client remembers having heard. -/
def seenEvents : ℕ := 512

structure Client where
  acks : AckWindow
  baselines : Baselines
  tick : ℕ
  seen : List ℕ
  applied : List ℕ
  objects : ℕ → Option ℕ
  rocks : ℕ → Option ℕ
  stale : ℕ
  decodeErrors : ℕ

namespace Client

def new : Client where
  acks := {}
  baselines := Baselines.clear
  tick := 0
  seen := []
  applied := []
  objects := fun _ => none
  rocks := fun _ => none
  stale := 0
  decodeErrors := 0

/-- Whether an event's id is heard for the first time, as far as the client remembers. -/
def firstTime (seen : List ℕ) (id : ℕ) : Bool × List ℕ :=
  if id ∈ seen then (false, seen)
  else
    let seen := seen ++ [id]
    (true, if seenEvents < seen.length then seen.tail else seen)

/-- An event heard: a notice or a limb coming off is taken as it comes, the rest once. -/
def applyEvent (c : Client) : Event → Client
  | .leave _ _ => c
  | .sim _ _ (.detach _ _ _ _) => c
  | .sim id _ _ =>
    let (first, seen) := firstTime c.seen id
    if first then { c with seen, applied := c.applied ++ [id] } else { c with seen }

/-- A snapshot's events, unless it is older than one applied. -/
def apply (c : Client) (tick : ℕ) (events : List Event) : Client :=
  if tick < c.tick then c else events.foldl applyEvent { c with tick }

def applySalvage (c : Client) (rocks : List (ℕ × ℕ)) (objects : List (ℕ × Option ℕ)) : Client :=
  { c with
    rocks := rocks.foldl (fun f r => Function.update f r.1 (some r.2)) c.rocks
    objects := objects.foldl (fun f o => Function.update f o.1 o.2) c.objects }

def readRecord (baseline : ℕ → ℕ → Option QEntity) (tick : ℕ) (bits : List Bool) :
    Except DecodeError QEntity :=
  match readEntity baseline tick ⟨bits, false⟩ with
  | (.ok q, r) => if r.overflow then .error .truncated else .ok q
  | (.error e, _) => .error e

/-- The suits' records of a datagram. The first of a new stream has no baselines to stand on. -/
def records (c : Client) (fresh : Bool) (d : Datagram) : Except DecodeError (List QEntity) :=
  d.suits.mapM (readRecord (fun slot tick => if fresh then none else c.baselines.get slot tick) d.tick)

def isFresh : Verdict → Bool
  | .newStream _ => true
  | _ => false

def take (c : Client) (verdict : Verdict) (d : Datagram) (qs : List QEntity) : Client :=
  let held := if isFresh verdict then Baselines.clear else c.baselines
  let taken := { c with
    acks := c.acks.commit d.stream verdict d.tick
    baselines := if verdict = .unsequenced then held else qs.foldl (fun b q => b.put d.tick q) held }
  if d.more then taken else (taken.apply d.tick d.events).applySalvage d.rocks d.objects

def onDatagram (c : Client) (d : Datagram) : Client × Bool :=
  let verdict := c.acks.check d.stream d.seq d.tick
  if verdict = .stale then ({ c with stale := c.stale + 1 }, false)
  else
    match c.records (isFresh verdict) d with
    | .error _ => ({ c with decodeErrors := c.decodeErrors + 1 }, false)
    | .ok qs => (c.take verdict d qs, true)

section Frame

variable (c : Client)

theorem applyEvent_frame (e : Event) :
    (c.applyEvent e).acks = c.acks ∧ (c.applyEvent e).baselines = c.baselines
      ∧ (c.applyEvent e).objects = c.objects ∧ (c.applyEvent e).rocks = c.rocks
      ∧ (c.applyEvent e).decodeErrors = c.decodeErrors := by
  unfold applyEvent
  split
  · exact ⟨rfl, rfl, rfl, rfl, rfl⟩
  · exact ⟨rfl, rfl, rfl, rfl, rfl⟩
  · cases firstTime c.seen _ with
    | mk first seen => cases first <;> exact ⟨rfl, rfl, rfl, rfl, rfl⟩

theorem applyEvents_frame (es : List Event) :
    (es.foldl applyEvent c).acks = c.acks ∧ (es.foldl applyEvent c).baselines = c.baselines
      ∧ (es.foldl applyEvent c).objects = c.objects ∧ (es.foldl applyEvent c).rocks = c.rocks
      ∧ (es.foldl applyEvent c).decodeErrors = c.decodeErrors := by
  induction es generalizing c with
  | nil => exact ⟨rfl, rfl, rfl, rfl, rfl⟩
  | cons e rest ih =>
    obtain ⟨h1, h2, h3, h4, h5⟩ := ih (c.applyEvent e)
    obtain ⟨e1, e2, e3, e4, e5⟩ := c.applyEvent_frame e
    exact ⟨h1.trans e1, h2.trans e2, h3.trans e3, h4.trans e4, h5.trans e5⟩

theorem apply_frame (tick : ℕ) (es : List Event) :
    (c.apply tick es).acks = c.acks ∧ (c.apply tick es).baselines = c.baselines
      ∧ (c.apply tick es).objects = c.objects ∧ (c.apply tick es).rocks = c.rocks
      ∧ (c.apply tick es).decodeErrors = c.decodeErrors := by
  unfold apply
  split
  · exact ⟨rfl, rfl, rfl, rfl, rfl⟩
  · exact applyEvents_frame { c with tick } es

end Frame

section Take

variable (c : Client) (verdict : Verdict) (d : Datagram) (qs : List QEntity)

@[simp] theorem take_acks : (c.take verdict d qs).acks = c.acks.commit d.stream verdict d.tick := by
  unfold take
  cases d.more
  · exact (apply_frame _ _ _).1
  · rfl

@[simp] theorem take_decodeErrors : (c.take verdict d qs).decodeErrors = c.decodeErrors := by
  unfold take
  cases d.more
  · exact (apply_frame _ _ _).2.2.2.2
  · rfl

theorem take_baselines (h : verdict ≠ .unsequenced) : (c.take verdict d qs).baselines
    = qs.foldl (fun b q => b.put d.tick q)
        (if isFresh verdict then Baselines.clear else c.baselines) := by
  have hheld : ∀ held : Baselines, (if verdict = .unsequenced then held
      else qs.foldl (fun b q => b.put d.tick q) held) = qs.foldl (fun b q => b.put d.tick q) held :=
    fun held => if_neg h
  unfold take
  cases d.more
  · simp only [hheld]
    exact (apply_frame _ _ _).2.1
  · simp only [hheld]
    rfl

/-- A tick's further datagrams carry no objects, so taking one leaves them as they are. -/
theorem take_objects (h : d.more = true → d.objects = []) : (c.take verdict d qs).objects
    = d.objects.foldl (fun f o => Function.update f o.1 o.2) c.objects := by
  unfold take
  cases hmore : d.more with
  | false =>
    simp only [applySalvage, Bool.false_eq_true, if_false]
    rw [(apply_frame _ _ _).2.2.1]
  | true =>
    rw [h hmore]
    rfl

end Take

end Client

end BeforeColony
