import BeforeColony.Lib.Replay
import BeforeColony.Lib.Run
import BeforeColony.Lib.Table
import BeforeColony.Proto.Control
import BeforeColony.Proto.Types
import Mathlib.Data.List.Perm.Basic

/-!
# The roster and those who follow it

The server keeps one roster of who flies which suit. Whoever changes it tells everyone, after it has
let go of the lock; a session reads it whole as it comes in, follows the changes from when it begins
to play, and reads it whole again when the channel has dropped some before it got to them. What each
client shows in the end is compared with the roster.
-/

set_option autoImplicit false

namespace BeforeColony.Rosters

open Lib

/-- Changes the channel keeps for a session that has not heard them yet. -/
def capacity : ℕ := 256

structure RosterEntry where
  name : List Char
  pilot : PilotKind
  /-- The slot of the session that seated the pilot. -/
  clientSlot : ℕ
  flags : UInt8
  address : Option (List Char)
deriving DecidableEq, Repr

/-- The client slot of a suit nobody's session seated. -/
def noSession : ℕ := 65535

structure RosterUpdate where
  suit : ℕ
  pilot : PilotKind
  name : List Char
  flags : UInt8
deriving DecidableEq, Repr

structure Roster where
  slot : ℕ
  pilot : PilotKind
  name : Name
  flags : UInt8
deriving DecidableEq

/-- What a client has of a suit: its pilot's name and kind, and the flags. -/
abbrev Shown := Option (List Char × PilotKind) × Option UInt8

def nobody : Shown := (none, none)

/-- What a client has of the suit once it is told. -/
def Roster.shown (m : Roster) : Shown :=
  if m.name.text.isEmpty then nobody else (some (m.name.text, m.pilot), some m.flags)

def Roster.line (m : Roster) : ℕ × Shown := (m.slot, m.shown)

namespace RosterUpdate

def msg (u : RosterUpdate) : Roster := ⟨u.suit, u.pilot, Name.new u.name, u.flags⟩

def line (u : RosterUpdate) : ℕ × Shown := u.msg.line

end RosterUpdate

namespace RosterEntry

def msg (e : RosterEntry) (suit : ℕ) : Roster := ⟨suit, e.pilot, Name.new e.name, e.flags⟩

def update (e : RosterEntry) (suit : ℕ) : RosterUpdate := ⟨suit, e.pilot, e.name, e.flags⟩

end RosterEntry

/-! ## The client -/

structure Client where
  roster : Table ℕ (List Char × PilotKind) := .empty
  rosterFlags : Table ℕ UInt8 := .empty

namespace Client

def onRoster (c : Client) (m : Roster) : Client :=
  if m.name.text.isEmpty then
    { roster := c.roster.erase m.slot, rosterFlags := c.rosterFlags.erase m.slot }
  else
    { roster := c.roster.insert m.slot (m.name.text, m.pilot)
      rosterFlags := c.rosterFlags.insert m.slot m.flags }

def shows (c : Client) (suit : ℕ) : Shown := (c.roster.get? suit, c.rosterFlags.get? suit)

theorem shows_onRoster (c : Client) (m : Roster) :
    (c.onRoster m).shows = Function.update c.shows m.slot m.shown := by
  funext suit
  rw [onRoster, Roster.shown]
  by_cases hsuit : suit = m.slot
  · subst hsuit
    rw [Function.update_self]
    split
    · rw [shows, Table.get?_erase, Table.get?_erase, if_pos rfl, if_pos rfl]
      rfl
    · rw [shows, Table.get?_insert_self, Table.get?_insert_self]
  · rw [Function.update_of_ne hsuit]
    split
    · rw [shows, Table.get?_erase, Table.get?_erase, if_neg hsuit, if_neg hsuit]
      rfl
    · rw [shows, Table.get?_insert_of_ne _ _ hsuit, Table.get?_insert_of_ne _ _ hsuit]
      rfl

end Client

/-! ## Sessions -/

inductive Doing where
  /-- It has read the roster and does not follow the changes yet. -/
  | greeting
  | listening
  /-- Some changes were dropped, and it has not read the roster again. -/
  | lagged
deriving DecidableEq, Repr

structure Session where
  doing : Doing := .greeting
  /-- How many changes are behind it. -/
  pos : ℕ := 0
  wire : List Roster
  client : Client := {}
  /-- It has read the roster again since it began to listen. -/
  resynced : Bool := false
  /-- Suits a change of which went by it, and of which it was told nothing since. -/
  missed : List ℕ := []

namespace Session

/-- A change is sent to everyone who listens, and goes by one who does not yet. -/
def passedBy (s : Session) (suit : ℕ) : Session :=
  if s.doing = .greeting then { s with missed := suit :: s.missed } else s

def subscribe (s : Session) (sent : List RosterUpdate) : Session :=
  if s.doing = .greeting then { s with doing := .listening, pos := sent.length } else s

/-- The changes the channel has dropped before it got to them. -/
def dropped (s : Session) (sent : List RosterUpdate) : List RosterUpdate :=
  (sent.drop s.pos).take (sent.length - capacity - s.pos)

def recv (s : Session) (sent : List RosterUpdate) : Session :=
  if s.doing = .listening then
    if s.pos + capacity < sent.length then
      { s with
        doing := .lagged
        pos := sent.length - capacity
        missed := s.missed ++ (s.dropped sent).map RosterUpdate.suit }
    else
      match sent[s.pos]? with
      | some u =>
        { s with
          pos := s.pos + 1
          wire := s.wire ++ [u.msg]
          missed := s.missed.filter fun suit => suit ≠ u.suit }
      | none => s
  else s

/-- What it tells its client of everyone on the roster, in the order it comes across them. -/
def greet (everyone : List (ℕ × RosterEntry)) : List Roster := everyone.map fun p => p.2.msg p.1

def resync (s : Session) (everyone : List (ℕ × RosterEntry)) : Session :=
  if s.doing = .lagged then
    { s with
      doing := .listening
      resynced := true
      wire := s.wire ++ greet everyone
      missed := s.missed.filter fun suit => suit ∉ everyone.map Prod.fst }
  else s

def tell (s : Session) : Session :=
  match s.wire with
  | m :: rest => { s with client := s.client.onRoster m, wire := rest }
  | [] => s

def ahead (s : Session) (sent : List RosterUpdate) : List RosterUpdate :=
  match s.doing with
  | .greeting => []
  | .listening | .lagged => sent.drop s.pos

end Session

/-! ## The server -/

structure GameShared where
  roster : Table ℕ RosterEntry := .empty
  /-- All that was ever told to everyone. -/
  sent : List RosterUpdate := []
  /-- Changes made, whose makers have not told everyone yet. -/
  unsent : List RosterUpdate := []
  sessions : ℕ → Option Session := fun _ => none

inductive Act where
  | insert (suit : ℕ) (e : RosterEntry)
  | setRosterFlags (suit : ℕ) (pilot : PilotKind) (name : List Char) (flags : UInt8)
  | forget (suit : ℕ) (pilot : PilotKind)
  /-- An ace's name comes off the slot it had. -/
  | retract (suit : ℕ) (name : List Char)
  /-- One of those who changed the roster tells everyone. -/
  | send (i : ℕ)
  | enter (k : ℕ) (everyone : List (ℕ × RosterEntry))
  | subscribe (k : ℕ)
  | recv (k : ℕ)
  | resync (k : ℕ) (everyone : List (ℕ × RosterEntry))
  | tell (k : ℕ)
  | leave (k : ℕ)

namespace GameShared

/-- The roster is written, and its writer has yet to say so. -/
def write (g : GameShared) (roster : Table ℕ RosterEntry) (u : RosterUpdate) : GameShared :=
  { g with roster := roster, unsent := g.unsent ++ [u] }

def setRosterFlags (g : GameShared) (u : RosterUpdate) : GameShared :=
  match g.roster.get? u.suit with
  | some e => g.write (g.roster.insert u.suit { e with flags := u.flags }) u
  | none => g.write g.roster u

/-- An ace's entry, and not one who has its slot by now. -/
def ours (g : GameShared) (suit : ℕ) (name : List Char) : Bool :=
  (g.roster.get? suit).any fun e =>
    e.pilot = .drone ∧ e.clientSlot = noSession ∧ e.name = name

def send (g : GameShared) (i : ℕ) : GameShared :=
  match g.unsent[i]? with
  | some u =>
    { g with
      sent := g.sent ++ [u]
      unsent := g.unsent.eraseIdx i
      sessions := fun k => (g.sessions k).map fun s => s.passedBy u.suit }
  | none => g

def at_ (g : GameShared) (k : ℕ) (f : Session → Session) : GameShared :=
  { g with sessions := Function.update g.sessions k ((g.sessions k).map f) }

def step (g : GameShared) : Act → GameShared
  | .insert suit e => g.write (g.roster.insert suit e) (e.update suit)
  | .setRosterFlags suit pilot name flags => g.setRosterFlags ⟨suit, pilot, name, flags⟩
  | .forget suit pilot => g.write (g.roster.erase suit) ⟨suit, pilot, [], 0⟩
  | .retract suit name =>
    if g.ours suit name then g.write (g.roster.erase suit) ⟨suit, .drone, [], 0⟩ else g
  | .send i => g.send i
  | .enter k everyone =>
    if g.sessions k = none ∧ everyone.Perm g.roster.entries then
      { g with sessions := Function.update g.sessions k (some { wire := Session.greet everyone }) }
    else g
  | .subscribe k => g.at_ k fun s => s.subscribe g.sent
  | .recv k => g.at_ k fun s => s.recv g.sent
  | .resync k everyone =>
    if everyone.Perm g.roster.entries then g.at_ k fun s => s.resync everyone else g
  | .tell k => g.at_ k Session.tell
  | .leave k => { g with sessions := Function.update g.sessions k none }

/-- Changes of one suit are told in the order they were made. -/
def Ordered (g : GameShared) : Act → Prop
  | .send i => ∀ u ∈ g.unsent[i]?, ∀ earlier ∈ g.unsent.take i, earlier.suit ≠ u.suit
  | _ => True

/-- Flags of the suit are set for the pilot who is on the roster with it: a session that leaves late
may find that its suit's number is another's by now, or nobody's. -/
def Own (suit : ℕ) (g : GameShared) : Act → Prop
  | .setRosterFlags other pilot name _ =>
    other = suit → ∃ e, g.roster.get? suit = some e ∧ e.name = name ∧ e.pilot = pilot
  | _ => True

def shown (g : GameShared) (suit : ℕ) : Shown :=
  ((g.roster.get? suit).map fun e => (e.msg suit).shown).getD nobody

@[simp] theorem shown_none {g : GameShared} {suit : ℕ} (h : g.roster.get? suit = none) :
    g.shown suit = nobody := by
  rw [shown, h]
  rfl

end GameShared

/-! ## What a session will have told its client -/

/-- What has been said of a suit, told or not, is what the roster has, for the suits whose flags were
only ever set for their own pilots. -/
def Told (own : ℕ → Prop) (g : GameShared) : Prop :=
  ∀ suit, own suit →
    replay ((g.sent ++ g.unsent).map RosterUpdate.line) (fun _ => nobody) suit = g.shown suit

namespace Session

/-- What its client has still to hear, of what has been said so far. -/
def owed (s : Session) (g : GameShared) : List (ℕ × Shown) :=
  s.wire.map Roster.line ++ (s.ahead g.sent ++ g.unsent).map RosterUpdate.line

/-- Once it has heard all, a client shows the roster, but for suits its session missed; of these one
that read the roster again shows at worst someone who has gone. -/
structure Follows (own : ℕ → Prop) (g : GameShared) (s : Session) : Prop where
  pos : s.pos ≤ g.sent.length
  fresh : s.doing = .greeting → s.resynced = false
  agrees : ∀ suit, own suit → suit ∉ s.missed →
    replay (s.owed g) s.client.shows suit = g.shown suit
  gone : s.resynced = true → s.doing = .listening → ∀ suit, own suit → suit ∈ s.missed →
    suit ∉ (s.ahead g.sent ++ g.unsent).map RosterUpdate.suit → g.shown suit = nobody

theorem map_line (us : List RosterUpdate) :
    (us.map RosterUpdate.line).map Prod.fst = us.map RosterUpdate.suit := by
  rw [List.map_map]
  rfl

theorem ahead_suffix (s : Session) (sent : List RosterUpdate) : s.ahead sent <:+ sent := by
  unfold ahead
  split
  · exact List.nil_suffix
  · exact List.drop_suffix _ _
  · exact List.drop_suffix _ _

variable {own : ℕ → Prop} {g : GameShared} {s : Session}

/-- A suit yet to be heard of comes out as the roster has it. -/
theorem replay_told (htold : Told own g) {tail : List RosterUpdate} (htail : tail <:+ g.sent)
    {suit : ℕ} (hown : own suit) (h : suit ∈ (tail ++ g.unsent).map RosterUpdate.suit) (us : List (ℕ × Shown))
    (view : ℕ → Shown) :
    replay (us ++ (tail ++ g.unsent).map RosterUpdate.line) view suit = g.shown suit := by
  obtain ⟨front, hfront⟩ := htail
  rw [← map_line] at h
  have hsplit : (front ++ (tail ++ g.unsent)).map RosterUpdate.line
      = front.map RosterUpdate.line ++ (tail ++ g.unsent).map RosterUpdate.line :=
    List.map_append
  rw [Replay.of_suffix h us view fun _ => nobody, ← htold suit hown, ← hfront, List.append_assoc, hsplit]
  exact (Replay.of_suffix h _ _ _).symm

theorem map_greet (everyone : List (ℕ × RosterEntry)) :
    ((greet everyone).map Roster.line).map Prod.fst = everyone.map Prod.fst := by
  rw [greet, List.map_map, List.map_map]
  rfl

theorem get?_off {everyone : List (ℕ × RosterEntry)} (hperm : everyone.Perm g.roster.entries)
    {suit : ℕ} (h : suit ∉ everyone.map Prod.fst) : g.roster.get? suit = none := by
  cases hget : g.roster.get? suit with
  | none => rfl
  | some e =>
    have hmem := hperm.mem_iff.mpr (Table.mem_entries_iff.mpr hget)
    exact absurd (List.mem_map_of_mem hmem) h

/-- Who reads the roster whole has every suit right, but one that is not on it and that it had wrong
before. -/
theorem replay_greet (htold : Told own g) {everyone : List (ℕ × RosterEntry)}
    (hperm : everyone.Perm g.roster.entries) {tail : List RosterUpdate} (htail : tail <:+ g.sent)
    (us : List (ℕ × Shown)) {view : ℕ → Shown} {suit : ℕ} (hown : own suit)
    (h : suit ∉ everyone.map Prod.fst → suit ∉ (tail ++ g.unsent).map RosterUpdate.suit →
      replay us view suit = nobody) :
    replay (us ++ (greet everyone).map Roster.line ++ (tail ++ g.unsent).map RosterUpdate.line) view
      suit = g.shown suit := by
  by_cases hlater : suit ∈ (tail ++ g.unsent).map RosterUpdate.suit
  · exact replay_told htold htail hown hlater _ _
  · have hquiet := hlater
    rw [← map_line] at hquiet
    rw [Replay.append, Replay.of_notMem hquiet, Replay.append]
    by_cases hon : suit ∈ everyone.map Prod.fst
    · obtain ⟨⟨k, e⟩, hmem, hk⟩ := List.mem_map.mp hon
      change k = suit at hk
      subst hk
      have hnodup : (((greet everyone).map Roster.line).map Prod.fst).Nodup := by
        rw [map_greet]
        exact (hperm.map Prod.fst).nodup_iff.mpr g.roster.keys_nodup
      have hentry : (k, (e.msg k).shown) ∈ (greet everyone).map Roster.line :=
        List.mem_map.mpr ⟨e.msg k, List.mem_map.mpr ⟨(k, e), hmem, rfl⟩, rfl⟩
      rw [Replay.of_entry hnodup hentry, GameShared.shown,
        Table.mem_entries_iff.mp (hperm.mem_iff.mp hmem)]
      rfl
    · rw [GameShared.shown_none (get?_off hperm hon), Replay.of_notMem]
      · exact h hon hlater
      · rw [map_greet]
        exact hon

theorem Follows.frame (h : Follows own g s) (sessions : ℕ → Option Session) :
    Follows own { g with sessions := sessions } s := ⟨h.pos, h.fresh, h.agrees, h.gone⟩

theorem follows_enter (htold : Told own g) {everyone : List (ℕ × RosterEntry)}
    (hperm : everyone.Perm g.roster.entries) : Follows own g { wire := greet everyone } := by
  refine ⟨Nat.zero_le _, fun _ => rfl, ?_, nofun⟩
  intro suit hown _
  exact replay_greet htold hperm List.nil_suffix [] hown fun _ _ => rfl

theorem Follows.subscribe (h : Follows own g s) : Follows own g (s.subscribe g.sent) := by
  unfold Session.subscribe
  split
  · rename_i hgreeting
    have hahead : s.ahead g.sent = g.sent.drop g.sent.length := by
      rw [Session.ahead, hgreeting, List.drop_length]
    refine ⟨le_refl _, nofun, ?_, ?_⟩
    · intro suit hown hsuit
      have hagrees := h.agrees suit hown hsuit
      rw [owed, hahead] at hagrees
      exact hagrees
    · intro hresynced
      have hfresh := h.fresh hgreeting
      rw [hfresh] at hresynced
      exact nomatch hresynced
  · exact h

/-- The channel has dropped changes the session has not heard: it misses their suits. -/
theorem Follows.lag (h : Follows own g s) (hlistening : s.doing = .listening)
    (hlag : s.pos + capacity < g.sent.length) :
    Follows own g { s with
      doing := .lagged
      pos := g.sent.length - capacity
      missed := s.missed ++ (s.dropped g.sent).map RosterUpdate.suit } := by
  refine ⟨Nat.sub_le _ _, nofun, ?_, nofun⟩
  intro suit hown hsuit
  rw [List.mem_append, not_or] at hsuit
  obtain ⟨hmissed, hdropped⟩ := hsuit
  rw [← map_line] at hdropped
  have hsplit : g.sent.drop s.pos = s.dropped g.sent ++ g.sent.drop (g.sent.length - capacity) := by
    have heq : (g.sent.drop s.pos).drop (g.sent.length - capacity - s.pos)
        = g.sent.drop (g.sent.length - capacity) := by
      have hsum : s.pos + (g.sent.length - capacity - s.pos) = g.sent.length - capacity := by
        omega
      rw [List.drop_drop, hsum]
    rw [dropped, ← heq, List.take_append_drop]
  have hagrees := h.agrees suit hown hmissed
  rw [owed, ahead, hlistening] at hagrees
  dsimp only at hagrees
  rw [hsplit, List.append_assoc, List.map_append, Replay.skip hdropped] at hagrees
  exact hagrees

/-- The session passes on the next change it has not heard. -/
theorem Follows.deliver (htold : Told own g) (h : Follows own g s) (hlistening : s.doing = .listening)
    {u : RosterUpdate} (hu : g.sent[s.pos]? = some u) :
    Follows own g { s with
      pos := s.pos + 1
      wire := s.wire ++ [u.msg]
      missed := s.missed.filter fun suit => suit ≠ u.suit } := by
  obtain ⟨hlt, hget⟩ := List.getElem?_eq_some_iff.mp hu
  have hdrop : g.sent.drop s.pos = u :: g.sent.drop (s.pos + 1) := by
    rw [List.drop_eq_getElem_cons hlt, hget]
  have hahead : s.ahead g.sent = g.sent.drop s.pos := by
    rw [ahead, hlistening]
  refine ⟨hlt, ?_, ?_, ?_⟩
  · intro hgreeting
    exact h.fresh hgreeting
  · intro suit hown hsuit
    have howed : owed { s with
        pos := s.pos + 1
        wire := s.wire ++ [u.msg]
        missed := s.missed.filter fun suit => suit ≠ u.suit } g = s.owed g := by
      rw [owed, owed, hahead, hdrop, ahead, hlistening]
      dsimp only
      rw [List.map_append, List.append_assoc, List.cons_append, List.map_cons]
      rfl
    rw [howed]
    by_cases hsame : suit = u.suit
    · apply replay_told htold (s.ahead_suffix g.sent) hown
      rw [hahead, hdrop, hsame]
      exact List.mem_cons_self
    · apply h.agrees suit hown
      intro hmissed
      exact hsuit (List.mem_filter.mpr ⟨hmissed, by simpa using hsame⟩)
  · intro hresynced _ suit hown hsuit hnone
    obtain ⟨hmissed, hne⟩ := List.mem_filter.mp hsuit
    apply h.gone hresynced hlistening suit hown hmissed
    rw [hahead, hdrop, List.cons_append, List.map_cons, List.mem_cons, not_or]
    constructor
    · simpa using hne
    · rw [ahead, hlistening] at hnone
      exact hnone

theorem Follows.recv (htold : Told own g) (h : Follows own g s) : Follows own g (s.recv g.sent) := by
  unfold Session.recv
  split
  · rename_i hlistening
    split
    · rename_i hlag
      exact h.lag hlistening hlag
    · split
      · rename_i u hu
        exact h.deliver htold hlistening hu
      · exact h
  · exact h

theorem Follows.resync (htold : Told own g) (h : Follows own g s) {everyone : List (ℕ × RosterEntry)}
    (hperm : everyone.Perm g.roster.entries) : Follows own g (s.resync everyone) := by
  unfold Session.resync
  split
  · rename_i hlagged
    have hahead : s.ahead g.sent = g.sent.drop s.pos := by
      rw [ahead, hlagged]
    refine ⟨h.pos, nofun, ?_, ?_⟩
    · intro suit hown hsuit
      rw [owed, List.map_append]
      apply replay_greet htold hperm (ahead_suffix _ _) (s.wire.map Roster.line) hown
      intro hnot hquiet
      have hmissed : suit ∉ s.missed := by
        intro hmissed
        exact hsuit (List.mem_filter.mpr ⟨hmissed, by simpa using hnot⟩)
      have hagrees := h.agrees suit hown hmissed
      have hlines : suit ∉ ((g.sent.drop s.pos ++ g.unsent).map RosterUpdate.line).map Prod.fst := by
        rw [map_line]
        exact hquiet
      rw [owed, hahead, Replay.append, Replay.of_notMem hlines,
        GameShared.shown_none (get?_off hperm hnot)] at hagrees
      exact hagrees
    · intro _ _ suit _ hsuit _
      apply GameShared.shown_none
      apply get?_off hperm
      simpa using (List.mem_filter.mp hsuit).2
  · exact h

theorem Follows.tell (h : Follows own g s) : Follows own g s.tell := by
  unfold Session.tell
  split
  · rename_i m rest hwire
    refine ⟨h.pos, h.fresh, ?_, h.gone⟩
    intro suit hown hsuit
    have hagrees := h.agrees suit hown hsuit
    rw [owed, hwire] at hagrees
    rw [Client.shows_onRoster]
    exact hagrees
  · exact h

/-- The roster is written: what the session owes its client has the change too. -/
theorem Follows.write (h : Follows own g s) {roster : Table ℕ RosterEntry} {u : RosterUpdate}
    (hshown : ∀ suit, own suit →
      (g.write roster u).shown suit = Function.update g.shown u.suit u.msg.shown suit) :
    Follows own (g.write roster u) s := by
  have howed : s.owed (g.write roster u) = s.owed g ++ [(u.suit, u.msg.shown)] := by
    rw [owed, owed, GameShared.write]
    dsimp only
    rw [← List.append_assoc, List.map_append, ← List.append_assoc]
    rfl
  refine ⟨h.pos, h.fresh, ?_, ?_⟩
  · intro suit hown hsuit
    rw [howed, Replay.snoc, hshown suit hown]
    by_cases hsame : suit = u.suit
    · rw [hsame, Function.update_self, Function.update_self]
    · rw [Function.update_of_ne hsame, Function.update_of_ne hsame]
      exact h.agrees suit hown hsuit
  · intro hresynced hlistening suit hown hsuit hnone
    rw [GameShared.write] at hnone
    dsimp only at hnone
    rw [← List.append_assoc, List.map_append, List.mem_append, not_or] at hnone
    obtain ⟨hbefore, hlast⟩ := hnone
    have hne : suit ≠ u.suit := by
      simpa using hlast
    rw [hshown suit hown, Function.update_of_ne hne]
    exact h.gone hresynced hlistening suit hown hsuit hbefore

/-- A change is told to everyone: it is behind those still to be told, which are of other suits as
far as they were made before it. -/
theorem Follows.send (h : Follows own g s) {before after : List RosterUpdate} {u : RosterUpdate}
    (hunsent : g.unsent = before ++ u :: after)
    (hordered : u.suit ∉ before.map RosterUpdate.suit)
    {sessions : ℕ → Option Session} :
    Follows own { g with sent := g.sent ++ [u], unsent := before ++ after, sessions := sessions }
      (s.passedBy u.suit) := by
  by_cases hgreeting : s.doing = .greeting
  · have hpassed : s.passedBy u.suit = { s with missed := u.suit :: s.missed } := if_pos hgreeting
    rw [hpassed]
    refine ⟨?_, h.fresh, ?_, ?_⟩
    · exact h.pos.trans (List.length_append ▸ Nat.le_add_right _ _)
    · intro suit hown hsuit
      rw [List.mem_cons, not_or] at hsuit
      obtain ⟨hne, hmissed⟩ := hsuit
      have hagrees := h.agrees suit hown hmissed
      have hskip : suit ∉ ([u].map RosterUpdate.line).map Prod.fst := by
        rw [map_line]
        simpa using hne
      have hsplit : s.wire.map Roster.line ++ (before ++ u :: after).map RosterUpdate.line
          = s.wire.map Roster.line ++ before.map RosterUpdate.line
            ++ ([u].map RosterUpdate.line ++ after.map RosterUpdate.line) := by
        simp only [List.map_append, List.map_cons, List.map_nil, List.append_assoc,
          List.cons_append, List.nil_append]
      rw [owed, ahead, hgreeting] at hagrees ⊢
      dsimp only at hagrees ⊢
      rw [List.nil_append, hunsent, hsplit, Replay.skip hskip] at hagrees
      rw [List.nil_append, List.map_append, ← List.append_assoc]
      exact hagrees
    · intro _ hlistening
      exact absurd (hgreeting.symm.trans hlistening) nofun
  · have hpassed : s.passedBy u.suit = s := if_neg hgreeting
    rw [hpassed]
    have hahead : ∀ sent, s.ahead sent = sent.drop s.pos := by
      intro sent
      cases hdoing : s.doing with
      | greeting => exact absurd hdoing hgreeting
      | listening => rw [ahead, hdoing]
      | lagged => rw [ahead, hdoing]
    have hdrop : (g.sent ++ [u]).drop s.pos = g.sent.drop s.pos ++ [u] :=
      List.drop_append_of_le_length h.pos
    refine ⟨?_, h.fresh, ?_, ?_⟩
    · exact h.pos.trans (List.length_append ▸ Nat.le_add_right _ _)
    · intro suit hown hsuit
      have hagrees := h.agrees suit hown hsuit
      have hmove : u.line.1 ∉ (before.map RosterUpdate.line).map Prod.fst := by
        rw [map_line]
        exact hordered
      rw [owed, hahead, hunsent, List.map_append, List.map_append, List.map_cons, Replay.append,
        Replay.append, Replay.move hmove] at hagrees
      rw [owed, hahead]
      dsimp only
      rw [hdrop, List.append_assoc, List.map_append, List.map_append, List.map_append,
        Replay.append, Replay.append]
      exact hagrees
    · intro hresynced hlistening suit hown hsuit hnone
      apply h.gone hresynced hlistening suit hown hsuit
      rw [hahead] at hnone ⊢
      dsimp only at hnone
      rw [hdrop] at hnone
      rw [hunsent]
      simp only [List.map_append, List.map_cons, List.map_nil, List.mem_append, List.mem_cons,
        List.not_mem_nil, or_false, not_or] at hnone ⊢
      obtain ⟨⟨hahead', hu⟩, hbefore, hafter⟩ := hnone
      exact ⟨hahead', hbefore, hu, hafter⟩

end Session

/-! ## Runs -/

namespace GameShared

theorem shown_insert (g : GameShared) (e : RosterEntry) (u : RosterUpdate)
    (hu : u.msg = e.msg u.suit) :
    (g.write (g.roster.insert u.suit e) u).shown = Function.update g.shown u.suit u.msg.shown := by
  funext suit
  rw [shown, write]
  dsimp only
  by_cases hsame : suit = u.suit
  · rw [hsame, Function.update_self, Table.get?_insert_self, hu]
    rfl
  · rw [Function.update_of_ne hsame, Table.get?_insert_of_ne _ _ hsame]
    rfl

theorem shown_erase (g : GameShared) (suit : ℕ) (pilot : PilotKind) :
    (g.write (g.roster.erase suit) ⟨suit, pilot, [], 0⟩).shown
      = Function.update g.shown suit nobody := by
  funext other
  rw [shown, write]
  dsimp only
  rw [Table.get?_erase]
  by_cases hsame : other = suit
  · rw [hsame, Function.update_self, if_pos rfl]
    rfl
  · rw [Function.update_of_ne hsame, if_neg hsame]
    rfl

/-- Everything said adds up to the roster, and every session follows it. -/
structure Sound (own : ℕ → Prop) (g : GameShared) : Prop where
  told : Told own g
  sessions : ∀ k s, g.sessions k = some s → s.Follows own g

variable {own : ℕ → Prop} {g : GameShared}

theorem Sound.write (h : Sound own g) {roster : Table ℕ RosterEntry} {u : RosterUpdate}
    (hshown : ∀ suit, own suit →
      (g.write roster u).shown suit = Function.update g.shown u.suit u.msg.shown suit) :
    Sound own (g.write roster u) := by
  constructor
  · have hlines : ((g.sent ++ (g.unsent ++ [u])).map RosterUpdate.line)
        = (g.sent ++ g.unsent).map RosterUpdate.line ++ [(u.suit, u.msg.shown)] := by
      rw [← List.append_assoc, List.map_append]
      rfl
    intro suit hown
    rw [hshown suit hown, GameShared.write]
    dsimp only
    rw [hlines, Replay.snoc]
    by_cases hsame : suit = u.suit
    · rw [hsame, Function.update_self, Function.update_self]
    · rw [Function.update_of_ne hsame, Function.update_of_ne hsame]
      exact h.told suit hown
  · intro k s hs
    exact (h.sessions k s hs).write hshown

theorem Sound.at_ (h : Sound own g) (k : ℕ) {f : Session → Session}
    (hf : ∀ s, s.Follows own g → (f s).Follows own g) : Sound own (g.at_ k f) := by
  refine ⟨h.told, fun j t ht => ?_⟩
  change Function.update g.sessions k ((g.sessions k).map f) j = some t at ht
  by_cases hj : j = k
  · subst hj
    rw [Function.update_self, Option.map_eq_some_iff] at ht
    obtain ⟨s, hs, rfl⟩ := ht
    exact (hf s (h.sessions j s hs)).frame _
  · rw [Function.update_of_ne hj] at ht
    exact (h.sessions j t ht).frame _

theorem Sound.enter (h : Sound own g) (k : ℕ) {everyone : List (ℕ × RosterEntry)}
    (hperm : everyone.Perm g.roster.entries) :
    Sound own { g with
      sessions := Function.update g.sessions k (some { wire := Session.greet everyone }) } := by
  refine ⟨h.told, fun j t ht => ?_⟩
  dsimp only at ht
  by_cases hj : j = k
  · subst hj
    rw [Function.update_self, Option.some.injEq] at ht
    subst ht
    exact (Session.follows_enter h.told hperm).frame _
  · rw [Function.update_of_ne hj] at ht
    exact (h.sessions j t ht).frame _

theorem Sound.leave (h : Sound own g) (k : ℕ) :
    Sound own { g with sessions := Function.update g.sessions k none } := by
  refine ⟨h.told, fun j t ht => ?_⟩
  dsimp only at ht
  by_cases hj : j = k
  · subst hj
    rw [Function.update_self] at ht
    exact nomatch ht
  · rw [Function.update_of_ne hj] at ht
    exact (h.sessions j t ht).frame _

theorem Sound.send (h : Sound own g) {i : ℕ} (hordered : Ordered g (.send i)) : Sound own (g.send i) := by
  unfold GameShared.send
  split
  · rename_i u hu
    obtain ⟨hlt, hget⟩ := List.getElem?_eq_some_iff.mp hu
    have hunsent : g.unsent = g.unsent.take i ++ u :: g.unsent.drop (i + 1) := by
      rw [← hget, ← List.drop_eq_getElem_cons hlt, List.take_append_drop]
    have hbefore : u.suit ∉ (g.unsent.take i).map RosterUpdate.suit := by
      intro hmem
      obtain ⟨earlier, hearlier, hsame⟩ := List.mem_map.mp hmem
      exact hordered u hu earlier hearlier hsame
    rw [List.eraseIdx_eq_take_drop_succ]
    constructor
    · have hmove : u.line.1 ∉ ((g.unsent.take i).map RosterUpdate.line).map Prod.fst := by
        rw [Session.map_line]
        exact hbefore
      intro suit hown
      have htold := h.told suit hown
      rw [hunsent, List.map_append, List.map_append, List.map_cons, Replay.append,
        Replay.move hmove] at htold
      dsimp only
      rw [List.append_assoc, List.map_append, List.map_append, List.map_append, Replay.append]
      exact htold
    · intro k t ht
      obtain ⟨s, hs, rfl⟩ := Option.map_eq_some_iff.mp ht
      exact (h.sessions k s hs).send hunsent hbefore
  · exact h

theorem shown_setRosterFlags {suit : ℕ} {u : RosterUpdate}
    (hown : Own suit g (.setRosterFlags u.suit u.pilot u.name u.flags)) :
    (g.setRosterFlags u).shown suit = Function.update g.shown u.suit u.msg.shown suit := by
  by_cases hsame : u.suit = suit
  · obtain ⟨e, hget, hname, hpilot⟩ := hown hsame
    rw [← hsame] at hget
    rw [GameShared.setRosterFlags, hget]
    dsimp only
    rw [g.shown_insert { e with flags := u.flags } u]
    rw [RosterUpdate.msg, RosterEntry.msg, hname, hpilot]
  · rw [Function.update_of_ne (Ne.symm hsame), GameShared.setRosterFlags]
    split
    · rw [shown, write]
      dsimp only
      rw [Table.get?_insert_of_ne _ _ (Ne.symm hsame)]
      rfl
    · rfl

theorem Sound.setRosterFlags (h : Sound own g) {u : RosterUpdate}
    (hown : ∀ suit, own suit → Own suit g (.setRosterFlags u.suit u.pilot u.name u.flags)) :
    Sound own (g.setRosterFlags u) := by
  have hshown := fun suit (hsuit : own suit) => shown_setRosterFlags (hown suit hsuit)
  unfold GameShared.setRosterFlags at hshown ⊢
  split at hshown
  all_goals exact h.write hshown

theorem Sound.step (h : Sound own g) (act : Act) (hordered : Ordered g act)
    (hown : ∀ suit, own suit → Own suit g act) : Sound own (g.step act) := by
  cases act with
  | insert suit e =>
    exact h.write fun other _ => congrFun (g.shown_insert e (e.update suit) rfl) other
  | setRosterFlags suit pilot name flags => exact h.setRosterFlags hown
  | forget suit pilot => exact h.write fun other _ => congrFun (g.shown_erase suit pilot) other
  | retract suit name =>
    rw [GameShared.step]
    split
    · exact h.write fun other _ => congrFun (g.shown_erase suit .drone) other
    · exact h
  | send i => exact h.send hordered
  | enter k everyone =>
    rw [GameShared.step]
    split
    · rename_i hcond
      exact h.enter k hcond.2
    · exact h
  | subscribe k => exact h.at_ k fun _ hs => hs.subscribe
  | recv k => exact h.at_ k fun _ hs => hs.recv h.told
  | resync k everyone =>
    rw [GameShared.step]
    split
    · rename_i hperm
      exact h.at_ k fun _ hs => hs.resync h.told hperm
    · exact h
  | tell k => exact h.at_ k fun _ hs => hs.tell
  | leave k => exact h.leave k

theorem sound_start (own : ℕ → Prop) : Sound own {} := ⟨fun _ _ => rfl, nofun⟩

def Settled (g : GameShared) (s : Session) (suit : ℕ) : Prop :=
  s.doing = .listening ∧ s.pos = g.sent.length ∧ s.wire = []
    ∧ suit ∉ g.unsent.map RosterUpdate.suit

/-- Whoever changes the roster and tells everyone, whoever comes in, listens, lags behind and reads
it again, in whatever order: where nothing of a suit is on its way any more, and its flags were only
set for whoever had it, a client shows of it what the roster has, unless its session missed a change
of the suit; and one whose session has read the roster again shows at worst a pilot who is not on it
any more. -/
theorem roster_followed (acts : List Act) (hordered : Run.Along step Ordered {} acts) (suit : ℕ)
    (hown : Run.Along step (Own suit) {} acts) (k : ℕ) (s : Session)
    (hs : (acts.foldl step {}).sessions k = some s)
    (hsettled : Settled (acts.foldl step {}) s suit) :
    (suit ∉ s.missed → s.client.shows suit = (acts.foldl step {}).shown suit)
      ∧ (s.resynced = true → s.client.shows suit = (acts.foldl step {}).shown suit
        ∨ (acts.foldl step {}).shown suit = nobody) := by
  have hsound : Sound (fun other => other = suit) (acts.foldl step {}) :=
    Run.invariant (fun _ act hg hact => hg.step act hact.1 fun _ hother => hother ▸ hact.2)
      (sound_start _) (Run.along_and hordered hown)
  have hfollows := hsound.sessions k s hs
  obtain ⟨hlistening, hpos, hwire, hunsent⟩ := hsettled
  have hahead : s.ahead (acts.foldl step {}).sent = [] := by
    rw [Session.ahead, hlistening, hpos]
    exact List.drop_length
  have hright : suit ∉ s.missed → s.client.shows suit = (acts.foldl step {}).shown suit := by
    intro hmissed
    have hagrees := hfollows.agrees suit rfl hmissed
    rw [Session.owed, hahead, hwire, List.map_nil, List.nil_append, List.nil_append,
      Replay.of_notMem] at hagrees
    · exact hagrees
    · rw [Session.map_line]
      exact hunsent
  refine ⟨hright, fun hresynced => ?_⟩
  by_cases hmissed : suit ∈ s.missed
  · right
    apply hfollows.gone hresynced hlistening suit rfl hmissed
    rw [hahead]
    exact hunsent
  · left
    exact hright hmissed

/-- One flies as another comes in, and has left before that one begins to play. -/
def visit (e : RosterEntry) : List Act :=
  [.insert 3 e, .send 0, .enter 0 [(3, e)], .forget 3 e.pilot, .tell 0, .subscribe 0, .send 0,
    .recv 0, .tell 0]

theorem roster_followed_visit :
    ∃ s, ((visit ⟨['L'], .human, 1, 1, none⟩).foldl step {}).sessions 0 = some s
      ∧ s.client.shows 3 = nobody := by
  have hfirst : ∀ g : GameShared, Ordered g (.send 0) := fun _ _ _ _ h => nomatch h
  have hordered : Run.Along step Ordered {} (visit ⟨['L'], .human, 1, 1, none⟩) :=
    ⟨trivial, hfirst _, trivial, trivial, trivial, trivial, hfirst _, trivial, trivial, trivial⟩
  have hown : Run.Along step (Own 3) {} (visit ⟨['L'], .human, 1, 1, none⟩) :=
    ⟨trivial, trivial, trivial, trivial, trivial, trivial, trivial, trivial, trivial, trivial⟩
  refine ⟨_, rfl, ?_⟩
  exact (roster_followed _ hordered 3 hown 0 _ rfl ⟨rfl, rfl, rfl, List.not_mem_nil⟩).1
    List.not_mem_nil

/-- Who takes off between another's reading the roster and following it is not shown to them. -/
example (e : RosterEntry) :
    (([.enter 0 [], .insert 3 e, .send 0, .subscribe 0, .recv 0, .tell 0] : List Act).foldl step
        {}).sessions 0
      = some { doing := .listening, pos := 1, wire := [], missed := [3] } := rfl

end GameShared

end BeforeColony.Rosters
