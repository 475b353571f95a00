import BeforeColony.Lib.Bytes
import BeforeColony.Proto.FootCodec
import BeforeColony.Proto.OwnCodec

/-!
# Writing a snapshot

The header, the pilot's own state and their Orrery, then lists: each of their records after a bit
that is set, and a clear bit at each list's end. Asking for a later list closes those before it. A
record goes in only if it fits with the ends still owed, so the lists never overflow; what the
writer leaves is what `SnapshotLists` says was taken.
-/

set_option autoImplicit false

namespace BeforeColony

open Lib

/-- The lists after the fixed part, in order. -/
inductive SnapshotList where
  | events | rocks | missiles | entities | objects | footOwn | people | done
  deriving DecidableEq, Repr

namespace SnapshotList

def index : SnapshotList → ℕ
  | events => 0 | rocks => 1 | missiles => 2 | entities => 3
  | objects => 4 | footOwn => 5 | people => 6 | done => 7

def next (onFoot : Bool) : SnapshotList → SnapshotList
  | events => rocks
  | rocks => missiles
  | missiles => entities
  | entities => objects
  | objects => if onFoot then footOwn else done
  | footOwn => people
  | people | done => done

def count (onFoot : Bool) : ℕ → SnapshotList → ℕ
  | 0, _ => 0
  | n + 1, l => if l = done then 0 else count onFoot n (l.next onFoot) + 1

/-- Terminators owed while a list is open: its own and every later one's. -/
def owed (onFoot : Bool) (l : SnapshotList) : ℕ := count onFoot done.index l

end SnapshotList

/-- A suit's record as the writer puts it, its slot and delta bit first. -/
def QEntity.write (q : QEntity) (delta : Option Delta) (w : BitWriter) : BitWriter :=
  let w := w.put [⟨q.slot, slotBits⟩, .flag delta.isSome]
  match delta with
  | some d => d.write w
  | none => q.writeAbsolute w

structure SnapshotWriter where
  w : BitWriter
  tick : ℕ
  list : SnapshotList
  onFoot : Bool
  deriving DecidableEq, Repr

namespace SnapshotWriter

def new (maxBytes : ℕ) : SnapshotWriter := ⟨⟨[], 8 * maxBytes, false⟩, 0, .events, false⟩

def header (h : SnapshotHeader) (s : SnapshotWriter) : SnapshotWriter :=
  { s with w := s.w.put h.fields, tick := h.tick, onFoot := h.onFoot }

/-- What may be there, after the bit that says whether it is. -/
def presentFields {α : Type} (fields : α → List Field) (o : Option α) : List Field :=
  .flag o.isSome :: o.elim [] fields

def own (o : Option OwnState) (s : SnapshotWriter) : SnapshotWriter :=
  { s with w := s.w.put (presentFields OwnState.fields o) }

def orrery (z : Option OrreryInfo) (s : SnapshotWriter) : SnapshotWriter :=
  { s with w := s.w.put (presentFields OrreryInfo.fields z) }

def owed (s : SnapshotWriter) : ℕ := s.list.owed s.onFoot

def close (s : SnapshotWriter) : SnapshotWriter :=
  { s with w := s.w.writeBits 0 1, list := s.list.next s.onFoot }

def closeTo (list : SnapshotList) : ℕ → SnapshotWriter → SnapshotWriter
  | 0, s => s
  | n + 1, s => if s.list.index < list.index then closeTo list n s.close else s

/-- Moves on to `list`; false if it is closed already, or isn't there. -/
def open_ (list : SnapshotList) (s : SnapshotWriter) : Bool × SnapshotWriter :=
  if list.index < s.list.index then (false, s)
  else
    let s := closeTo list SnapshotList.done.index s
    (s.list = list, s)

def start (list : SnapshotList) (bits keepFree : ℕ) (s : SnapshotWriter) : Bool × SnapshotWriter :=
  let o := s.open_ list
  if ¬ o.1 ∨ o.2.w.bitsRemaining < 1 + bits + o.2.owed + keepFree then (false, o.2)
  else (true, { o.2 with w := o.2.w.writeBits 1 1 })

def written (write : BitWriter → BitWriter) (o : Bool × SnapshotWriter) : Bool × SnapshotWriter :=
  if o.1 then (true, { o.2 with w := write o.2.w }) else o

def event (e : Event) (keepFree : ℕ) (s : SnapshotWriter) : Bool × SnapshotWriter :=
  written (e.write s.tick) (s.start .events e.encodedBits keepFree)

def endEvents (s : SnapshotWriter) : SnapshotWriter := (s.open_ .rocks).2

def rock (r : RockState) (keepFree : ℕ) (s : SnapshotWriter) : Bool × SnapshotWriter :=
  written r.write (s.start .rocks RockState.rockRecordBits keepFree)

def missile (m : MissileState) (keepFree : ℕ) (s : SnapshotWriter) : Bool × SnapshotWriter :=
  written m.write (s.start .missiles MissileState.missileRecordBits keepFree)

/-- A suit's record, whole or as `delta`; the bits it took. -/
def entityQ (q : QEntity) (delta : Option Delta) (keepFree : ℕ) (s : SnapshotWriter) :
    Option ℕ × SnapshotWriter :=
  let bits := delta.elim q.absoluteBits Delta.bits
  let o := written (q.write delta) (s.start .entities bits keepFree)
  (if o.1 then some bits else none, o.2)

def object (o : ObjectState) (s : SnapshotWriter) : Bool × SnapshotWriter :=
  written (o.write s.tick) (s.start .objects o.encodedBits 0)

/-- The pilot's own walker, once, with the people's end still owed. -/
def footOwn (f : FootOwn) (s : SnapshotWriter) : Bool × SnapshotWriter :=
  if s.onFoot = false then (false, s)
  else
    let o := s.open_ .footOwn
    if ¬ o.1 ∨ o.2.w.bitsRemaining < 1 + f.bits + 1 then (false, o.2)
    else (true, { o.2 with w := f.write (o.2.w.writeBits 1 1), list := .people })

def person (q : QPerson) (delta : Option PersonDelta) (keepFree : ℕ) (s : SnapshotWriter) :
    Option ℕ × SnapshotWriter :=
  let bits := delta.elim q.absoluteBits PersonDelta.bits
  if s.onFoot = false then (none, s)
  else
    let o := written (q.write delta) (s.start .people bits keepFree)
    (if o.1 then some bits else none, o.2)

/-- Closes every list: the datagram, unless something didn't fit. -/
def finish (s : SnapshotWriter) : Option (List UInt8) :=
  let s := (s.open_ .done).2
  if s.w.overflow then none else some (Bytes.pack s.w.bits)

/-- What a sector asks of its writer once the fixed part is in. -/
inductive Put where
  | event (e : Event) (keepFree : ℕ)
  | endEvents
  | rock (r : RockState) (keepFree : ℕ)
  | missile (m : MissileState) (keepFree : ℕ)
  | entity (q : QEntity) (delta : Option Delta) (keepFree : ℕ)
  | object (o : ObjectState)
  | footOwn (f : FootOwn)
  | person (q : QPerson) (delta : Option PersonDelta) (keepFree : ℕ)

def Put.run : Put → SnapshotWriter → Bool × SnapshotWriter
  | .event e keepFree, s => s.event e keepFree
  | .endEvents, s => (false, s.endEvents)
  | .rock r keepFree, s => s.rock r keepFree
  | .missile m keepFree, s => s.missile m keepFree
  | .entity q delta keepFree, s =>
    let o := s.entityQ q delta keepFree
    (o.1.isSome, o.2)
  | .object o, s => s.object o
  | .footOwn f, s => s.footOwn f
  | .person q delta keepFree, s =>
    let o := s.person q delta keepFree
    (o.1.isSome, o.2)

/-- Whatever is asked, one after the other: what went in, and the writer after it. -/
def puts : List Put → SnapshotWriter → List Put × SnapshotWriter
  | [], s => ([], s)
  | p :: rest, s =>
    let o := p.run s
    let later := puts rest o.2
    (if o.1 then p :: later.1 else later.1, later.2)

def begun (maxBytes : ℕ) (h : SnapshotHeader) (o : Option OwnState) (z : Option OrreryInfo) :
    SnapshotWriter :=
  (((new maxBytes).header h).own o).orrery z

/-! ## What a call does -/

namespace Put

def list : Put → SnapshotList
  | event .. => .events
  | endEvents | rock .. => .rocks
  | missile .. => .missiles
  | entity .. => .entities
  | object .. => .objects
  | footOwn .. => .footOwn
  | person .. => .people

/-- The list left open once its record is in. -/
def after : Put → SnapshotList
  | footOwn .. => .people
  | p => p.list

def personFields (q : QPerson) (delta : Option PersonDelta) : List Field :=
  ⟨q.id, slotBits⟩ :: .flag delta.isSome :: delta.elim q.absoluteFields PersonDelta.fields

/-- Its record's fields, after the bit that says there is one. -/
def fields (tick : ℕ) : Put → List Field
  | event e _ => e.fields tick
  | endEvents => []
  | rock r _ => r.fields
  | missile m _ => m.fields
  | entity q delta _ => recordFields q delta
  | object o => o.fields tick
  | footOwn f => f.fields
  | person q delta _ => personFields q delta

def write (tick : ℕ) : Put → BitWriter → BitWriter
  | event e _, w => e.write tick w
  | endEvents, w => w
  | rock r _, w => r.write w
  | missile m _, w => m.write w
  | entity q delta _, w => q.write delta w
  | object o, w => o.write tick w
  | footOwn f, w => f.write w
  | person q delta _, w => q.write delta w

end Put

variable {s t : SnapshotWriter}

theorem suit_write_eq {q : QEntity} {delta : Option Delta} {w : BitWriter}
    (h : w.Fits (Field.widths (recordFields q delta))) :
    q.write delta w = w.append (Field.all (recordFields q delta)) := by
  have hhead : w.put [⟨q.slot, slotBits⟩, .flag delta.isSome]
      = w.append (Field.all [⟨q.slot, slotBits⟩, .flag delta.isSome]) := by
    apply BitWriter.put_eq
    apply h.le
    simp only [recordFields, Field.widths_cons, Field.widths_nil]
    omega
  have hrest : (w.append (Field.all [⟨q.slot, slotBits⟩, .flag delta.isSome])).Fits
      (Field.widths (delta.elim (q.headFields ++ q.bodyFields) Delta.fields)) := by
    apply h.append
    simp only [recordFields, Field.length_all, Field.widths_cons, Field.widths_nil]
    omega
  cases delta with
  | none =>
    rw [Option.elim_none] at hrest
    change q.writeAbsolute (w.put _) = _
    rw [hhead, QEntity.writeAbsolute_eq hrest, BitWriter.append_append]
    rfl
  | some d =>
    rw [Option.elim_some] at hrest
    change d.write (w.put _) = _
    rw [hhead, Delta.write_eq hrest, BitWriter.append_append]
    rfl

theorem person_write_eq (q : QPerson) (delta : Option PersonDelta) (w : BitWriter) :
    q.write delta w = w.put (Put.personFields q delta) := by
  cases delta <;> rfl

theorem Put.write_eq (p : Put) {tick : ℕ} {w : BitWriter}
    (h : w.Fits (Field.widths (p.fields tick))) :
    p.write tick w = w.append (Field.all (p.fields tick)) := by
  cases p with
  | event e keepFree => exact BitWriter.put_eq h
  | endEvents => exact w.append_nil.symm
  | rock r keepFree => exact BitWriter.put_eq h
  | missile m keepFree => exact BitWriter.put_eq h
  | entity q delta keepFree => exact suit_write_eq h
  | object o => exact BitWriter.put_eq h
  | footOwn f => exact BitWriter.put_eq h
  | person q delta keepFree =>
    change q.write delta w = _
    rw [person_write_eq]
    exact BitWriter.put_eq h

/-- A call puts nothing in and at most closes lists, or it puts its record in, on its list, with
room for it and the ends still owed. -/
structure Took (p : Put) (s t : SnapshotWriter) : Prop where
  here : t.list = p.list
  opened : t = (s.open_ p.list).2
  room : 1 + Field.widths (p.fields s.tick) + p.after.owed t.onFoot ≤ t.w.bitsRemaining
  run : p.run s = (true, { t with w := p.write s.tick (t.w.writeBits 1 1), list := p.after })

theorem open_true {l : SnapshotList} (h : (s.open_ l).1 = true) : (s.open_ l).2.list = l := by
  unfold open_ at h ⊢
  split
  · rename_i hlt
    rw [if_pos hlt] at h
    cases h
  · rename_i hle
    rw [if_neg hle] at h
    exact of_decide_eq_true h

theorem open_events (s : SnapshotWriter) : (s.open_ .events).2 = s := by
  unfold open_
  split
  · rfl
  · rfl

/-- A record of a list as any other is: `start`, then what it says. -/
theorem written_cases (s : SnapshotWriter) (l : SnapshotList) (bits keepFree : ℕ)
    (write : BitWriter → BitWriter) :
    written write (s.start l bits keepFree) = (false, (s.open_ l).2)
      ∨ (s.open_ l).1 = true
        ∧ 1 + bits + l.owed (s.open_ l).2.onFoot + keepFree ≤ (s.open_ l).2.w.bitsRemaining
        ∧ written write (s.start l bits keepFree) = (true, { (s.open_ l).2 with
            w := write ((s.open_ l).2.w.writeBits 1 1) }) := by
  unfold start
  by_cases hroom : ¬ (s.open_ l).1 = true
      ∨ (s.open_ l).2.w.bitsRemaining < 1 + bits + (s.open_ l).2.owed + keepFree
  · left
    simp only [if_pos hroom, written, Bool.false_eq_true, if_false]
  · right
    push Not at hroom
    obtain ⟨hopen, hfits⟩ := hroom
    have howed : (s.open_ l).2.owed = l.owed (s.open_ l).2.onFoot := by
      rw [owed, open_true hopen]
    refine ⟨hopen, howed ▸ hfits, ?_⟩
    simp only [hopen, not_true, false_or, not_lt.mpr hfits, if_false, written, if_true]

theorem personFields_widths (q : QPerson) (delta : Option PersonDelta) :
    Field.widths (Put.personFields q delta) = delta.elim q.absoluteBits PersonDelta.bits := by
  have hflag : (Field.flag delta.isSome).width = 1 := rfl
  cases delta with
  | none =>
    simp only [Put.personFields, Option.elim_none, QPerson.absoluteFields, QPerson.absoluteBits,
      List.cons_append, List.nil_append, Field.widths_cons, PoseCodes.widths_fields, Field.flag]
    omega
  | some d =>
    simp only [Put.personFields, Option.elim_some, Field.widths_cons, Field.flag]
    rw [← PersonDelta.widths_fields d]
    omega

theorem with_list {l : SnapshotList} {w : BitWriter} (h : t.list = l) :
    ({ t with w } : SnapshotWriter) = { t with w, list := l } := by
  rw [← h]

theorem written_isSome (o : Bool × SnapshotWriter) (n : ℕ) :
    ((if o.1 then some n else none).isSome, o.2) = o := by
  obtain ⟨b, t⟩ := o
  cases b <;> rfl

/-- Such a record, if it went in, went in on its list. -/
theorem took_of_written {p : Put} (keepFree : ℕ) {bits : ℕ}
    (hrun : p.run s = written (p.write s.tick) (s.start p.list bits keepFree))
    (hafter : p.after = p.list) (hbits : Field.widths (p.fields s.tick) = bits) :
    (∃ l, p.run s = (false, (s.open_ l).2)) ∨ ∃ t, Took p s t := by
  rw [hrun]
  rcases written_cases s p.list bits keepFree (p.write s.tick) with h | ⟨hopen, hroom, h⟩
  · exact Or.inl ⟨p.list, h⟩
  · have hhere := open_true hopen
    refine Or.inr ⟨(s.open_ p.list).2, hhere, rfl, ?_, ?_⟩
    · rw [hafter, hbits]
      omega
    · rw [hrun, h, hafter]
      exact congrArg (Prod.mk true) (with_list hhere)

theorem run_cases (p : Put) (s : SnapshotWriter) :
    (∃ l, p.run s = (false, (s.open_ l).2)) ∨ ∃ t, Took p s t := by
  cases p with
  | event e keepFree => exact took_of_written keepFree rfl rfl (Event.widths_fields e s.tick)
  | endEvents => exact Or.inl ⟨.rocks, rfl⟩
  | rock r keepFree => exact took_of_written keepFree rfl rfl rfl
  | missile m keepFree => exact took_of_written keepFree rfl rfl (MissileState.widths_fields m)
  | entity q delta keepFree =>
    exact took_of_written keepFree (written_isSome _ _) rfl (widths_record q delta)
  | object o => exact took_of_written 0 rfl rfl (ObjectState.widths_fields o s.tick)
  | footOwn f =>
    by_cases hon : s.onFoot = false
    · exact Or.inl ⟨.events, by rw [open_events]; exact if_pos hon⟩
    · have hrun : (Put.footOwn f).run s = _ := if_neg hon
      rw [hrun]
      by_cases hroom : ¬ (s.open_ .footOwn).1 = true
          ∨ (s.open_ .footOwn).2.w.bitsRemaining < 1 + f.bits + 1
      · exact Or.inl ⟨.footOwn, if_pos hroom⟩
      · have hroom' := hroom
        push Not at hroom'
        refine Or.inr ⟨(s.open_ .footOwn).2, open_true hroom'.1, rfl, ?_, ?_⟩
        · change 1 + Field.widths f.fields + 1 ≤ _
          rw [FootOwn.widths_fields]
          exact hroom'.2
        · rw [hrun]
          exact if_neg hroom
  | person q delta keepFree =>
    by_cases hon : s.onFoot = false
    · refine Or.inl ⟨.events, ?_⟩
      rw [open_events]
      simp only [Put.run, person, if_pos hon, Option.isSome_none]
    · refine took_of_written keepFree ?_ rfl (personFields_widths q delta)
      simp only [Put.run, person, if_neg hon]
      exact written_isSome _ _

end SnapshotWriter

end BeforeColony
