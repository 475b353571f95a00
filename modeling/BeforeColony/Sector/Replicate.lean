import Mathlib.Data.List.Perm.Basic
import BeforeColony.Proto.Record
import BeforeColony.Sector.ClientState
import BeforeColony.Sector.EventRing

/-!
# Snapshot building

What the sector writes for one client in a tick: the notices and the events not yet acked, changed
rocks, the suits it sees (as deltas against what the client acked) and the objects whose state it
lacks. A view is what the simulation shows the client's suit, and a room what its datagram holds.
-/

set_option autoImplicit false

namespace BeforeColony

open Lib

/-- How many suits, rocks and events the sector was made for. -/
structure Sizes where
  suits : ℕ
  rocks : ℕ
  events : ℕ

structure SeenSuit (z : Sizes) where
  generation : ℕ
  q : QEntity
  inRange : q.InRange
  slot_lt : q.slot < z.suits

/-- A live chunk, and whether a client should have it, given whether it has. -/
structure Chunk where
  generation : ℕ
  version : ℕ
  wanted : Bool → Bool

def Chunk.packed (k : Chunk) : ℕ := BeforeColony.packed k.generation k.version

/-- What a client's suit is shown at a tick: the suits that left its sensors, whether an event
concerns it, the rocks and the chunks (nearest first), and the suits it sees (most urgent first). -/
structure View (z : Sizes) where
  tick : ℕ
  left : List ℕ
  relevant : Event → Bool
  rocks : List (ℕ × ℕ)
  near : List ℕ
  chunk : ℕ → Option Chunk
  suits : List (SeenSuit z)
  rock_lt : ∀ r ∈ rocks, r.1 < z.rocks
  near_perm : near.Perm (List.range maxChunks)
  distinct : (suits.map fun s => s.q.slot).Nodup

/-- What a datagram has room for, and whether its fixed part fits. -/
structure Space where
  leaves : ℕ
  event : ℕ → Bool
  rocks : ℕ
  suits : ℕ
  objects : ℕ
  finishes : Bool

/-- Events older than this are no longer worth sending again, in ticks. -/
def eventMaxAge : ℕ := 45

/-! ## Events -/

def skipStale {cap : ℕ} (ring : EventRing cap) (t : ℕ) : ℕ → ℕ → ℕ
  | 0, seq => seq
  | n + 1, seq =>
    match ring.get seq with
    | some e => if eventMaxAge < t - e.tick then skipStale ring t n (seq + 1) else seq
    | none => skipStale ring t n (seq + 1)

/-- How far the events are done, whether without a gap so far, and those carried. -/
structure Carried where
  done : ℕ
  contiguous : Bool
  events : List Event

def Carried.pass (a : Carried) (seq : ℕ) : Carried :=
  if a.contiguous then { a with done := seq + 1 } else a

def carryEvent {cap : ℕ} (ring : EventRing cap) (relevant : Event → Bool) (fits : ℕ → Bool)
    (a : Carried) (seq : ℕ) : Carried :=
  match ring.get seq with
  | none => a.pass seq
  | some e =>
    if relevant e then
      if fits seq then { a with events := a.events ++ [e] }.pass seq
      else { a with contiguous := false }
    else a.pass seq

/-- The events a datagram carries to a client that has acked those under `acked`. -/
def carryEvents {cap : ℕ} (ring : EventRing cap) (relevant : Event → Bool) (fits : ℕ → Bool)
    (t acked : ℕ) : Carried :=
  let start := max acked ring.oldest
  let seq := skipStale ring t (ring.next - start) start
  (List.range' seq (ring.next - seq)).foldl (carryEvent ring relevant fits) ⟨seq, true, []⟩

/-! ## Rocks and objects -/

variable {z : Sizes}

/-- The changed rocks, nearest first, as many as fit. -/
def rocksFor (c : ClientState) (v : View z) (room : Space) : List (ℕ × ℕ) :=
  ((v.rocks.filter fun r => c.rockAcked r.1 ≠ r.2).take rocksPerSnapshot).take room.rocks

def objectFor (v : View z) (acked : Option ℕ) (k : ℕ) : Option (Option ℕ) :=
  match (v.chunk k).filter fun chunk => chunk.wanted acked.isSome with
  | some chunk => if acked = some chunk.packed then none else some (some chunk.packed)
  | none => if acked.isSome then some none else none

/-- Chunks the client should forget, then those whose state it lacks, nearest first. -/
def objectCandidates (c : ClientState) (v : View z) : List (ℕ × Option ℕ) :=
  let found := v.near.filterMap fun k => (objectFor v (c.objAcked k) k).map fun holds => (k, holds)
  found.filter (fun o => o.2.isNone) ++ found.filter fun o => o.2.isSome

def objectsFor (c : ClientState) (v : View z) (room : Space) : List (ℕ × Option ℕ) :=
  ((objectCandidates c v).take objsPerSnapshot).take room.objects

/-! ## Suits -/

def deltaFor (c : ClientState) (deltas : Bool) (t : ℕ) (s : SeenSuit z) : Option Delta :=
  if deltas then
    (c.baseline s.q.slot s.generation s.q t).bind fun b => Delta.plan s.q b.1 b.2
  else none

/-- Suits written: the client's state after, their records and bits, and those left over. -/
structure Written (z : Sizes) where
  client : ClientState
  ents : List SentEnt
  bits : List (List Bool)
  rest : List (SeenSuit z)

def writeSuits (deltas : Bool) (t : ℕ) : ℕ → List (SeenSuit z) → ClientState → Written z
  | 0, rest, c => ⟨c, [], [], rest⟩
  | _ + 1, [], c => ⟨c, [], [], []⟩
  | n + 1, s :: rest, c =>
    let bits := Field.all (recordFields s.q (deltaFor c deltas t s))
    let w := writeSuits deltas t n rest (c.noteSent s.q.slot s.generation t s.q)
    { w with
      ents := ⟨s.generation, c.sends s.q.slot, t, s.q⟩ :: w.ents
      bits := bits :: w.bits }

/-! ## Datagrams -/

/-- A datagram that went out, what its record says it carried, its suits' records, how many of the
notices ever queued were gone by then, and the events it was built from. -/
structure Outgoing (z : Sizes) where
  datagram : Datagram
  carries : SentRecord
  ents : List SentEnt
  gone : ℕ
  eventsFrom : ℕ
  ring : EventRing z.events
  relevant : Event → Bool

/-- The notices a datagram carried, by their place among all ever queued. -/
def Outgoing.CarriesLeave (o : Outgoing z) (i : ℕ) : Prop :=
  o.gone ≤ i ∧ i < o.gone + o.carries.leaves

def Outgoing.CarriesRecord (o : Outgoing z) (e : SentEnt) : Prop :=
  e ∈ o.ents ∧ ∃ delta, Field.all (recordFields e.q delta) ∈ o.datagram.suits

/-- A built datagram (`none`: it didn't fit), the client's state after, the suits' records noted as
sent, and the suits left over. -/
structure Built (z : Sizes) where
  client : ClientState
  out : Option (Outgoing z)
  ents : List SentEnt
  rest : List (SeenSuit z)

/-- The next datagram's number is used up, and the suits that left are queued as notices. -/
def openSnapshot (v : View z) (c : ClientState) : ClientState :=
  v.left.foldl (fun c slot => c.queueLeave slot v.tick) { c with seq := c.seq + 1 }

/-- What a tick's first datagram carries, its suits written as `w`. -/
def snapshotRecord (ring : EventRing z.events) (v : View z) (room : Space) (c : ClientState)
    (w : Written z) : SentRecord where
  seq := c.seq
  eventsDone := (carryEvents ring v.relevant room.event v.tick c.eventAcked).done
  leaves := min room.leaves w.client.leaves.length
  objs := objectsFor c v room
  rocks := rocksFor c v room
  entsFrom := c.entsHead
  nEnts := w.ents.length

def leaveEvent (l : ℕ × ℕ) : Event := .leave l.2 l.1

def snapshotDatagram (ring : EventRing z.events) (v : View z) (room : Space) (c : ClientState)
    (w : Written z) : Datagram where
  stream := c.stream
  seq := c.seq % 0x10000
  tick := v.tick
  more := false
  events := (w.client.leaves.take room.leaves).map leaveEvent
    ++ (carryEvents ring v.relevant room.event v.tick c.eventAcked).events
  rocks := rocksFor c v room
  suits := w.bits
  objects := objectsFor c v room

/-- Writes a tick's first datagram for a client. -/
def buildSnapshot (deltas : Bool) (ring : EventRing z.events) (v : View z) (room : Space)
    (gone : ℕ) (c : ClientState) : Built z :=
  let w := writeSuits deltas v.tick room.suits v.suits (openSnapshot v c)
  let carries := snapshotRecord ring v room c w
  if room.finishes then
    { client := { w.client with sent := w.client.sent.set c.seq carries }
      out := some {
        datagram := snapshotDatagram ring v room c w
        carries, gone, ring
        ents := w.ents
        eventsFrom := c.eventAcked
        relevant := v.relevant }
      ents := w.ents
      rest := w.rest }
  else { client := w.client, out := none, ents := w.ents, rest := [] }

def moreDatagram (t : ℕ) (c : ClientState) (w : Written z) : Datagram where
  stream := c.stream
  seq := c.seq % 0x10000
  tick := t
  more := true
  events := []
  rocks := []
  suits := w.bits
  objects := []

/-- Writes a tick's next datagram for a client: more of the suits it sees. One that takes no suit
isn't sent. -/
def buildMore (deltas : Bool) (ring : EventRing z.events) (t : ℕ) (suits : List (SeenSuit z)) (room : Space)
    (gone : ℕ) (c : ClientState) : Built z :=
  let w := writeSuits deltas t room.suits suits { c with seq := c.seq + 1 }
  let carries : SentRecord := { seq := c.seq, entsFrom := c.entsHead, nEnts := w.ents.length }
  if room.finishes then
    { client := { w.client with sent := w.client.sent.set c.seq carries }
      out := if w.ents = [] then none else some {
        datagram := moreDatagram t c w
        carries, gone, ring
        ents := w.ents
        eventsFrom := c.eventAcked
        relevant := fun _ => false }
      ents := w.ents
      rest := if w.ents = [] then [] else w.rest }
  else { client := w.client, out := none, ents := w.ents, rest := [] }

/-! ## What building does -/

structure SameAcks (c c' : ClientState) : Prop where
  stream : c'.stream = c.stream
  ackFloor : c'.ackFloor = c.ackFloor
  eventAcked : c'.eventAcked = c.eventAcked
  objAcked : c'.objAcked = c.objAcked
  objKnown : c'.objKnown = c.objKnown
  rockAcked : c'.rockAcked = c.rockAcked
  base : c'.base = c.base

theorem SameAcks.refl (c : ClientState) : SameAcks c c := ⟨rfl, rfl, rfl, rfl, rfl, rfl, rfl⟩

theorem SameAcks.trans {c c' c'' : ClientState} (h : SameAcks c c') (h' : SameAcks c' c'') :
    SameAcks c c'' :=
  ⟨h'.stream.trans h.stream, h'.ackFloor.trans h.ackFloor, h'.eventAcked.trans h.eventAcked,
    h'.objAcked.trans h.objAcked, h'.objKnown.trans h.objKnown, h'.rockAcked.trans h.rockAcked,
    h'.base.trans h.base⟩

theorem writeSuits_frame (deltas : Bool) (t n : ℕ) (suits : List (SeenSuit z)) (c : ClientState) :
    SameAcks c (writeSuits deltas t n suits c).client
      ∧ (writeSuits deltas t n suits c).client.seq = c.seq
      ∧ (writeSuits deltas t n suits c).client.sent = c.sent
      ∧ (writeSuits deltas t n suits c).client.leaves = c.leaves := by
  induction suits generalizing n c with
  | nil => cases n <;> exact ⟨.refl c, rfl, rfl, rfl⟩
  | cons s rest ih =>
    cases n with
    | zero => exact ⟨.refl c, rfl, rfl, rfl⟩
    | succ n =>
      obtain ⟨hsame, hseq, hsent, hleaves⟩ := ih n (c.noteSent s.q.slot s.generation t s.q)
      exact ⟨⟨hsame.1, hsame.2, hsame.3, hsame.4, hsame.5, hsame.6, hsame.7⟩, hseq, hsent, hleaves⟩

/-- The records written are remembered after those noted before. -/
theorem writeSuits_ents (deltas : Bool) (t n : ℕ) (suits : List (SeenSuit z)) {c : ClientState}
    {noted : List SentEnt} (h : c.sentEnts.Mirrors noted) (hhead : c.entsHead = noted.length) :
    let w := writeSuits deltas t n suits c
    w.client.sentEnts.Mirrors (noted ++ w.ents) ∧ w.client.entsHead = (noted ++ w.ents).length := by
  induction suits generalizing n c noted with
  | nil => cases n <;> simpa [writeSuits] using ⟨h, hhead⟩
  | cons s rest ih =>
    cases n with
    | zero => simpa [writeSuits] using ⟨h, hhead⟩
    | succ n =>
      have hpush := h.push ⟨s.generation, c.sends s.q.slot, t, s.q⟩
      have hrest := ih (c := c.noteSent s.q.slot s.generation t s.q) n
        (by rw [ClientState.noteSent, hhead]; exact hpush) (by simp [ClientState.noteSent, hhead])
      simpa [writeSuits, List.append_assoc] using hrest

/-- The bits of record `e` of a suit whose baseline is as in `base`: whole, or a delta against the
baseline, one of the last records of its slot. -/
def EncodedAs (base : ℕ → Option SentEnt) (e : SentEnt) (bits : List Bool) : Prop :=
  bits = Field.all (recordFields e.q none)
    ∨ ∃ b d, base e.q.slot = some b ∧ e.nth - b.nth < kept ∧ b.tick < e.tick
      ∧ Delta.plan e.q b.q (e.tick - b.tick) = some d ∧ bits = Field.all (recordFields e.q (some d))

theorem EncodedAs.exists_delta {base : ℕ → Option SentEnt} {e : SentEnt} {bits : List Bool}
    (h : EncodedAs base e bits) : ∃ delta, bits = Field.all (recordFields e.q delta) := by
  rcases h with h | ⟨-, d, -, -, -, -, h⟩
  · exact ⟨none, h⟩
  · exact ⟨some d, h⟩

theorem encodedAs_deltaFor (c : ClientState) (deltas : Bool) (t : ℕ) (s : SeenSuit z) :
    EncodedAs c.base ⟨s.generation, c.sends s.q.slot, t, s.q⟩
      (Field.all (recordFields s.q (deltaFor c deltas t s))) := by
  cases hdelta : deltaFor c deltas t s with
  | none => exact Or.inl rfl
  | some d =>
    right
    unfold deltaFor at hdelta
    split at hdelta
    · obtain ⟨⟨q, back⟩, hbase, hplan⟩ := Option.bind_eq_some_iff.mp hdelta
      obtain ⟨b, hb, hif⟩ := Option.bind_eq_some_iff.mp hbase
      split at hif
      · rename_i hcond
        cases hif
        exact ⟨b, d, hb, hcond.2.1, hcond.2.2.2, hplan, rfl⟩
      · cases hif
    · cases hdelta

theorem writeSuits_encoded (deltas : Bool) (t n : ℕ) (suits : List (SeenSuit z)) (c : ClientState) :
    List.Forall₂ (EncodedAs c.base) (writeSuits deltas t n suits c).ents
      (writeSuits deltas t n suits c).bits := by
  induction suits generalizing n c with
  | nil => cases n <;> exact .nil
  | cons s rest ih =>
    cases n with
    | zero => exact .nil
    | succ n =>
      exact .cons (encodedAs_deltaFor c deltas t s)
        (ih n (c.noteSent s.q.slot s.generation t s.q))

theorem writeSuits_ok {deltas : Bool} {t n : ℕ} {suits : List (SeenSuit z)} {c : ClientState} {e : SentEnt}
    (h : e ∈ (writeSuits deltas t n suits c).ents) : e.q.InRange ∧ e.q.slot < z.suits := by
  induction suits generalizing n c with
  | nil => cases n <;> cases h
  | cons s rest ih =>
    cases n with
    | zero => cases h
    | succ n =>
      rcases List.mem_cons.mp h with rfl | h
      · exact ⟨s.inRange, s.slot_lt⟩
      · exact ih h

theorem queueLeave_frame (c : ClientState) (slot t : ℕ) :
    SameAcks c (c.queueLeave slot t) ∧ (c.queueLeave slot t).seq = c.seq
      ∧ (c.queueLeave slot t).sent = c.sent ∧ c.leaves <+: (c.queueLeave slot t).leaves
      ∧ (c.queueLeave slot t).sends = c.sends ∧ (c.queueLeave slot t).sentEnts = c.sentEnts
      ∧ (c.queueLeave slot t).entsHead = c.entsHead := by
  unfold ClientState.queueLeave
  split
  · exact ⟨⟨rfl, rfl, rfl, rfl, rfl, rfl, rfl⟩, rfl, rfl, List.prefix_append _ _, rfl, rfl, rfl⟩
  · exact ⟨.refl c, rfl, rfl, List.prefix_refl _, rfl, rfl, rfl⟩

theorem openSnapshot_frame (v : View z) (c : ClientState) :
    SameAcks c (openSnapshot v c) ∧ (openSnapshot v c).seq = c.seq + 1
      ∧ (openSnapshot v c).sent = c.sent ∧ c.leaves <+: (openSnapshot v c).leaves
      ∧ (openSnapshot v c).sends = c.sends ∧ (openSnapshot v c).sentEnts = c.sentEnts
      ∧ (openSnapshot v c).entsHead = c.entsHead := by
  have hfold : ∀ (left : List ℕ) (c : ClientState),
      let c' := left.foldl (fun c slot => c.queueLeave slot v.tick) c
      SameAcks c c' ∧ c'.seq = c.seq ∧ c'.sent = c.sent ∧ c.leaves <+: c'.leaves
        ∧ c'.sends = c.sends ∧ c'.sentEnts = c.sentEnts ∧ c'.entsHead = c.entsHead := by
    intro left
    induction left with
    | nil => exact fun c => ⟨.refl c, rfl, rfl, List.prefix_refl _, rfl, rfl, rfl⟩
    | cons slot rest ih =>
      intro c
      obtain ⟨hsame, hseq, hsent, hleaves, hsends, hents, hhead⟩ := ih (c.queueLeave slot v.tick)
      obtain ⟨hsame', hseq', hsent', hleaves', hsends', hents', hhead'⟩ :=
        queueLeave_frame c slot v.tick
      exact ⟨hsame'.trans hsame, hseq.trans hseq', hsent.trans hsent', hleaves'.trans hleaves,
        hsends.trans hsends', hents.trans hents', hhead.trans hhead'⟩
  obtain ⟨hsame, hrest⟩ := hfold v.left { c with seq := c.seq + 1 }
  exact ⟨⟨hsame.1, hsame.2, hsame.3, hsame.4, hsame.5, hsame.6, hsame.7⟩, hrest⟩

theorem objectCandidates_lt {c : ClientState} {v : View z} {o : ℕ × Option ℕ}
    (h : o ∈ objectCandidates c v) : o.1 < maxChunks := by
  have hfound : o ∈ v.near.filterMap fun k =>
      (objectFor v (c.objAcked k) k).map fun holds => (k, holds) := by
    rcases List.mem_append.mp h with h | h
    · exact List.mem_of_mem_filter h
    · exact List.mem_of_mem_filter h
  obtain ⟨k, hk, hkeep⟩ := List.mem_filterMap.mp hfound
  obtain ⟨holds, -, rfl⟩ := Option.map_eq_some_iff.mp hkeep
  exact List.mem_range.mp ((v.near_perm.mem_iff).mp hk)

theorem objectsFor_lt {c : ClientState} {v : View z} {room : Space} {o : ℕ × Option ℕ}
    (h : o ∈ objectsFor c v room) : o.1 < maxChunks :=
  objectCandidates_lt (List.mem_of_mem_take (List.mem_of_mem_take h))

theorem rocksFor_lt {c : ClientState} {v : View z} {room : Space} {r : ℕ × ℕ}
    (h : r ∈ rocksFor c v room) : r.1 < z.rocks :=
  v.rock_lt r (List.mem_of_mem_filter (List.mem_of_mem_take (List.mem_of_mem_take h)))

structure SentRecord.Bare (r : SentRecord) : Prop where
  eventsDone : r.eventsDone = 0
  leaves : r.leaves = 0
  objs : r.objs = []
  rocks : r.rocks = []
  nEnts : r.nEnts = 0

/-- A datagram says what its record says, under its own number. -/
structure Outgoing.Ok (o : Outgoing z) (stream n : ℕ) : Prop where
  seq : o.carries.seq = n
  number : o.datagram.seq = n % 0x10000
  stream_eq : o.datagram.stream = stream
  rocks : o.datagram.rocks = o.carries.rocks
  objects : o.datagram.objects = o.carries.objs
  more : o.datagram.more = true → o.carries.objs = []
  nEnts : o.carries.nEnts = o.ents.length
  suits : List.Forall₂ (fun e bits => ∃ delta, bits = Field.all (recordFields e.q delta))
    o.ents o.datagram.suits
  chunk_lt : ∀ k ∈ o.carries.objs, k.1 < maxChunks
  rock_lt : ∀ r ∈ o.carries.rocks, r.1 < z.rocks

theorem Outgoing.Ok.carriesRecord {o : Outgoing z} {stream n : ℕ} (h : o.Ok stream n) {e : SentEnt}
    (he : e ∈ o.ents) : o.CarriesRecord e := by
  have hfind : ∀ {es : List SentEnt} {bits : List (List Bool)},
      List.Forall₂ (fun e bits => ∃ delta, bits = Field.all (recordFields e.q delta)) es bits →
      e ∈ es → ∃ delta, Field.all (recordFields e.q delta) ∈ bits := by
    intro es bits hall
    induction hall with
    | nil => exact fun h => (List.not_mem_nil h).elim
    | cons hhead _ ih =>
      intro hmem
      rcases List.mem_cons.mp hmem with rfl | hrest
      · obtain ⟨delta, rfl⟩ := hhead
        exact ⟨delta, List.mem_cons_self⟩
      · obtain ⟨delta, hdelta⟩ := ih hrest
        exact ⟨delta, List.mem_cons_of_mem _ hdelta⟩
  exact ⟨he, hfind h.suits he⟩

/-- What building a datagram does: it uses up a number, keeps a record under it, and leaves all
that acks say alone. -/
structure Builds (c : ClientState) (leaves : List (ℕ × ℕ)) (gone : ℕ) (b : Built z) : Prop where
  same : SameAcks c b.client
  seq : b.client.seq = c.seq + 1
  leaves_eq : b.client.leaves = leaves
  sent : b.client.sent = c.sent ∨ ∃ r : SentRecord, b.client.sent = c.sent.set c.seq r
    ∧ r.seq = c.seq ∧ (r.Bare ∨ ∃ o, b.out = some o ∧ o.carries = r)
  out_sent : ∀ o, b.out = some o → b.client.sent = c.sent.set c.seq o.carries
  out_ok : ∀ o, b.out = some o → o.Ok c.stream c.seq
  ents : ∀ noted : List SentEnt, c.sentEnts.Mirrors noted → c.entsHead = noted.length →
    b.client.sentEnts.Mirrors (noted ++ b.ents) ∧ b.client.entsHead = (noted ++ b.ents).length
  ents_ok : ∀ e ∈ b.ents, e.q.InRange ∧ e.q.slot < z.suits
  out_encoded : ∀ o, b.out = some o → List.Forall₂ (EncodedAs c.base) o.ents o.datagram.suits
  out_ents : ∀ o, b.out = some o → o.ents = b.ents ∧ o.carries.entsFrom = c.entsHead
  out_leaves : ∀ o, b.out = some o → o.gone = gone ∧ o.carries.leaves ≤ leaves.length
    ∧ ∃ es, o.datagram.events = (leaves.take o.carries.leaves).map leaveEvent ++ es

theorem buildSnapshot_builds (deltas : Bool) (ring : EventRing z.events) (v : View z) (room : Space)
    (gone : ℕ) (c : ClientState) :
    Builds c (openSnapshot v c).leaves gone (buildSnapshot deltas ring v room gone c) := by
  obtain ⟨hopen, hopenSeq, hopenSent, -, -, hopenEnts, hopenHead⟩ := openSnapshot_frame v c
  obtain ⟨hsame, hseq, hsent, hleaves⟩ :=
    writeSuits_frame deltas v.tick room.suits v.suits (openSnapshot v c)
  have hents := fun noted (h : c.sentEnts.Mirrors noted) (hhead : c.entsHead = noted.length) =>
    writeSuits_ents deltas v.tick room.suits v.suits (hopenEnts ▸ h) (hopenHead ▸ hhead)
  have hencoded := writeSuits_encoded deltas v.tick room.suits v.suits (openSnapshot v c)
  rw [hopen.base] at hencoded
  have hentOk : ∀ e ∈ (writeSuits deltas v.tick room.suits v.suits (openSnapshot v c)).ents,
    e.q.InRange ∧ e.q.slot < z.suits := fun _ => writeSuits_ok
  have hacks := hopen.trans hsame
  rw [hopenSeq] at hseq
  rw [hopenSent] at hsent
  unfold buildSnapshot
  generalize writeSuits deltas v.tick room.suits v.suits (openSnapshot v c) = w at *
  cases hroom : room.finishes with
  | true =>
    rw [if_pos rfl]
    constructor
    · exact ⟨hacks.1, hacks.2, hacks.3, hacks.4, hacks.5, hacks.6, hacks.7⟩
    · exact hseq
    · exact hleaves
    · exact Or.inr ⟨_, by rw [hsent], rfl, Or.inr ⟨_, rfl, rfl⟩⟩
    · intro o ho
      rw [← Option.some.inj ho, hsent]
    · intro o ho
      rw [← Option.some.inj ho]
      exact ⟨rfl, rfl, rfl, rfl, rfl, fun h => (nomatch h), rfl,
        hencoded.imp fun _ _ => EncodedAs.exists_delta, fun _ => objectsFor_lt,
        fun _ => rocksFor_lt⟩
    · exact hents
    · exact hentOk
    · intro o ho
      rw [← Option.some.inj ho]
      exact hencoded
    · intro o ho
      rw [← Option.some.inj ho]
      exact ⟨rfl, rfl⟩
    · intro o ho
      rw [← Option.some.inj ho, ← hleaves]
      refine ⟨rfl, Nat.min_le_right _ _,
        (carryEvents ring v.relevant room.event v.tick c.eventAcked).events, ?_⟩
      simp only [snapshotDatagram, snapshotRecord, ← List.take_eq_take_min]
  | false =>
    rw [if_neg (by simp)]
    exact ⟨hacks, hseq, hleaves, Or.inl hsent, fun _ ho => (nomatch ho), fun _ ho => (nomatch ho),
      hents, hentOk, fun _ ho => (nomatch ho), fun _ ho => (nomatch ho), fun _ ho => (nomatch ho)⟩

theorem buildMore_builds (deltas : Bool) (ring : EventRing z.events) (t : ℕ) (suits : List (SeenSuit z))
    (room : Space) (gone : ℕ) (c : ClientState) :
    Builds c c.leaves gone (buildMore deltas ring t suits room gone c) := by
  obtain ⟨hsame, hseq, hsent, hleaves⟩ :=
    writeSuits_frame deltas t room.suits suits { c with seq := c.seq + 1 }
  have hents := fun noted (h : c.sentEnts.Mirrors noted) (hhead : c.entsHead = noted.length) =>
    writeSuits_ents deltas t room.suits suits (c := { c with seq := c.seq + 1 }) h hhead
  have hencoded := writeSuits_encoded deltas t room.suits suits { c with seq := c.seq + 1 }
  have hentOk : ∀ e ∈ (writeSuits deltas t room.suits suits { c with seq := c.seq + 1 }).ents,
    e.q.InRange ∧ e.q.slot < z.suits := fun _ => writeSuits_ok
  unfold buildMore
  generalize writeSuits deltas t room.suits suits { c with seq := c.seq + 1 } = w at *
  have hacks : SameAcks c w.client :=
    ⟨hsame.1, hsame.2, hsame.3, hsame.4, hsame.5, hsame.6, hsame.7⟩
  cases hroom : room.finishes with
  | true =>
    rw [if_pos rfl]
    by_cases hnone : w.ents = []
    · simp only [hnone, if_true]
      exact ⟨⟨hacks.1, hacks.2, hacks.3, hacks.4, hacks.5, hacks.6, hacks.7⟩, hseq, hleaves,
        Or.inr ⟨_, by rw [hsent], rfl, Or.inl ⟨rfl, rfl, rfl, rfl, rfl⟩⟩, fun _ ho => (nomatch ho),
        fun _ ho => (nomatch ho), by simpa [hnone] using hents, fun e he => (nomatch he), fun _ ho => (nomatch ho), fun _ ho => (nomatch ho),
        fun _ ho => (nomatch ho)⟩
    · simp only [hnone, if_false]
      constructor
      · exact ⟨hacks.1, hacks.2, hacks.3, hacks.4, hacks.5, hacks.6, hacks.7⟩
      · exact hseq
      · exact hleaves
      · exact Or.inr ⟨_, by rw [hsent], rfl, Or.inr ⟨_, rfl, rfl⟩⟩
      · intro o ho
        rw [← Option.some.inj ho, hsent]
      · intro o ho
        rw [← Option.some.inj ho]
        exact ⟨rfl, rfl, rfl, rfl, rfl, fun _ => rfl, rfl,
          hencoded.imp fun _ _ => EncodedAs.exists_delta, fun _ h => (List.not_mem_nil h).elim,
          fun _ h => (List.not_mem_nil h).elim⟩
      · exact hents
      · exact hentOk
      · intro o ho
        rw [← Option.some.inj ho]
        exact hencoded
      · intro o ho
        rw [← Option.some.inj ho]
        exact ⟨rfl, rfl⟩
      · intro o ho
        rw [← Option.some.inj ho]
        exact ⟨rfl, Nat.zero_le _, [], rfl⟩
  | false =>
    rw [if_neg (by simp)]
    exact ⟨hacks, hseq, hleaves, Or.inl hsent, fun _ ho => (nomatch ho), fun _ ho => (nomatch ho),
      hents, hentOk, fun _ ho => (nomatch ho), fun _ ho => (nomatch ho), fun _ ho => (nomatch ho)⟩

end BeforeColony
