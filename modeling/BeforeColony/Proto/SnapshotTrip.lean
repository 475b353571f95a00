import BeforeColony.Proto.SnapshotLists
import BeforeColony.Proto.SnapshotRuns

/-!
# A snapshot goes over

Whatever is asked of a snapshot's writer and however little room there is, what it took is what a
reader of the datagram gets, list by list. A reader takes a list by asking for its next record till
there is none, and the whole datagram or none of it.
-/

set_option autoImplicit false

namespace BeforeColony

open Lib SnapshotWriter

structure SnapshotContents where
  own : Option OwnState
  orrery : Option OrreryInfo
  events : List Event
  rocks : List RockState
  missiles : List MissileState
  suits : List QEntity
  objects : List ObjectState
  footOwn : Option FootOwn
  people : List QPerson

namespace SnapshotReader

/-- Reads a list's records, `n` at most, till there is none. -/
def drain {α : Type} (next : Decode (Option α)) : ℕ → Decode (List α)
  | 0 => return []
  | n + 1 => do
    match ← next with
    | none => return []
    | some a =>
      let rest ← drain next n
      return a :: rest

/-- Reads a list to its end; a record takes a bit at least. -/
def drained {α : Type} (next : Decode (Option α)) : Decode (List α) := do
  drain next ((← get).r.rest.length + 1)

/-- Reads a datagram to its end, deltas against `suits` and `people`. -/
def contents (walked : ℕ → ℕ → ℕ → ℤ × ℤ) (suits : ℕ → ℕ → Option QEntity)
    (people : ℕ → ℕ → Option QPerson) : Decode SnapshotContents := do
  let own ← own
  let orrery ← orrery
  let events ← drained (nextEvent walked)
  let rocks ← drained (nextRock walked)
  let missiles ← drained (nextMissile walked)
  let suits ← drained (nextEntity walked suits)
  let objects ← drained (nextObject walked)
  let footOwn ← footOwn walked
  let people ← drained (nextPerson walked people)
  return { own, orrery, events, rocks, missiles, suits, objects, footOwn, people }

end SnapshotReader

/-! ## What a reader can read back -/

section

variable (walked : ℕ → ℕ → ℕ → ℤ × ℤ) (suits : ℕ → ℕ → Option QEntity)
  (people : ℕ → ℕ → Option QPerson) (tick : ℕ)

/-- A suit's record in range, a delta planned against a record the reader holds. -/
def SuitKnown (q : QEntity) (delta : Option Delta) : Prop :=
  q.InRange ∧ ∀ d, delta = some d → ∃ base back, Delta.plan q base back = some d
    ∧ baselineFor suits q.slot tick back = some base

def PersonKnown (q : QPerson) (delta : Option PersonDelta) : Prop :=
  q.InRange ∧ ∀ d, delta = some d → ∃ base back, PersonDelta.plan walked q base back = some d
    ∧ people q.id (ticksBack tick back) = some base

def EventKnown (e : Event) : Prop := e.InRange ∧ e.tick ≤ tick ∧ tick - e.tick ≤ 255

def ObjectKnown (o : ObjectState) : Prop := o.InRange ∧ o.TenKg ∧ o.Recent tick

def SnapshotWriter.Put.Known : Put → Prop
  | .event e _ => EventKnown tick e
  | .endEvents => True
  | .rock r _ => r.InRange
  | .missile m _ => m.InRange
  | .entity q delta _ => SuitKnown suits tick q delta
  | .object o => ObjectKnown tick o
  | .footOwn f => f.InRange
  | .person q delta _ => PersonKnown walked people tick q delta

structure SnapshotLists.Known (c : SnapshotLists) : Prop where
  events : ∀ e ∈ c.events, EventKnown tick e
  rocks : ∀ r ∈ c.rocks, r.InRange
  missiles : ∀ m ∈ c.missiles, m.InRange
  suits : ∀ q ∈ c.suits, SuitKnown suits tick q.1 q.2
  objects : ∀ o ∈ c.objects, ObjectKnown tick o
  footOwn : ∀ f ∈ c.footOwn, f.InRange
  people : ∀ q ∈ c.people, PersonKnown walked people tick q.1 q.2

variable {walked suits people tick}

theorem forall_mem_snoc {α : Type} {P : α → Prop} {l : List α} {a : α} (h : ∀ b ∈ l, P b)
    (ha : P a) : ∀ b ∈ l ++ [a], P b := by
  intro b hb
  rcases List.mem_append.mp hb with hb | hb
  · exact h b hb
  · rw [List.mem_singleton.mp hb]
    exact ha

theorem SnapshotLists.Known.add {c : SnapshotLists} (h : c.Known walked suits people tick) {p : Put}
    (hp : p.Known walked suits people tick) : (c.add p).Known walked suits people tick := by
  cases p with
  | event e keepFree => exact { h with events := forall_mem_snoc h.events hp }
  | endEvents => exact h
  | rock r keepFree => exact { h with rocks := forall_mem_snoc h.rocks hp }
  | missile m keepFree => exact { h with missiles := forall_mem_snoc h.missiles hp }
  | entity q delta keepFree => exact { h with suits := forall_mem_snoc h.suits hp }
  | object o => exact { h with objects := forall_mem_snoc h.objects hp }
  | footOwn f =>
    refine { h with footOwn := ?_ }
    intro f' hf
    rw [← Option.some.inj hf]
    exact hp
  | person q delta keepFree => exact { h with people := forall_mem_snoc h.people hp }

theorem SnapshotLists.known_empty :
    ({} : SnapshotLists).Known walked suits people tick := by
  constructor
  case footOwn =>
    intro f hf
    cases hf
  all_goals exact fun _ h => absurd h List.not_mem_nil

theorem SnapshotLists.known_of {taken : List Put}
    (h : ∀ p ∈ taken, p.Known walked suits people tick) :
    (SnapshotLists.of taken).Known walked suits people tick := by
  unfold SnapshotLists.of
  have hall : ∀ c : SnapshotLists, c.Known walked suits people tick →
      (taken.foldl SnapshotLists.add c).Known walked suits people tick := by
    induction taken with
    | nil => exact fun _ hc => hc
    | cons p rest ih =>
      intro c hc
      exact ih (fun p' hp' => h p' (List.mem_cons_of_mem p hp')) _ (hc.add (h p List.mem_cons_self))
  exact hall {} known_empty

end

theorem SnapshotWriter.mem_of_puts {ps : List Put} {s : SnapshotWriter} {p : Put}
    (h : p ∈ (puts ps s).1) : p ∈ ps := by
  induction ps generalizing s with
  | nil => exact h
  | cons p' rest ih =>
    unfold puts at h
    dsimp only at h
    split at h
    · rcases List.mem_cons.mp h with rfl | h
      · exact List.mem_cons_self
      · exact List.mem_cons_of_mem _ (ih h)
    · exact List.mem_cons_of_mem _ (ih h)

/-! ## The records -/

section

variable {walked : ℕ → ℕ → ℕ → ℤ × ℤ} {suits : ℕ → ℕ → Option QEntity}
  {people : ℕ → ℕ → Option QPerson} {tick : ℕ}

theorem reads_suit {q : QEntity} {delta : Option Delta} (h : SuitKnown suits tick q delta) :
    Reads (readSuit suits tick) (Field.all (recordFields q delta)) q := by
  obtain ⟨hq, hdelta⟩ := h
  apply Reads.whole
  cases delta with
  | none =>
    simp only [recordFields, Field.all_cons, Option.isSome_none, Option.elim_none]
    apply (Reads.field hq.slot).bind
    apply (Reads.bool false).bind
    exact QEntity.reads_absolute hq
  | some d =>
    obtain ⟨base, back, hplan, hbase⟩ := hdelta d rfl
    simp only [recordFields, Field.all_cons, Option.isSome_some, Option.elim_some]
    apply (Reads.field hq.slot).bind
    apply (Reads.bool true).bind
    rw [if_pos rfl, all_fields]
    apply (reads_back hplan).bind
    apply QPerson.reads_check
    rw [hbase]
    exact reads_rest hq hplan

/-- What goes over in given fields is read from them. -/
theorem RoundTrips.reads_put {α : Type} {rd : Read α} {fs : List Field} {n : ℕ} {a : α}
    (h : RoundTrips (fun w => w.put fs) rd n a) (hwidths : Field.widths fs = n) :
    Reads rd (Field.all fs) a := by
  obtain ⟨bs, -, hwrite, hreads⟩ := h
  have hfits : (⟨[], n, false⟩ : BitWriter).Fits n := ⟨rfl, (Nat.zero_add n).le⟩
  have hsame := (hwrite _ hfits).symm.trans (BitWriter.put_eq (hwidths ▸ hfits))
  simp only [BitWriter.append, List.nil_append, BitWriter.mk.injEq] at hsame
  exact hsame.1 ▸ hreads

theorem reads_person {q : QPerson} {delta : Option PersonDelta}
    (h : PersonKnown walked people tick q delta) :
    Reads (readPerson walked people tick) (Field.all (Put.personFields q delta)) q := by
  obtain ⟨hq, hdelta⟩ := h
  have hwrite : (fun w => w.put (Put.personFields q delta)) = q.write delta :=
    funext fun w => (person_write_eq q delta w).symm
  refine RoundTrips.reads_put ?_ (personFields_widths q delta)
  rw [hwrite]
  cases delta with
  | none => exact QPerson.roundTrips_absolute hq
  | some d =>
    obtain ⟨base, back, hplan, hbase⟩ := hdelta d rfl
    exact QPerson.roundTrips_delta hq hplan hbase

end

/-! ## The reader -/

namespace SnapshotReader

variable {α β : Type} {m : Decode α} {f : α → Decode β} {s s' : SnapshotReader}

def within (h : SnapshotHeader) (stage : Stage) (rest : List Bool) : SnapshotReader :=
  ⟨⟨rest, false⟩, h, stage⟩

theorem decode_step {a : α} (h : m s = (.ok a, s')) : (m >>= f) s = f a s' := by
  change (match m s with | (a, s') => ExceptT.bindCont f a s') = _
  rw [h]
  rfl

theorem onBits_eq {rd : Read α} {bs rest : List Bool} {a : α} (hreads : Reads rd bs a)
    (h : SnapshotHeader) (stage : Stage) :
    onBits rd (within h stage (bs ++ rest)) = (.ok a, within h stage rest) := by
  unfold onBits within
  rw [hreads rest]

theorem onBits_bit (b : Bool) (h : SnapshotHeader) (stage : Stage) (rest : List Bool) :
    onBits readBool (within h stage (b :: rest)) = (.ok b, within h stage rest) := by
  have hbit : (Field.flag b).bits = [b] := by cases b <;> rfl
  have hreads := Reads.bool b
  rw [hbit] at hreads
  exact onBits_eq hreads h stage

variable {h : SnapshotHeader} {here after : Stage} {rest : List Bool}

theorem setStage_eq :
    setStage after (within h here rest) = (.ok (), within h after rest) := rfl

theorem get_eq : (get : Decode SnapshotReader) (within h here rest)
    = (.ok (within h here rest), within h here rest) := rfl

theorem more_true : more after (within h here (true :: rest)) = (.ok true, within h here rest) := by
  unfold more
  rw [decode_step (onBits_bit true h here rest)]
  rfl

theorem more_false :
    more after (within h here (false :: rest)) = (.ok false, within h after rest) := by
  unfold more
  rw [decode_step (onBits_bit false h here rest)]
  rfl

theorem present_none {rd : Read α} :
    present after rd (within h here (false :: rest)) = (.ok none, within h after rest) := by
  unfold present
  rw [decode_step setStage_eq, decode_step (onBits_bit false h after rest)]
  rfl

theorem present_some {rd : Read α} {bs : List Bool} {a : α} (hreads : Reads rd bs a) :
    present after rd (within h here (true :: bs ++ rest)) = (.ok (some a), within h after rest) := by
  unfold present
  rw [decode_step setStage_eq]
  change (onBits readBool >>= _) (within h after (true :: (bs ++ rest))) = _
  rw [decode_step (onBits_bit true h after (bs ++ rest))]
  change (onBits (whole rd) >>= fun a => Pure.pure (some a)) _ = _
  rw [decode_step (onBits_eq hreads.whole h after)]
  rfl

theorem listed_end {rd : SnapshotHeader → Read α} :
    listed here after rd (within h here (false :: rest)) = (.ok none, within h after rest) := by
  unfold listed
  rw [decode_step get_eq]
  change (ite (here ≠ here) _ _ : Decode (Option α)) _ = _
  rw [if_neg (not_not.mpr rfl), decode_step more_false]
  rfl

theorem listed_some {rd : SnapshotHeader → Read α} {bs : List Bool} {a : α}
    (hreads : Reads (rd h) bs a) :
    listed here after rd (within h here (true :: bs ++ rest)) = (.ok (some a), within h here rest) := by
  unfold listed
  rw [decode_step get_eq]
  change (ite (here ≠ here) _ _ : Decode (Option α)) _ = _
  rw [if_neg (not_not.mpr rfl), List.cons_append, decode_step more_true]
  change (onBits (rd h) >>= fun a => Pure.pure (some a)) _ = _
  rw [decode_step (onBits_eq hreads h here)]
  rfl

theorem listed_past {rd : SnapshotHeader → Read α} {stage : Stage} (hpast : stage ≠ here) :
    listed here after rd (within h stage rest) = (.ok none, within h stage rest) := by
  unfold listed
  rw [decode_step get_eq]
  change (ite (stage ≠ here) _ _ : Decode (Option α)) _ = _
  rw [if_pos hpast]
  rfl

theorem drain_eq {next : Decode (Option β)} {enc : α → List Bool} {out : α → β} (l : List α) {n : ℕ}
    (hsome : ∀ a ∈ l, ∀ rest, next (within h here (true :: enc a ++ rest))
      = (.ok (some (out a)), within h here rest))
    (hend : ∀ rest, next (within h here (false :: rest)) = (.ok none, within h after rest))
    (hn : l.length < n) :
    drain next n (within h here (l.flatMap (fun a => true :: enc a) ++ false :: rest))
      = (.ok (l.map out), within h after rest) := by
  obtain ⟨n, rfl⟩ : ∃ k, n = k + 1 := ⟨n - 1, by omega⟩
  unfold drain
  induction l generalizing n with
  | nil =>
    change (next >>= _) (within h here (false :: rest)) = _
    rw [decode_step (hend rest)]
    rfl
  | cons a l ih =>
    rw [List.length_cons] at hn
    obtain ⟨k, rfl⟩ : ∃ k, n = k + 1 := ⟨n - 1, by omega⟩
    have hrest := ih (fun b hb => hsome b (List.mem_cons_of_mem a hb)) k (by omega)
    rw [List.flatMap_cons, List.append_assoc, decode_step (hsome a List.mem_cons_self _)]
    change (drain next (k + 1) >>= _) _ = _
    unfold drain
    rw [decode_step hrest]
    rfl

theorem length_le_flatMap (enc : α → List Bool) (l : List α) :
    l.length ≤ (l.flatMap fun a => true :: enc a).length := by
  induction l with
  | nil => exact le_rfl
  | cons a l ih =>
    rw [List.flatMap_cons, List.length_append, List.length_cons, List.length_cons]
    omega

theorem drained_eq {next : Decode (Option β)} {enc : α → List Bool} {out : α → β} (l : List α)
    (hsome : ∀ a ∈ l, ∀ rest, next (within h here (true :: enc a ++ rest))
      = (.ok (some (out a)), within h here rest))
    (hend : ∀ rest, next (within h here (false :: rest)) = (.ok none, within h after rest)) :
    drained next (within h here (l.flatMap (fun a => true :: enc a) ++ false :: rest))
      = (.ok (l.map out), within h after rest) := by
  unfold drained
  rw [decode_step get_eq]
  apply drain_eq l hsome hend
  have hle := length_le_flatMap enc l
  simp only [within, List.length_append, List.length_cons]
  omega

theorem drained_past {next : Decode (Option β)}
    (hnext : next (within h here rest) = (.ok none, within h here rest)) :
    drained next (within h here rest) = (.ok [], within h here rest) := by
  unfold drained
  rw [decode_step get_eq]
  unfold drain
  rw [decode_step hnext]
  rfl

variable (walked : ℕ → ℕ → ℕ → ℤ × ℤ)

theorem next_eq {stage : Stage} (hstage : stage.index ≤ here.index) {m : Decode α} {o}
    (hm : m (within h here rest) = o) :
    (do
      skipTo walked stage
      m) (within h here rest) = o := by
  rw [next_there walked hstage]
  exact hm

theorem drained_list {rd : SnapshotHeader → Read β} {next : Decode (Option β)}
    {enc : α → List Bool} {out : α → β} (l : List α)
    (hnext : ∀ rest, next (within h here rest) = listed here after rd (within h here rest))
    (hreads : ∀ a ∈ l, Reads (rd h) (enc a) (out a)) :
    drained next (within h here (l.flatMap (fun a => true :: enc a) ++ false :: rest))
      = (.ok (l.map out), within h after rest) := by
  apply drained_eq l
  · intro a ha rest
    rw [hnext]
    exact listed_some (hreads a ha)
  · intro rest
    rw [hnext]
    exact listed_end

theorem presented {fields : α → List Field} {rd : Read α} {o : Option α}
    (hreads : ∀ a ∈ o, Reads rd (Field.all (fields a)) a) :
    present after rd (within h here (Field.all (presentFields fields o) ++ rest))
      = (.ok o, within h after rest) := by
  cases o with
  | none => exact present_none
  | some a => exact present_some (hreads a rfl)

theorem own_eq {o : Option OwnState} (ho : ∀ a ∈ o, a.Sendable) :
    own (within h .own (Field.all (presentFields OwnState.fields o) ++ rest))
      = (.ok o, within h .orrery rest) := by
  unfold own
  rw [decode_step get_eq]
  exact presented fun a ha => OwnState.reads (ho a ha)

theorem orrery_eq {z : Option OrreryInfo} (hz : ∀ a ∈ z, a.Sendable) :
    orrery (within h .orrery (Field.all (presentFields OrreryInfo.fields z) ++ rest))
      = (.ok z, within h .events rest) := by
  unfold orrery
  rw [decode_step get_eq]
  change (get >>= _ : Decode (Option OrreryInfo)) _ = _
  rw [decode_step get_eq]
  exact presented fun a ha => OrreryInfo.reads (hz a ha)

variable {c : SnapshotLists} {suits : ℕ → ℕ → Option QEntity} {people : ℕ → ℕ → Option QPerson}

theorem drained_closed {l : SnapshotList} {as : List α} {fields : α → List Field} {out : α → β}
    {next : Decode (Option β)} {rd : SnapshotHeader → Read β} (hl : l ≠ .footOwn)
    (hrecords : c.records h.tick l = as.map fields)
    (hnext : ∀ rest, next (within h here rest) = listed here after rd (within h here rest))
    (hreads : ∀ a ∈ as, Reads (rd h) (Field.all (fields a)) (out a)) :
    drained next (within h here (c.closedBits h.tick l ++ rest))
      = (.ok (as.map out), within h after rest) := by
  have hbits : c.closedBits h.tick l ++ rest
      = as.flatMap (fun a => true :: Field.all (fields a)) ++ false :: rest := by
    have hend : c.endBits l = [false] := if_neg fun hboth => hl hboth.1
    rw [SnapshotLists.closedBits, SnapshotLists.openBits, hend, hrecords, List.flatMap_map,
      List.append_assoc]
    rfl
  rw [hbits]
  exact drained_list as hnext hreads

/-- The walker's own record, which is there or isn't. -/
theorem footOwn_closed (hc : ∀ f ∈ c.footOwn, f.InRange) :
    footOwn walked (within h .footOwn (c.closedBits h.tick .footOwn ++ rest))
      = (.ok c.footOwn, within h .people rest) := by
  have hbits : c.closedBits h.tick .footOwn
      = Field.all (presentFields FootOwn.fields c.footOwn) := by
    unfold SnapshotLists.closedBits SnapshotLists.openBits SnapshotLists.endBits
    change (c.footOwn.toList.map FootOwn.fields).flatMap _ ++ _ = _
    cases c.footOwn with
    | none => rfl
    | some f =>
      change true :: Field.all f.fields ++ [] ++ [] = true :: Field.all f.fields
      rw [List.append_nil, List.append_nil]
  rw [hbits]
  refine next_eq walked (le_refl _) ?_
  unfold footOwnHere
  rw [decode_step get_eq]
  have hread : ∀ f ∈ c.footOwn, Reads FootOwn.read (Field.all f.fields) f :=
    fun f hf => FootOwn.reads_fields (hc f hf)
  change present .people FootOwn.read _ = _
  exact presented hread

theorem flatMap_order {onFoot : Bool} (f : SnapshotList → List Bool) (rest : List Bool) :
    (SnapshotList.order onFoot).flatMap f ++ rest
      = f .events ++ (f .rocks ++ (f .missiles ++ (f .entities ++ (f .objects
        ++ if onFoot then f .footOwn ++ (f .people ++ rest) else rest)))) := by
  cases onFoot <;> simp [SnapshotList.order]

/-- What the fixed part and the lists say. -/
def said (o : Option OwnState) (z : Option OrreryInfo) (c : SnapshotLists) : SnapshotContents where
  own := o
  orrery := z
  events := c.events
  rocks := c.rocks
  missiles := c.missiles
  suits := c.suits.map Prod.fst
  objects := c.objects
  footOwn := c.footOwn
  people := c.people.map Prod.fst

theorem contents_eq {o : Option OwnState} {z : Option OrreryInfo} (ho : ∀ a ∈ o, a.Sendable)
    (hz : ∀ a ∈ z, a.Sendable) (hc : c.Known walked suits people h.tick)
    (hfoot : h.onFoot = false → c.footOwn = none ∧ c.people = []) :
    contents walked suits people (within h .own (Field.all (presentFields OwnState.fields o)
        ++ (Field.all (presentFields OrreryInfo.fields z)
          ++ ((SnapshotList.order h.onFoot).flatMap (c.closedBits h.tick) ++ rest))))
      = (.ok (said o z c), within h .done rest) := by
  have hevents : ∀ rest, drained (nextEvent walked)
      (within h .events (c.closedBits h.tick .events ++ rest))
        = (.ok (c.events.map id), within h .rocks rest) := fun rest =>
    drained_closed (by decide) rfl (fun rest => next_eq walked le_rfl rfl) fun e he =>
      Event.reads (hc.events e he).1 (hc.events e he).2.1 (hc.events e he).2.2
  have hrocks : ∀ rest, drained (nextRock walked)
      (within h .rocks (c.closedBits h.tick .rocks ++ rest))
        = (.ok (c.rocks.map id), within h .missiles rest) := fun rest =>
    drained_closed (by decide) rfl (fun rest => next_eq walked le_rfl rfl) fun r hr =>
      (RockState.reads (hc.rocks r hr)).whole
  have hmissiles : ∀ rest, drained (nextMissile walked)
      (within h .missiles (c.closedBits h.tick .missiles ++ rest))
        = (.ok (c.missiles.map id), within h .entities rest) := fun rest =>
    drained_closed (by decide) rfl (fun rest => next_eq walked le_rfl rfl) fun m hm =>
      (MissileState.reads (hc.missiles m hm)).whole
  have hsuits : ∀ rest, drained (nextEntity walked suits)
      (within h .entities (c.closedBits h.tick .entities ++ rest))
        = (.ok (c.suits.map Prod.fst), within h .objects rest) := fun rest =>
    drained_closed (by decide) rfl (fun rest => next_eq walked le_rfl rfl) fun q hq =>
      reads_suit (hc.suits q hq)
  have hobject : ∀ rest, nextObject walked (within h .objects rest)
      = listed .objects (if h.onFoot then .footOwn else .done)
        (fun h => whole (ObjectState.read h.tick)) (within h .objects rest) := by
    intro rest
    apply next_eq walked le_rfl
    unfold objectHere
    rw [decode_step get_eq]
    rfl
  have hobjects : ∀ rest, drained (nextObject walked)
      (within h .objects (c.closedBits h.tick .objects ++ rest))
        = (.ok (c.objects.map id), within h (if h.onFoot then .footOwn else .done) rest) := fun rest =>
    drained_closed (by decide) rfl hobject fun o ho =>
      (ObjectState.reads (hc.objects o ho).1 (hc.objects o ho).2.1 (hc.objects o ho).2.2).whole
  have hpeople : ∀ rest, drained (nextPerson walked people)
      (within h .people (c.closedBits h.tick .people ++ rest))
        = (.ok (c.people.map Prod.fst), within h .done rest) := fun rest =>
    drained_closed (by decide) rfl (fun rest => next_eq walked le_rfl rfl) fun q hq =>
      reads_person (hc.people q hq)
  unfold contents
  rw [decode_step (own_eq ho), decode_step (orrery_eq hz), flatMap_order,
    decode_step (hevents _), decode_step (hrocks _), decode_step (hmissiles _),
    decode_step (hsuits _), decode_step (hobjects _)]
  simp only [List.map_id]
  by_cases hon : h.onFoot = true
  · rw [if_pos hon, if_pos hon, decode_step (footOwn_closed walked hc.footOwn),
      decode_step (hpeople _)]
    rfl
  · obtain ⟨hnone, hempty⟩ := hfoot (Bool.eq_false_iff.mpr hon)
    have hown : footOwn walked (within h .done rest) = (.ok none, within h .done rest) :=
      next_eq walked (by decide) rfl
    have hlast : drained (nextPerson walked people) (within h .done rest)
        = (.ok [], within h .done rest) :=
      drained_past (next_eq walked (by decide) (listed_past nofun))
    rw [if_neg hon, if_neg hon, decode_step hown, decode_step hlast]
    simp only [said, hnone, hempty, List.map_nil]
    rfl

theorem new_eq {bits : List Bool} (hr : h.InRange) :
    new (Bytes.pack (Field.all h.fields ++ bits)) = .ok (within h .own (bits
      ++ List.replicate (8 * (((Field.all h.fields ++ bits).length + 7) / 8)
        - (Field.all h.fields ++ bits).length) false)) := by
  have hread := SnapshotHeader.reads hr (bits
    ++ List.replicate (8 * (((Field.all h.fields ++ bits).length + 7) / 8)
      - (Field.all h.fields ++ bits).length) false)
  unfold new
  rw [BitReader.ofBytes, Bytes.unpack_pack, List.append_assoc, hread]
  rfl

end SnapshotReader

def walkersHeader : SnapshotHeader where
  tick := 900
  seq := 7
  stream := 3
  ackInputTick := 898
  inputHealth := -2
  timeEchoMs := 40
  echoHoldMs := 9
  tidiPct := 100
  flags := 4

example : (puts [.rock ⟨3, false, 7, 2⟩ 0, .event (.leave 890 4) 0, .object (.gone 5)]
    (begun 60 walkersHeader none none)).1.map Put.list = [.rocks, .objects] := by decide +kernel

end BeforeColony
