import BeforeColony.Proto.SnapshotWriter

/-!
# What a snapshot's writer leaves

Whatever is asked of the writer, in whatever order, its bits are the fixed part and then each list's
records with its end, and there is room for every end still owed (`Holds`). Only a fixed part that
leaves no room for them makes it overflow.
-/

set_option autoImplicit false

namespace BeforeColony

open Lib SnapshotWriter

structure SnapshotLists where
  events : List Event := []
  rocks : List RockState := []
  missiles : List MissileState := []
  suits : List (QEntity × Option Delta) := []
  objects : List ObjectState := []
  footOwn : Option FootOwn := none
  people : List (QPerson × Option PersonDelta) := []

namespace SnapshotList

def order (onFoot : Bool) : List SnapshotList :=
  [events, rocks, missiles, entities, objects] ++ if onFoot then [footOwn, people] else []

def before (onFoot : Bool) (l : SnapshotList) : List SnapshotList :=
  (order onFoot).takeWhile (· ≠ l)

variable {onFoot : Bool} {l m : SnapshotList}

theorem next_mem (h : l ∈ order onFoot) : l.next onFoot = done ∨ l.next onFoot ∈ order onFoot := by
  cases onFoot <;> cases l <;> revert h <;> decide

theorem before_next (h : l ∈ order onFoot) : before onFoot (l.next onFoot) = before onFoot l ++ [l] := by
  cases onFoot <;> cases l <;> revert h <;> decide

theorem index_next (onFoot : Bool) (h : l ≠ done) : l.index < (l.next onFoot).index := by
  cases onFoot <;> cases l <;> revert h <;> decide

theorem index_le (l : SnapshotList) : l.index ≤ done.index := by
  cases l <;> decide

theorem owed_next (onFoot : Bool) (h : l ≠ done) : l.owed onFoot = (l.next onFoot).owed onFoot + 1 := by
  cases onFoot <;> cases l <;> revert h <;> decide

theorem before_done : before onFoot done = order onFoot := by
  cases onFoot <;> decide

theorem index_before (h : m ∈ before onFoot l) (hl : l = done ∨ l ∈ order onFoot) :
    m.index < l.index := by
  revert h hl
  cases onFoot <;> cases l <;> cases m <;> decide

end SnapshotList

namespace SnapshotLists

def add (c : SnapshotLists) : Put → SnapshotLists
  | .event e _ => { c with events := c.events ++ [e] }
  | .endEvents => c
  | .rock r _ => { c with rocks := c.rocks ++ [r] }
  | .missile m _ => { c with missiles := c.missiles ++ [m] }
  | .entity q delta _ => { c with suits := c.suits ++ [(q, delta)] }
  | .object o => { c with objects := c.objects ++ [o] }
  | .footOwn f => { c with footOwn := some f }
  | .person q delta _ => { c with people := c.people ++ [(q, delta)] }

def of (taken : List Put) : SnapshotLists := taken.foldl add {}

def records (tick : ℕ) (c : SnapshotLists) : SnapshotList → List (List Field)
  | .events => c.events.map (Event.fields tick)
  | .rocks => c.rocks.map RockState.fields
  | .missiles => c.missiles.map MissileState.fields
  | .entities => c.suits.map fun q => recordFields q.1 q.2
  | .objects => c.objects.map (ObjectState.fields tick)
  | .footOwn => c.footOwn.toList.map FootOwn.fields
  | .people => c.people.map fun q => Put.personFields q.1 q.2
  | .done => []

def openBits (tick : ℕ) (c : SnapshotLists) (l : SnapshotList) : List Bool :=
  (c.records tick l).flatMap fun fs => true :: Field.all fs

/-- The walker's own record needs no end. -/
def endBits (c : SnapshotLists) (l : SnapshotList) : List Bool :=
  if l = .footOwn ∧ c.footOwn.isSome then [] else [false]

def closedBits (tick : ℕ) (c : SnapshotLists) (l : SnapshotList) : List Bool :=
  c.openBits tick l ++ c.endBits l

variable {tick : ℕ} {c : SnapshotLists} {p : Put} {l : SnapshotList}

theorem records_other (h : p.list ≠ l) : (c.add p).records tick l = c.records tick l := by
  cases p <;> cases l <;> first | rfl | exact absurd rfl h

theorem records_same (h : c.records tick .footOwn = [] ∨ p.list ≠ .footOwn) (hp : p ≠ .endEvents) :
    (c.add p).records tick p.list = c.records tick p.list ++ [p.fields tick] := by
  cases p with
  | endEvents => exact absurd rfl hp
  | footOwn f =>
    rcases h with h | h
    · change (some f).toList.map FootOwn.fields = c.records tick .footOwn ++ [f.fields]
      rw [h]
      rfl
    · exact absurd rfl h
  | _ => exact List.map_append

theorem openBits_other (h : p.list ≠ l) : (c.add p).openBits tick l = c.openBits tick l := by
  rw [openBits, openBits, records_other h]

theorem closedBits_other (h : p.list ≠ l) : (c.add p).closedBits tick l = c.closedBits tick l := by
  have hend : (c.add p).endBits l = c.endBits l := by
    cases p <;> cases l <;> first | rfl | exact absurd rfl h
  rw [closedBits, closedBits, openBits_other h, hend]

theorem openBits_same (h : c.records tick .footOwn = [] ∨ p.list ≠ .footOwn) (hp : p ≠ .endEvents) :
    (c.add p).openBits tick p.list
      = c.openBits tick p.list ++ true :: Field.all (p.fields tick) := by
  rw [openBits, records_same h hp, List.flatMap_append]
  simp [openBits]

theorem records_footOwn (h : c.footOwn = none) : c.records tick .footOwn = [] := by
  change c.footOwn.toList.map FootOwn.fields = []
  rw [h]
  rfl

end SnapshotLists

namespace SnapshotWriter

open SnapshotList SnapshotLists

/-! ## The writer -/

/-- A writer with the fixed part and the lists' records in, and room for every end. -/
structure Holds (fixed : List Bool) (limit tick : ℕ) (onFoot : Bool) (c : SnapshotLists)
    (s : SnapshotWriter) : Prop where
  at_ : s.tick = tick
  foot : s.onFoot = onFoot
  bound : s.w.limit = limit
  reached : s.list = .done ∨ s.list ∈ order onFoot
  bits : s.w.bits
    = fixed ++ (before onFoot s.list).flatMap (c.closedBits tick) ++ c.openBits tick s.list
  fits : s.w.Fits (s.list.owed onFoot)
  there : ∀ l, l ∉ order onFoot → c.records tick l = []
  behind : ∀ l, s.list.index < l.index → c.records tick l = []
  afoot : s.list = .footOwn → c.footOwn = none

variable {fixed : List Bool} {limit tick : ℕ} {onFoot : Bool} {c : SnapshotLists}
  {s t : SnapshotWriter} {l : SnapshotList}

theorem closeTo_keeps {P : SnapshotWriter → Prop} (hclose : ∀ s, P s → s.list ≠ .done → P s.close)
    (h : P s) (n : ℕ) : P (closeTo l n s) := by
  induction n generalizing s with
  | zero => exact h
  | succ n ih =>
    unfold closeTo
    split
    · rename_i hlt
      apply ih
      apply hclose s h
      intro hdone
      rw [hdone] at hlt
      exact absurd hlt (not_lt.mpr (index_le l))
    · exact h

theorem open_keeps {P : SnapshotWriter → Prop} (hclose : ∀ s, P s → s.list ≠ .done → P s.close)
    (h : P s) : P (s.open_ l).2 := by
  unfold open_
  split
  · exact h
  · exact closeTo_keeps hclose h _

theorem closeTo_done {n : ℕ} (h : SnapshotList.done.index - s.list.index ≤ n) :
    (closeTo .done n s).list = .done := by
  induction n generalizing s with
  | zero =>
    unfold closeTo
    have hle := index_le s.list
    revert h hle
    cases s.list <;> decide
  | succ n ih =>
    unfold closeTo
    split
    · rename_i hlt
      apply ih
      have hnext := index_next s.onFoot (l := s.list) (by
        intro hdone
        rw [hdone] at hlt
        exact lt_irrefl _ hlt)
      change SnapshotList.done.index - (s.list.next s.onFoot).index ≤ n
      omega
    · rename_i hle
      revert hle
      cases s.list <;> decide

theorem open_done (s : SnapshotWriter) : (s.open_ .done).2.list = .done := by
  unfold open_
  rw [if_neg (not_lt.mpr (index_le s.list))]
  exact closeTo_done (Nat.sub_le _ _)

theorem Holds.close (h : Holds fixed limit tick onFoot c s) (hopen : s.list ≠ .done) :
    Holds fixed limit tick onFoot c s.close := by
  have hmem := h.reached.resolve_left hopen
  have howed := owed_next onFoot hopen
  have hlist : s.close.list = s.list.next onFoot := by
    rw [← h.foot]
    rfl
  have hone : s.w.Fits 1 := h.fits.le (by omega)
  have hw : s.close.w = s.w.append [false] := BitWriter.writeBits_eq 0 hone
  have hend : c.endBits s.list = [false] := by
    apply if_neg
    rintro ⟨hfoot, hsome⟩
    rw [h.afoot hfoot] at hsome
    cases hsome
  have hnext : s.list.index < (s.list.next onFoot).index := index_next onFoot hopen
  constructor
  · exact h.at_
  · exact h.foot
  · rw [hw]
    exact h.bound
  · rw [hlist]
    exact next_mem hmem
  · have hempty : c.openBits tick (s.list.next onFoot) = [] := by
      rw [openBits, h.behind _ hnext]
      rfl
    rw [hlist, hw, before_next hmem, List.flatMap_append, hempty]
    simp [BitWriter.append, h.bits, closedBits, hend]
  · rw [hlist, hw]
    apply h.fits.append
    simp only [List.length_singleton]
    omega
  · exact h.there
  · intro m hm
    rw [hlist] at hm
    exact h.behind m (hnext.trans hm)
  · intro hfoot
    have hrecords := h.behind .footOwn (by rw [← hfoot, hlist]; exact hnext)
    cases hown : c.footOwn with
    | none => rfl
    | some f =>
      change c.footOwn.toList.map FootOwn.fields = [] at hrecords
      rw [hown] at hrecords
      cases hrecords

theorem Holds.open_ (h : Holds fixed limit tick onFoot c s) :
    Holds fixed limit tick onFoot c (s.open_ l).2 :=
  open_keeps (fun _ hs => hs.close) h

theorem run_endEvents {b : Bool} (h : Put.endEvents.run s = (b, t)) : b = false :=
  (congrArg Prod.fst h).symm

/-- The lists before the open one keep their bits as a record goes in. -/
theorem closed_before {p : Put} {l : SnapshotList} (hl : l = .done ∨ l ∈ order onFoot)
    (hp : p.list = l) : (before onFoot l).flatMap ((c.add p).closedBits tick)
      = (before onFoot l).flatMap (c.closedBits tick) := by
  apply List.flatMap_congr
  intro m hm
  apply closedBits_other
  rintro rfl
  exact absurd (index_before hm hl) (by rw [hp]; exact lt_irrefl _)

theorem Holds.took {p : Put} (h : Holds fixed limit tick onFoot c s) (ht : Took p s t) :
    Holds fixed limit tick onFoot (c.add p) (p.run s).2 := by
  obtain ⟨hhere, hopened, hroom, hrun⟩ := ht
  have hput : p ≠ .endEvents := by
    rintro rfl
    exact absurd (run_endEvents hrun) (by decide)
  have htick := h.at_
  have ht : Holds fixed limit tick onFoot c t := hopened ▸ h.open_
  rw [hrun]
  rw [htick] at hroom ⊢
  have hfoot := ht.foot
  have hlength : t.w.bits.length ≤ t.w.limit := (Nat.le_add_right _ _).trans ht.fits.room
  have hfits : t.w.Fits (1 + (Field.widths (p.fields tick) + p.after.owed onFoot)) := by
    refine ⟨ht.fits.ok, ?_⟩
    unfold BitWriter.bitsRemaining at hroom
    rw [hfoot] at hroom
    omega
  have hone : t.w.writeBits 1 1 = t.w.append [true] :=
    BitWriter.writeBits_eq 1 (hfits.le (Nat.le_add_right _ _))
  have hrest : (t.w.append [true]).Fits (Field.widths (p.fields tick) + p.after.owed onFoot) :=
    hfits.append le_rfl
  have hw : p.write tick (t.w.writeBits 1 1) = t.w.append (true :: Field.all (p.fields tick)) := by
    rw [hone, p.write_eq (hrest.le (Nat.le_add_right _ _)), BitWriter.append_append]
    rfl
  have hfits' : (t.w.append (true :: Field.all (p.fields tick))).Fits (p.after.owed onFoot) := by
    apply hfits.append
    rw [List.length_cons, Field.length_all]
    omega
  have hnone : c.records tick .footOwn = [] ∨ p.list ≠ .footOwn := by
    by_cases hp : p.list = .footOwn
    · exact Or.inl (records_footOwn (ht.afoot (hhere.trans hp)))
    · exact Or.inr hp
  have hreached := ht.reached
  have hbits := ht.bits
  have hbehind := ht.behind
  rw [hhere] at hreached hbits hbehind
  have hbits' : t.w.bits ++ true :: Field.all (p.fields tick)
      = fixed ++ (before onFoot p.list).flatMap ((c.add p).closedBits tick)
        ++ (c.add p).openBits tick p.list := by
    rw [openBits_same hnone hput, closed_before hreached rfl, hbits, List.append_assoc]
  have hlater : ∀ m, p.list.index < m.index → (c.add p).records tick m = [] := by
    intro m hm
    rw [records_other (by rintro rfl; exact lt_irrefl _ hm)]
    exact hbehind m hm
  have hthere : ∀ m, m ∉ order onFoot → (c.add p).records tick m = [] := by
    intro m hm
    have hmem : p.list ∈ order onFoot := hreached.resolve_left (by cases p <;> nofun)
    rw [records_other (by rintro rfl; exact hm hmem)]
    exact ht.there m hm
  rw [hw]
  by_cases hp : p.list = .footOwn
  · obtain ⟨f, rfl⟩ : ∃ f, p = .footOwn f := by
      cases p <;> first | exact ⟨_, rfl⟩ | cases hp
    have hmem : SnapshotList.footOwn ∈ order onFoot := hreached.resolve_left nofun
    have hpeople : (c.add (.footOwn f)).openBits tick .people = [] := by
      rw [openBits, hlater .people (by change 5 < 6; decide)]
      rfl
    have hend : (c.add (.footOwn f)).endBits .footOwn = [] := if_pos ⟨rfl, rfl⟩
    have hbefore := before_next hmem
    refine ⟨ht.at_, hfoot, ht.bound, next_mem hmem, ?_, hfits', hthere, ?_, nofun⟩
    · change t.w.bits ++ true :: Field.all f.fields = fixed
        ++ (before onFoot (SnapshotList.footOwn.next onFoot)).flatMap ((c.add (.footOwn f)).closedBits tick)
        ++ (c.add (.footOwn f)).openBits tick .people
      rw [hpeople, hbefore, List.flatMap_append, List.append_nil, ← List.append_assoc]
      have hfoot' : [SnapshotList.footOwn].flatMap ((c.add (.footOwn f)).closedBits tick)
          = (c.add (.footOwn f)).openBits tick .footOwn := by
        rw [List.flatMap_singleton, closedBits, hend, List.append_nil]
      rw [hfoot']
      exact hbits'
    · intro m hm
      exact hlater m (lt_trans (by change 5 < 6; decide) hm)
  · have hafter : p.after = p.list := by
      cases p <;> first | rfl | exact absurd rfl hp
    rw [hafter] at hfits' ⊢
    refine ⟨ht.at_, hfoot, ht.bound, hreached, hbits', hfits', hthere, hlater, ?_⟩
    intro hlist
    exact absurd hlist hp

theorem Holds.run (h : Holds fixed limit tick onFoot c s) (p : Put) :
    Holds fixed limit tick onFoot (if (p.run s).1 then c.add p else c) (p.run s).2 := by
  rcases run_cases p s with ⟨l, hrun⟩ | ⟨t, ht⟩
  · rw [hrun]
    exact h.open_
  · have htook := h.took ht
    have htrue : (p.run s).1 = true := by rw [ht.run]
    rw [if_pos htrue]
    exact htook

theorem Holds.puts (h : Holds fixed limit tick onFoot c s) (ps : List Put) :
    Holds fixed limit tick onFoot ((SnapshotWriter.puts ps s).1.foldl add c) (SnapshotWriter.puts ps s).2 := by
  induction ps generalizing c s with
  | nil => exact h
  | cons p rest ih =>
    have hone := h.run p
    have hrest := ih hone
    unfold SnapshotWriter.puts
    dsimp only
    split
    · rename_i htrue
      rw [if_pos htrue] at hrest
      exact hrest
    · rename_i hfalse
      rw [if_neg hfalse] at hrest
      exact hrest

/-- So a datagram comes of it, the lists' bits after the fixed part. -/
theorem Holds.finish (h : Holds fixed limit tick onFoot c s) :
    s.finish = some (Bytes.pack (fixed ++ (order onFoot).flatMap (c.closedBits tick)))
      ∧ (fixed ++ (order onFoot).flatMap (c.closedBits tick)).length ≤ limit := by
  have hdone : Holds fixed limit tick onFoot c (s.open_ .done).2 := h.open_
  have hlist := open_done s
  have hbits := hdone.bits
  have hroom := hdone.fits.room
  have hempty : c.openBits tick .done = [] := rfl
  rw [hlist, before_done, hempty, List.append_nil] at hbits
  rw [hlist, hbits, hdone.bound] at hroom
  constructor
  · unfold SnapshotWriter.finish
    rw [if_neg (by rw [hdone.fits.ok]; decide), hbits]
  · exact hroom

/-! ## When the fixed part doesn't fit -/

/-- A writer that has overflowed, or has too little room left for the ends it owes. -/
def Cramped (s : SnapshotWriter) : Prop :=
  s.w.overflow = true ∨ s.w.bits.length ≤ s.w.limit ∧ s.w.limit < s.w.bits.length + s.owed

theorem overflow_writeBits {w : BitWriter} (h : w.overflow = true) (value width : ℕ) :
    (w.writeBits value width).overflow = true := by
  unfold BitWriter.writeBits
  split
  · exact h
  · rw [if_pos (Or.inl h)]

theorem overflow_put {w : BitWriter} (h : w.overflow = true) (fs : List Field) :
    (w.put fs).overflow = true := by
  induction fs generalizing w with
  | nil => exact h
  | cons f rest ih => exact ih (overflow_writeBits h f.value f.width)

theorem overflow_packer {p : Packer} (h : p.w.overflow = true) (fs : List Field) :
    (p.put fs).w.overflow = true := by
  induction fs generalizing p with
  | nil => exact h
  | cons f rest ih =>
    apply ih
    change (p.writeBits f.value f.width).w.overflow = true
    unfold Packer.writeBits
    split
    · exact h
    · dsimp only
      split
      · exact overflow_writeBits h _ _
      · exact h

theorem overflow_pack {w : BitWriter} (h : w.overflow = true) (fs : List Field) :
    (w.pack fs).overflow = true :=
  overflow_writeBits (overflow_packer (p := Packer.new w) h fs) _ _

theorem overflow_suit {w : BitWriter} (h : w.overflow = true) (q : QEntity) (delta : Option Delta) :
    (q.write delta w).overflow = true := by
  have hhead := overflow_put h [⟨q.slot, slotBits⟩, .flag delta.isSome]
  cases delta with
  | none => exact overflow_pack (overflow_put hhead q.headFields) q.bodyFields
  | some d => exact overflow_pack hhead d.fields

theorem overflow_write (p : Put) {tick : ℕ} {w : BitWriter} (h : w.overflow = true) :
    (p.write tick w).overflow = true := by
  cases p with
  | event e keepFree => exact overflow_put h _
  | endEvents => exact h
  | rock r keepFree => exact overflow_put h _
  | missile m keepFree => exact overflow_put h _
  | entity q delta keepFree => exact overflow_suit h q delta
  | object o => exact overflow_put h _
  | footOwn f => exact overflow_put h _
  | person q delta keepFree =>
    change (q.write delta w).overflow = true
    rw [person_write_eq]
    exact overflow_put h _

/-- A field more than there is room for, and nothing after it goes in. -/
theorem overflow_of_put {w : BitWriter} (fs : List Field)
    (h : w.limit < w.bits.length + Field.widths fs) (hlength : w.bits.length ≤ w.limit) :
    (w.put fs).overflow = true := by
  induction fs generalizing w with
  | nil =>
    rw [Field.widths_nil] at h
    omega
  | cons f rest ih =>
    rw [Field.widths_cons] at h
    change ((w.writeBits f.value f.width).put rest).overflow = true
    by_cases hone : w.Fits f.width
    · rw [BitWriter.writeBits_eq f.value hone]
      have hroom := hone.room
      apply ih
      · simp only [BitWriter.append, List.length_append, BitString.length_bits]
        omega
      · simp only [BitWriter.append, List.length_append, BitString.length_bits]
        exact hroom
    · apply overflow_put
      unfold BitWriter.writeBits
      by_cases hover : w.overflow = true
      · split
        · exact hover
        · rw [if_pos (Or.inl hover)]
      · have hfull : w.limit < w.bits.length + f.width := by
          by_contra hle
          exact hone ⟨Bool.eq_false_iff.mpr hover, not_lt.mp hle⟩
        rw [if_neg (by omega), if_pos (Or.inr hfull)]

theorem Cramped.close (h : Cramped s) (hopen : s.list ≠ .done) : Cramped s.close := by
  rcases h with h | ⟨hlength, hroom⟩
  · exact Or.inl (overflow_writeBits h 0 1)
  · have howed : s.owed = s.close.owed + 1 := owed_next s.onFoot hopen
    by_cases hone : s.w.Fits 1
    · have hw : s.close.w = s.w.append [false] := BitWriter.writeBits_eq 0 hone
      have hfits := hone.room
      right
      rw [hw]
      simp only [BitWriter.append, List.length_append, List.length_singleton]
      omega
    · left
      change (s.w.writeBits 0 1).overflow = true
      unfold BitWriter.writeBits
      rw [if_neg (by decide)]
      by_cases hover : s.w.overflow = true
      · rw [if_pos (Or.inl hover)]
      · have hfull : s.w.limit < s.w.bits.length + 1 := by
          by_contra hle
          exact hone ⟨Bool.eq_false_iff.mpr hover, not_lt.mp hle⟩
        rw [if_pos (Or.inr hfull)]

theorem Cramped.run (h : Cramped s) (p : Put) : Cramped (p.run s).2 := by
  have hopen (l : SnapshotList) : Cramped (s.open_ l).2 := open_keeps (fun _ hs => hs.close) h
  rcases run_cases p s with ⟨l, hrun⟩ | ⟨t, hhere, hopened, hroom, hrun⟩
  · rw [hrun]
    exact hopen l
  · have ht : Cramped t := hopened ▸ hopen p.list
    rw [hrun]
    rcases ht with hover | ⟨hlength, htight⟩
    · left
      exact overflow_write p (overflow_writeBits hover 1 1)
    · have howed : t.owed = p.list.owed t.onFoot := by rw [owed, hhere]
      have hless : p.list.owed t.onFoot ≤ p.after.owed t.onFoot + 1 := by
        cases p <;> first | exact Nat.le_succ _ | exact le_rfl
      unfold BitWriter.bitsRemaining at hroom
      omega

theorem Cramped.puts (h : Cramped s) (ps : List Put) : Cramped (SnapshotWriter.puts ps s).2 := by
  induction ps generalizing s with
  | nil => exact h
  | cons p rest ih => exact ih (h.run p)

theorem Cramped.finish (h : Cramped s) : s.finish = none := by
  have hdone : Cramped (s.open_ .done).2 := open_keeps (fun _ hs => hs.close) h
  have hover : (s.open_ .done).2.w.overflow = true := by
    rcases hdone with hover | ⟨hlength, htight⟩
    · exact hover
    · have howed : (s.open_ .done).2.owed = 0 := by rw [owed, open_done]; rfl
      omega
  unfold SnapshotWriter.finish
  exact if_pos hover

/-! ## The fixed part -/

def fixedFields (h : SnapshotHeader) (o : Option OwnState) (z : Option OrreryInfo) : List Field :=
  h.fields ++ presentFields OwnState.fields o ++ presentFields OrreryInfo.fields z

variable (maxBytes : ℕ) (h : SnapshotHeader) (o : Option OwnState) (z : Option OrreryInfo)

def leastBits : ℕ := Field.widths (fixedFields h o z) + SnapshotList.events.owed h.onFoot

theorem begun_eq : begun maxBytes h o z
    = ⟨(⟨[], 8 * maxBytes, false⟩ : BitWriter).put (fixedFields h o z), h.tick, .events, h.onFoot⟩ := by
  simp only [begun, SnapshotWriter.new, header, own, orrery, fixedFields, BitWriter.put,
    List.foldl_append]

variable {maxBytes h o z}

theorem holds_begun (hroom : leastBits h o z ≤ 8 * maxBytes) :
    Holds (Field.all (fixedFields h o z)) (8 * maxBytes) h.tick h.onFoot {}
      (begun maxBytes h o z) := by
  unfold leastBits at hroom
  have hfits : (⟨[], 8 * maxBytes, false⟩ : BitWriter).Fits
      (Field.widths (fixedFields h o z) + SnapshotList.events.owed h.onFoot) :=
    ⟨rfl, by rw [List.length_nil, Nat.zero_add]; exact hroom⟩
  rw [begun_eq, BitWriter.put_eq (hfits.le (Nat.le_add_right _ _))]
  refine ⟨rfl, rfl, rfl, Or.inr ?_, ?_, ?_, ?_, ?_, nofun⟩
  · exact List.mem_append_left _ List.mem_cons_self
  · change [] ++ Field.all (fixedFields h o z) = Field.all (fixedFields h o z)
      ++ (before h.onFoot .events).flatMap _ ++ []
    have hfirst : before h.onFoot .events = [] := by cases h.onFoot <;> rfl
    rw [hfirst, List.nil_append, List.flatMap_nil, List.append_nil, List.append_nil]
  · apply hfits.append
    rw [Field.length_all]
  · intro l _
    cases l <;> rfl
  · intro l _
    cases l <;> rfl

theorem cramped_begun (hroom : 8 * maxBytes < leastBits h o z) : Cramped (begun maxBytes h o z) := by
  unfold leastBits at hroom
  rw [begun_eq]
  by_cases hfits : Field.widths (fixedFields h o z) ≤ 8 * maxBytes
  · right
    rw [BitWriter.put_eq ⟨rfl, by rw [List.length_nil, Nat.zero_add]; exact hfits⟩]
    simp only [BitWriter.append, List.nil_append, Field.length_all]
    exact ⟨hfits, hroom⟩
  · left
    apply overflow_of_put
    · rw [List.length_nil, Nat.zero_add]
      exact not_le.mp hfits
    · exact Nat.zero_le _

end SnapshotWriter

end BeforeColony
