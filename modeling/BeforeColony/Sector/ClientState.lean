import Mathlib.Algebra.BigOperators.Ring.Finset
import BeforeColony.Lib.Ring
import BeforeColony.Proto.Ack
import BeforeColony.Proto.Entity

/-!
# Replication state of one client

What the sector remembers of the datagrams it sent a client, and what an ack retires: the events
done, the notices at the front of the queue, the objects, the rocks and the suits' records each
datagram carried. `onAckChecked` is `onAck` with every array access and every subtraction checked.
-/

set_option autoImplicit false

namespace BeforeColony

open Lib

def sentRing : ℕ := 64
/-- Pending "left your sensors" notices per client. -/
def leaveQueue : ℕ := 64
def objsPerSnapshot : ℕ := 24
def rocksPerSnapshot : ℕ := 16
/-- Suits' records in flight remembered for their acks. -/
def sentEntsCap : ℕ := 4096
def maxChunks : ℕ := 2 ^ chunkBits - 1

def packed (generation version : ℕ) : ℕ := generation % 128 * 256 + version % 256

/-- What a datagram carried. An object is a chunk and what the client holds of it after. -/
structure SentRecord where
  seq : ℕ := 0
  eventsDone : ℕ := 0
  leaves : ℕ := 0
  objs : List (ℕ × Option ℕ) := []
  rocks : List (ℕ × ℕ) := []
  entsFrom : ℕ := 0
  nEnts : ℕ := 0
  deriving DecidableEq

/-- A suit's record that went to the client, `nth` of its slot's. -/
structure SentEnt where
  generation : ℕ
  nth : ℕ
  tick : ℕ
  q : QEntity
  deriving DecidableEq

structure ClientState where
  stream : ℕ
  seq : ℕ
  ackFloor : ℕ
  eventAcked : ℕ
  sent : Ring SentRecord sentRing
  leaves : List (ℕ × ℕ)
  objAcked : ℕ → Option ℕ
  objKnown : ℕ
  rockAcked : ℕ → ℕ
  sends : ℕ → ℕ
  base : ℕ → Option SentEnt
  sentEnts : Ring SentEnt sentEntsCap
  entsHead : ℕ

/-- The chunks a client holds something of. -/
def known (acked : ℕ → Option ℕ) : ℕ := ((Finset.range maxChunks).filter fun c => (acked c).isSome).card

/-- One object's ack: what the client holds of it now, and of how many it holds something. -/
def ackObj (a : (ℕ → Option ℕ) × ℕ) (o : ℕ × Option ℕ) : (ℕ → Option ℕ) × ℕ :=
  (Function.update a.1 o.1 o.2,
    match (a.1 o.1).isSome, o.2.isSome with
    | false, true => a.2 + 1
    | true, false => a.2 - 1
    | _, _ => a.2)

/-- A suit's record the client has is its slot's baseline, if newer. -/
def ackEnt (base : ℕ → Option SentEnt) (e : SentEnt) : ℕ → Option SentEnt :=
  match base e.q.slot with
  | none => Function.update base e.q.slot (some e)
  | some b => if b.nth < e.nth then Function.update base e.q.slot (some e) else base

namespace ClientState

variable (c : ClientState)

def seat (stream eventSeq : ℕ) : ClientState :=
  { c with
    stream
    seq := 0
    ackFloor := 0
    eventAcked := eventSeq
    sent := ⟨fun _ => {}⟩
    leaves := []
    objAcked := fun _ => none
    objKnown := 0
    rockAcked := fun _ => 0
    sends := fun _ => 0
    base := fun _ => none
    entsHead := 0 }

def queueLeave (slot tick : ℕ) : ClientState :=
  if c.leaves.length < leaveQueue then { c with leaves := c.leaves ++ [(slot, tick)] } else c

def baseline (j generation : ℕ) (q : QEntity) (tick : ℕ) : Option (QEntity × ℕ) := do
  let b ← c.base j
  if b.generation = generation ∧ c.sends j - b.nth < kept ∧ q.sameSuit b.q = true ∧ b.tick < tick then
    some (b.q, tick - b.tick)
  else none

def noteSent (j generation tick : ℕ) (q : QEntity) : ClientState :=
  { c with
    sends := Function.update c.sends j (c.sends j + 1)
    sentEnts := c.sentEnts.set c.entsHead ⟨generation, c.sends j, tick, q⟩
    entsHead := c.entsHead + 1 }

/-- The suits' records a datagram carried, if they are still remembered. -/
def entsOf (was : SentRecord) : List SentEnt :=
  if c.entsHead - was.entsFrom ≤ sentEntsCap then
    (List.range was.nEnts).map fun k => c.sentEnts.get (was.entsFrom + k)
  else []

/-- How many notices at the queue's front a datagram's arrival removes. -/
def leavesDone (was : SentRecord) : ℕ := min was.leaves c.leaves.length

def retired (seq : ℕ) (was : SentRecord) : ClientState :=
  { c with
    ackFloor := seq + 1
    eventAcked := max c.eventAcked was.eventsDone
    objAcked := (was.objs.foldl ackObj (c.objAcked, c.objKnown)).1
    objKnown := (was.objs.foldl ackObj (c.objAcked, c.objKnown)).2
    rockAcked := was.rocks.foldl (fun a r => Function.update a r.1 r.2) c.rockAcked
    base := (c.entsOf was).foldl ackEnt c.base
    leaves := c.leaves.drop (c.leavesDone was)
    sent := c.sent.map fun r =>
      if seq < r.seq then { r with leaves := r.leaves - c.leavesDone was } else r }

/-- Datagram `seq` arrived: retires it, unless it is done with or its record was overwritten. -/
def retire (seq : ℕ) : ClientState :=
  if seq < c.ackFloor ∨ (c.sent.get seq).seq ≠ seq then c else c.retired seq (c.sent.get seq)

/-- The datagrams an ack names to this client's sector, if it is one it can have. -/
def names (a : Ack) : List ℕ :=
  if a.stream = 0 ∨ a.stream ≠ c.stream ∨ c.seq = 0 then []
  else
    let newest := expand a.seq (c.seq - 1)
    if c.seq ≤ newest then [] else named newest a.bits

/-- An input packet's ack: retires what the datagrams it names carried, oldest first. -/
def onAck (a : Ack) : ClientState := (c.names a).foldl retire c

end ClientState

/-! ## With every access checked -/

/-- `ackObj`, unless the chunk is past the array's end or the count would go below zero. -/
def ackObjChecked (a : (ℕ → Option ℕ) × ℕ) (o : ℕ × Option ℕ) :
    Option ((ℕ → Option ℕ) × ℕ) :=
  if maxChunks ≤ o.1 ∨ ((a.1 o.1).isSome ∧ o.2.isNone ∧ a.2 = 0) then none else some (ackObj a o)

namespace ClientState

variable (rocks suits : ℕ) (c : ClientState)

/-- `retired`, with arrays of so many rocks and suits. -/
def retiredChecked (seq : ℕ) (was : SentRecord) : Option ClientState := do
  let objs ← was.objs.foldlM ackObjChecked (c.objAcked, c.objKnown)
  if (∃ r ∈ was.rocks, rocks ≤ r.1) ∨ (∃ e ∈ c.entsOf was, suits ≤ e.q.slot) then none
  else some { c.retired seq was with objAcked := objs.1, objKnown := objs.2 }

def retireChecked (seq : ℕ) : Option ClientState :=
  if seq < c.ackFloor ∨ (c.sent.get seq).seq ≠ seq then some c
  else c.retiredChecked rocks suits seq (c.sent.get seq)

def onAckChecked (a : Ack) : Option ClientState := (c.names a).foldlM (retireChecked rocks suits) c

end ClientState

/-! ## One object, one record -/

theorem known_update (acked : ℕ → Option ℕ) {o : ℕ × Option ℕ} (ho : o.1 < maxChunks) :
    known (Function.update acked o.1 o.2) + (acked o.1).isSome.toNat
      = known acked + o.2.isSome.toNat := by
  have hcount : ∀ f : ℕ → Option ℕ, known f
      = (f o.1).isSome.toNat + ∑ x ∈ (Finset.range maxChunks).erase o.1, (f x).isSome.toNat := by
    intro f
    rw [known, Finset.card_filter, Finset.add_sum_erase _ (fun x => (f x).isSome.toNat)
      (Finset.mem_range.mpr ho)]
    apply Finset.sum_congr rfl
    intro x _
    cases (f x).isSome <;> rfl
  rw [hcount (Function.update acked o.1 o.2), hcount acked, Function.update_self]
  have hrest : ∑ x ∈ (Finset.range maxChunks).erase o.1,
        (Function.update acked o.1 o.2 x).isSome.toNat
      = ∑ x ∈ (Finset.range maxChunks).erase o.1, (acked x).isSome.toNat := by
    apply Finset.sum_congr rfl
    intro x hx
    rw [Function.update_of_ne (Finset.ne_of_mem_erase hx)]
  rw [hrest]
  omega

theorem ackObj_known {a : (ℕ → Option ℕ) × ℕ} {o : ℕ × Option ℕ} (h : a.2 = known a.1)
    (ho : o.1 < maxChunks) : (ackObj a o).2 = known (ackObj a o).1 := by
  have hupdate := known_update a.1 ho
  rw [← h] at hupdate
  simp only [ackObj]
  cases hheld : (a.1 o.1).isSome <;> cases hnow : o.2.isSome
    <;> simp only [hheld, hnow, Bool.toNat_true, Bool.toNat_false] at hupdate ⊢ <;> omega

theorem ackObjs_known {objs : List (ℕ × Option ℕ)} {a : (ℕ → Option ℕ) × ℕ}
    (h : a.2 = known a.1) (ho : ∀ o ∈ objs, o.1 < maxChunks) :
    (objs.foldl ackObj a).2 = known (objs.foldl ackObj a).1 := by
  induction objs generalizing a with
  | nil => exact h
  | cons o rest ih =>
    exact ih (ackObj_known h (ho o List.mem_cons_self)) fun o' h' => ho o' (List.mem_cons_of_mem _ h')

theorem ackObjsChecked_eq {objs : List (ℕ × Option ℕ)} {a : (ℕ → Option ℕ) × ℕ}
    (h : a.2 = known a.1) (ho : ∀ o ∈ objs, o.1 < maxChunks) :
    objs.foldlM ackObjChecked a = some (objs.foldl ackObj a) := by
  induction objs generalizing a with
  | nil => rfl
  | cons o rest ih =>
    have hlt := ho o List.mem_cons_self
    have hcheck : ackObjChecked a o = some (ackObj a o) := by
      apply if_neg
      rintro (hge | ⟨hheld, hnone, hzero⟩)
      · omega
      · have hupdate := known_update a.1 hlt
        rw [Option.isNone_iff_eq_none] at hnone
        rw [← h, hheld, hnone, hzero] at hupdate
        simp at hupdate
    rw [List.foldlM_cons, hcheck]
    exact ih (ackObj_known h hlt) fun o' h' => ho o' (List.mem_cons_of_mem _ h')

theorem ackObjs_fst (objs : List (ℕ × Option ℕ)) (a : (ℕ → Option ℕ) × ℕ) :
    (objs.foldl ackObj a).1 = objs.foldl (fun f o => Function.update f o.1 o.2) a.1 := by
  induction objs generalizing a with
  | nil => rfl
  | cons o rest ih => exact ih _

/-- A map set at each pair of a list holds at `i` what it held, or a pair's value. -/
theorem foldl_update_cases {α : Type} (l : List (ℕ × α)) (f : ℕ → α) (i : ℕ) :
    (l.foldl (fun f p => Function.update f p.1 p.2) f) i = f i
      ∨ (i, (l.foldl (fun f p => Function.update f p.1 p.2) f) i) ∈ l := by
  induction l generalizing f with
  | nil => exact Or.inl rfl
  | cons p rest ih =>
    rcases ih (Function.update f p.1 p.2) with h | h
    · rw [List.foldl_cons, h]
      by_cases hi : i = p.1
      · right
        subst hi
        rw [Function.update_self]
        exact List.mem_cons_self
      · left
        rw [Function.update_of_ne hi]
    · right
      exact List.mem_cons_of_mem _ h

theorem ackEnt_or (base : ℕ → Option SentEnt) (e : SentEnt) :
    ackEnt base e = base ∨ ackEnt base e = Function.update base e.q.slot (some e) := by
  unfold ackEnt
  split
  · exact Or.inr rfl
  · split
    · exact Or.inr rfl
    · exact Or.inl rfl

theorem ackEnt_cases (base : ℕ → Option SentEnt) (e : SentEnt) (j : ℕ) :
    ackEnt base e j = base j ∨ (j = e.q.slot ∧ ackEnt base e j = some e) := by
  rcases ackEnt_or base e with h | h
  · rw [h]
    exact Or.inl rfl
  · rw [h]
    by_cases hj : j = e.q.slot
    · exact Or.inr ⟨hj, by rw [hj, Function.update_self]⟩
    · exact Or.inl (Function.update_of_ne hj _ _)

theorem ackEnts_cases (es : List SentEnt) (base : ℕ → Option SentEnt) (j : ℕ) :
    es.foldl ackEnt base j = base j
      ∨ ∃ e ∈ es, j = e.q.slot ∧ es.foldl ackEnt base j = some e := by
  induction es generalizing base with
  | nil => exact Or.inl rfl
  | cons e rest ih =>
    rw [List.foldl_cons]
    rcases ih (ackEnt base e) with h | ⟨e', hmem, hslot, h⟩
    · rcases ackEnt_cases base e j with hbase | ⟨hslot, hbase⟩
      · exact Or.inl (h.trans hbase)
      · exact Or.inr ⟨e, List.mem_cons_self, hslot, h.trans hbase⟩
    · exact Or.inr ⟨e', List.mem_cons_of_mem _ hmem, hslot, h⟩

/-! ## What an ack names -/

theorem ClientState.names_ack {c : ClientState} {w : AckWindow} {taken : List ℕ}
    (hw : w.Tracks c.stream taken) (hc : c.stream ≠ 0) (hseq : c.seq ≤ seqMax)
    (hlt : ∀ n ∈ taken, n < c.seq) (hnear : taken ≠ [] → c.seq ≤ w.newest + 0x8001) (n : ℕ) :
    n ∈ c.names w.ack ↔ n ∈ taken ∧ w.newest ≤ n + 32 := by
  by_cases ht : taken = []
  · rw [AckWindow.ack, if_pos (hw.start ht), ht]
    simp [ClientState.names]
  · have hnewest := hlt _ (hw.newest_mem ht)
    have hexpand : expand (w.newest % 0x10000) (c.seq - 1) = w.newest := by
      have := hnear ht
      apply expand_mod
      · constructor <;> omega
      · omega
      · omega
    rw [ClientState.names, hw.ack_eq ht, if_neg (by simp [hc]; omega)]
    simp only [hexpand]
    rw [if_neg (by omega), hw.mem_named ht]

/-- The window says what was taken, whatever headers arrive: the numbers taken on the stream in
hand increase; it changes stream only on a tick newer than all it took; its ack names, in the
numbers near the newest and in the sector's, just those taken among the newest and the 32 before. -/
theorem window_says_taken (hs : List Header) :
    (hs.foldl Listening.receive .start).taken.Pairwise (· < ·)
      ∧ (∀ h, ((hs ++ [h]).foldl Listening.receive .start).window.stream
            = (hs.foldl Listening.receive .start).window.stream →
          (hs.foldl Listening.receive .start).taken
            <+: ((hs ++ [h]).foldl Listening.receive .start).taken)
      ∧ (∀ h, ((hs ++ [h]).foldl Listening.receive .start).window.stream
            ≠ (hs.foldl Listening.receive .start).window.stream →
          ∀ h' ∈ (hs.foldl Listening.receive .start).all, h'.tick < h.tick)
      ∧ ((hs.foldl Listening.receive .start).taken = [] →
          (hs.foldl Listening.receive .start).window.ack = ⟨0, 0, 0⟩)
      ∧ (∀ newest, (hs.foldl Listening.receive .start).taken.getLast? = some newest →
          ∃ bits, (hs.foldl Listening.receive .start).window.ack
              = ⟨(hs.foldl Listening.receive .start).window.stream, newest % 0x10000, bits⟩
            ∧ (∀ n, n ∈ named newest bits
              ↔ n ∈ (hs.foldl Listening.receive .start).taken ∧ newest ≤ n + 32)
            ∧ ∀ c : ClientState, c.stream = (hs.foldl Listening.receive .start).window.stream →
              c.stream ≠ 0 → newest < c.seq → c.seq ≤ newest + 0x8001 → c.seq ≤ seqMax → ∀ n,
              n ∈ c.names (hs.foldl Listening.receive .start).window.ack
                ↔ n ∈ (hs.foldl Listening.receive .start).taken ∧ newest ≤ n + 32)
      ∧ ∀ near s, InWindow near s → near ≤ seqMax → s < seqMax →
        expand (s % 0x10000) near = s := by
  have hgood := Listening.good_run hs
  set l := hs.foldl Listening.receive .start with hl
  refine ⟨hgood.tracks.increasing, ?_, ?_, ?_, ?_, fun near s => expand_mod⟩
  · intro h hstream
    rw [List.foldl_append, ← hl] at hstream ⊢
    exact hgood.keeps hstream
  · intro h hstream
    rw [List.foldl_append, ← hl] at hstream
    exact hgood.stream_changes hstream
  · intro ht
    rw [AckWindow.ack, if_pos (hgood.tracks.start ht)]
  · intro newest hlast
    have ht : l.taken ≠ [] := by
      intro ht
      rw [ht] at hlast
      cases hlast
    have hnewest : l.window.newest = newest := by
      have := hgood.tracks.newest_eq
      rw [if_neg ht, hlast] at this
      exact (Option.some.inj this).symm
    subst hnewest
    refine ⟨_, hgood.tracks.ack_eq ht, hgood.tracks.mem_named ht, ?_⟩
    intro c hc hzero hlt hnear hseq n
    apply ClientState.names_ack (hc ▸ hgood.tracks) hzero hseq _ (fun _ => hnear)
    intro m hm
    exact (hgood.tracks.le_newest m hm).trans_lt hlt

/-- A stream come back to counts anew, and the number 2^32-1 is not told from the one 2^16 less. -/
theorem window_counts_anew :
    ([⟨1, 5, 10⟩, ⟨2, 1, 11⟩, ⟨1, 3, 12⟩].foldl Listening.receive .start).all
        = [⟨1, 5, 10⟩, ⟨2, 1, 11⟩, ⟨1, 3, 12⟩]
      ∧ InWindow (2 ^ 32 - 2) (2 ^ 32 - 1)
      ∧ expand ((2 ^ 32 - 1) % 0x10000) (2 ^ 32 - 2) = 2 ^ 32 - 1 - 2 ^ 16 := by
  decide

theorem ClientState.retire_cases (c : ClientState) (n : ℕ) :
    c.retire n = c ∨ (c.ackFloor ≤ n ∧ (c.sent.get n).seq = n
      ∧ c.retire n = c.retired n (c.sent.get n)) := by
  unfold ClientState.retire
  by_cases h : n < c.ackFloor ∨ (c.sent.get n).seq ≠ n
  · exact Or.inl (if_pos h)
  · rw [not_or, not_lt, not_not] at h
    right
    refine ⟨h.1, h.2, if_neg ?_⟩
    rw [not_or, not_lt, not_not]
    exact h

end BeforeColony
