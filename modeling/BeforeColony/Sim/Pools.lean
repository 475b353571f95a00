import Mathlib.Logic.Function.Iterate
import BeforeColony.Lib.SlotPool
import BeforeColony.Sim.Chunks

/-!
# Slot pools and their handles

The chunk pool and the suits' slots, over any run of what is done to them. In both, the free list
and the bitset tell the same (`Lib.SlotPool.Accounts`). A full chunk pool makes room by recycling
the oldest chunk adrift, never a held one. A suit's slot takes a new generation as it is given out
and another as it is taken back; they are 65,535, so an id is refused in a later use of its slot
unless that is the 65,535th, or a multiple of it (`valid_iff`).
-/

set_option autoImplicit false

namespace BeforeColony

open Catalogue Lib

namespace Chunks

inductive Op where
  | spawn (desc : ChunkDesc) (motion : Motion) (expire t : ℕ)
  | kill (k : ℕ)
  | setMotion (k : ℕ) (motion : Motion)

def apply (c : Chunks) : Op → Chunks
  | .spawn desc motion expire t => (c.spawn desc motion expire t).1
  | .kill k => c.kill k
  | .setMotion k motion => c.setMotion k motion

def run (c : Chunks) (ops : List Op) : Chunks := ops.foldl apply c

/-- The free list holds the slots with no chunk in them, each once, and the count is of the rest. -/
structure Accounted (c : Chunks) : Prop where
  slots : SlotPool.Accounts chunkSlots c.alive c.free
  count : c.count = SlotPool.inUse chunkSlots c.alive

/-- What spawning gives: refused only where every slot's chunk is held; in a full pool the
oldest chunk adrift makes way; all the others are left as they are. -/
structure MakesRoom (c : Chunks) (r : Chunks × Option ℕ) : Prop where
  refused : r.2 = none ↔ ∀ k < chunkSlots, c.alive k = true ∧ (c.slot k).motion ≠ .free
  unused : ∀ k, c.free ≠ [] → r.2 = some k → c.alive k = false
  oldest : ∀ k, c.free = [] → r.2 = some k →
    c.Adrift k ∧ ∀ q, c.Adrift q → (c.slot k).born ≤ (c.slot q).born
  kept : ∀ q, r.2 ≠ some q → r.1.alive q = c.alive q ∧ r.1.slot q = c.slot q
  held : ∀ q, c.alive q = true → (c.slot q).motion ≠ .free →
    r.1.alive q = true ∧ r.1.slot q = c.slot q

variable {c : Chunks} {k q : ℕ} {desc : ChunkDesc} {motion : Motion} {expire t : ℕ}

/-! ### The free list -/

theorem accounted_new : new.Accounted where
  slots := SlotPool.Accounts.start chunkSlots
  count := by
    simp [new, SlotPool.inUse]

theorem kill_of_alive (h : c.Accounted) (hk : c.alive k = true) :
    c.kill k = { c with
      alive := Function.update c.alive k false
      free := k :: c.free
      count := c.count - 1 } := by
  unfold kill
  rw [if_pos hk, if_pos (h.slots.room hk)]

theorem accounted_kill (h : c.Accounted) (k : ℕ) : (c.kill k).Accounted := by
  by_cases hk : c.alive k = true
  · rw [kill_of_alive h hk]
    refine ⟨h.slots.returned hk, ?_⟩
    have hone := h.slots.inUse_returned hk
    have hcount := h.count
    show c.count - 1 = SlotPool.inUse chunkSlots (Function.update c.alive k false)
    omega
  · unfold kill
    rw [if_neg hk]
    exact h

theorem accounted_takeFree (h : c.Accounted) (desc : ChunkDesc) (motion : Motion)
    (expire t : ℕ) : (c.takeFree desc motion expire t).1.Accounted := by
  unfold takeFree
  cases hfree : c.free with
  | nil => exact h
  | cons k free =>
    have hslots := h.slots
    rw [hfree] at hslots
    refine ⟨hslots.taken, ?_⟩
    show c.count + 1 = _
    rw [h.count]
    exact hslots.inUse_taken.symm

theorem accounted_spawn (h : c.Accounted) (desc : ChunkDesc) (motion : Motion)
    (expire t : ℕ) : (c.spawn desc motion expire t).1.Accounted := by
  unfold spawn
  split
  · cases c.oldest with
    | none => exact h
    | some k => exact accounted_takeFree (accounted_kill h k) desc motion expire t
  · exact accounted_takeFree h desc motion expire t

theorem accounted_apply (h : c.Accounted) (op : Op) : (c.apply op).Accounted := by
  cases op with
  | spawn desc motion expire t => exact accounted_spawn h desc motion expire t
  | kill k => exact accounted_kill h k
  | setMotion k motion => exact ⟨h.slots, h.count⟩

theorem accounted_run (h : c.Accounted) (ops : List Op) : (c.run ops).Accounted := by
  induction ops generalizing c with
  | nil => exact h
  | cons op rest ih => exact ih (accounted_apply h op)

/-! ### Making room -/

theorem makesRoom (h : c.Accounted) (desc : ChunkDesc) (motion : Motion) (expire t : ℕ) :
    c.MakesRoom (c.spawn desc motion expire t) := by
  have hspawns := spawns c desc motion expire t
  have hkept := fun q (hq : (c.spawn desc motion expire t).2 ≠ some q) => (slot_spawn_of_ne hq).symm
  generalize c.spawn desc motion expire t = r at hspawns hkept ⊢
  have hunused : ∀ k, c.free ≠ [] → r.2 = some k → c.alive k = false := by
    intro k hfree hk
    cases hspawns with
    | none hfull => exact absurd hfull hfree
    | taken hcons =>
      cases hk
      exact ((h.slots.mem_iff k).mp (hcons ▸ List.mem_cons_self)).2
    | recycled hfull => exact absurd hfull hfree
  have holdest : ∀ k, c.free = [] → r.2 = some k →
      c.Adrift k ∧ ∀ q, c.Adrift q → (c.slot k).born ≤ (c.slot q).born := by
    intro k hfull hk
    cases hspawns with
    | none => cases hk
    | taken hcons => cases hfull.symm.trans hcons
    | recycled _ hoo =>
      cases hk
      exact ⟨alive_of_oldest hoo, fun q hq => born_le_of_oldest hoo (h.slots.lt q hq.1) hq⟩
  refine ⟨?_, hunused, holdest, hkept, fun q halive hheld => ?_⟩
  · cases hspawns with
    | none hfull hnone =>
      refine ⟨fun _ k hk => ?_, fun _ => rfl⟩
      have halive := (hfull ▸ h.slots).used_of_nil hk
      exact ⟨halive, fun hfree => oldest_eq_none.mp hnone k hk ⟨halive, hfree⟩⟩
    | @taken k free hcons =>
      have hunusedk := (h.slots.mem_iff k).mp (hcons ▸ List.mem_cons_self)
      refine ⟨fun hnone => (by cases hnone), fun hall => ?_⟩
      have halive := (hall k hunusedk.1).1
      rw [hunusedk.2] at halive
      cases halive
    | @recycled k hfull hoo =>
      have hadrift := alive_of_oldest hoo
      refine ⟨fun hnone => (by cases hnone), fun hall => ?_⟩
      exact absurd hadrift.2 (hall k (h.slots.lt k hadrift.1)).2
  · -- the slot taken is unused or adrift, so it is not this one
    have hne : r.2 ≠ some q := by
      intro hq
      by_cases hfull : c.free = []
      · exact hheld (holdest q hfull hq).1.2
      · have hfalse := hunused q hfull hq
        rw [halive] at hfalse
        cases hfalse
    obtain ⟨halive', hslot'⟩ := hkept q hne
    exact ⟨halive'.trans halive, hslot'⟩

end Chunks

/-- Slot index plus a generation counter that changes every time the slot is reused. -/
structure SuitId where
  idx : ℕ
  generation : ℕ
  deriving DecidableEq

structure Suits where
  cap : ℕ
  generation : ℕ → ℕ
  used : ℕ → Bool
  /-- Free slots, the next one to go first. -/
  free : List ℕ

namespace Suits

def new (cap : ℕ) : Suits where
  cap := min cap noSlot
  generation := fun _ => 0
  used := fun _ => false
  free := List.range (min cap noSlot)

def nextGeneration (g : ℕ) : ℕ := max ((g + 1) % 65536) 1

/-- Claims a slot, if there is a free one. -/
def allocate (s : Suits) : Suits × Option SuitId :=
  match s.free with
  | [] => (s, none)
  | idx :: free =>
    let generation := nextGeneration (s.generation idx)
    ({ s with
        generation := Function.update s.generation idx generation
        used := Function.update s.used idx true
        free },
      some ⟨idx, generation⟩)

def release (s : Suits) (idx : ℕ) : Suits :=
  if s.used idx then
    { s with
      used := Function.update s.used idx false
      generation := Function.update s.generation idx (nextGeneration (s.generation idx))
      free := if s.free.length < s.cap then idx :: s.free else s.free }
  else s

def valid (s : Suits) (id : SuitId) : Bool :=
  id.idx < s.cap && s.used id.idx && s.generation id.idx = id.generation

inductive Op where
  | allocate
  | release (idx : ℕ)

def apply (s : Suits) : Op → Suits
  | .allocate => s.allocate.1
  | .release idx => s.release idx

def run (s : Suits) (ops : List Op) : Suits := ops.foldl apply s

def handsOut (s : Suits) : Op → Option SuitId
  | .allocate => s.allocate.2
  | .release _ => none

/-- How many times a run puts a slot to use. -/
def uses (idx : ℕ) : Suits → List Op → ℕ
  | _, [] => 0
  | s, op :: rest =>
    (if (s.handsOut op).any (·.idx = idx) then 1 else 0) + uses idx (s.apply op) rest

/-- The free list holds the slots not in use, each once, and generations fit their 16 bits. -/
structure Accounted (s : Suits) : Prop where
  slots : SlotPool.Accounts s.cap s.used s.free
  generations : ∀ k, s.generation k ≤ 65535

/-- After a run an id is refused if its slot has been put to use again since. -/
def RefusesOld (s : Suits) (id : SuitId) (ops : List Op) : Prop :=
  0 < uses id.idx s ops → (s.run ops).valid id = false

variable {s : Suits} {id : SuitId} {g idx k m : ℕ}

/-! ### Generations -/

theorem nextGeneration_eq (hg : g ≤ 65535) : nextGeneration g = g % 65535 + 1 := by
  unfold nextGeneration
  rcases Nat.lt_or_ge g 65535 with hlt | hge
  · rw [Nat.mod_eq_of_lt (show g + 1 < 65536 by omega), Nat.mod_eq_of_lt hlt]
    omega
  · have hlast : g = 65535 := le_antisymm hg hge
    subst hlast
    rfl

/-- There are 65,535 generations, and they come round. -/
theorem iterate_nextGeneration (hpos : 0 < g) (hg : g ≤ 65535) (m : ℕ) :
    nextGeneration^[m] g = (g - 1 + m) % 65535 + 1 := by
  induction m with
  | zero =>
    rw [Nat.add_zero, Nat.mod_eq_of_lt (by omega)]
    exact (Nat.sub_add_cancel hpos).symm
  | succ m ih =>
    have hle : (g - 1 + m) % 65535 + 1 ≤ 65535 := Nat.mod_lt _ (by omega)
    rw [Function.iterate_succ_apply', ih, nextGeneration_eq hle]
    omega

theorem iterate_nextGeneration_eq_self (hpos : 0 < g) (hg : g ≤ 65535) :
    nextGeneration^[m] g = g ↔ 65535 ∣ m := by
  rw [iterate_nextGeneration hpos hg]
  omega

theorem dvd_twice_iff (n : ℕ) : 65535 ∣ 2 * n ↔ 65535 ∣ n := by
  have hodd : Nat.Coprime 65535 2 := by
    decide
  exact ⟨hodd.dvd_of_dvd_mul_left, fun h => h.mul_left 2⟩

theorem nextGeneration_pos (g : ℕ) : 0 < nextGeneration g :=
  Nat.lt_of_lt_of_le Nat.zero_lt_one (le_max_right _ _)

theorem nextGeneration_le (g : ℕ) : nextGeneration g ≤ 65535 := by
  unfold nextGeneration
  omega

/-! ### The free list -/

theorem accounted_new (cap : ℕ) : (new cap).Accounted where
  slots := SlotPool.Accounts.start _
  generations _ := Nat.zero_le _

theorem generations_update (h : s.Accounted) (idx k : ℕ) :
    Function.update s.generation idx (nextGeneration (s.generation idx)) k ≤ 65535 := by
  by_cases hk : k = idx
  · subst hk
    rw [Function.update_self]
    exact nextGeneration_le _
  · rw [Function.update_of_ne hk]
    exact h.generations k

theorem accounted_allocate (h : s.Accounted) : s.allocate.1.Accounted := by
  unfold allocate
  cases hfree : s.free with
  | nil => exact h
  | cons idx free =>
    have hslots := h.slots
    rw [hfree] at hslots
    exact ⟨hslots.taken, generations_update h idx⟩

theorem release_of_used (h : s.Accounted) (hidx : s.used idx = true) :
    s.release idx = { s with
      used := Function.update s.used idx false
      generation := Function.update s.generation idx (nextGeneration (s.generation idx))
      free := idx :: s.free } := by
  unfold release
  rw [if_pos hidx, if_pos (h.slots.room hidx)]

theorem accounted_release (h : s.Accounted) (idx : ℕ) : (s.release idx).Accounted := by
  by_cases hidx : s.used idx = true
  · rw [release_of_used h hidx]
    exact ⟨h.slots.returned hidx, generations_update h idx⟩
  · unfold release
    rw [if_neg hidx]
    exact h

theorem accounted_apply (h : s.Accounted) (op : Op) : (s.apply op).Accounted := by
  cases op with
  | allocate => exact accounted_allocate h
  | release idx => exact accounted_release h idx

theorem accounted_run (h : s.Accounted) (ops : List Op) : (s.run ops).Accounted := by
  induction ops generalizing s with
  | nil => exact h
  | cons op rest ih => exact ih (accounted_apply h op)

theorem cap_apply (s : Suits) (op : Op) : (s.apply op).cap = s.cap := by
  cases op with
  | allocate =>
    unfold apply allocate
    dsimp only
    split <;> rfl
  | release idx =>
    unfold apply release
    dsimp only
    split <;> rfl

theorem cap_run (s : Suits) (ops : List Op) : (s.run ops).cap = s.cap := by
  induction ops generalizing s with
  | nil => rfl
  | cons op rest ih => exact (ih (s.apply op)).trans (cap_apply s op)

/-! ### How far a slot's generation has come -/

/-- From `s` to `s'` slot `idx` has been put to use `n` times: its generation took a step as each
use began, and one as each ended. -/
def Turned (idx n : ℕ) (s s' : Suits) : Prop :=
  ∃ m, s'.generation idx = nextGeneration^[m] (s.generation idx)
    ∧ m + (s'.used idx).toNat = 2 * n + (s.used idx).toNat

theorem Turned.refl (idx : ℕ) (s : Suits) : Turned idx 0 s s := ⟨0, rfl, rfl⟩

theorem Turned.trans {n n' : ℕ} {s₁ s₂ : Suits} (h : Turned idx n s s₁)
    (h' : Turned idx n' s₁ s₂) : Turned idx (n + n') s s₂ := by
  obtain ⟨m, hgeneration, hm⟩ := h
  obtain ⟨m', hgeneration', hm'⟩ := h'
  refine ⟨m' + m, ?_, by omega⟩
  rw [hgeneration', hgeneration, Function.iterate_add_apply]

theorem turned_allocate (h : s.Accounted) (idx : ℕ) :
    Turned idx (if s.allocate.2.any (·.idx = idx) then 1 else 0) s s.allocate.1 := by
  unfold allocate
  cases hfree : s.free with
  | nil => exact .refl idx s
  | cons k free =>
    by_cases hk : k = idx
    · subst hk
      have hunused := ((h.slots.mem_iff k).mp (hfree ▸ List.mem_cons_self)).2
      refine ⟨1, ?_, ?_⟩
      · simp
      · simp [hunused]
    · refine ⟨0, ?_, ?_⟩
      · simp [Function.update_of_ne (Ne.symm hk)]
      · simp [hk, Function.update_of_ne (Ne.symm hk)]

theorem turned_release (h : s.Accounted) (k idx : ℕ) : Turned idx 0 s (s.release k) := by
  by_cases hk : s.used k = true
  · rw [release_of_used h hk]
    by_cases hidx : idx = k
    · subst hidx
      refine ⟨1, ?_, ?_⟩
      · simp
      · simp [hk]
    · refine ⟨0, ?_, ?_⟩
      · simp [Function.update_of_ne hidx]
      · simp [Function.update_of_ne hidx]
  · unfold release
    rw [if_neg hk]
    exact .refl idx s

theorem turned_apply (h : s.Accounted) (op : Op) (idx : ℕ) :
    Turned idx (if (s.handsOut op).any (·.idx = idx) then 1 else 0) s (s.apply op) := by
  cases op with
  | allocate => exact turned_allocate h idx
  | release k => exact turned_release h k idx

theorem turned_run (h : s.Accounted) (ops : List Op) (idx : ℕ) :
    Turned idx (uses idx s ops) s (s.run ops) := by
  induction ops generalizing s with
  | nil => exact .refl idx s
  | cons op rest ih => exact (turned_apply h op idx).trans (ih (accounted_apply h op))

/-! ### Ids kept -/

theorem allocate_some (h : s.Accounted) (hid : s.allocate.2 = some id) :
    id.idx < s.cap ∧ s.allocate.1.used id.idx = true
      ∧ s.allocate.1.generation id.idx = id.generation ∧ 0 < id.generation := by
  unfold allocate at hid ⊢
  cases hfree : s.free with
  | nil =>
    rw [hfree] at hid
    cases hid
  | cons k free =>
    rw [hfree] at hid
    cases hid
    have hk := ((h.slots.mem_iff k).mp (hfree ▸ List.mem_cons_self)).1
    exact ⟨hk, Function.update_self _ _ _, Function.update_self _ _ _, nextGeneration_pos _⟩

/-- After any run an id handed out before it is valid exactly where its slot is in use, and has
been put to use a multiple of 65,535 times since. -/
theorem valid_iff (h : s.Accounted) (hid : s.allocate.2 = some id) (ops : List Op) :
    (s.allocate.1.run ops).valid id = true ↔
      (s.allocate.1.run ops).used id.idx = true ∧ 65535 ∣ uses id.idx s.allocate.1 ops := by
  have hafter := accounted_allocate h
  obtain ⟨hlt, hused, hgeneration, hpos⟩ := allocate_some h hid
  have hle := hafter.generations id.idx
  have hcap : (s.allocate.1.run ops).cap = s.cap :=
    (cap_run s.allocate.1 ops).trans (cap_apply s .allocate)
  obtain ⟨m, hm, hcount⟩ := turned_run hafter ops id.idx
  rw [hgeneration] at hm hle
  unfold valid
  simp only [Bool.and_eq_true, decide_eq_true_eq, hcap, hlt, true_and]
  refine and_congr_right fun hused' => ?_
  rw [hm, iterate_nextGeneration_eq_self hpos hle]
  rw [hused, hused'] at hcount
  have htwice : m = 2 * uses id.idx s.allocate.1 ops := by
    rw [Bool.toNat_true] at hcount
    exact Nat.add_right_cancel hcount
  rw [htwice]
  exact dvd_twice_iff _

/-- A slot given back and claimed again, `n` times. -/
def reuses (idx n : ℕ) : List Op := (List.replicate n [Op.release idx, .allocate]).flatten

theorem reuse (h : s.Accounted) (hidx : s.used idx = true) :
    (s.release idx).allocate.2.any (·.idx = idx) = true
      ∧ (s.release idx).allocate.1.used idx = true := by
  rw [release_of_used h hidx]
  simp [allocate]

theorem uses_reuses (h : s.Accounted) (hidx : s.used idx = true) (n : ℕ) :
    (s.run (reuses idx n)).used idx = true ∧ uses idx s (reuses idx n) = n := by
  induction n generalizing s with
  | zero => exact ⟨hidx, rfl⟩
  | succ n ih =>
    obtain ⟨hgives, hused⟩ := reuse h hidx
    have hagain := accounted_allocate (accounted_release h idx)
    obtain ⟨hlast, hcount⟩ := ih hagain hused
    refine ⟨hlast, ?_⟩
    show 0 + ((if (s.release idx).allocate.2.any (·.idx = idx) then 1 else 0)
      + uses idx (s.release idx).allocate.1 (reuses idx n)) = n + 1
    rw [if_pos hgives, hcount]
    omega

end Suits

/-- In every run of the chunk pool and of the suits' slots the free lists and counts tell what the
bitsets do, and spawning makes room as it should. An id kept from an earlier use of a suit's slot
is refused unless the slot is in use and has been put to use a multiple of 65,535 times since. -/
theorem slots_accounted (chunkOps : List Chunks.Op) (cap : ℕ) (before after : List Suits.Op) :
    (Chunks.new.run chunkOps).Accounted
      ∧ (∀ desc motion expire t, (Chunks.new.run chunkOps).MakesRoom
          ((Chunks.new.run chunkOps).spawn desc motion expire t))
      ∧ ((Suits.new cap).run before).Accounted
      ∧ ∀ id, ((Suits.new cap).run before).allocate.2 = some id →
          (((Suits.new cap).run before).allocate.1.RefusesOld id after ↔
            ¬ ((((Suits.new cap).run before).allocate.1.run after).used id.idx = true
              ∧ 0 < Suits.uses id.idx ((Suits.new cap).run before).allocate.1 after
              ∧ 65535 ∣ Suits.uses id.idx ((Suits.new cap).run before).allocate.1 after)) := by
  have hchunks := Chunks.accounted_run Chunks.accounted_new chunkOps
  have hsuits := Suits.accounted_run (Suits.accounted_new cap) before
  refine ⟨hchunks, fun desc motion expire t => Chunks.makesRoom hchunks desc motion expire t,
    hsuits, fun id hid => ?_⟩
  have hvalid := Suits.valid_iff hsuits hid after
  unfold Suits.RefusesOld
  rw [← Bool.not_eq_true, hvalid]
  tauto

theorem slots_accounted_once :
    ((Suits.new 4).run []).allocate.1.RefusesOld ⟨0, 1⟩ [.release 0, .allocate] :=
  ((slots_accounted [] 4 [] [.release 0, .allocate]).2.2.2 ⟨0, 1⟩ rfl).mpr (by decide)

/-- After 65,535 more uses of its slot an old id is taken for the newest. -/
theorem old_id_comes_round : ¬ ∀ cap before after id,
    ((Suits.new cap).run before).allocate.2 = some id →
      ((Suits.new cap).run before).allocate.1.RefusesOld id after := by
  intro hrefuses
  obtain ⟨n, hn⟩ : ∃ n, n = 65535 := ⟨_, rfl⟩
  have hstart := Suits.accounted_run (Suits.accounted_new 1) []
  have hid : ((Suits.new 1).run []).allocate.2 = some ⟨0, 1⟩ := rfl
  obtain ⟨hused, huses⟩ := Suits.uses_reuses (Suits.accounted_allocate hstart)
    (Suits.allocate_some hstart hid).2.1 n
  have hvalid := (Suits.valid_iff hstart hid (Suits.reuses 0 n)).mpr ⟨hused, by rw [huses, hn]⟩
  have hrefused := hrefuses 1 [] (Suits.reuses 0 n) ⟨0, 1⟩ hid (by rw [huses]; omega)
  exact Bool.false_ne_true (hrefused.symm.trans hvalid)

end BeforeColony
