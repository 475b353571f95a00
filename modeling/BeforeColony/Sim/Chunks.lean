import Mathlib.Algebra.BigOperators.Group.Finset.Basic
import Mathlib.Algebra.Order.BigOperators.Group.Finset
import Mathlib.Tactic.Ring
import BeforeColony.Proto.Own
import BeforeColony.Econ.Bay

/-!
# The chunk pool

Salvage adrift: loose ore, limbs and hulks, in a pool of a fixed number of slots. A new chunk
takes a free slot; where there is none, the oldest chunk that nobody holds makes way for it.
What the pool holds of a material only grows by what is spawned (`kg_spawn_le`).
-/

set_option autoImplicit false

namespace BeforeColony

open Catalogue

@[irreducible] def chunkSlots : ℕ := noChunk

theorem chunkSlots_pos : 0 < chunkSlots := by
  unfold chunkSlots
  decide

/-- What a chunk is made of, as cargo: ore is its kind, a Lodestar's parts are sold with the
exotics, everyone else's with the titanium. -/
def material : ChunkKind → ℕ
  | .ore ore => ore % 4
  | .limb frame _ | .hulk frame _ => if isLodestar frame then 3 else 1

def ChunkDesc.kg (d : ChunkDesc) (m : Fin 4) : ℕ :=
  if material d.kind = m.val then d.massKg else 0

/-- How a chunk moves. Where to is left to the geometry. -/
inductive Motion where
  | free
  /-- In a suit's hand, the right one or the left. -/
  | held (holder : ℕ) (right : Bool)
  deriving DecidableEq, Repr

structure ChunkSlot where
  desc : ChunkDesc
  motion : Motion
  expire : ℕ
  born : ℕ
  /-- A reused slot reads as a new chunk. -/
  generation : ℕ
  /-- Bumped whenever what clients know of it changes. -/
  version : ℕ
  deriving DecidableEq, Repr

structure Chunks where
  alive : ℕ → Bool
  slot : ℕ → ChunkSlot
  /-- Free slots, the next one to go first. -/
  free : List ℕ
  count : ℕ

namespace Chunks

/-- An empty pool, handing out low slots first. -/
def new : Chunks where
  alive := fun _ => false
  slot := fun _ => ⟨⟨.ore 0, 0⟩, .free, 0, 0, 0, 0⟩
  free := List.range chunkSlots
  count := 0

def isAlive (c : Chunks) (id : ℕ) : Bool := id < chunkSlots && c.alive id

/-- Sets a slot free, if there is a chunk in it. -/
def kill (c : Chunks) (k : ℕ) : Chunks :=
  if c.alive k then
    { c with
      alive := Function.update c.alive k false
      free := if c.free.length < chunkSlots then k :: c.free else c.free
      count := c.count - 1 }
  else c

/-- The oldest chunk nobody holds, the lowest slot first. -/
def oldest (c : Chunks) : Option ℕ :=
  (List.range chunkSlots).foldl (fun o k =>
    if c.alive k && (c.slot k).motion = .free
        && o.all fun b => (c.slot k).born < (c.slot b).born then some k
    else o) none

def occupy (c : Chunks) (k : ℕ) (free : List ℕ) (desc : ChunkDesc) (motion : Motion)
    (expire t : ℕ) : Chunks :=
  { alive := Function.update c.alive k true
    slot := Function.update c.slot k
      { desc
        motion
        expire
        born := t
        generation := ((c.slot k).generation + 1) % 256
        version := ((c.slot k).version + 1) % 256 }
    free
    count := c.count + 1 }

def takeFree (c : Chunks) (desc : ChunkDesc) (motion : Motion) (expire t : ℕ) :
    Chunks × Option ℕ :=
  match c.free with
  | [] => (c, none)
  | k :: free => (c.occupy k free desc motion expire t, some k)

/-- Adds a chunk. When the pool is full the oldest free chunk is recycled; if every chunk is held,
nothing is added. -/
def spawn (c : Chunks) (desc : ChunkDesc) (motion : Motion) (expire t : ℕ) : Chunks × Option ℕ :=
  if c.free.isEmpty then
    match c.oldest with
    | none => (c, none)
    | some k => (c.kill k).takeFree desc motion expire t
  else c.takeFree desc motion expire t

/-- With a chunk changed, telling clients. -/
def touch (c : Chunks) (k : ℕ) (f : ChunkSlot → ChunkSlot) : Chunks :=
  { c with
    slot := Function.update c.slot k
      { f (c.slot k) with version := ((c.slot k).version + 1) % 256 } }

def setMotion (c : Chunks) (k : ℕ) (motion : Motion) : Chunks := c.touch k fun ch => { ch with motion }

/-! ### What the pool holds -/

def kgAt (c : Chunks) (m : Fin 4) (k : ℕ) : ℕ :=
  if c.alive k then (c.slot k).desc.kg m else 0

/-- The pool's kilograms of material `m`. -/
def kg (c : Chunks) (m : Fin 4) : ℕ := ∑ k ∈ Finset.range chunkSlots, c.kgAt m k

variable {c : Chunks} {k q : ℕ} {desc : ChunkDesc} {motion : Motion} {expire t : ℕ}

/-! ### The oldest -/

def Adrift (c : Chunks) (k : ℕ) : Prop := c.alive k = true ∧ (c.slot k).motion = .free

/-- One slot of the search for the oldest chunk adrift. -/
def older (c : Chunks) (o : Option ℕ) (k : ℕ) : Option ℕ :=
  if c.alive k && (c.slot k).motion = .free
      && o.all fun b => (c.slot k).born < (c.slot b).born then some k
  else o

theorem oldest_eq (c : Chunks) : c.oldest = (List.range chunkSlots).foldl c.older none := rfl

theorem older_some (c : Chunks) (b k : ℕ) :
    ∃ b', c.older (some b) k = some b' ∧ (c.slot b').born ≤ (c.slot b).born
      ∧ (c.Adrift k → (c.slot b').born ≤ (c.slot k).born) := by
  unfold older
  split
  · rename_i hnew
    simp only [Option.all_some, Bool.and_eq_true, decide_eq_true_eq] at hnew
    exact ⟨k, rfl, hnew.2.le, fun _ => le_rfl⟩
  · rename_i hold
    refine ⟨b, rfl, le_rfl, fun hk => ?_⟩
    simp only [Option.all_some, Bool.and_eq_true, decide_eq_true_eq, not_and, not_lt] at hold
    exact hold hk

/-- Once there is a candidate the search ends with one, as old as any adrift that it passed. -/
theorem foldl_older_some (c : Chunks) (l : List ℕ) (b : ℕ) :
    ∃ b', l.foldl c.older (some b) = some b' ∧ (c.slot b').born ≤ (c.slot b).born
      ∧ ∀ q ∈ l, c.Adrift q → (c.slot b').born ≤ (c.slot q).born := by
  induction l generalizing b with
  | nil => exact ⟨b, rfl, le_rfl, fun q hq => by cases hq⟩
  | cons k rest ih =>
    obtain ⟨b₁, hb₁, hborn₁, hk⟩ := older_some c b k
    obtain ⟨b₂, hb₂, hborn₂, hrest⟩ := ih b₁
    refine ⟨b₂, ?_, hborn₂.trans hborn₁, ?_⟩
    · rw [List.foldl_cons, hb₁]
      exact hb₂
    · rw [List.forall_mem_cons]
      exact ⟨fun hadrift => hborn₂.trans (hk hadrift), hrest⟩

theorem foldl_older_none (c : Chunks) (l : List ℕ) :
    (l.foldl c.older none = none ↔ ∀ q ∈ l, ¬ c.Adrift q)
      ∧ ∀ b, l.foldl c.older none = some b →
        ∀ q ∈ l, c.Adrift q → (c.slot b).born ≤ (c.slot q).born := by
  induction l with
  | nil => simp
  | cons k rest ih =>
    rw [List.foldl_cons]
    by_cases hk : c.Adrift k
    · have holder : c.older none k = some k := by
        unfold older
        rw [if_pos]
        simp [hk.1, hk.2]
      obtain ⟨b', hb', hborn, hrest⟩ := foldl_older_some c rest k
      rw [holder, hb']
      refine ⟨⟨fun h => (by cases h), fun h => absurd hk (h k List.mem_cons_self)⟩, ?_⟩
      intro b hb
      cases hb
      rw [List.forall_mem_cons]
      exact ⟨fun _ => hborn, hrest⟩
    · have holder : c.older none k = none := by
        unfold older
        rw [if_neg]
        simpa [Adrift] using hk
      rw [holder]
      refine ⟨?_, fun b hb => ?_⟩
      · rw [ih.1, List.forall_mem_cons]
        exact (and_iff_right hk).symm
      · rw [List.forall_mem_cons]
        exact ⟨fun hadrift => absurd hadrift hk, ih.2 b hb⟩

theorem oldest_eq_none : c.oldest = none ↔ ∀ q < chunkSlots, ¬ c.Adrift q := by
  rw [oldest_eq, (foldl_older_none c _).1]
  simp only [List.mem_range]

theorem born_le_of_oldest (h : c.oldest = some k) (hq : q < chunkSlots) (hadrift : c.Adrift q) :
    (c.slot k).born ≤ (c.slot q).born :=
  (foldl_older_none c _).2 k h q (List.mem_range.mpr hq) hadrift

/-! ### What spawning can do -/

/-- The free slots are free, and each is there once. -/
structure Sound (c : Chunks) : Prop where
  nodup : c.free.Nodup
  dead : ∀ k ∈ c.free, c.alive k = false

theorem sound_new : Sound new where
  nodup := by
    exact List.nodup_range
  dead _ _ := rfl

theorem alive_of_oldest (h : c.oldest = some k) : c.alive k = true ∧ (c.slot k).motion = .free := by
  unfold oldest at h
  have hfold (l : List ℕ) (o : Option ℕ)
      (ho : ∀ k, o = some k → c.alive k = true ∧ (c.slot k).motion = .free) :
      ∀ k, l.foldl (fun o k =>
          if c.alive k && (c.slot k).motion = .free
              && o.all fun b => (c.slot k).born < (c.slot b).born then some k
          else o) o = some k → c.alive k = true ∧ (c.slot k).motion = .free := by
    induction l generalizing o with
    | nil => exact ho
    | cons a rest ih =>
      refine ih _ fun k hk => ?_
      dsimp only at hk
      split at hk
      · rename_i hnew
        cases hk
        simp only [Bool.and_eq_true, decide_eq_true_eq] at hnew
        exact hnew.1
      · exact ho k hk
  exact hfold _ none (fun _ h => by cases h) k h

@[simp] theorem alive_kill (c : Chunks) (k q : ℕ) :
    (c.kill k).alive q = (c.alive q && q ≠ k) := by
  unfold kill
  by_cases hq : q = k
  · subst hq
    cases h : c.alive q <;> simp [h]
  · split <;> simp [hq]

@[simp] theorem slot_kill (c : Chunks) (k : ℕ) : (c.kill k).slot = c.slot := by
  unfold kill
  split <;> rfl

theorem sound_kill (h : c.Sound) (k : ℕ) : (c.kill k).Sound := by
  unfold kill
  split
  · rename_i hk
    have hmem : k ∉ c.free := fun hmem => by simp [h.dead k hmem] at hk
    have hdead : ∀ q ∈ c.free, Function.update c.alive k false q = false := by
      intro q hq
      have hne : q ≠ k := fun he => hmem (he ▸ hq)
      rw [Function.update_of_ne hne]
      exact h.dead q hq
    split
    · refine ⟨List.nodup_cons.mpr ⟨hmem, h.nodup⟩, ?_⟩
      rw [List.forall_mem_cons]
      exact ⟨Function.update_self _ _ _, hdead⟩
    · exact ⟨h.nodup, hdead⟩
  · exact h

inductive Spawns (c : Chunks) (desc : ChunkDesc) (motion : Motion) (expire t : ℕ) :
    Chunks × Option ℕ → Prop
  | none (hfull : c.free = []) (hnone : c.oldest = none) : Spawns c desc motion expire t (c, none)
  | taken {k : ℕ} {free : List ℕ} (hfree : c.free = k :: free) :
      Spawns c desc motion expire t (c.occupy k free desc motion expire t, some k)
  | recycled {k : ℕ} (hfull : c.free = []) (holdest : c.oldest = some k) :
      Spawns c desc motion expire t ((c.kill k).occupy k [] desc motion expire t, some k)

theorem spawns (c : Chunks) (desc : ChunkDesc) (motion : Motion) (expire t : ℕ) :
    Spawns c desc motion expire t (c.spawn desc motion expire t) := by
  unfold spawn
  cases hfree : c.free with
  | cons k free =>
    rw [if_neg (by simp), takeFree, hfree]
    exact .taken hfree
  | nil =>
    rw [if_pos List.isEmpty_nil]
    cases holdest : c.oldest with
    | none => exact .none hfree holdest
    | some k =>
      have hkill : (c.kill k).free = [k] := by
        unfold kill
        rw [if_pos (alive_of_oldest holdest).1, hfree]
        exact if_pos chunkSlots_pos
      dsimp only
      rw [takeFree, hkill]
      exact .recycled hfree holdest

theorem spawn_cons {free : List ℕ} (hfree : c.free = k :: free) :
    c.spawn desc motion expire t = (c.occupy k free desc motion expire t, some k) := by
  unfold spawn takeFree
  simp [hfree]

theorem sound_spawn (h : c.Sound) (desc : ChunkDesc) (motion : Motion) (expire t : ℕ) :
    (c.spawn desc motion expire t).1.Sound := by
  have hspawns := c.spawns desc motion expire t
  generalize c.spawn desc motion expire t = r at hspawns ⊢
  cases hspawns with
  | none => exact h
  | @taken k free hfree =>
    obtain ⟨hnotin, hnodup⟩ := List.nodup_cons.mp (hfree ▸ h.nodup)
    refine ⟨hnodup, fun q hq => ?_⟩
    show Function.update c.alive k true q = false
    have hne : q ≠ k := fun he => hnotin (he ▸ hq)
    rw [Function.update_of_ne hne]
    exact h.dead q (hfree ▸ List.mem_cons_of_mem k hq)
  | recycled hfull holdest => exact ⟨List.nodup_nil, fun q hq => absurd hq List.not_mem_nil⟩

theorem slot_spawn_of_ne (hq : (c.spawn desc motion expire t).2 ≠ some q) :
    (c.spawn desc motion expire t).1.slot q = c.slot q
      ∧ (c.spawn desc motion expire t).1.alive q = c.alive q := by
  have hspawns := c.spawns desc motion expire t
  generalize c.spawn desc motion expire t = r at hspawns hq ⊢
  cases hspawns with
  | none => exact ⟨rfl, rfl⟩
  | @taken k free hfree =>
    have hne : q ≠ k := fun he => hq (congrArg some he.symm)
    exact ⟨Function.update_of_ne hne _ _, Function.update_of_ne hne _ _⟩
  | @recycled k hfull holdest =>
    have hne : q ≠ k := fun he => hq (congrArg some he.symm)
    refine ⟨?_, ?_⟩
    · show Function.update (c.kill k).slot k _ q = c.slot q
      rw [Function.update_of_ne hne, slot_kill]
    · show Function.update (c.kill k).alive k true q = c.alive q
      rw [Function.update_of_ne hne, alive_kill]
      simp [hne]

theorem slot_spawn (hk : (c.spawn desc motion expire t).2 = some k) :
    ((c.spawn desc motion expire t).1.slot k).desc = desc
      ∧ ((c.spawn desc motion expire t).1.slot k).motion = motion
      ∧ (c.spawn desc motion expire t).1.alive k = true := by
  have hspawns := c.spawns desc motion expire t
  generalize c.spawn desc motion expire t = r at hspawns hk ⊢
  cases hspawns with
  | none => cases hk
  | taken hfree =>
    cases hk
    simp [occupy]
  | recycled hfull holdest =>
    cases hk
    simp [occupy]

theorem slot_spawn_ne (hk : (c.spawn desc motion expire t).2 = some k) :
    (c.spawn desc motion expire t).1.slot k ≠ c.slot k := by
  have hnext (g : ℕ) : (g + 1) % 256 ≠ g := by omega
  have hspawns := c.spawns desc motion expire t
  generalize c.spawn desc motion expire t = r at hspawns hk
  intro hsame
  have hgeneration := congrArg ChunkSlot.generation hsame
  cases hspawns with
  | none => cases hk
  | taken hfree =>
    cases hk
    simp only [occupy, Function.update_self] at hgeneration
    exact hnext _ hgeneration
  | recycled hfull holdest =>
    cases hk
    simp only [occupy, Function.update_self, slot_kill] at hgeneration
    exact hnext _ hgeneration

theorem spawn_some (h : c.Sound) (hk : (c.spawn desc motion expire t).2 = some k) :
    c.alive k = false ∨ c.free = [] ∧ c.oldest = some k := by
  have hspawns := c.spawns desc motion expire t
  generalize c.spawn desc motion expire t = r at hspawns hk
  cases hspawns with
  | none => cases hk
  | taken hfree =>
    cases hk
    exact .inl (h.dead k (hfree ▸ List.mem_cons_self))
  | recycled hfull holdest =>
    cases hk
    exact .inr ⟨hfull, holdest⟩

/-- In a full pool the new chunk takes the oldest one's slot. -/
theorem spawn_recycled (hfull : c.free = []) (holdest : c.oldest = some k) :
    (c.spawn desc motion expire t).2 = some k := by
  have hspawns := c.spawns desc motion expire t
  generalize c.spawn desc motion expire t = r at hspawns ⊢
  cases hspawns with
  | none _ hnone => cases holdest.symm.trans hnone
  | taken hfree => cases hfull.symm.trans hfree
  | @recycled k' hfull' holdest' =>
    rw [holdest] at holdest'
    exact holdest'.symm

/-! ### What the pool holds -/

variable {c' : Chunks} {m : Fin 4}

/-- Where one slot differs, the pool differs by what is in it. -/
theorem kg_add_kgAt (hk : k < chunkSlots) (h : ∀ q, q ≠ k → c'.kgAt m q = c.kgAt m q) :
    c'.kg m + c.kgAt m k = c.kg m + c'.kgAt m k := by
  unfold kg
  have hmem := Finset.mem_range.mpr hk
  have hrest : ((Finset.range chunkSlots).erase k).sum (c'.kgAt m)
      = ((Finset.range chunkSlots).erase k).sum (c.kgAt m) :=
    Finset.sum_congr rfl fun q hq => h q (Finset.ne_of_mem_erase hq)
  rw [← Finset.add_sum_erase _ (c'.kgAt m) hmem, ← Finset.add_sum_erase _ (c.kgAt m) hmem, hrest]
  ring

/-- Where only one slot holds more, the pool holds no more than that more. -/
theorem kg_le (h : ∀ q, q ≠ k → c'.kgAt m q = c.kgAt m q) {n : ℕ}
    (hn : c'.kgAt m k ≤ c.kgAt m k + n) : c'.kg m ≤ c.kg m + n := by
  by_cases hk : k < chunkSlots
  · have hkg := kg_add_kgAt hk h
    omega
  · refine (Finset.sum_congr rfl fun q hq => h q ?_).le.trans (Nat.le_add_right _ _)
    have hlt := Finset.mem_range.mp hq
    omega

theorem kgAt_congr (hslot : c'.slot q = c.slot q) (halive : c'.alive q = c.alive q) :
    c'.kgAt m q = c.kgAt m q := by
  rw [kgAt, kgAt, hslot, halive]

theorem kg_kill (hk : k < chunkSlots) (c : Chunks) (m : Fin 4) :
    (c.kill k).kg m + c.kgAt m k = c.kg m := by
  have hkg := @kg_add_kgAt c k (c.kill k) m hk fun q hq =>
    kgAt_congr (by rw [slot_kill]) (by simp [hq])
  have hnone : (c.kill k).kgAt m k = 0 := by simp [kgAt]
  omega

theorem kg_kill_le (c : Chunks) (k : ℕ) (m : Fin 4) : (c.kill k).kg m ≤ c.kg m := by
  refine kg_le (k := k) (n := 0) (fun q hq => ?_) ?_
  · exact kgAt_congr (by rw [slot_kill]) (by simp [hq])
  · simp [kgAt]

theorem kg_occupy_le (c : Chunks) (k : ℕ) (free : List ℕ) (desc : ChunkDesc) (motion : Motion)
    (expire t : ℕ) (m : Fin 4) : (c.occupy k free desc motion expire t).kg m ≤ c.kg m + desc.kg m := by
  refine kg_le (k := k) (fun q hq => ?_) ?_
  · exact kgAt_congr (Function.update_of_ne hq _ _) (Function.update_of_ne hq _ _)
  · simp [kgAt, occupy]

/-- Spawning a chunk adds no more to the pool than it weighs. -/
theorem kg_spawn_le (c : Chunks) (desc : ChunkDesc) (motion : Motion) (expire t : ℕ) (m : Fin 4) :
    (c.spawn desc motion expire t).1.kg m ≤ c.kg m + desc.kg m := by
  have hspawns := c.spawns desc motion expire t
  generalize c.spawn desc motion expire t = r at hspawns ⊢
  cases hspawns with
  | none => exact Nat.le_add_right _ _
  | taken hfree => exact kg_occupy_le _ _ _ _ _ _ _ _
  | recycled hfull holdest =>
    exact (kg_occupy_le _ _ _ _ _ _ _ _).trans (Nat.add_le_add_right (kg_kill_le _ _ _) _)

/-- A change to a chunk that leaves it no heavier, and of its material, adds nothing. -/
theorem kg_touch_le {f : ChunkSlot → ChunkSlot} (hf : ((f (c.slot k)).desc).kg m ≤ (c.slot k).desc.kg m) :
    (c.touch k f).kg m ≤ c.kg m := by
  refine kg_le (k := k) (n := 0) (fun q hq => ?_) ?_
  · exact kgAt_congr (Function.update_of_ne hq _ _) rfl
  · unfold kgAt touch
    dsimp only
    rw [Function.update_self]
    split
    · exact hf
    · exact le_rfl

theorem sound_touch (h : c.Sound) (k : ℕ) (f : ChunkSlot → ChunkSlot) : (c.touch k f).Sound :=
  ⟨h.nodup, h.dead⟩

end Chunks

end BeforeColony
