import BeforeColony.Proto.Objects
import BeforeColony.Sim.Salvage

/-!
# What clients must hear of a rock

A rock's state goes out in eighths of its structure and sixteenths of its ore, and its version, one
byte, is bumped whenever that changes. Beside the version `changes` counts the bumps for good:
the version is its low byte, and as long as it stays the state does (`Later`).
-/

set_option autoImplicit false

namespace BeforeColony

namespace RockState

def grade (f : ℚ) (top : ℕ) : ℕ := if f ≤ 0 then 0 else 1 + ⌊min f 1 * (top - 1 : ℕ)⌋.toNat

/-- From fractions of the rock's full structure and ore. -/
def new (id : ℕ) (destroyed : Bool) (hp ore : ℚ) : RockState where
  id
  destroyed
  hp := grade hp 7
  ore := grade ore 15

end RockState

namespace Sim

variable {n cap : ℕ}

def rockState (s : Sim n cap) (i : Fin n) : RockState :=
  .new i (s.rocks i).destroyed ((s.rocks i).hp / maxHp (s.field i))
    ((s.rocks i).oreKg / max (maxOreKg (s.field i)) 1)

/-! ## What mining leaves alone -/

structure SameBut (i : Fin n) (s s' : Sim n cap) : Prop where
  field : s'.field = s.field
  rocks : ∀ j, j ≠ i → s'.rocks j = s.rocks j

variable {i : Fin n} {s s' s'' : Sim n cap}

theorem SameBut.refl (i : Fin n) (s : Sim n cap) : SameBut i s s := ⟨rfl, fun _ _ => rfl⟩

theorem SameBut.trans (h : SameBut i s s') (h' : SameBut i s' s'') : SameBut i s s'' :=
  ⟨h'.field.trans h.field, fun j hj => (h'.rocks j hj).trans (h.rocks j hj)⟩

theorem SameBut.rockState (h : SameBut i s s') {j : Fin n} (hj : j ≠ i) :
    s'.rockState j = s.rockState j := by
  rw [Sim.rockState, Sim.rockState, h.rocks j hj, h.field]

@[simp] theorem rocks_setRock (s : Sim n cap) (i : Fin n) (r : MinedRock) :
    (s.setRock i r).rocks i = r := Function.update_self _ _ _

theorem sameBut_setRock (s : Sim n cap) (i : Fin n) (r : MinedRock) : SameBut i s (s.setRock i r) :=
  ⟨rfl, fun _ hj => Function.update_of_ne hj _ _⟩

theorem sameBut_spawn (i : Fin n) (s : Sim n cap) (desc : ChunkDesc) (ttl t : ℕ) :
    SameBut i s (s.spawn desc ttl t) := ⟨rfl, fun _ _ => rfl⟩

theorem sameBut_spawns (i : Fin n) (desc : Sim n cap → ChunkDesc) (ttl t : ℕ) (ks : List ℕ)
    (s : Sim n cap) : SameBut i s (ks.foldl (fun s _ => s.spawn (desc s) ttl t) s) := by
  induction ks generalizing s with
  | nil => exact .refl i s
  | cons k rest ih => exact (sameBut_spawn i s _ ttl t).trans (ih _)

theorem sameBut_shatter (s : Sim n cap) (i : Fin n) (t : ℕ) : SameBut i s (s.shatter i t) := by
  unfold shatter
  dsimp only
  split
  · exact (sameBut_spawns i (fun s => ⟨.ore (s.field i).ore, _⟩) oreTtl t _ s).trans
      (sameBut_setRock _ i _)
  · exact sameBut_setRock s i _

theorem sameBut_rockHit (s : Sim n cap) (i : Fin n) (amount : ℚ) (kind : WeaponKind) (t : ℕ) :
    SameBut i s (s.rockHit i amount kind t) := by
  have hspawn : ∀ (r : MinedRock) (chip : ℕ) (desc : ChunkDesc), SameBut i s
      (if 0 < chip then (s.setRock i r).spawn desc oreTtl t else s.setRock i r) := by
    intro r chip desc
    split
    · exact (sameBut_setRock s i r).trans (sameBut_spawn i _ desc oreTtl t)
    · exact sameBut_setRock s i r
  unfold rockHit
  dsimp only
  split
  · exact .refl i s
  · split
    · exact (hspawn _ _ _).trans (sameBut_shatter _ i t)
    · exact hspawn _ _ _

theorem sameBut_regrow (near : Fin n → Bool) (t : ℕ) (s : Sim n cap) (i : Fin n) :
    SameBut i s (regrow near t s i) := by
  unfold regrow
  dsimp only
  split
  · exact .refl i s
  · split
    · exact sameBut_setRock s i _
    · exact sameBut_setRock s i _

end Sim

/-- What has happened to the field's rocks, and beside it how many changes of each clients must
have heard of. -/
structure RockStates (n cap : ℕ) where
  sim : Sim n cap
  version : Fin n → ℕ
  changes : Fin n → ℕ

namespace RockStates

variable {n cap : ℕ}

/-- A sector before anything happened to its rocks. -/
def new (s : Sim n cap) : RockStates n cap where
  sim := { s with rocks := fun i => ⟨maxHp (s.field i), maxOreKg (s.field i), false, 0⟩ }
  version := fun _ => 0
  changes := fun _ => 0

def touch (s : RockStates n cap) (i : Fin n) : RockStates n cap :=
  { s with
    version := Function.update s.version i ((s.version i + 1) % 2 ^ 8)
    changes := Function.update s.changes i (s.changes i + 1) }

def rockHit (s : RockStates n cap) (i : Fin n) (amount : ℚ) (kind : WeaponKind) (t : ℕ) :
    RockStates n cap :=
  let hit := { s with sim := s.sim.rockHit i amount kind t }
  if (s.sim.rocks i).destroyed then s
  else if (hit.sim.rocks i).destroyed then hit.touch i
  else if hit.sim.rockState i ≠ s.sim.rockState i then hit.touch i
  else hit

def regrow (near : Fin n → Bool) (t : ℕ) (s : RockStates n cap) (i : Fin n) : RockStates n cap :=
  let grown := { s with sim := Sim.regrow near t s.sim i }
  if (s.sim.rocks i).destroyed && ! (grown.sim.rocks i).destroyed then grown.touch i else grown

def fieldStep (s : RockStates n cap) (near : Fin n → Bool) (t : ℕ) : RockStates n cap :=
  if t % 30 ≠ 0 then s else (List.finRange n).foldl (regrow near t) s

def Counted (s : RockStates n cap) : Prop := ∀ i, s.version i = s.changes i % 2 ^ 8

/-- No count has gone down, and while one stays, so does the rock's state. -/
def Later (s s' : RockStates n cap) : Prop :=
  ∀ i, s.changes i ≤ s'.changes i
    ∧ (s'.changes i = s.changes i → s'.sim.rockState i = s.sim.rockState i)

variable {s s' s'' : RockStates n cap}

theorem counted_new (sim : Sim n cap) : (new sim).Counted := fun _ => rfl

theorem Later.refl (s : RockStates n cap) : Later s s := fun _ => ⟨le_rfl, fun _ => rfl⟩

theorem Later.trans (h : Later s s') (h' : Later s' s'') : Later s s'' := by
  intro i
  obtain ⟨hle, hsame⟩ := h i
  obtain ⟨hle', hsame'⟩ := h' i
  refine ⟨hle.trans hle', fun heq => ?_⟩
  rw [hsame' (by omega), hsame (by omega)]

theorem Counted.touch (h : s.Counted) (i : Fin n) : (s.touch i).Counted := by
  intro j
  simp only [RockStates.touch, Function.update_apply]
  split
  · rw [h i, Nat.mod_add_mod]
  · exact h j

/-- A step that changes rock `i` at most, and touches it if it changed its state. -/
theorem later_of_sameBut {i : Fin n} {sim : Sim n cap} (h : Sim.SameBut i s.sim sim)
    (htouch : s'.sim = sim ∧ s'.changes = Function.update s.changes i (s.changes i + 1)
      ∨ s'.sim = sim ∧ s'.changes = s.changes ∧ sim.rockState i = s.sim.rockState i) :
    Later s s' := by
  intro j
  rcases htouch with ⟨hsim, hchanges⟩ | ⟨hsim, hchanges, hstate⟩
  · rw [hsim, hchanges, Function.update_apply]
    split
    · rename_i hj
      rw [hj]
      exact ⟨Nat.le_succ _, fun heq => absurd heq (Nat.succ_ne_self _)⟩
    · rename_i hj
      exact ⟨le_rfl, fun _ => h.rockState hj⟩
  · rw [hsim, hchanges]
    refine ⟨le_rfl, fun _ => ?_⟩
    by_cases hj : j = i
    · rw [hj, hstate]
    · exact h.rockState hj

theorem later_rockHit (s : RockStates n cap) (i : Fin n) (amount : ℚ) (kind : WeaponKind) (t : ℕ) :
    Later s (s.rockHit i amount kind t) := by
  have hsame := Sim.sameBut_rockHit s.sim i amount kind t
  unfold rockHit
  dsimp only
  split
  · exact .refl s
  · split
    · exact later_of_sameBut hsame (Or.inl ⟨rfl, rfl⟩)
    · split
      · exact later_of_sameBut hsame (Or.inl ⟨rfl, rfl⟩)
      · rename_i hstate
        exact later_of_sameBut hsame (Or.inr ⟨rfl, rfl, not_not.mp hstate⟩)

theorem Counted.rockHit (h : s.Counted) (i : Fin n) (amount : ℚ) (kind : WeaponKind) (t : ℕ) :
    (s.rockHit i amount kind t).Counted := by
  have hhit : Counted { s with sim := s.sim.rockHit i amount kind t } := h
  unfold RockStates.rockHit
  dsimp only
  split
  · exact h
  · split
    · exact hhit.touch i
    · split
      · exact hhit.touch i
      · exact hhit

theorem rockState_regrow {near : Fin n → Bool} {t : ℕ} {sim : Sim n cap} {i : Fin n}
    (h : ¬ ((sim.rocks i).destroyed && ! ((Sim.regrow near t sim i).rocks i).destroyed) = true) :
    (Sim.regrow near t sim i).rockState i = sim.rockState i := by
  unfold Sim.regrow at h ⊢
  dsimp only at h ⊢
  split
  · rfl
  · rename_i hdue
    rw [if_neg hdue] at h
    split
    · simp [Sim.rockState, Sim.setRock]
    · rename_i hnear
      rw [if_neg hnear] at h
      simp only [Sim.setRock, Function.update_self, Bool.not_false, Bool.and_true] at h
      simp only [Bool.or_eq_true, Bool.not_eq_true', not_or, Bool.not_eq_false] at hdue
      exact absurd hdue.1 h

theorem later_regrow (near : Fin n → Bool) (t : ℕ) (s : RockStates n cap) (i : Fin n) :
    Later s (regrow near t s i) := by
  have hsame := Sim.sameBut_regrow near t s.sim i
  unfold regrow
  dsimp only
  split
  · exact later_of_sameBut hsame (Or.inl ⟨rfl, rfl⟩)
  · rename_i hgrown
    exact later_of_sameBut hsame (Or.inr ⟨rfl, rfl, rockState_regrow hgrown⟩)

theorem Counted.regrow (h : s.Counted) (near : Fin n → Bool) (t : ℕ) (i : Fin n) :
    (regrow near t s i).Counted := by
  have hgrown : Counted { s with sim := Sim.regrow near t s.sim i } := h
  unfold RockStates.regrow
  dsimp only
  split
  · exact hgrown.touch i
  · exact hgrown

theorem fieldStep_keeps (near : Fin n → Bool) (t : ℕ) (h : s.Counted) :
    Later s (s.fieldStep near t) ∧ (s.fieldStep near t).Counted := by
  have hfold : ∀ (l : List (Fin n)) (s : RockStates n cap), s.Counted →
      Later s (l.foldl (regrow near t) s) ∧ (l.foldl (regrow near t) s).Counted := by
    intro l
    induction l with
    | nil => exact fun s h => ⟨.refl s, h⟩
    | cons i rest ih =>
      intro s h
      obtain ⟨hlater, hcounted⟩ := ih _ (h.regrow near t i)
      exact ⟨(later_regrow near t s i).trans hlater, hcounted⟩
  unfold fieldStep
  split
  · exact ⟨.refl s, h⟩
  · exact hfold _ s h

end RockStates

end BeforeColony
