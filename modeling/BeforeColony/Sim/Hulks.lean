import BeforeColony.Sim.Salvage

/-!
# Whole hulks

A hulk weighs what the parts it still has weigh, its torso among them (`ChunkDesc.Intact`): so a
wreck does, and so does what is left where a part is cut off. The pool keeps its hulks whole as
long as what is put in it is (`Chunks.Good`).
-/

set_option autoImplicit false

namespace BeforeColony

open Catalogue

/-! ### A hulk's parts -/

theorem testBit_lessPart (parts : ℕ) (p q : Part) :
    (parts &&& (255 ^^^ 1 <<< p.index)).testBit q.index = (parts.testBit q.index && q ≠ p) := by
  have hbit : (255 ^^^ 1 <<< p.index).testBit q.index = decide (q ≠ p) := by
    cases p <;> cases q <;> decide
  rw [Nat.testBit_and, hbit]

theorem testBit_left (gone : ℕ) (q : Part) :
    (((255 ^^^ gone) &&& 63).testBit q.index) = ! gone.testBit q.index := by
  have hall : (255).testBit q.index = true := by cases q <;> decide
  have hparts : (63).testBit q.index = true := by cases q <;> decide
  rw [Nat.testBit_and, Nat.testBit_xor, hall, hparts, Bool.and_true, Bool.true_xor]

theorem hulkMass_left (frame : FrameId) (gone : ℕ) :
    hulkMass frame ((255 ^^^ gone) &&& 63) = massWithout frame gone := by
  unfold hulkMass massWithout
  have hleft : (Part.all.filter fun p => ((255 ^^^ gone) &&& 63).testBit p.index)
      = Part.all.filter fun p => ¬ gone.testBit p.index := by
    refine List.filter_congr fun p _ => ?_
    rw [testBit_left]
    cases gone.testBit p.index <;> rfl
  rw [hleft]

theorem hulkMass_lessPart (frame : FrameId) {parts : ℕ} {p : Part}
    (hp : parts.testBit p.index = true) :
    hulkMass frame (parts &&& (255 ^^^ 1 <<< p.index)) + partMassKg frame p
      = hulkMass frame parts := by
  have hmem : p ∈ Part.all.filter fun q => parts.testBit q.index :=
    List.mem_filter.mpr ⟨by cases p <;> decide, hp⟩
  have hnodup : (Part.all.filter fun q => parts.testBit q.index).Nodup :=
    List.Nodup.filter _ (by decide)
  have hless : (Part.all.filter fun q => (parts &&& (255 ^^^ 1 <<< p.index)).testBit q.index)
      = (Part.all.filter fun q => parts.testBit q.index).erase p := by
    rw [hnodup.erase_eq_filter, List.filter_filter]
    refine List.filter_congr fun q _ => ?_
    rw [testBit_lessPart, Bool.and_comm]
    by_cases hq : q = p <;> simp [hq]
  rw [hulkMass, hulkMass, hless, Nat.add_comm, List.sum_map_erase _ hmem]

theorem hulkMass_pos (frame : FrameId) {parts : ℕ}
    (ht : parts.testBit Part.torso.index = true) : 0 < hulkMass frame parts := by
  have hless := hulkMass_lessPart frame ht
  have htorso : 0 < partMassKg frame .torso := by cases frame <;> decide +kernel
  omega

theorem torso_goneMask (lost : Part → Bool) :
    (goneMask lost).testBit Part.torso.index = false := by
  have hfold (l : List Part) (mask : ℕ) (hmask : mask.testBit Part.torso.index = false)
      (hl : .torso ∉ l) :
      (l.foldl (fun mask p => mask ||| 1 <<< p.index) mask).testBit Part.torso.index = false := by
    induction l generalizing mask with
    | nil => exact hmask
    | cons p rest ih =>
      rw [List.mem_cons, not_or] at hl
      refine ih _ ?_ hl.2
      have hbit : (1 <<< p.index).testBit Part.torso.index = false := by
        have hp := hl.1
        cases p <;> first | rfl | exact absurd rfl hp
      rw [Nat.testBit_or, hmask, hbit, Bool.or_false]
  refine hfold _ 0 (Nat.zero_testBit _) fun hmem => ?_
  exact absurd (List.mem_filter.mp hmem).1 (by decide)

/-! ### Whole hulks -/

/-- A hulk that weighs what its parts weigh, its torso among them. -/
def ChunkDesc.Intact (d : ChunkDesc) : Prop :=
  ∀ frame parts, d.kind = .hulk frame parts →
    d.massKg = hulkMass frame parts ∧ parts.testBit Part.torso.index = true

theorem intact_of_not_hulk {d : ChunkDesc} (h : Sim.isHulk d.kind = false) : d.Intact := by
  intro frame parts hkind
  rw [hkind] at h
  cases h

/-- What is left of a suit, its torso the last of it. -/
theorem intact_wreck (frame : FrameId) (lost : Part → Bool) :
    ChunkDesc.Intact ⟨.hulk frame ((255 ^^^ goneMask lost) &&& 63),
      massWithout frame (goneMask lost)⟩ := by
  intro frame' parts hkind
  cases hkind
  refine ⟨(hulkMass_left _ _).symm, ?_⟩
  rw [testBit_left, torso_goneMask]
  rfl

namespace Chunks

/-- Every hulk adrift or in hand weighs what its parts weigh. -/
def Whole (c : Chunks) : Prop := ∀ k, c.alive k = true → (c.slot k).desc.Intact

/-- Each free slot is free once, and the hulks are whole. -/
structure Good (c : Chunks) : Prop where
  sound : c.Sound
  whole : c.Whole

variable {c : Chunks} {k : ℕ} {desc : ChunkDesc}

theorem good_new : new.Good where
  sound := sound_new
  whole _ hk := by cases hk

theorem good_kill (h : c.Good) (k : ℕ) : (c.kill k).Good := by
  refine ⟨sound_kill h.sound k, fun q hq => ?_⟩
  rw [alive_kill, Bool.and_eq_true] at hq
  rw [slot_kill]
  exact h.whole q hq.1

theorem good_spawn (h : c.Good) (hdesc : desc.Intact) (motion : Motion) (expire t : ℕ) :
    (c.spawn desc motion expire t).1.Good := by
  refine ⟨sound_spawn h.sound desc motion expire t, fun q hq => ?_⟩
  by_cases hnew : (c.spawn desc motion expire t).2 = some q
  · rw [(slot_spawn hnew).1]
    exact hdesc
  · obtain ⟨hslot, halive⟩ := slot_spawn_of_ne hnew
    rw [hslot]
    exact h.whole q (halive ▸ hq)

theorem good_touch (h : c.Good) {f : ChunkSlot → ChunkSlot}
    (hf : c.alive k = true → (f (c.slot k)).desc.Intact) : (c.touch k f).Good := by
  refine ⟨sound_touch h.sound k f, fun q hq => ?_⟩
  unfold touch
  dsimp only
  by_cases he : q = k
  · subst he
    rw [Function.update_self]
    exact hf hq
  · rw [Function.update_of_ne he]
    exact h.whole q hq

end Chunks

end BeforeColony
