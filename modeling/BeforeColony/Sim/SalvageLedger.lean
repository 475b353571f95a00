import Mathlib.Algebra.BigOperators.Fin
import BeforeColony.Lib.Run
import BeforeColony.Sim.Hulks

/-!
# Salvage is not minted

What the operations of a sector do to the kilograms of each material, among rocks, chunks, hands
and holds. What stays and what leaves with a tow or a suit that docks are no more than what was
there and what was added, by a part come off, a wreck, or a rock grown back (`moves_step`).

All of it holds of a pool whose hulks are whole, until a blade cuts a part off a hulk while the pool
has no free slot (`Recycles`). The part then takes the slot of the oldest chunk adrift, whose record
goes; where that chunk is the hulk itself, the part's record is written over as the hulk's.
-/

set_option autoImplicit false

namespace BeforeColony

open Catalogue

@[simp] theorem ChunkDesc.kg_zero (kind : ChunkKind) (m : Fin 4) : ChunkDesc.kg ⟨kind, 0⟩ m = 0 := by
  simp [kg]

theorem ChunkDesc.kg_add (kind : ChunkKind) (a b : ℕ) (m : Fin 4) :
    ChunkDesc.kg ⟨kind, a + b⟩ m = ChunkDesc.kg ⟨kind, a⟩ m + ChunkDesc.kg ⟨kind, b⟩ m := by
  simp only [kg]
  split <;> rfl

theorem ChunkDesc.kg_le (kind : ChunkKind) {a b : ℕ} (h : a ≤ b) (m : Fin 4) :
    ChunkDesc.kg ⟨kind, a⟩ m ≤ ChunkDesc.kg ⟨kind, b⟩ m := by
  simp only [kg]
  split
  · exact h
  · exact le_rfl

def oreKg (ore kg : ℕ) : Fin 4 → ℕ := ChunkDesc.kg ⟨.ore ore, kg⟩

theorem intact_ore (ore kg : ℕ) : ChunkDesc.Intact ⟨.ore ore, kg⟩ := intact_of_not_hulk rfl

theorem intact_limb (frame : FrameId) (p : Part) (kg : ℕ) : ChunkDesc.Intact ⟨.limb frame p, kg⟩ :=
  intact_of_not_hulk rfl

namespace Sim

variable {n cap : ℕ}

/-! ### The kilograms of a sector -/

def rockKg (s : Sim n cap) (i : Fin n) : Fin 4 → ℕ := oreKg (s.field i).ore (s.rocks i).oreKg

/-- The kilograms of material `m` among rocks, chunks (in hand or adrift) and holds. -/
def kg (s : Sim n cap) (m : Fin 4) : ℕ :=
  ∑ i, s.rockKg i m + s.chunks.kg m + ∑ j, s.cargoKg j m

/-- From a pool whose hulks are whole, `s'` has no more of anything than `s` with `into` added
and `out` taken away, and its hulks are whole. -/
def Moves (into out : Fin 4 → ℕ) (s s' : Sim n cap) : Prop :=
  s.chunks.Good → s'.chunks.Good ∧ ∀ m, s'.kg m + out m ≤ s.kg m + into m

variable {s s' s'' : Sim n cap} {into into' out out' : Fin 4 → ℕ}

theorem Moves.refl (s : Sim n cap) : Moves 0 0 s s := fun hgood => ⟨hgood, fun _ => le_rfl⟩

theorem Moves.trans (h : Moves into out s s') (h' : Moves into' out' s' s'') :
    Moves (into + into') (out + out') s s'' := by
  intro hgood
  obtain ⟨hgood', hkg⟩ := h hgood
  obtain ⟨hgood'', hkg'⟩ := h' hgood'
  refine ⟨hgood'', fun m => ?_⟩
  have hfirst := hkg m
  have hthen := hkg' m
  simp only [Pi.add_apply]
  omega

theorem Moves.weaken (h : Moves into out s s') (hm : ∀ m, into m + out' m ≤ into' m + out m) :
    Moves into' out' s s' := by
  intro hgood
  obtain ⟨hgood', hkg⟩ := h hgood
  refine ⟨hgood', fun m => ?_⟩
  have hle := hkg m
  have hless := hm m
  omega

theorem Moves.trans_zero (h : Moves 0 0 s s') (h' : Moves into out s' s'') :
    Moves into out s s'' := (h.trans h').weaken fun m => by simp

theorem Moves.foldl {ι : Type*} {f : Sim n cap → ι → Sim n cap}
    (h : ∀ s i, Moves 0 0 s (f s i)) (l : List ι) (s : Sim n cap) : Moves 0 0 s (l.foldl f s) := by
  induction l generalizing s with
  | nil => exact .refl s
  | cons i rest ih => exact (h s i).trans_zero (ih _)

/-! ### Pieces of operations -/

/-- A change to what a suit has in hand, its credits, its frame or its hulk moves nothing. -/
theorem moves_of_eq (hfield : s'.field = s.field) (hrocks : s'.rocks = s.rocks)
    (hchunks : s'.chunks = s.chunks) (hcargo : s'.cargoKg = s.cargoKg) : Moves 0 0 s s' := by
  intro hgood
  refine ⟨hchunks ▸ hgood, fun m => ?_⟩
  unfold kg rockKg
  rw [hfield, hrocks, hchunks, hcargo]

theorem moves_emptyHand (s : Sim n cap) (i : Fin cap) : Moves 0 0 s (s.emptyHand i) :=
  moves_of_eq rfl rfl rfl rfl

theorem moves_chunks {chunks : Chunks} (hgood : s.chunks.Good → chunks.Good)
    (hkg : s.chunks.Good → ∀ m, chunks.kg m + out m ≤ s.chunks.kg m + into m) :
    Moves into out s { s with chunks } := by
  intro hs
  refine ⟨hgood hs, fun m => ?_⟩
  have hle := hkg hs m
  unfold kg rockKg
  dsimp only
  omega

theorem moves_spawn (s : Sim n cap) {desc : ChunkDesc} (hdesc : desc.Intact) (ttl t : ℕ) :
    Moves desc.kg 0 s (s.spawn desc ttl t) :=
  moves_chunks (fun hs => Chunks.good_spawn hs hdesc _ _ _)
    fun _ m => Chunks.kg_spawn_le s.chunks desc _ _ _ m

theorem moves_kill (s : Sim n cap) (k : ℕ) : Moves 0 0 s { s with chunks := s.chunks.kill k } :=
  moves_chunks (fun hs => Chunks.good_kill hs k) fun _ m => Chunks.kg_kill_le s.chunks k m

theorem moves_kill_out {k : ℕ} (hk : s.chunks.isAlive k = true) :
    Moves 0 (s.chunks.slot k).desc.kg s { s with chunks := s.chunks.kill k } := by
  unfold Chunks.isAlive at hk
  rw [Bool.and_eq_true, decide_eq_true_eq] at hk
  refine moves_chunks (fun hs => Chunks.good_kill hs k) fun _ m => ?_
  have hkill := Chunks.kg_kill hk.1 s.chunks m
  rw [Chunks.kgAt, if_pos hk.2] at hkill
  exact hkill.le

theorem moves_touch (s : Sim n cap) (k : ℕ) {f : ChunkSlot → ChunkSlot} (hf : ∀ c, (f c).desc = c.desc) :
    Moves 0 0 s { s with chunks := s.chunks.touch k f } := by
  refine moves_chunks (fun hs => Chunks.good_touch hs fun hk => ?_) fun _ m => ?_
  · rw [hf]
    exact hs.whole k hk
  · refine Chunks.kg_touch_le (le_of_eq ?_)
    rw [hf]

theorem moves_setRock (s : Sim n cap) (i : Fin n) (r : MinedRock) :
    Moves (oreKg (s.field i).ore r.oreKg) (s.rockKg i) s (s.setRock i r) := by
  intro hs
  refine ⟨hs, fun m => ?_⟩
  have hrest : (Finset.univ.erase i).sum (fun q => (s.setRock i r).rockKg q m)
      = (Finset.univ.erase i).sum fun q => s.rockKg q m := by
    refine Finset.sum_congr rfl fun q hq => ?_
    simp only [rockKg, setRock, Function.update_of_ne (Finset.ne_of_mem_erase hq)]
  have hnew : (s.setRock i r).rockKg i m = oreKg (s.field i).ore r.oreKg m := by
    simp [rockKg, setRock]
  have hchunks : (s.setRock i r).chunks = s.chunks := rfl
  have hcargo : (s.setRock i r).cargoKg = s.cargoKg := rfl
  unfold kg
  rw [← Finset.add_sum_erase _ (fun q => (s.setRock i r).rockKg q m) (Finset.mem_univ i),
    ← Finset.add_sum_erase _ (fun q => s.rockKg q m) (Finset.mem_univ i), hrest, hnew, hchunks,
    hcargo]
  omega

theorem moves_setCargo (s : Sim n cap) (i : Fin cap) (cargo : Fin 4 → ℕ) :
    Moves cargo (s.cargoKg i) s { s with cargoKg := Function.update s.cargoKg i cargo } := by
  intro hs
  refine ⟨hs, fun m => ?_⟩
  have hrest : (Finset.univ.erase i).sum (fun q => Function.update s.cargoKg i cargo q m)
      = (Finset.univ.erase i).sum fun q => s.cargoKg q m := by
    refine Finset.sum_congr rfl fun q hq => ?_
    rw [Function.update_of_ne (Finset.ne_of_mem_erase hq)]
  unfold kg rockKg
  dsimp only
  rw [← Finset.add_sum_erase _ (fun q => Function.update s.cargoKg i cargo q m) (Finset.mem_univ i),
    ← Finset.add_sum_erase _ (fun q => s.cargoKg q m) (Finset.mem_univ i), hrest,
    Function.update_self]
  omega

/-! ### Mining -/

theorem moves_pieces (i : Fin n) (each ttl t : ℕ) (l : List ℕ) (s : Sim n cap) :
    Moves (fun m => l.length * oreKg (s.field i).ore each m) 0 s
        (l.foldl (fun s _ => s.spawn ⟨.ore (s.field i).ore, each⟩ ttl t) s)
      ∧ (l.foldl (fun s _ => s.spawn ⟨.ore (s.field i).ore, each⟩ ttl t) s).rockKg i
        = s.rockKg i := by
  induction l generalizing s with
  | nil => exact ⟨(Moves.refl s).weaken fun m => by simp, rfl⟩
  | cons a rest ih =>
    have hpiece := moves_spawn s (intact_ore (s.field i).ore each) ttl t
    obtain ⟨hrest, hrock⟩ := ih (s.spawn ⟨.ore (s.field i).ore, each⟩ ttl t)
    refine ⟨(hpiece.trans hrest).weaken fun m => ?_, hrock⟩
    have hfield : (s.spawn ⟨.ore (s.field i).ore, each⟩ ttl t).field = s.field := rfl
    simp only [Pi.add_apply, Pi.zero_apply, hfield, List.length_cons, oreKg]
    ring_nf
    exact le_rfl

theorem pieces_le (ore pieces : ℕ) : pieces * (ore / pieces / 10 * 10) ≤ ore := by
  have htens : ore / pieces / 10 * 10 ≤ ore / pieces := Nat.div_mul_le_self _ _
  calc pieces * (ore / pieces / 10 * 10) ≤ pieces * (ore / pieces) := Nat.mul_le_mul_left _ htens
    _ ≤ ore := Nat.mul_div_le ore pieces

theorem mul_oreKg_le (ore : ℕ) {pieces each kg : ℕ} (h : pieces * each ≤ kg) (m : Fin 4) :
    pieces * oreKg ore each m ≤ oreKg ore kg m := by
  simp only [oreKg, ChunkDesc.kg]
  split
  · exact h
  · simp

theorem moves_shatter (s : Sim n cap) (i : Fin n) (t : ℕ) : Moves 0 0 s (s.shatter i t) := by
  unfold shatter
  dsimp only
  generalize hpieces : max 2 (min ((s.rocks i).oreKg / 400) 8) = pieces
  generalize heach : (s.rocks i).oreKg / pieces / 10 * 10 = each
  have hle : pieces * each ≤ (s.rocks i).oreKg := by
    rw [← heach]
    exact pieces_le _ _
  -- Its ore goes with it, whether or not it flies off.
  have hgone (s' : Sim n cap) (hs' : s'.rockKg i = s.rockKg i) :
      Moves 0 (s.rockKg i) s' (s'.setRock i ⟨0, 0, true, t + regrowAfter⟩) := by
    refine (moves_setRock s' i _).weaken fun m => ?_
    rw [hs']
    simp [oreKg]
  split
  · obtain ⟨hmoves, hrock⟩ := moves_pieces i each oreTtl t (List.range pieces) s
    refine (hmoves.trans (hgone _ hrock)).weaken fun m => ?_
    have hpiece := mul_oreKg_le (s.field i).ore hle m
    rw [List.length_range]
    simp only [Pi.add_apply, Pi.zero_apply, rockKg]
    omega
  · exact (hgone s rfl).weaken fun m => by simp

theorem moves_rockHit (s : Sim n cap) (i : Fin n) (amount : ℚ) (kind : WeaponKind) (t : ℕ) :
    Moves 0 0 s (s.rockHit i amount kind t) := by
  unfold rockHit
  dsimp only
  split
  · exact .refl s
  · generalize hore : (if weaponClass kind = .beam then
        (s.rocks i).oreKg - ⌊amount * beamWasteKg⌋.toNat else (s.rocks i).oreKg) = ore
    generalize hchip : (if weaponClass kind = .melee then min ore chipKg / 10 * 10 else 0) = chip
    have hore_le : ore ≤ (s.rocks i).oreKg := by
      rw [← hore]
      split
      · exact Nat.sub_le _ _
      · exact le_rfl
    have hchip_le : chip ≤ ore := by
      rw [← hchip]
      split
      · exact (Nat.div_mul_le_self _ _).trans (min_le_left _ _)
      · exact Nat.zero_le _
    -- The rock loses the chip, and the chip is spawned.
    have hrock (r : MinedRock) (hr : r.oreKg = ore - chip) :
        Moves 0 (oreKg (s.field i).ore chip) s (s.setRock i r) := by
      refine (moves_setRock s i r).weaken fun m => ?_
      have hsplit := ChunkDesc.kg_add (.ore (s.field i).ore) (ore - chip) chip m
      rw [Nat.sub_add_cancel hchip_le] at hsplit
      have hless := ChunkDesc.kg_le (.ore (s.field i).ore) hore_le m
      simp only [rockKg, oreKg, hr, Pi.zero_apply]
      omega
    have hoff (r : MinedRock) (hr : r.oreKg = ore - chip) : Moves 0 0 s
        (if 0 < chip then (s.setRock i r).spawn ⟨.ore ((s.setRock i r).field i).ore, chip⟩ oreTtl t
          else s.setRock i r) := by
      split
      · refine ((hrock r hr).trans (moves_spawn _ (intact_ore _ _) _ _)).weaken fun m => ?_
        simp [oreKg, setRock]
      · exact (hrock r hr).weaken fun m => by simp
    split
    · exact (hoff _ rfl).trans_zero (moves_shatter _ i t)
    · exact hoff _ rfl

def grownKg (near : Fin n → Bool) (t : ℕ) (s : Sim n cap) (i : Fin n) : Fin 4 → ℕ :=
  if (s.rocks i).destroyed && decide ((s.rocks i).regrowAt ≤ t) && ! near i then
    oreKg (s.field i).ore (maxOreKg (s.field i))
  else 0

theorem moves_regrow (near : Fin n → Bool) (t : ℕ) (s : Sim n cap) (i : Fin n) :
    Moves (grownKg near t s i) 0 s (regrow near t s i) := by
  unfold regrow
  dsimp only
  split
  · exact (Moves.refl s).weaken fun m => by simp
  · rename_i hdue
    split
    · refine (moves_setRock s i _).weaken fun m => ?_
      simp [rockKg]
    · rename_i hnear
      have hgrown : grownKg near t s i = oreKg (s.field i).ore (maxOreKg (s.field i)) := by
        refine if_pos ?_
        simp only [Bool.or_eq_true, Bool.not_eq_true', decide_eq_true_eq, not_or, not_lt,
          Bool.not_eq_false] at hdue
        simp [hdue, hnear]
      rw [hgrown]
      refine (moves_setRock s i _).weaken fun m => ?_
      simp

theorem rocks_regrow_of_ne (near : Fin n → Bool) (t : ℕ) (s : Sim n cap) {i j : Fin n} (h : j ≠ i) :
    grownKg near t (regrow near t s i) j = grownKg near t s j := by
  have hsame : (regrow near t s i).rocks j = s.rocks j ∧ (regrow near t s i).field = s.field := by
    unfold regrow setRock
    dsimp only
    split
    · exact ⟨rfl, rfl⟩
    · split
      · exact ⟨Function.update_of_ne h _ _, rfl⟩
      · exact ⟨Function.update_of_ne h _ _, rfl⟩
  unfold grownKg
  rw [hsame.1, hsame.2]

theorem moves_regrows (near : Fin n → Bool) (t : ℕ) {l : List (Fin n)} (hl : l.Nodup)
    (s : Sim n cap) :
    Moves (fun m => (l.map fun i => grownKg near t s i m).sum) 0 s
      (l.foldl (regrow near t) s) := by
  induction l generalizing s with
  | nil => exact (Moves.refl s).weaken fun m => by simp
  | cons i rest ih =>
    obtain ⟨hi, hrest⟩ := List.nodup_cons.mp hl
    refine ((moves_regrow near t s i).trans (ih hrest _)).weaken fun m => ?_
    have hsame : (rest.map fun j => grownKg near t (regrow near t s i) j m)
        = rest.map fun j => grownKg near t s j m := by
      refine List.map_congr_left fun j hj => ?_
      have hne : j ≠ i := fun he => hi (he ▸ hj)
      rw [rocks_regrow_of_ne near t s hne]
    simp only [Pi.add_apply, Pi.zero_apply, hsame, List.map_cons, List.sum_cons]
    exact le_rfl

def fieldKg (near : Fin n → Bool) (t : ℕ) (s : Sim n cap) (m : Fin 4) : ℕ :=
  if t % 30 ≠ 0 then 0 else ∑ i, grownKg near t s i m

theorem moves_fieldStep (s : Sim n cap) (near : Fin n → Bool) (t : ℕ) :
    Moves (fieldKg near t s) 0 s (s.fieldStep near t) := by
  unfold fieldStep
  split
  · rename_i ht
    refine (Moves.refl s).weaken fun m => ?_
    rw [fieldKg, if_pos ht]
    simp
  · rename_i ht
    refine (moves_regrows near t (List.nodup_finRange n) s).weaken fun m => ?_
    rw [fieldKg, if_neg ht, Fin.sum_univ_def]

/-! ### Cutting hulks -/

theorem nearestPart_some {parts : ℕ} {d2 : Part → ℚ} {p : Part} (h : nearestPart parts d2 = some p) :
    p ∈ detachable ∧ parts.testBit p.index = true := by
  unfold nearestPart at h
  have hfold (l : List Part) (best : Option Part)
      (hbest : ∀ p, best = some p → p ∈ detachable ∧ parts.testBit p.index = true)
      (hl : ∀ p ∈ l, p ∈ detachable) (p : Part)
      (hp : l.foldl (fun best p =>
        if parts.testBit p.index && best.all fun b => d2 p < d2 b then some p else best) best
          = some p) : p ∈ detachable ∧ parts.testBit p.index = true := by
    induction l generalizing best with
    | nil => exact hbest p hp
    | cons a rest ih =>
      rw [List.forall_mem_cons] at hl
      refine ih _ (fun q hq => ?_) hl.2 hp
      dsimp only at hq
      split at hq
      · rename_i hnew
        cases hq
        rw [Bool.and_eq_true] at hnew
        exact ⟨hl.1, hnew.1⟩
      · exact hbest q hq
  exact hfold _ none (fun _ h => by cases h) (fun _ h => h) p h

theorem nearestPart_isSome {parts : ℕ} (d2 : Part → ℚ) {p : Part} (hp : p ∈ detachable)
    (hbit : parts.testBit p.index = true) : ∃ q, nearestPart parts d2 = some q := by
  rw [← Option.isSome_iff_exists]
  unfold nearestPart
  have hkeeps (l : List Part) (best : Option Part) (hbest : best.isSome = true) :
      (l.foldl (fun best p =>
        if parts.testBit p.index && best.all fun b => d2 p < d2 b then some p else best)
          best).isSome = true := by
    induction l generalizing best with
    | nil => exact hbest
    | cons a rest ih =>
      refine ih _ ?_
      dsimp only
      split
      · rfl
      · exact hbest
  have hfold (l : List Part) (best : Option Part) (hl : p ∈ l) :
      (l.foldl (fun best p =>
        if parts.testBit p.index && best.all fun b => d2 p < d2 b then some p else best)
          best).isSome = true := by
    induction l generalizing best with
    | nil => cases hl
    | cons a rest ih =>
      rw [List.foldl_cons]
      by_cases ha : p = a
      · subst ha
        refine hkeeps rest _ ?_
        cases best with
        | none => simp [hbit]
        | some b => split <;> rfl
      · exact ih _ ((List.mem_cons.mp hl).resolve_left ha)
  exact hfold _ none hp

theorem hulkInBlade_some {near : ℕ → Bool} {k : ℕ} (h : s.hulkInBlade near = some k) :
    k < chunkSlots ∧ s.chunks.Adrift k
      ∧ ∃ frame parts, (s.chunks.slot k).desc.kind = .hulk frame parts := by
  unfold hulkInBlade at h
  have hmem := List.mem_range.mp (List.mem_of_find?_eq_some h)
  have hfound := List.find?_some h
  simp only [Bool.and_eq_true] at hfound
  obtain ⟨⟨⟨halive, hhulk⟩, hfree⟩, -⟩ := hfound
  refine ⟨hmem, ⟨halive, of_decide_eq_true hfree⟩, ?_⟩
  cases hkind : (s.chunks.slot k).desc.kind with
  | hulk frame parts => exact ⟨frame, parts, rfl⟩
  | ore ore => simp [hkind, isHulk] at hhulk
  | limb frame p => simp [hkind, isHulk] at hhulk

/-- A part is cut off a hulk while no slot is free: the limb takes the slot of the oldest chunk adrift,
which may be the hulk itself. -/
def Recycles (s : Sim n cap) : SimOp n cap → Prop
  | .blade near _ _ => ∃ k frame parts, s.hulkInBlade near = some k ∧ s.chunks.free = []
      ∧ (s.chunks.slot k).desc.kind = .hulk frame parts
      ∧ ∃ p ∈ detachable, parts.testBit p.index = true
  | _ => False

section Cut

variable {k : ℕ} {frame : FrameId} {parts : ℕ} {p : Part} {d2 : Part → ℚ}

def limb (frame : FrameId) (p : Part) : ChunkDesc := ⟨.limb frame p, partMassKg frame p⟩

theorem cutHulk_eq (hkind : (s.chunks.slot k).desc.kind = .hulk frame parts)
    (hp : nearestPart parts d2 = some p) (t : ℕ) :
    s.cutHulk k d2 t = { s with
      chunks := (s.chunks.spawn (limb frame p) .free (t + wreckTtl false) t).1.touch k fun c =>
        { c with desc := lessPart frame parts p c.desc } } := by
  unfold cutHulk
  rw [hkind]
  dsimp only
  rw [hp]
  rfl

theorem cutHulk_eq_self (hkind : (s.chunks.slot k).desc.kind = .hulk frame parts)
    (hp : nearestPart parts d2 = none) (t : ℕ) : s.cutHulk k d2 t = s := by
  unfold cutHulk
  rw [hkind]
  dsimp only
  rw [hp]

theorem intact_lessPart {d : ChunkDesc} (hd : d.Intact) (hkind : d.kind = .hulk frame parts)
    (hp : nearestPart parts d2 = some p) :
    (lessPart frame parts p d).Intact
      ∧ (lessPart frame parts p d).massKg + partMassKg frame p = d.massKg := by
  obtain ⟨hmass, htorso⟩ := hd frame parts hkind
  obtain ⟨hdetach, hbit⟩ := nearestPart_some hp
  have hless := hulkMass_lessPart frame hbit
  have hne : Part.torso ≠ p := by
    intro he
    subst he
    exact absurd hdetach (by decide)
  refine ⟨fun frame' parts' hk => ?_, ?_⟩
  · cases hk
    refine ⟨?_, ?_⟩
    · show d.massKg - partMassKg frame p = _
      omega
    · rw [testBit_lessPart, htorso]
      simp [hne]
  · show d.massKg - partMassKg frame p + partMassKg frame p = d.massKg
    omega

theorem moves_lessPart (s : Sim n cap) (hk : k < chunkSlots) (halive : s.chunks.alive k = true)
    (hkind : (s.chunks.slot k).desc.kind = .hulk frame parts) (hp : nearestPart parts d2 = some p) :
    Moves 0 (limb frame p).kg s { s with
      chunks := s.chunks.touch k fun c => { c with desc := lessPart frame parts p c.desc } } := by
  refine moves_chunks (fun hs => Chunks.good_touch hs fun _ => ?_) fun hs m => ?_
  · exact (intact_lessPart (hs.whole k halive) hkind hp).1
  · have hmass := (intact_lessPart (hs.whole k halive) hkind hp).2
    have hone : (s.chunks.touch k fun c =>
          { c with desc := lessPart frame parts p c.desc }).kg m + s.chunks.kgAt m k
        = s.chunks.kg m + (s.chunks.touch k fun c =>
          { c with desc := lessPart frame parts p c.desc }).kgAt m k :=
      Chunks.kg_add_kgAt hk fun q hq => Chunks.kgAt_congr (Function.update_of_ne hq _ _) rfl
    have hbefore : s.chunks.kgAt m k
        = ChunkDesc.kg ⟨.hulk frame parts, (s.chunks.slot k).desc.massKg⟩ m := by
      rw [Chunks.kgAt, if_pos halive]
      unfold ChunkDesc.kg
      rw [hkind]
    have hafter : (s.chunks.touch k fun c =>
          { c with desc := lessPart frame parts p c.desc }).kgAt m k
        = ChunkDesc.kg ⟨.hulk frame parts, (lessPart frame parts p (s.chunks.slot k).desc).massKg⟩ m := by
      unfold Chunks.kgAt Chunks.touch
      dsimp only
      rw [Function.update_self, if_pos halive]
      rfl
    have hlimb : (limb frame p).kg m = ChunkDesc.kg ⟨.hulk frame parts, partMassKg frame p⟩ m := rfl
    rw [← hmass, ChunkDesc.kg_add] at hbefore
    simp only [Pi.zero_apply]
    omega

theorem moves_cutHulk (hk : k < chunkSlots) (halive : s.chunks.alive k = true)
    (hkind : (s.chunks.slot k).desc.kind = .hulk frame parts) (hp : nearestPart parts d2 = some p)
    {t : ℕ} (hother : (s.chunks.spawn (limb frame p) .free (t + wreckTtl false) t).2 ≠ some k) :
    Moves 0 0 s (s.cutHulk k d2 t) := by
  rw [cutHulk_eq hkind hp]
  obtain ⟨hslot, hstill⟩ := Chunks.slot_spawn_of_ne hother
  have hspawn : Moves (limb frame p).kg 0 s (s.spawn (limb frame p) (wreckTtl false) t) :=
    moves_spawn s (intact_limb frame p (partMassKg frame p)) (wreckTtl false) t
  have hless := moves_lessPart (s.spawn (limb frame p) (wreckTtl false) t) hk
    (hstill.trans halive) ((congrArg (fun c : ChunkSlot => c.desc.kind) hslot).trans hkind) hp
  refine (hspawn.trans hless).weaken fun m => ?_
  simp

def limbSlot (s : Sim n cap) (k : ℕ) (d2 : Part → ℚ) (t : ℕ) : Option ℕ :=
  match (s.chunks.slot k).desc.kind with
  | .hulk frame parts =>
    match nearestPart parts d2 with
    | none => none
    | some p => (s.chunks.spawn (limb frame p) .free (t + wreckTtl false) t).2
  | _ => none

theorem limbSlot_eq (hkind : (s.chunks.slot k).desc.kind = .hulk frame parts)
    (hp : nearestPart parts d2 = some p) (t : ℕ) :
    s.limbSlot k d2 t = (s.chunks.spawn (limb frame p) .free (t + wreckTtl false) t).2 := by
  unfold limbSlot
  rw [hkind]
  dsimp only
  rw [hp]

theorem limbSlot_eq_none (hkind : (s.chunks.slot k).desc.kind = .hulk frame parts)
    (hp : nearestPart parts d2 = none) (t : ℕ) : s.limbSlot k d2 t = none := by
  unfold limbSlot
  rw [hkind]
  dsimp only
  rw [hp]

/-- What a slot's chunk weighs, kg. -/
def massAt (s : Sim n cap) (k : ℕ) : ℕ := (s.chunks.slot k).desc.massKg

/-- A cut leaves hulk and limb together with at most the hulk's mass before, and touches no other
chunk's record; the limb's slot is no other chunk's if there was none in it. -/
structure CutFair (s : Sim n cap) (k : ℕ) (d2 : Part → ℚ) (t : ℕ) : Prop where
  mass : (s.cutHulk k d2 t).massAt k + (s.limbSlot k d2 t).elim 0 (s.cutHulk k d2 t).massAt
    ≤ s.massAt k
  others : ∀ q, q ≠ k → ¬ (s.limbSlot k d2 t = some q ∧ s.chunks.alive q = false) →
    (s.cutHulk k d2 t).chunks.slot q = s.chunks.slot q
      ∧ (s.cutHulk k d2 t).chunks.alive q = s.chunks.alive q

theorem cutFair_of_none (hkind : (s.chunks.slot k).desc.kind = .hulk frame parts)
    (hp : nearestPart parts d2 = none) (t : ℕ) : CutFair s k d2 t := by
  constructor
  · rw [limbSlot_eq_none hkind hp, cutHulk_eq_self hkind hp]
    exact le_rfl
  · intro q _ _
    rw [cutHulk_eq_self hkind hp]
    exact ⟨rfl, rfl⟩

theorem cutFair_of_dead (hs : s.chunks.Good) (halive : s.chunks.alive k = true)
    (hkind : (s.chunks.slot k).desc.kind = .hulk frame parts) (hp : nearestPart parts d2 = some p)
    {t : ℕ} (hdead : ∀ q, (s.chunks.spawn (limb frame p) .free (t + wreckTtl false) t).2 = some q →
      s.chunks.alive q = false) : CutFair s k d2 t := by
  have hother : (s.chunks.spawn (limb frame p) .free (t + wreckTtl false) t).2 ≠ some k := by
    intro hsame
    rw [hdead k hsame] at halive
    cases halive
  have hmass := (intact_lessPart (hs.whole k halive) hkind hp).2
  have hhulk : (s.cutHulk k d2 t).massAt k = (lessPart frame parts p (s.chunks.slot k).desc).massKg := by
    rw [cutHulk_eq hkind hp]
    unfold massAt Chunks.touch
    dsimp only
    rw [Function.update_self, (Chunks.slot_spawn_of_ne hother).1]
  have hrest (q : ℕ) (hq : q ≠ k) : (s.cutHulk k d2 t).chunks.slot q
      = (s.chunks.spawn (limb frame p) .free (t + wreckTtl false) t).1.slot q := by
    rw [cutHulk_eq hkind hp]
    exact Function.update_of_ne hq _ _
  constructor
  · rw [limbSlot_eq hkind hp, hhulk]
    cases hlimb : (s.chunks.spawn (limb frame p) .free (t + wreckTtl false) t).2 with
    | none =>
      show _ + 0 ≤ (s.chunks.slot k).desc.massKg
      omega
    | some q =>
      have hq : q ≠ k := fun he => hother (he ▸ hlimb)
      have hlight : (s.cutHulk k d2 t).massAt q = partMassKg frame p := by
        rw [massAt, hrest q hq, (Chunks.slot_spawn hlimb).1]
        rfl
      show _ + (s.cutHulk k d2 t).massAt q ≤ (s.chunks.slot k).desc.massKg
      omega
  · intro q hq hne
    rw [limbSlot_eq hkind hp] at hne
    have hfree : (s.chunks.spawn (limb frame p) .free (t + wreckTtl false) t).2 ≠ some q :=
      fun htaken => hne ⟨htaken, hdead q htaken⟩
    obtain ⟨hslot, hstill⟩ := Chunks.slot_spawn_of_ne hfree
    refine ⟨(hrest q hq).trans hslot, ?_⟩
    rw [cutHulk_eq hkind hp]
    exact hstill

/-- Cutting a hulk the limb recycles leaves a hulk of no mass. -/
theorem not_whole_of_recycled
    (hkind : (s.chunks.slot k).desc.kind = .hulk frame parts) (hp : nearestPart parts d2 = some p)
    {t : ℕ} (hsame : (s.chunks.spawn (limb frame p) .free (t + wreckTtl false) t).2 = some k) :
    ¬ (s.cutHulk k d2 t).chunks.Whole := by
  intro hwhole
  obtain ⟨hdesc, -, hstill⟩ := Chunks.slot_spawn hsame
  rw [cutHulk_eq hkind hp] at hwhole
  have hk := hwhole k hstill
  unfold Chunks.touch at hk
  dsimp only at hk
  rw [Function.update_self, hdesc] at hk
  obtain ⟨hmass, htorso⟩ := hk frame _ rfl
  have hpos := hulkMass_pos frame htorso
  have hzero : (lessPart frame parts p (limb frame p)).massKg = 0 := Nat.sub_self _
  rw [hmass] at hzero
  omega

/-- A limb cut off in a pool with room takes a free slot. -/
theorem dead_of_not_recycles {near : ℕ → Bool} {t : ℕ} (hs : s.chunks.Good)
    (hfound : s.hulkInBlade near = some k) (hkind : (s.chunks.slot k).desc.kind = .hulk frame parts)
    (hp : nearestPart parts d2 = some p) (hnot : ¬ Recycles s (.blade near d2 t)) :
    ∀ q, (s.chunks.spawn (limb frame p) .free (t + wreckTtl false) t).2 = some q →
      s.chunks.alive q = false := by
  intro q hq
  cases Chunks.spawn_some hs.sound hq with
  | inl hdead => exact hdead
  | inr hfull => exact absurd ⟨k, frame, parts, hfound, hfull.1, hkind, p, nearestPart_some hp⟩ hnot

theorem moves_blade {near : ℕ → Bool} {t : ℕ} (hnot : ¬ Recycles s (.blade near d2 t)) :
    Moves 0 0 s (s.blade near d2 t) := by
  intro hs
  unfold blade
  cases hfound : s.hulkInBlade near with
  | none => exact Moves.refl s hs
  | some k =>
    obtain ⟨hk, ⟨halive, -⟩, frame, parts, hkind⟩ := hulkInBlade_some hfound
    dsimp only
    cases hp : nearestPart parts d2 with
    | none =>
      rw [cutHulk_eq_self hkind hp]
      exact Moves.refl s hs
    | some p =>
      have hdead := dead_of_not_recycles hs hfound hkind hp hnot
      refine moves_cutHulk hk halive hkind hp (t := t) (fun hsame => ?_) hs
      rw [hdead k hsame] at halive
      cases halive

/-- The cut a blade makes, if it makes one. -/
def BladeFair (s : Sim n cap) : SimOp n cap → Prop
  | .blade near d2 t => ∀ k, s.hulkInBlade near = some k → CutFair s k d2 t
  | _ => True

theorem bladeFair {op : SimOp n cap} (hs : s.chunks.Good) (hnot : ¬ Recycles s op) :
    BladeFair s op := by
  cases op with
  | blade near d2 t =>
    intro k hfound
    obtain ⟨hk, ⟨halive, -⟩, frame, parts, hkind⟩ := hulkInBlade_some hfound
    cases hp : nearestPart parts d2 with
    | none => exact cutFair_of_none hkind hp t
    | some p => exact cutFair_of_dead hs halive hkind hp (dead_of_not_recycles hs hfound hkind hp hnot)
  | _ => trivial

/-- Another chunk that makes way for the limb does not keep its record. -/
theorem not_cutFair_of_recycled (hkind : (s.chunks.slot k).desc.kind = .hulk frame parts)
    (hp : nearestPart parts d2 = some p) {t q : ℕ} (hne : q ≠ k) (halive : s.chunks.alive q = true)
    (hq : (s.chunks.spawn (limb frame p) .free (t + wreckTtl false) t).2 = some q) :
    ¬ CutFair s k d2 t := by
  intro hfair
  have hslot := (hfair.others q hne (by rw [halive]; exact fun h => nomatch h.2)).1
  rw [cutHulk_eq hkind hp] at hslot
  have htouched : (Chunks.touch (s.chunks.spawn (limb frame p) .free (t + wreckTtl false) t).1 k fun c =>
      { c with desc := lessPart frame parts p c.desc }).slot q
        = (s.chunks.spawn (limb frame p) .free (t + wreckTtl false) t).1.slot q :=
    Function.update_of_ne hne _ _
  exact Chunks.slot_spawn_ne hq (htouched.symm.trans hslot)

/-- A part cut off in a full pool: the hulk is left with no mass if it was the oldest chunk adrift,
and another chunk's record is gone if that was. -/
theorem not_fair_of_recycles {op : SimOp n cap} (h : Recycles s op) (hwhole : (s.step op).chunks.Whole) :
    ¬ BladeFair s op := by
  cases op with
  | blade near d2 t =>
    obtain ⟨k, frame, parts, hfound, hfull, hkind, q, hq, hbit⟩ := h
    obtain ⟨hk, hadrift, -⟩ := hulkInBlade_some hfound
    obtain ⟨p, hp⟩ := nearestPart_isSome d2 hq hbit
    obtain ⟨o, holdest⟩ : ∃ o, s.chunks.oldest = some o := by
      cases ho : s.chunks.oldest with
      | none => exact absurd hadrift (Chunks.oldest_eq_none.mp ho k hk)
      | some o => exact ⟨o, rfl⟩
    have htaken : (s.chunks.spawn (limb frame p) .free (t + wreckTtl false) t).2 = some o :=
      Chunks.spawn_recycled hfull holdest
    have hstep : s.step (.blade near d2 t) = s.cutHulk k d2 t := by
      show s.blade near d2 t = s.cutHulk k d2 t
      unfold blade
      rw [hfound]
    rw [hstep] at hwhole
    intro hfair
    by_cases hown : o = k
    · subst hown
      exact not_whole_of_recycled hkind hp htaken hwhole
    · exact not_cutFair_of_recycled hkind hp hown (Chunks.alive_of_oldest holdest).1 htaken
        (hfair k hfound)
  | _ => exact h.elim

end Cut

/-! ### Hands and holds -/

theorem isAlive_of_heldChunk {i : Fin cap} {k : ℕ} (h : s.heldChunk i = some k) :
    s.chunks.isAlive k = true := by
  unfold heldChunk at h
  dsimp only at h
  rw [Option.ite_none_right_eq_some] at h
  obtain ⟨hheld, hk⟩ := h
  cases hk
  simp only [Bool.and_eq_true] at hheld
  exact hheld.1.1.2

theorem moves_release (s : Sim n cap) (i : Fin cap) (k t : ℕ) : Moves 0 0 s (s.release i k t) := by
  unfold release
  dsimp only
  refine Moves.trans_zero (moves_touch s k ?_) (moves_emptyHand _ i)
  intro c
  rfl

theorem moves_letGo (s : Sim n cap) (i : Fin cap) (t : ℕ) : Moves 0 0 s (s.sleep i t) := by
  unfold sleep
  split
  · exact moves_release s i _ t
  · exact .refl s

theorem moves_stow (i : Fin cap) {k : ℕ} (hk : s.chunks.isAlive k = true) (hold : ℕ) :
    Moves 0 0 s (s.stow i k hold) := by
  unfold stow
  dsimp only
  split
  · exact .refl s
  · generalize hcargo : (fun kind : Fin 4 =>
        if kind.val = material (s.chunks.slot k).desc.kind then
          min (s.cargoKg i kind + (s.chunks.slot k).desc.massKg % 2 ^ 16) (2 ^ 16 - 1)
        else s.cargoKg i kind) = cargo
    have hcargo_le (m : Fin 4) : cargo m ≤ s.cargoKg i m + (s.chunks.slot k).desc.kg m := by
      rw [← hcargo]
      dsimp only
      unfold ChunkDesc.kg
      split
      · rename_i hm
        rw [if_pos hm.symm]
        exact (min_le_left _ _).trans (Nat.add_le_add_left (Nat.mod_le _ _) _)
      · exact Nat.le_add_right _ _
    -- Into the hold, out of the hand.
    have hinto := moves_setCargo s i cargo
    have hout := moves_kill_out (s := { s with cargoKg := Function.update s.cargoKg i cargo }) hk
    have hmoved := (hinto.trans hout).trans (moves_emptyHand _ i)
    refine hmoved.weaken fun m => ?_
    have hle := hcargo_le m
    simp only [Pi.add_apply, Pi.zero_apply]
    omega

theorem moves_grab (s : Sim n cap) (i : Fin cap) (r : Reach) : Moves 0 0 s (s.grab i r) := by
  unfold grab
  split
  · rename_i right gap k hright hnearest
    have hgrip : Moves 0 0 s { s with chunks := s.chunks.setMotion k (.held i right) } :=
      moves_touch s k fun _ => rfl
    exact hgrip.trans_zero (moves_of_eq rfl rfl rfl rfl)
  · exact .refl s

theorem moves_spillBin (i : Fin cap) (t : ℕ) (s : Sim n cap) (kind : Fin 4) :
    Moves 0 0 s (spillBin i t s kind) := by
  unfold spillBin
  dsimp only
  have hempty : Moves 0 (oreKg kind (s.cargoKg i kind / 10 * 10)) s { s with
      cargoKg := Function.update s.cargoKg i (Function.update (s.cargoKg i) kind 0) } := by
    refine (moves_setCargo s i _).weaken fun m => ?_
    have htens : s.cargoKg i kind / 10 * 10 ≤ s.cargoKg i kind := Nat.div_mul_le_self _ _
    have hkind : material (.ore kind.val) = kind.val := Nat.mod_eq_of_lt kind.isLt
    simp only [Pi.zero_apply, oreKg, ChunkDesc.kg, hkind]
    by_cases hm : kind = m
    · subst hm
      rw [Function.update_self, if_pos rfl]
      omega
    · rw [Function.update_of_ne (Ne.symm hm), if_neg fun he => hm (Fin.ext he)]
      omega
  split
  · exact hempty.weaken fun m => by simp
  · refine (hempty.trans (moves_spawn _ (intact_ore _ _) _ _)).weaken fun m => ?_
    simp [oreKg]

theorem moves_spill (s : Sim n cap) (i : Fin cap) (all : Bool) (t : ℕ) :
    Moves 0 0 s (s.spill i all t) := by
  unfold spill
  dsimp only
  refine Moves.trans_zero ?_ (Moves.foldl (moves_spillBin i t) _ _)
  split
  · exact moves_release s i _ t
  · exact .refl s

theorem moves_emptyHold (s : Sim n cap) (i : Fin cap) :
    Moves 0 (s.cargoKg i) s { s with cargoKg := Function.update s.cargoKg i fun _ => 0 } :=
  moves_setCargo s i _

theorem moves_sell (s : Sim n cap) (i : Fin cap) : Moves 0 0 s (s.sell i) := by
  unfold sell
  dsimp only
  have hsold : Moves 0 0 s { s with cargoKg := Function.update s.cargoKg i fun _ => 0 } :=
    (moves_emptyHold s i).weaken fun m => by simp
  refine hsold.trans_zero ?_
  cases hheld : heldChunk { s with cargoKg := Function.update s.cargoKg i fun _ => 0 } i with
  | none => exact moves_of_eq rfl rfl rfl rfl
  | some k => exact (moves_kill _ k).trans_zero (moves_of_eq rfl rfl rfl rfl)

theorem moves_hands (s : Sim n cap) (i : Fin cap) (r : Reach) (o : Orders) (t : ℕ) :
    Moves 0 0 s (s.hands i r o t) := by
  unfold hands
  cases hheld : s.heldChunk i with
  | some k =>
    dsimp only
    split
    · exact moves_release s i k t
    · split
      · exact moves_stow i (isAlive_of_heldChunk hheld) _
      · split
        · exact moves_release s i k t
        · exact .refl s
  | none =>
    dsimp only
    split
    · exact (moves_emptyHand s i).trans_zero (moves_grab _ i r)
    · exact moves_emptyHand s i

theorem moves_salvage (s : Sim n cap) (i : Fin cap) (r : Reach) (o : Orders) (t : ℕ) :
    Moves 0 0 s (s.salvage i r o t) := by
  unfold salvage
  dsimp only
  have hspill (s' : Sim n cap) : Moves 0 0 s' (if o.jettison then s'.spill i false t else s') := by
    split
    · exact moves_spill s' i false t
    · exact .refl s'
  have hhands := (moves_hands s i r o t).trans_zero (hspill _)
  split
  · exact hhands.trans_zero (moves_sell _ i)
  · exact hhands

/-! ### Wrecks -/

def wreckDesc (frame : FrameId) (lost : Part → Bool) : ChunkDesc :=
  ⟨.hulk frame ((255 ^^^ goneMask lost) &&& 63), massWithout frame (goneMask lost)⟩

theorem moves_wreck (s : Sim n cap) (j : Fin cap) (lost : Part → Bool) (drone : Bool) (t : ℕ) :
    Moves (wreckDesc (s.frame j) lost).kg 0 s (s.wreck j lost drone t) := by
  have hspawn := moves_spawn s (intact_wreck (s.frame j) lost) (wreckTtl drone) t
  unfold wreck
  dsimp only
  split
  · exact (Moves.refl s).weaken fun m => by simp
  · rename_i chunks k hr
    have hchunks : (s.spawn (wreckDesc (s.frame j) lost) (wreckTtl drone) t)
        = { s with chunks } := by
      unfold spawn wreckDesc
      rw [hr]
    unfold wreckDesc at hchunks
    rw [hchunks] at hspawn
    exact (hspawn.trans (moves_of_eq rfl rfl rfl rfl)).weaken fun m => by simp [wreckDesc]

theorem moves_destroy (s : Sim n cap) (j : Fin cap) (lost : Part → Bool) (drone hulk : Bool)
    (t : ℕ) :
    Moves (if hulk then (wreckDesc (s.frame j) lost).kg else 0) 0 s
      (s.destroy j lost drone hulk t) := by
  unfold destroy
  cases hulk with
  | true =>
    refine ((moves_wreck s j lost drone t).trans (moves_spill _ j true t)).weaken fun m => ?_
    simp
  | false =>
    have hlet := moves_letGo s j t
    unfold sleep at hlet
    refine (hlet.trans (moves_emptyHold _ j)).weaken fun m => ?_
    simp

/-! ### Leaving and drifting -/

/-- What a suit brings home, of each material. -/
def Brought.kg (b : Brought) (m : Fin 4) : ℕ := b.cargoKg m + b.held.elim 0 fun d => d.kg m

theorem moves_tow (s : Sim n cap) (hulk generation : ℕ) :
    Moves 0 (fun m => (s.tow hulk generation).2.elim 0 fun d => d.kg m) s
      (s.tow hulk generation).1 := by
  unfold tow
  split
  · exact .refl s
  · rename_i hthere
    simp only [not_or, Bool.not_eq_false] at hthere
    exact moves_kill_out hthere.2.1

theorem moves_dock (s : Sim n cap) (i : Fin cap) (docked : Bool) :
    Moves 0 (fun m => (s.dock i docked).2.elim 0 fun b => Brought.kg b m) s
      (s.dock i docked).1 := by
  unfold dock
  split
  · exact .refl s
  · dsimp only
    cases hheld : s.heldChunk i with
    | none =>
      have hout := (moves_emptyHand s i).trans (moves_emptyHold (s.emptyHand i) i)
      refine hout.weaken fun m => ?_
      simp [Brought.kg, emptyHand]
    | some k =>
      have hout := ((moves_kill_out (isAlive_of_heldChunk hheld)).trans (moves_emptyHand _ i)).trans
        (moves_emptyHold _ i)
      refine hout.weaken fun m => ?_
      simp [Brought.kg, emptyHand]
      omega

theorem moves_drift (outside meets : ℕ → Bool) (t : ℕ) (s : Sim n cap) (k : ℕ) :
    Moves 0 0 s (drift outside meets t s k) := by
  unfold drift
  dsimp only
  split
  · exact .refl s
  · split
    · exact moves_kill s k
    · split
      · exact moves_touch s k fun _ => rfl
      · exact .refl s

theorem moves_chunkStep (s : Sim n cap) (outside meets : ℕ → Bool) (t : ℕ) :
    Moves 0 0 s (s.chunkStep outside meets t) := by
  unfold chunkStep
  split
  · exact .refl s
  · exact Moves.foldl (moves_drift outside meets t) _ s

theorem moves_place (s : Sim n cap) (i : Fin cap) (frame : FrameId) :
    Moves 0 0 s (s.place i frame) := by
  have hempty : Moves 0 0 s { s with cargoKg := Function.update s.cargoKg i fun _ => 0 } :=
    (moves_emptyHold s i).weaken fun m => by simp
  exact hempty.trans_zero (moves_of_eq rfl rfl rfl rfl)

/-! ### Runs -/

/-- What an operation adds: a suit's own part or what is left of it, and a rock grown back. -/
def added (s : Sim n cap) : SimOp n cap → Fin 4 → ℕ
  | .fieldStep near t => fieldKg near t s
  | .detach j part _ _ => (limb (s.frame j) part).kg
  | .destroy j lost _ hulk _ => if hulk then (wreckDesc (s.frame j) lost).kg else 0
  | _ => 0

/-- What an operation takes out of the sector: a hulk towed home, or a suit docking with what it
carries. -/
def taken (s : Sim n cap) : SimOp n cap → Fin 4 → ℕ
  | .tow hulk generation => fun m => (s.tow hulk generation).2.elim 0 fun d => d.kg m
  | .dock i docked => fun m => (s.dock i docked).2.elim 0 fun b => Brought.kg b m
  | _ => 0

theorem moves_step {op : SimOp n cap} (hnot : ¬ Recycles s op) :
    Moves (s.added op) (s.taken op) s (s.step op) := by
  cases op with
  | rockHit i amount kind t => exact moves_rockHit s i amount kind t
  | fieldStep near t => exact moves_fieldStep s near t
  | blade near d2 t => exact moves_blade hnot
  | salvage i r o t => exact moves_salvage s i r o t
  | detach j part drone t => exact moves_spawn s (intact_limb _ _ _) _ t
  | destroy j lost drone hulk t => exact moves_destroy s j lost drone hulk t
  | sleep i t => exact moves_letGo s i t
  | spill i all t => exact moves_spill s i all t
  | tow hulk generation => exact moves_tow s hulk generation
  | dock i docked => exact moves_dock s i docked
  | chunkStep outside meets t => exact moves_chunkStep s outside meets t
  | place i frame => exact moves_place s i frame

/-- A step that mints nothing: every hulk still weighs what its parts weigh, no more of any
material stays and leaves than there was and was added, and what a blade cuts is cut fairly. -/
structure Unminted (s : Sim n cap) (op : SimOp n cap) : Prop where
  whole : (s.step op).chunks.Whole
  kg : ∀ m, (s.step op).kg m + s.taken op m ≤ s.kg m + s.added op m
  cut : BladeFair s op

theorem unminted_iff {op : SimOp n cap} (hs : s.chunks.Good) :
    Unminted s op ↔ ¬ Recycles s op := by
  constructor
  · intro hfair hrecycles
    exact not_fair_of_recycles hrecycles hfair.whole hfair.cut
  · intro hnot
    obtain ⟨hgood, hkg⟩ := moves_step hnot hs
    exact ⟨hgood.whole, hkg, bladeFair hs hnot⟩

/-- In every run of a sector salvage is not minted, and no cut writes over another chunk's record, as
long as no part is cut off a hulk while the pool is full, and only so long. -/
theorem salvage_unminted_iff (field : Fin n → Rock) (frame : Fin cap → FrameId)
    (cargoKg : Fin cap → Fin 4 → ℕ) (ops : List (SimOp n cap)) :
    Lib.Run.Along step Unminted (opened field frame cargoKg) ops
      ↔ Lib.Run.Along step (fun s op => ¬ Recycles s op) (opened field frame cargoKg) ops :=
  Lib.Run.along_congr (I := fun s => s.chunks.Good) (fun _ _ hs => unminted_iff hs)
    (fun _ _ hs hnot => (moves_step hnot hs).1) Chunks.good_new

theorem detaches_fill (j : Fin cap) (part : Part) (drone : Bool) (t : ℕ) (free : List ℕ) {k : ℕ}
    (hk : k ∉ free) (s : Sim n cap) (hfree : s.chunks.free = free) :
    ((List.replicate free.length (SimOp.detach j part drone t)).foldl step s).chunks.free = []
      ∧ ((List.replicate free.length (SimOp.detach j part drone t)).foldl step s).chunks.slot k
        = s.chunks.slot k
      ∧ ((List.replicate free.length (SimOp.detach j part drone t)).foldl step s).chunks.alive k
        = s.chunks.alive k := by
  induction free generalizing s with
  | nil => exact ⟨hfree, rfl, rfl⟩
  | cons q rest ih =>
    rw [List.mem_cons, not_or] at hk
    have hspawn : s.chunks.spawn (limb (s.frame j) part) .free (t + wreckTtl drone) t
        = (s.chunks.occupy q rest (limb (s.frame j) part) .free (t + wreckTtl drone) t, some q) :=
      Chunks.spawn_cons hfree
    have hchunks : (s.step (.detach j part drone t)).chunks
        = s.chunks.occupy q rest (limb (s.frame j) part) .free (t + wreckTtl drone) t :=
      congrArg Prod.fst hspawn
    obtain ⟨hempty, hslot, halive⟩ := ih hk.2 (s.step (.detach j part drone t)) (by rw [hchunks]; rfl)
    rw [List.length_cons, List.replicate_succ, List.foldl_cons]
    refine ⟨hempty, hslot.trans ?_, halive.trans ?_⟩
    · rw [hchunks]
      exact Function.update_of_ne hk.1 _ _
    · rw [hchunks]
      exact Function.update_of_ne hk.1 _ _

theorem chunks_spill_of_empty {i : Fin cap} (hhand : s.heldChunk i = none)
    (hhold : ∀ kind, s.cargoKg i kind = 0) (all : Bool) (t : ℕ) :
    (s.spill i all t).chunks = s.chunks := by
  have hbins (l : List (Fin 4)) (s : Sim n cap) (hhold : ∀ kind, s.cargoKg i kind = 0) :
      (l.foldl (spillBin i t) s).chunks = s.chunks := by
    induction l generalizing s with
    | nil => rfl
    | cons kind rest ih =>
      have hbin : spillBin i t s kind = { s with
          cargoKg := Function.update s.cargoKg i (Function.update (s.cargoKg i) kind 0) } := by
        unfold spillBin
        dsimp only
        rw [hhold kind]
        rfl
      rw [List.foldl_cons, hbin, ih]
      intro q
      dsimp only
      rw [Function.update_self]
      by_cases hq : q = kind
      · rw [hq, Function.update_self]
      · rw [Function.update_of_ne hq]
        exact hhold q
  unfold spill
  rw [hhand]
  cases all <;> exact hbins _ s hhold

section FullPool

def fullPool : List (SimOp 0 1) :=
  .destroy 0 (fun _ => false) false true 0
    :: List.replicate (chunkSlots - 1) (.detach 0 .armL false 1)

def cutWreck : SimOp 0 1 := .blade (fun k => k = 0) (fun _ => 0) 2

theorem fullPool_recycles :
    Recycles (fullPool.foldl step (opened Fin.elim0 (fun _ => .altair) fun _ _ => 0)) cutWreck := by
  obtain ⟨m, hm⟩ := Nat.exists_eq_succ_of_ne_zero chunkSlots_pos.ne'
  have hrange : List.range chunkSlots = 0 :: (List.range m).map Nat.succ := by
    rw [hm, List.range_succ_eq_map]
  generalize hs₀ : (opened Fin.elim0 (fun _ => .altair) fun _ _ => 0 : Sim 0 1) = s₀
  have hfree₀ : s₀.chunks.free = 0 :: (List.range m).map Nat.succ := by
    rw [← hs₀]
    exact hrange
  -- The wreck takes slot 0, and has nothing to spill.
  have hwreck : (s₀.wreck 0 (fun _ => false) false 0).chunks
        = s₀.chunks.occupy 0 ((List.range m).map Nat.succ) (wreckDesc .altair fun _ => false)
          .free (wreckTtl false) 0
      ∧ (s₀.wreck 0 (fun _ => false) false 0).held = s₀.held
      ∧ (s₀.wreck 0 (fun _ => false) false 0).cargoKg = s₀.cargoKg := by
    unfold wreck
    dsimp only
    rw [Chunks.spawn_cons hfree₀, ← hs₀]
    exact ⟨rfl, rfl, rfl⟩
  have hhand : (s₀.wreck 0 (fun _ => false) false 0).heldChunk 0 = none := by
    unfold heldChunk
    rw [hwreck.2.1, ← hs₀]
    simp [opened]
  have hhold : ∀ kind, (s₀.wreck 0 (fun _ => false) false 0).cargoKg 0 kind = 0 := by
    intro kind
    rw [hwreck.2.2, ← hs₀]
    rfl
  have hspill := chunks_spill_of_empty hhand hhold true 0
  generalize hs₁ : (s₀.wreck 0 (fun _ => false) false 0).spill 0 true 0 = s₁ at hspill
  have hfirst : s₀.step (.destroy 0 (fun _ => false) false true 0) = s₁ := hs₁
  rw [hwreck.1] at hspill
  have hlength : chunkSlots - 1 = ((List.range m).map Nat.succ).length := by
    rw [List.length_map, List.length_range]
    omega
  obtain ⟨hempty, hslot, halive⟩ := detaches_fill (k := 0) 0 .armL false 1
    ((List.range m).map Nat.succ) (by simp) s₁ (by rw [hspill]; rfl)
  rw [fullPool, List.foldl_cons, hfirst, hlength]
  rw [hspill] at hslot halive
  generalize (List.replicate ((List.range m).map Nat.succ).length
    (SimOp.detach 0 .armL false 1)).foldl step s₁ = s₂ at hempty hslot halive ⊢
  have halive' : s₂.chunks.alive 0 = true := halive
  have hdesc : (s₂.chunks.slot 0).desc = wreckDesc .altair fun _ => false :=
    congrArg ChunkSlot.desc hslot
  have hmotion : (s₂.chunks.slot 0).motion = .free := congrArg ChunkSlot.motion hslot
  refine ⟨0, .altair, 63, ?_, hempty, ?_, .head, by decide, by decide⟩
  · unfold hulkInBlade
    rw [hrange, List.find?_cons_of_pos]
    simp [halive', hdesc, hmotion, wreckDesc, isHulk]
  · rw [hdesc]
    rfl

/-- Once the pool is full of younger chunks, a cut through the wreck mints. -/
theorem wreck_minted_from_full_pool :
    ¬ Lib.Run.Along step Unminted (opened Fin.elim0 (fun _ => .altair) fun _ _ => 0)
      (fullPool ++ [cutWreck]) := by
  rw [Lib.Run.along_append]
  intro halong
  exact not_fair_of_recycles fullPool_recycles halong.2.1.whole halong.2.1.cut

end FullPool

end Sim

end BeforeColony
