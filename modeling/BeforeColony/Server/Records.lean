import BeforeColony.Lib.Run
import BeforeColony.Lib.Table

/-!
# A pilot's record and its saves

A session loads the record as it begins and saves it as often as it likes; news of the pilot's suit
loads it and saves it once. A load may fail, and a session then begins from a new record. What was
saved carries the saves it comes from.
-/

set_option autoImplicit false

namespace BeforeColony

open Lib

/-- A record, with the numbers of the saves it comes from, the latest first. -/
structure Version (R : Type) where
  data : R
  line : List ℕ
  deriving DecidableEq

/-- A record that someone loaded: whether that load failed with a record stored, and whether
someone else has saved since. -/
structure HeldRecord (R : Type) where
  record : Version R
  unread : Bool
  overtaken : Bool

/-- What is stored, how many saves there were, who holds what, and for each save what was stored
before it and what it stored. -/
structure Records (R : Type) where
  stored : Option (Version R)
  saves : ℕ
  held : Table ℕ (HeldRecord R)
  log : List (Option (Version R) × Version R)

namespace Records

variable {R : Type} (new : R)

/-- What the sessions and the news of one pilot do with the record; `ok` is whether the store could
read it. -/
inductive Act (R : Type)
  | load (task : ℕ) (ok : Bool)
  | loadNews (task : ℕ) (ok : Bool)
  | edit (task : ℕ) (change : R → R)
  | save (task : ℕ)
  | leave (task : ℕ)

def start (stored : Option R) : Records R where
  stored := stored.map (⟨·, [0]⟩)
  saves := 1
  held := Table.empty
  log := []

def loadOrNew (s : Records R) (ok : Bool) : HeldRecord R :=
  match ok, s.stored with
  | true, some v => ⟨v, false, false⟩
  | true, none => ⟨⟨new, []⟩, false, false⟩
  | false, stored => ⟨⟨new, []⟩, stored.isSome, false⟩

/-- News goes nowhere if there is no record, or none that can be read. -/
def loadNews (s : Records R) (task : ℕ) (ok : Bool) : Records R :=
  match ok, s.stored with
  | true, some v => { s with held := s.held.insert task ⟨v, false, false⟩ }
  | _, _ => s

/-- What everyone else holds is no longer what is stored. -/
def save (s : Records R) (task : ℕ) : Records R :=
  match s.held.get? task with
  | none => s
  | some h =>
    let v : Version R := ⟨h.record.data, s.saves :: h.record.line⟩
    { stored := some v
      saves := s.saves + 1
      held := (s.held.mapVal fun _ h => { h with overtaken := true }).insert task { h with record := v }
      log := (s.stored, v) :: s.log }

def step (s : Records R) : Act R → Records R
  | .load task ok =>
    if (s.held.get? task).isSome then s
    else { s with held := s.held.insert task (loadOrNew new s ok) }
  | .loadNews task ok =>
    if (s.held.get? task).isSome then s else s.loadNews task ok
  | .edit task change =>
    match s.held.get? task with
    | none => s
    | some h => { s with
        held := s.held.insert task { h with record.data := change h.record.data } }
  | .save task => s.save task
  | .leave task => { s with held := s.held.erase task }

/-- Every record saved comes from the one stored before it. -/
def Descending (s : Records R) : Prop :=
  ∀ before after, (some before, after) ∈ s.log → before.line <:+ after.line

/-- Whoever saves has read what was stored when they loaded, and no one else has saved since. -/
def Current (s : Records R) : Act R → Prop
  | .save task => ∀ h, s.held.get? task = some h → h.unread = false ∧ h.overtaken = false
  | _ => True

/-- A holder who is current has the line of what is stored; one who isn't lacks some save of it. -/
structure Fits (s : Records R) (h : HeldRecord R) : Prop where
  lt : ∀ n ∈ h.record.line, n < s.saves
  current : h.unread = false → h.overtaken = false →
    h.record.line = (s.stored.map Version.line).getD []
  stale : h.unread = true ∨ h.overtaken = true →
    ∃ v, s.stored = some v ∧ ∃ n ∈ v.line, n ∉ h.record.line

structure Sound (s : Records R) : Prop where
  descending : s.Descending
  stored : ∀ v, s.stored = some v → v.line ≠ [] ∧ ∀ n ∈ v.line, n < s.saves
  fits : ∀ task h, s.held.get? task = some h → s.Fits h

theorem sound_start (stored : Option R) : (start stored).Sound where
  descending := nofun
  stored v hv := by
    cases stored <;> cases hv
    simp [start]
  fits := nofun

variable {new} {s : Records R}

theorem Sound.hold (hs : s.Sound) {task : ℕ} {h : HeldRecord R} (hfits : s.Fits h) :
    Sound { s with held := s.held.insert task h } where
  descending := hs.descending
  stored := hs.stored
  fits task' h' hget := by
    simp only [Table.get?_insert] at hget
    split at hget
    · cases hget
      exact ⟨hfits.lt, hfits.current, hfits.stale⟩
    · have := hs.fits task' h' hget
      exact ⟨this.lt, this.current, this.stale⟩

theorem Sound.fits_stored (hs : s.Sound) {v : Version R} (hv : s.stored = some v) :
    s.Fits ⟨v, false, false⟩ where
  lt := (hs.stored v hv).2
  current _ _ := by rw [hv]; rfl
  stale h := by simp at h

theorem Sound.fits_loadOrNew (hs : s.Sound) (ok : Bool) : s.Fits (loadOrNew new s ok) := by
  unfold loadOrNew
  split
  · rename_i v hv
    exact hs.fits_stored hv
  · rename_i hnone
    exact ⟨nofun, fun _ _ => by rw [hnone]; rfl, by simp⟩
  · refine ⟨nofun, fun hread _ => ?_, fun hstale => ?_⟩
    · rw [Option.isSome_eq_false_iff, Option.isNone_iff_eq_none] at hread
      rw [hread]
      rfl
    · obtain ⟨v, hv⟩ := Option.isSome_iff_exists.mp (hstale.resolve_right nofun)
      obtain ⟨n, hn⟩ := List.exists_mem_of_ne_nil _ (hs.stored v hv).1
      exact ⟨v, hv, n, hn, List.not_mem_nil⟩

/-- Who isn't current saves a record that lacks a save of the one stored. -/
theorem Sound.current_of_descending (hs : s.Sound) {task : ℕ} {h : HeldRecord R}
    (hget : s.held.get? task = some h) (hdescending : (s.save task).Descending) :
    h.unread = false ∧ h.overtaken = false := by
  by_contra hcurrent
  have hstale : h.unread = true ∨ h.overtaken = true := by
    rw [not_and_or, Bool.not_eq_false, Bool.not_eq_false] at hcurrent
    exact hcurrent
  obtain ⟨v, hv, n, hn, hnot⟩ := (hs.fits task h hget).stale hstale
  simp only [save, hget, hv] at hdescending
  have hline := hdescending v _ List.mem_cons_self
  rcases List.mem_cons.mp (hline.subset hn) with rfl | hmem
  · exact ((hs.stored v hv).2 _ hn).false
  · exact hnot hmem

theorem Sound.save (hs : s.Sound) {task : ℕ} {h : HeldRecord R} (hget : s.held.get? task = some h)
    (hread : h.unread = false) (hlate : h.overtaken = false) : (s.save task).Sound := by
  have hfits := hs.fits task h hget
  have hlt : ∀ n ∈ s.saves :: h.record.line, n < s.saves + 1 :=
    List.forall_mem_cons.mpr
      ⟨Nat.lt_succ_self _, fun n hn => (hfits.lt n hn).trans (Nat.lt_succ_self _)⟩
  simp only [Records.save, hget]
  exact {
    descending := fun before after hmem => by
      rcases List.mem_cons.mp hmem with heq | hmem
      · obtain ⟨hbefore, rfl⟩ := Prod.mk.inj heq
        have hline := hfits.current hread hlate
        rw [← hbefore] at hline
        rw [hline]
        exact List.suffix_cons _ _
      · exact hs.descending before after hmem
    stored := fun v hv => by
      cases hv
      exact ⟨List.cons_ne_nil _ _, hlt⟩
    fits := fun task' h' hget' => by
      simp only [Table.get?_insert, Table.get?_mapVal] at hget'
      split at hget'
      · cases hget'
        exact ⟨hlt, fun _ _ => rfl, fun hstale => by simp [hread, hlate] at hstale⟩
      · obtain ⟨h₀, hget₀, rfl⟩ := Option.map_eq_some_iff.mp hget'
        have hlt₀ := (hs.fits task' h₀ hget₀).lt
        refine ⟨fun n hn => (hlt₀ n hn).trans (Nat.lt_succ_self _), fun _ => nofun, fun _ => ?_⟩
        exact ⟨_, rfl, s.saves, List.mem_cons_self, fun hmem => (hlt₀ _ hmem).false⟩ }

theorem Sound.step (hs : s.Sound) (act : Act R) (hcurrent : s.Current act) :
    (s.step new act).Sound := by
  cases act with
  | load task ok =>
    rw [Records.step]
    split
    · exact hs
    · exact hs.hold (hs.fits_loadOrNew ok)
  | loadNews task ok =>
    rw [Records.step]
    split
    · exact hs
    · unfold loadNews
      split
      · rename_i v hv
        exact hs.hold (hs.fits_stored hv)
      · exact hs
  | edit task change =>
    rw [Records.step]
    split
    · exact hs
    · rename_i h hget
      have hfits := hs.fits task h hget
      exact hs.hold ⟨hfits.lt, hfits.current, hfits.stale⟩
  | save task =>
    cases hget : s.held.get? task with
    | none =>
      rw [Records.step, Records.save, hget]
      exact hs
    | some h => exact hs.save hget (hcurrent h hget).1 (hcurrent h hget).2
  | leave task =>
    refine ⟨hs.descending, hs.stored, fun task' h hget => ?_⟩
    simp only [Records.step, Table.get?_erase] at hget
    split at hget
    · cases hget
    · have hfits := hs.fits task' h hget
      exact ⟨hfits.lt, hfits.current, hfits.stale⟩

/-- The saves of a run each come from what was stored before them just when everyone who saves is
current. -/
theorem descending_iff_current (stored : Option R) (acts : List (Act R)) :
    (∀ n, ((acts.take n).foldl (step new) (start stored)).Descending) ↔
      Run.Along (step new) Current (start stored) acts := by
  refine Run.forall_take_iff (I := Sound) (fun s hs => hs.descending)
    (fun s act hs hact => hs.step act hact) (fun s act hs hstep => ?_) (sound_start stored)
  cases act with
  | save task => exact fun h hget => hs.current_of_descending hget hstep
  | load _ _ | loadNews _ _ | edit _ _ | leave _ => trivial

/-- A session plays and saves; the next one's load fails, and it saves a new record over the
stored one. -/
theorem new_over_stored :
    let s := [Act.load 0 true, .edit 0 (· + 5), .save 0, .leave 0, .load 1 false, .save 1].foldl
      (step 0) (start (some 100))
    s.stored.map Version.data = some 0 ∧ ¬ s.Descending := by
  refine ⟨by decide, fun h => ?_⟩
  exact absurd (h ⟨105, [1, 0]⟩ ⟨0, [2]⟩ (by decide)) (by decide)

end Records

end BeforeColony
