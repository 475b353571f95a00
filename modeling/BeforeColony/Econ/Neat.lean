import BeforeColony.Econ.BayRuns
import BeforeColony.Econ.StoresShape
import BeforeColony.Econ.Wire

/-!
# What a hangar keeps

Whatever a pilot asks and whatever the sector brings home, a hangar's shelves stay in order, every
job in its stations' queues is one something makes, and every weapon hung on its suit is its line's.
-/

set_option autoImplicit false

namespace BeforeColony

open Lib Catalogue

namespace Faults

theorem ofPart_eq_none {f : Faults} {p : Part} (h : (f.ofPart p).count = 0) :
    f.ofPart p = none := by
  have hzero (s : System) (hs : s.part = p) : f.levelOf s = none.levelOf s := by
    have hcount := List.countP_eq_zero.mp h s.index (List.mem_range.mpr s.index_lt)
    have hlevel : (f.ofPart p).levelOf s = 0 := by simpa [levelOf] using hcount
    rw [levelOf_ofPart, if_pos hs] at hlevel
    rw [hlevel, levelOf_none]
  rw [ofPart_congr hzero]
  cases p <;> decide

end Faults

namespace Stores

/-- Shelves as every change leaves them: no empty entry, the parts in order, none better than new and
none with bits set for no system. -/
structure Neat (s : Stores) : Prop where
  stocked : ∀ item n, s.stock.get? item = some n → 0 < n
  sorted : Shelf.InOrder PartUnit.key s.parts
  conditions : ∀ u ∈ s.parts, u.condition ≤ 100
  clean : ∀ u ∈ s.parts, u.Clean

variable {s s' : Stores} {item : Item} {qty : ℕ} {line : FrameId} {part : Part} {u : PartUnit}

theorem neat_empty : empty.Neat where
  stocked := nofun
  sorted := List.Pairwise.nil
  conditions := nofun
  clean := nofun

namespace Neat

theorem addPart (h : s.Neat) (hu : u.Clean) : (s.addPart u).Neat where
  stocked := h.stocked
  sorted := h.sorted.insert PartUnit.before_iff _
  conditions v hv := by
    rcases (List.mem_orderedInsert PartUnit.before).mp hv with rfl | hmem
    · exact max_le (by omega) (min_le_right _ _)
    · exact h.conditions v hmem
  clean v hv := by
    rcases (List.mem_orderedInsert PartUnit.before).mp hv with rfl | hmem
    · exact hu
    · exact h.clean v hmem

theorem unshelve (h : s.Neat) {parts : List PartUnit} (hsub : parts.Sublist s.parts) :
    { s with parts }.Neat where
  stocked := h.stocked
  sorted := h.sorted.sublist hsub
  conditions u hu := h.conditions u (hsub.subset hu)
  clean u hu := h.clean u (hsub.subset hu)

theorem foldl {α : Type*} {f : Stores → α → Stores} (hf : ∀ s a, s.Neat → (f s a).Neat)
    (l : List α) (h : s.Neat) : (l.foldl f s).Neat := by
  induction l generalizing s with
  | nil => exact h
  | cons a rest ih => exact ih (hf s a h)

theorem add (h : s.Neat) (item : Item) (qty : ℕ) : (s.add item qty).Neat := by
  unfold Stores.add
  split
  · exact h
  next hpos =>
    split
    next line part => exact h.foldl (fun _ _ h => h.addPart (PartUnit.clean_new line part)) _
    next =>
      refine { h with stocked := fun item' n hn => ?_ }
      rw [Table.update, Table.get?_insert] at hn
      split at hn
      · rw [← Option.some.inj hn]
        omega
      · exact h.stocked item' n hn

theorem take (h : s.Neat) (htake : s.take item qty = some s') : s'.Neat := by
  obtain ⟨-, ⟨line, part, -, rfl⟩ | ⟨-, rfl, -⟩⟩ := take_cases htake
  · rw [takeUnits_eq]
    exact h.unshelve (iterate_eraseP_sublist _ _ _)
  · refine { h with stocked := fun item' n hn => ?_ }
    rw [get?_takeStock] at hn
    split at hn
    next =>
      obtain ⟨m, -, hn⟩ := Option.bind_eq_some_iff.mp hn
      split at hn
      · cases hn
      next hpos =>
        rw [← Option.some.inj hn]
        omega
    next => exact h.stocked item' n hn

theorem take_getD (h : s.Neat) (item : Item) (qty : ℕ) : ((s.take item qty).getD s).Neat := by
  cases htake : s.take item qty with
  | none => exact h
  | some s' => exact h.take htake

theorem takeUpTo (h : s.Neat) (item : Item) (qty : ℕ) : (s.takeUpTo item qty).2.Neat :=
  h.take_getD item _

theorem takeAll (h : s.Neat) {needs : List (Item × ℕ)} {times : ℕ}
    (htake : s.takeAll needs times = some s') : s'.Neat := by
  unfold Stores.takeAll at htake
  split at htake
  · cases htake
  · rw [← Option.some.inj htake]
    exact h.foldl (fun _ e h => h.take_getD e.1 _) _

theorem takeBestPart (h : s.Neat) (htake : s.takeBestPart line part = some (u, s')) : s'.Neat := by
  obtain ⟨v, -, heq⟩ := Option.map_eq_some_iff.mp htake
  rw [← (Prod.mk.inj heq).2]
  exact h.unshelve List.eraseP_sublist

theorem takeWorstPart (h : s.Neat) (htake : s.takeWorstPart line part = some (u, s')) :
    s'.Neat := by
  obtain ⟨v, -, heq⟩ := Option.map_eq_some_iff.mp htake
  rw [← (Prod.mk.inj heq).2]
  have hsub := (List.eraseP_sublist (p := ofKind line part) (l := s.parts.reverse)).reverse
  rw [List.reverse_reverse] at hsub
  exact h.unshelve hsub

theorem addGoods (h : s.Neat) (goods : List (Item × ℕ)) : (s.addGoods goods).Neat :=
  h.foldl (fun _ e h => h.add e.1 e.2) _

/-- New goods taken and put back leave the stores as they were. -/
theorem add_take (h : s.Neat) (htake : s.take item qty = some s') : s'.add item qty = s := by
  obtain ⟨hle, ⟨line, part, rfl, rfl⟩ | ⟨hbulk, rfl, hget⟩⟩ := take_cases htake
  · have hback := addParts_takeUnits h.sorted h.conditions h.clean hle
    rw [← add_part] at hback
    exact hback
  · have hadd (s : Stores) : s.add item qty = if qty = 0 then s
        else { s with stock := s.stock.update item 0 (· + qty) } := by
      cases item with
      | part line part => exact absurd rfl (hbulk line part)
      | _ => rfl
    rw [hadd]
    split
    next hzero => rw [hzero, takeStock_zero h.stocked]
    next hpos => rw [update_takeStock (hget ▸ hle) hpos]

theorem take_zero (h : s.Neat) (item : Item) : (s.take item 0).getD s = s := by
  obtain ⟨s', htake⟩ := take_of_le (Nat.zero_le (s.get item))
  rw [htake, Option.getD_some, ← h.add_take htake]
  unfold Stores.add
  rw [if_pos rfl]

end Neat

end Stores

namespace Works

/-- Every job waiting is of a recipe there is. -/
def Known (w : Works) : Prop :=
  ∀ station, ∀ job ∈ w.queue station, (recipe job.recipe).isSome = true

theorem known_empty : empty.Known := by
  intro station job hjob
  cases station <;> cases hjob

theorem queue_setQueue (w : Works) (station station' : Station) (q : Queue) :
    (w.setQueue station q).queue station' = if station' = station then q else w.queue station' := by
  cases station <;> cases station' <;> rfl

theorem setQueue_queue (w : Works) (station : Station) :
    w.setQueue station (w.queue station) = w := by
  cases station <;> rfl

theorem Known.setQueue {w : Works} (h : w.Known) (station : Station) {q : Queue}
    (hq : ∀ job ∈ q, (recipe job.recipe).isSome = true) : (w.setQueue station q).Known := by
  intro station' job hjob
  rw [queue_setQueue] at hjob
  split at hjob
  · exact hq job hjob
  · exact h station' job hjob

theorem recipe_runBatches (r : Recipe) (now left : ℕ) (job : Job) (out : List (Item × ℕ)) :
    (Queue.runBatches r now left job out).1.recipe = job.recipe := by
  induction left generalizing job out with
  | zero => rfl
  | succ left ih =>
    unfold Queue.runBatches
    split
    · exact ih _ _
    · rfl

theorem known_settleFrom (now : ℕ) (start : Option ℕ) (q : Queue) (out : List (Item × ℕ))
    (hq : ∀ job ∈ q, (recipe job.recipe).isSome = true) :
    ∀ job ∈ (Queue.settleFrom now start q out).1, (recipe job.recipe).isSome = true := by
  induction q generalizing start out with
  | nil => exact hq
  | cons job rest ih =>
    have hrest : ∀ job ∈ rest, (recipe job.recipe).isSome = true :=
      fun j hj => hq j (List.mem_cons_of_mem job hj)
    unfold Queue.settleFrom
    split
    · exact ih _ _ hrest
    next r hr =>
      dsimp only
      split
      · intro j hj
        rcases List.mem_cons.mp hj with rfl | hmem
        · rw [recipe_runBatches]
          exact hq job List.mem_cons_self
        · exact hrest j hmem
      · exact ih _ _ hrest

theorem Known.settle {w : Works} (h : w.Known) (now : ℕ) : (w.settle now).1.Known := by
  intro station
  cases station with
  | fabricator => exact known_settleFrom now none _ [] (h .fabricator)
  | foundry => exact known_settleFrom now none _ [] (h .foundry)

end Works

namespace Queue

theorem known_cancel {q : Queue} (hq : ∀ job ∈ q, (recipe job.recipe).isSome = true)
    (index now : ℕ) : ∀ job ∈ (q.cancel index now).1, (recipe job.recipe).isSome = true := by
  have hrest : ∀ job ∈ q.eraseIdx index, (recipe job.recipe).isSome = true :=
    fun job hjob => hq job (List.mem_of_mem_eraseIdx hjob)
  unfold cancel
  split
  · exact hq
  · cases index with
    | succ index =>
      dsimp only
      split <;> exact hrest
    | zero =>
      cases hl : q.eraseIdx 0 with
      | nil =>
        dsimp only
        split <;> intro job hjob <;> exact absurd hjob List.not_mem_nil
      | cons next more =>
        rw [hl] at hrest
        have hnext : ∀ job ∈ { next with started := now } :: more,
            (recipe job.recipe).isSome = true := by
          intro job hjob
          rcases List.mem_cons.mp hjob with rfl | hmem
          · exact hrest next List.mem_cons_self
          · exact hrest job (List.mem_cons_of_mem next hmem)
        dsimp only
        split <;> exact hnext

theorem cancel_none {q : Queue} (hq : ∀ job ∈ q, (recipe job.recipe).isSome = true)
    {index now : ℕ} (hnone : (q.cancel index now).2 = none) : (q.cancel index now).1 = q := by
  unfold cancel at hnone ⊢
  split
  · rfl
  next job hjob =>
    exfalso
    rw [hjob] at hnone
    dsimp only at hnone
    have hsome := hq job (List.mem_of_getElem? hjob)
    split at hnone
    next hr =>
      rw [hr] at hsome
      cases hsome
    next => cases hnone

end Queue

end BeforeColony
