import Mathlib.Data.List.Sort
import Mathlib.Algebra.BigOperators.Group.List.Basic
import Mathlib.Algebra.Order.BigOperators.Group.List
import Mathlib.Tactic.Abel

/-!
# Ordered tables

A table keeps its entries in a list sorted by key, the sortedness a field of the
structure. Looking up, inserting and erasing are described entry by entry. The
second half adds up a quantity over all entries and says how much an insertion or
an erasure changes that total, which is all a ledger needs to know of a map.
-/

set_option autoImplicit false

namespace Lib

universe u v w

/-- A finite map with its entries in the order of their keys. -/
structure Table (κ : Type u) (α : Type v) [LinearOrder κ] where
  entries : List (κ × α)
  sorted : entries.Pairwise fun a b => a.1 < b.1

namespace Table

variable {κ : Type u} {α : Type v} [LinearOrder κ]

def empty : Table κ α := ⟨[], List.Pairwise.nil⟩

instance : Inhabited (Table κ α) := ⟨empty⟩

def keys (t : Table κ α) : List κ := t.entries.map Prod.fst

def values (t : Table κ α) : List α := t.entries.map Prod.snd

def get? (t : Table κ α) (k : κ) : Option α :=
  (t.entries.find? fun e => e.1 = k).map Prod.snd

def getD (t : Table κ α) (k : κ) (d : α) : α := (t.get? k).getD d

def contains (t : Table κ α) (k : κ) : Bool := (t.get? k).isSome

/-- Puts an entry at its place in a sorted list, over the one its key had. -/
def insertEntry (k : κ) (v : α) : List (κ × α) → List (κ × α)
  | [] => [(k, v)]
  | e :: rest =>
    if k < e.1 then (k, v) :: e :: rest
    else if k = e.1 then (k, v) :: rest
    else e :: insertEntry k v rest

theorem mem_insertEntry {k : κ} {v : α} {l : List (κ × α)} {e : κ × α}
    (he : e ∈ insertEntry k v l) : e = (k, v) ∨ e ∈ l := by
  induction l with
  | nil => simpa [insertEntry] using he
  | cons a rest ih =>
    simp only [insertEntry] at he
    split at he
    · simpa using he
    · split at he
      · rcases List.mem_cons.mp he with h | h
        · exact Or.inl h
        · exact Or.inr (List.mem_cons_of_mem _ h)
      · rcases List.mem_cons.mp he with h | h
        · exact Or.inr (by simp [h])
        · exact (ih h).imp id (List.mem_cons_of_mem _)

theorem insertEntry_sorted {k : κ} {v : α} {l : List (κ × α)}
    (hl : l.Pairwise fun a b => a.1 < b.1) :
    (insertEntry k v l).Pairwise fun a b => a.1 < b.1 := by
  induction l with
  | nil => simp [insertEntry]
  | cons a rest ih =>
    have hrest := List.pairwise_cons.mp hl
    simp only [insertEntry]
    split
    · rename_i hlt
      refine List.pairwise_cons.mpr ⟨?_, hl⟩
      intro e he
      rcases List.mem_cons.mp he with h | h
      · simpa [h] using hlt
      · exact hlt.trans (hrest.1 e h)
    · split
      · rename_i heq
        exact List.pairwise_cons.mpr ⟨fun e he => heq ▸ hrest.1 e he, hrest.2⟩
      · rename_i hlt hne
        refine List.pairwise_cons.mpr ⟨?_, ih hrest.2⟩
        intro e he
        rcases mem_insertEntry he with h | h
        · exact h ▸ lt_of_le_of_ne (not_lt.mp hlt) (Ne.symm hne)
        · exact hrest.1 e h

def insert (t : Table κ α) (k : κ) (v : α) : Table κ α :=
  ⟨insertEntry k v t.entries, insertEntry_sorted t.sorted⟩

def erase (t : Table κ α) (k : κ) : Table κ α :=
  ⟨t.entries.filter fun e => e.1 ≠ k, t.sorted.filter _⟩

/-- Changes the value at `k`, starting from `d` where there is none. -/
def update (t : Table κ α) (k : κ) (d : α) (g : α → α) : Table κ α :=
  t.insert k (g (t.getD k d))

/-- Changes every value, each knowing its key. -/
def mapVal (t : Table κ α) (g : κ → α → α) : Table κ α where
  entries := t.entries.map fun e => (e.1, g e.1 e.2)
  sorted := t.sorted.map _ fun _ _ h => h

def ofList (l : List (κ × α)) : Table κ α := l.foldl (fun t e => t.insert e.1 e.2) empty

@[simp] theorem get?_empty (k : κ) : (empty : Table κ α).get? k = none := rfl

theorem mem_entries_iff {t : Table κ α} {k : κ} {v : α} :
    (k, v) ∈ t.entries ↔ t.get? k = some v := by
  obtain ⟨l, hl⟩ := t
  induction l with
  | nil => simp [get?]
  | cons a rest ih =>
    have hrest := List.pairwise_cons.mp hl
    have ih' := ih hrest.2
    simp only [get?] at ih' ⊢
    by_cases hk : a.1 = k
    · have hnot : (k, v) ∉ rest := fun h => (hrest.1 _ h).ne hk
      simp only [List.mem_cons, hnot, or_false, List.find?_cons, hk, decide_true,
        Option.map_some, Option.some.injEq]
      rw [← hk]
      exact ⟨fun h => (congrArg Prod.snd h).symm, fun h => by rw [← h]⟩
    · have hne : (k, v) ≠ a := fun h => hk (congrArg Prod.fst h).symm
      simp only [List.mem_cons, hne, false_or, List.find?_cons, hk, decide_false]
      exact ih'

theorem get?_insert (t : Table κ α) (k k' : κ) (v : α) :
    (t.insert k v).get? k' = if k' = k then some v else t.get? k' := by
  obtain ⟨l, hl⟩ := t
  simp only [insert, get?]
  clear hl
  induction l with
  | nil =>
    by_cases h : k' = k
    · simp [insertEntry, h]
    · simp [insertEntry, h, Ne.symm h]
  | cons a rest ih =>
    simp only [insertEntry]
    split
    · by_cases h : k' = k
      · simp [h]
      · simp [h, Ne.symm h, List.find?_cons]
    · split
      · rename_i heq
        by_cases h : k' = k
        · simp [h]
        · simp [h, Ne.symm h, ← heq]
      · rename_i hlt hne
        by_cases ha : a.1 = k'
        · have hk : k' ≠ k := fun h => hne (h ▸ ha).symm
          simp [ha, hk]
        · simp only [List.find?_cons, ha, decide_false]
          exact ih

@[simp] theorem get?_insert_self (t : Table κ α) (k : κ) (v : α) :
    (t.insert k v).get? k = some v := by
  simp [get?_insert]

theorem get?_insert_of_ne (t : Table κ α) {k k' : κ} (v : α) (h : k' ≠ k) :
    (t.insert k v).get? k' = t.get? k' := by
  simp [get?_insert, h]

theorem get?_erase (t : Table κ α) (k k' : κ) :
    (t.erase k).get? k' = if k' = k then none else t.get? k' := by
  obtain ⟨l, hl⟩ := t
  simp only [erase, get?, List.find?_filter]
  by_cases h : k' = k
  · simp [h]
  · have hp : (fun e : κ × α => decide (e.1 ≠ k) && decide (e.1 = k'))
        = fun e => decide (e.1 = k') := by
      funext e
      by_cases he : e.1 = k'
      · simp [he, h]
      · simp [he]
    rw [if_neg h, ← hp]
    simp

theorem get?_mapVal (t : Table κ α) (g : κ → α → α) (k : κ) :
    (t.mapVal g).get? k = (t.get? k).map (g k) := by
  obtain ⟨l, hl⟩ := t
  simp only [mapVal, get?]
  clear hl
  induction l with
  | nil => rfl
  | cons a rest ih =>
    by_cases ha : a.1 = k
    · simp [ha]
    · simp only [List.map_cons, List.find?_cons, ha, decide_false]
      exact ih

theorem getD_insert (t : Table κ α) (k k' : κ) (v d : α) :
    (t.insert k v).getD k' d = if k' = k then v else t.getD k' d := by
  by_cases h : k' = k
  · simp [getD, h]
  · simp [getD, get?_insert, h]

theorem getD_update (t : Table κ α) (k k' : κ) (d : α) (g : α → α) :
    (t.update k d g).getD k' d = if k' = k then g (t.getD k d) else t.getD k' d :=
  getD_insert t k k' _ d

theorem keys_nodup (t : Table κ α) : t.keys.Nodup :=
  (List.pairwise_map.mpr t.sorted).imp fun h => h.ne

theorem mem_values_iff {t : Table κ α} {v : α} :
    v ∈ t.values ↔ ∃ k, t.get? k = some v := by
  simp only [values, List.mem_map]
  constructor
  · rintro ⟨⟨k, w⟩, hm, rfl⟩
    exact ⟨k, mem_entries_iff.mp hm⟩
  · rintro ⟨k, hk⟩
    exact ⟨(k, v), mem_entries_iff.mpr hk, rfl⟩

theorem mem_values_of_get? {t : Table κ α} {k : κ} {v : α} (h : t.get? k = some v) :
    v ∈ t.values :=
  mem_values_iff.mpr ⟨k, h⟩

section FilterMap

variable {β : Type w}

/-- Changes every value, each knowing its key, or leaves it out. -/
def filterMapVal (t : Table κ α) (g : κ → α → Option β) : Table κ β where
  entries := t.entries.filterMap fun e => (g e.1 e.2).map fun v => (e.1, v)
  sorted := by
    refine t.sorted.filterMap _ fun a a' hlt b hb b' hb' => ?_
    obtain ⟨v, -, rfl⟩ := Option.map_eq_some_iff.mp hb
    obtain ⟨v', -, rfl⟩ := Option.map_eq_some_iff.mp hb'
    exact hlt

theorem get?_filterMapVal (t : Table κ α) (g : κ → α → Option β) (k : κ) :
    (t.filterMapVal g).get? k = (t.get? k).bind (g k) := by
  apply Option.ext
  intro v
  rw [← mem_entries_iff, filterMapVal, List.mem_filterMap, Option.bind_eq_some_iff]
  constructor
  · rintro ⟨⟨k', v'⟩, hmem, hmap⟩
    obtain ⟨w, hw, heq⟩ := Option.map_eq_some_iff.mp hmap
    cases heq
    exact ⟨v', mem_entries_iff.mp hmem, hw⟩
  · rintro ⟨v', hget, hv⟩
    exact ⟨(k, v'), mem_entries_iff.mpr hget, by rw [hv, Option.map_some]⟩

end FilterMap

theorem ext_get? {t t' : Table κ α} (h : ∀ k, t.get? k = t'.get? k) : t = t' := by
  have hnodup (t : Table κ α) : t.entries.Nodup :=
    t.sorted.imp fun hlt heq => (heq ▸ hlt).false
  have hperm : t.entries.Perm t'.entries := by
    rw [List.perm_ext_iff_of_nodup (hnodup t) (hnodup t')]
    rintro ⟨k, v⟩
    rw [mem_entries_iff, mem_entries_iff, h k]
  have hentries : t.entries = t'.entries :=
    hperm.eq_of_pairwise (fun a b _ _ hab hba => (hab.trans hba).false.elim) t.sorted t'.sorted
  obtain ⟨l, hl⟩ := t
  obtain ⟨l', hl'⟩ := t'
  cases hentries
  rfl

/-- It doesn't matter in which order values are changed, if it doesn't for one value. -/
theorem update_comm {g g' : α → α} (h : ∀ v, g' (g v) = g (g' v)) (t : Table κ α) (k k' : κ)
    (d : α) : (t.update k d g).update k' d g' = (t.update k' d g').update k d g := by
  refine ext_get? fun k'' => ?_
  simp only [update, get?_insert, getD]
  by_cases heq : k = k'
  · subst heq
    by_cases hk : k'' = k
    · simp only [hk, if_true, Option.getD_some, h]
    · simp only [hk, if_false]
  · simp only [heq, Ne.symm heq, if_false]
    by_cases hk : k'' = k
    · simp only [hk, heq, if_true, if_false]
    · by_cases hk' : k'' = k'
      · simp only [hk', Ne.symm heq, if_true, if_false]
      · simp only [hk, hk', if_false]

section Total

variable {M : Type*} [AddCommMonoid M]

def total (f : κ → α → M) (t : Table κ α) : M := (t.entries.map fun e => f e.1 e.2).sum

def at? (f : κ → α → M) (t : Table κ α) (k : κ) : M := (t.get? k).elim 0 (f k)

@[simp] theorem total_empty (f : κ → α → M) : total f (empty : Table κ α) = 0 := rfl

theorem at?_of_get? {f : κ → α → M} {t : Table κ α} {k : κ} {v : α}
    (h : t.get? k = some v) : at? f t k = f k v := by
  simp [at?, h]

theorem at?_of_none {f : κ → α → M} {t : Table κ α} {k : κ}
    (h : t.get? k = none) : at? f t k = 0 := by
  simp [at?, h]

theorem at?_eq_getD {f : κ → α → M} {t : Table κ α} {k : κ} {d : α} (hd : f k d = 0) :
    at? f t k = f k (t.getD k d) := by
  cases h : t.get? k with
  | none => simp [at?, getD, h, hd]
  | some v => simp [at?, getD, h]

theorem total_insert (f : κ → α → M) (t : Table κ α) (k : κ) (v : α) :
    total f (t.insert k v) + at? f t k = total f t + f k v := by
  obtain ⟨l, hl⟩ := t
  simp only [total, insert, at?, get?]
  induction l with
  | nil => simp [insertEntry]
  | cons a rest ih =>
    have hrest := List.pairwise_cons.mp hl
    simp only [insertEntry]
    split
    · rename_i hlt
      have hnone : (a :: rest).find? (fun e => decide (e.1 = k)) = none := by
        simp only [List.find?_eq_none, decide_eq_true_eq]
        intro e he
        rcases List.mem_cons.mp he with h | h
        · exact h ▸ hlt.ne'
        · exact (hlt.trans (hrest.1 e h)).ne'
      simp only [hnone, List.map_cons, List.sum_cons, Option.map_none, Option.elim_none]
      abel
    · split
      · rename_i heq
        simp only [List.map_cons, List.sum_cons, List.find?_cons, heq, decide_true,
          Option.map_some, Option.elim_some]
        abel
      · rename_i hne
        have ha : ¬ a.1 = k := fun h => hne h.symm
        simp only [List.map_cons, List.sum_cons, List.find?_cons, ha, decide_false]
        rw [add_assoc, ih hrest.2, ← add_assoc]

theorem total_erase (f : κ → α → M) (t : Table κ α) (k : κ) :
    total f (t.erase k) + at? f t k = total f t := by
  obtain ⟨l, hl⟩ := t
  simp only [total, erase, at?, get?]
  induction l with
  | nil => simp
  | cons a rest ih =>
    have hrest := List.pairwise_cons.mp hl
    by_cases ha : a.1 = k
    · have hall : rest.filter (fun e => decide (e.1 ≠ k)) = rest := by
        refine List.filter_eq_self.mpr fun e he => ?_
        simpa [← ha] using (hrest.1 e he).ne'
      have hfilter : (a :: rest).filter (fun e => decide (e.1 ≠ k)) = rest := by
        rw [List.filter_cons_of_neg (by simp [ha]), hall]
      simp only [hfilter, List.find?_cons, ha, decide_true, Option.map_some, Option.elim_some,
        List.map_cons, List.sum_cons]
      abel
    · have hfilter : (a :: rest).filter (fun e => decide (e.1 ≠ k))
          = a :: rest.filter fun e => decide (e.1 ≠ k) := by
        simp [ha]
      simp only [hfilter, List.map_cons, List.sum_cons, List.find?_cons, ha, decide_false]
      rw [add_assoc, ih hrest.2]

theorem total_update (f : κ → α → M) (t : Table κ α) (k : κ) (d : α) (g : α → α)
    (hd : f k d = 0) :
    total f (t.update k d g) + f k (t.getD k d) = total f t + f k (g (t.getD k d)) := by
  rw [← at?_eq_getD hd]
  exact total_insert f t k _

theorem total_mapVal (f : κ → α → M) (t : Table κ α) (g : κ → α → α) :
    total f (t.mapVal g) = total (fun k v => f k (g k v)) t := by
  simp [total, mapVal, Function.comp_def]

theorem total_add (f f' : κ → α → M) (t : Table κ α) :
    total (fun k v => f k v + f' k v) t = total f t + total f' t :=
  List.sum_map_add

theorem total_filterMapVal {β : Type*} (f : κ → β → M) (t : Table κ α) (g : κ → α → Option β) :
    total f (t.filterMapVal g) = total (fun k v => (g k v).elim 0 (f k)) t := by
  simp only [total, filterMapVal]
  induction t.entries with
  | nil => rfl
  | cons e rest ih =>
    rw [List.map_cons, List.sum_cons, ← ih]
    cases hg : g e.1 e.2 with
    | none => simp [hg]
    | some v => simp [hg]

theorem sum_keys (f : κ → α → M) (t : Table κ α) : (t.keys.map (at? f t)).sum = total f t := by
  rw [keys, total, List.map_map]
  refine congrArg List.sum (List.map_congr_left ?_)
  rintro ⟨k, v⟩ hm
  exact at?_of_get? (mem_entries_iff.mp hm)
theorem total_congr {f f' : κ → α → M} {t : Table κ α}
    (h : ∀ k v, t.get? k = some v → f k v = f' k v) : total f t = total f' t := by
  refine congrArg List.sum (List.map_congr_left ?_)
  rintro ⟨k, v⟩ hm
  exact h k v (mem_entries_iff.mp hm)

theorem total_update_add {M : Type*} [AddCancelCommMonoid M] {f : κ → α → M} {t : Table κ α}
    {k : κ} {d : α} {g : α → α} {x : M} (hd : f k d = 0) (hg : ∀ a, f k (g a) = f k a + x) :
    total f (t.update k d g) = total f t + x := by
  have h := total_update f t k d g hd
  rw [hg, ← add_assoc, add_right_comm] at h
  exact add_right_cancel h

theorem total_erase_eq {M : Type*} [AddCommGroup M] {f : κ → α → M} {t : Table κ α}
    {k : κ} {d : α} (hd : f k d = 0) :
    total f (t.erase k) = total f t - f k (t.getD k d) := by
  rw [← at?_eq_getD hd]
  exact eq_sub_of_add_eq (total_erase f t k)

end Total

theorem total_nonneg {M : Type*} [AddCommMonoid M] [PartialOrder M] [IsOrderedAddMonoid M]
    {f : κ → α → M} {t : Table κ α} (h : ∀ k v, 0 ≤ f k v) : 0 ≤ total f t := by
  refine List.sum_nonneg fun x hx => ?_
  obtain ⟨e, -, rfl⟩ := List.mem_map.mp hx
  exact h e.1 e.2

end Table

end Lib
