import Mathlib.Data.List.Sort

/-!
# Lists kept in order

A list in the order of a key, which may not tell two entries apart. A new entry goes behind those of
its key, and taking one off keeps the order.
-/

set_option autoImplicit false

namespace Lib.Shelf

universe u v

variable {α : Type u} {κ : Type v} [LinearOrder κ] {key : α → κ} {r : α → α → Prop}
  [DecidableRel r] {a b : α} {l : List α}

def InOrder (key : α → κ) (l : List α) : Prop := l.Pairwise fun a b => key a ≤ key b

theorem InOrder.sublist {l' : List α} (h : InOrder key l) (hl : l'.Sublist l) : InOrder key l' :=
  List.Pairwise.sublist hl h

theorem InOrder.insert (hr : ∀ a b, r a b ↔ key a < key b) (h : InOrder key l) (a : α) :
    InOrder key (l.orderedInsert r a) := by
  induction l with
  | nil => exact List.pairwise_singleton _ a
  | cons b rest ih =>
    obtain ⟨hb, hrest⟩ := List.pairwise_cons.mp h
    rw [List.orderedInsert_cons]
    split
    next hab =>
      have hlt := (hr a b).mp hab
      refine List.Pairwise.cons ?_ h
      intro c hc
      rcases List.mem_cons.mp hc with rfl | hmem
      · exact hlt.le
      · exact hlt.le.trans (hb c hmem)
    next hab =>
      refine List.Pairwise.cons ?_ (ih hrest)
      intro c hc
      rcases (List.mem_orderedInsert r).mp hc with rfl | hmem
      · exact not_lt.mp fun hlt => hab ((hr c b).mpr hlt)
      · exact hb c hmem

/-- It doesn't matter in which order two entries go in that their keys tell apart. -/
theorem insert_comm (hr : ∀ a b, r a b ↔ key a < key b) (hab : key a = key b → a = b)
    (l : List α) : (l.orderedInsert r a).orderedInsert r b
      = (l.orderedInsert r b).orderedInsert r a := by
  induction l with
  | nil =>
    simp only [List.orderedInsert_nil, List.orderedInsert_cons, hr]
    rcases lt_trichotomy (key a) (key b) with hlt | heq | hgt
    · rw [if_neg hlt.asymm, if_pos hlt]
    · rw [hab heq]
    · rw [if_pos hgt, if_neg hgt.asymm]
  | cons c rest ih =>
    simp only [List.orderedInsert_cons, hr]
    by_cases hac : key a < key c
    · by_cases hbc : key b < key c
      · simp only [hac, hbc, if_true, List.orderedInsert_cons, hr]
        rcases lt_trichotomy (key a) (key b) with hlt | heq | hgt
        · rw [if_neg hlt.asymm, if_pos hlt]
        · rw [hab heq]
        · rw [if_pos hgt, if_neg hgt.asymm]
      · have hba : ¬ key b < key a := fun hlt => hbc (hlt.trans hac)
        simp only [hac, hbc, hba, if_true, if_false, List.orderedInsert_cons, hr]
    · by_cases hbc : key b < key c
      · have hab' : ¬ key a < key b := fun hlt => hac (hlt.trans hbc)
        simp only [hac, hbc, hab', if_true, if_false, List.orderedInsert_cons, hr]
      · simp only [hac, hbc, if_false, List.orderedInsert_cons, hr]
        rw [ih]

/-- One more of what the list begins with goes in front as well as behind its likes. -/
theorem insert_eq_cons (hr : ∀ a b, r a b ↔ key a < key b) (h : InOrder key (a :: l))
    (hkey : ∀ b ∈ l, key b = key a → b = a) : l.orderedInsert r a = a :: l := by
  induction l with
  | nil => rfl
  | cons b rest ih =>
    rw [List.orderedInsert_cons]
    split
    · rfl
    next hab =>
      have hle := (List.pairwise_cons.mp h).1 b List.mem_cons_self
      have heq : key b = key a := le_antisymm (not_lt.mp fun hlt => hab ((hr a b).mpr hlt)) hle
      obtain rfl := hkey b List.mem_cons_self heq
      have hrest : InOrder key (b :: rest) := (List.pairwise_cons.mp h).2
      rw [ih hrest fun c hc => hkey c (List.mem_cons_of_mem _ hc)]

/-- An entry taken off and put back stands where it stood. -/
theorem insert_eraseP (hr : ∀ a b, r a b ↔ key a < key b) (h : InOrder key l)
    {p : α → Bool} (hp : ∀ b ∈ l, p b = true → b = a) (hkey : ∀ b ∈ l, key b = key a → b = a)
    (hex : ∃ b ∈ l, p b = true) : (l.eraseP p).orderedInsert r a = l := by
  induction l with
  | nil =>
    obtain ⟨b, hb, -⟩ := hex
    cases hb
  | cons b rest ih =>
    by_cases hb : p b = true
    · obtain rfl := hp b List.mem_cons_self hb
      rw [List.eraseP_cons_of_pos hb]
      exact insert_eq_cons hr h fun c hc => hkey c (List.mem_cons_of_mem _ hc)
    · obtain ⟨c, hc, hpc⟩ := hex
      have hmem : c ∈ rest := by
        rcases List.mem_cons.mp hc with rfl | hmem
        · exact absurd hpc hb
        · exact hmem
      obtain rfl := hp c hc hpc
      have hle := (List.pairwise_cons.mp h).1 c hmem
      rw [List.eraseP_cons_of_neg hb, List.orderedInsert_cons, if_neg fun hcb =>
        absurd ((hr c b).mp hcb) (not_lt.mpr hle)]
      rw [ih (List.pairwise_cons.mp h).2 (fun d hd => hp d (List.mem_cons_of_mem _ hd))
        (fun d hd => hkey d (List.mem_cons_of_mem _ hd)) ⟨c, hmem, hpc⟩]

end Lib.Shelf
