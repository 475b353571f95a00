import Mathlib.Data.List.Sort

/-!
# Lists ranked by a key

A list sorted by a key, what ties in the order it came. What comes last is placed after all that tie
with it, keeping a part of a list and ranking it commute, and the first of a ranked list are known
from the first alone when something is placed in it.
-/

set_option autoImplicit false

namespace Lib.Ranked

variable {α κ : Type} [LinearOrder κ] (key : α → κ)

def ranked (l : List α) : List α := l.insertionSort fun a b => key a ≤ key b

/-- `a` put into a ranked list, after what ties with it. -/
def place (a : α) (l : List α) : List α := l.orderedInsert (fun a b => key a < key b) a

/-- `a` put into a ranked list, ahead of what ties with it. -/
def lead (a : α) (l : List α) : List α := l.orderedInsert (fun a b => key a ≤ key b) a

variable {key} {a b : α} {l : List α}

@[simp] theorem ranked_nil : ranked key [] = [] := rfl

theorem place_cons_of_le (h : key b ≤ key a) : place key a (b :: l) = b :: place key a l :=
  List.orderedInsert_of_not_le (r := fun a b => key a < key b) l (not_lt.mpr h)

theorem place_cons_of_lt (h : key a < key b) : place key a (b :: l) = a :: b :: l :=
  List.orderedInsert_cons_of_le (fun a b => key a < key b) l h

theorem lead_cons_of_le (h : key a ≤ key b) : lead key a (b :: l) = a :: b :: l :=
  List.orderedInsert_cons_of_le (fun a b => key a ≤ key b) l h

theorem lead_cons_of_lt (h : key b < key a) : lead key a (b :: l) = b :: lead key a l :=
  List.orderedInsert_of_not_le (r := fun a b => key a ≤ key b) l (not_le.mpr h)

theorem ranked_cons : ranked key (a :: l) = lead key a (ranked key l) := rfl

theorem mem_ranked {x : α} : x ∈ ranked key l ↔ x ∈ l := List.mem_insertionSort _

theorem sorted_ranked (l : List α) : (ranked key l).Pairwise fun a b => key a ≤ key b := by
  have htotal : Std.Total fun a b : α => key a ≤ key b := ⟨fun a b => le_total (key a) (key b)⟩
  have htrans : IsTrans α fun a b => key a ≤ key b := ⟨fun _ _ _ => le_trans⟩
  exact List.pairwise_insertionSort _ l

/-- What leads what it ties with and what follows it don't get in each other's way. -/
theorem lead_place (a b : α) (l : List α) :
    lead key a (place key b l) = place key b (lead key a l) := by
  induction l with
  | nil =>
    rcases le_or_gt (key a) (key b) with hab | hba
    · exact (lead_cons_of_le hab).trans (place_cons_of_le (l := []) hab).symm
    · exact (lead_cons_of_lt hba).trans (place_cons_of_lt (l := []) hba).symm
  | cons c rest ih =>
    rcases le_or_gt (key c) (key b) with hcb | hbc
    · rcases le_or_gt (key a) (key c) with hac | hca
      · rw [place_cons_of_le hcb, lead_cons_of_le hac, lead_cons_of_le hac,
          place_cons_of_le (hac.trans hcb), place_cons_of_le hcb]
      · rw [place_cons_of_le hcb, lead_cons_of_lt hca, lead_cons_of_lt hca, place_cons_of_le hcb, ih]
    · rw [place_cons_of_lt hbc]
      rcases le_or_gt (key a) (key b) with hab | hba
      · rw [lead_cons_of_le hab, lead_cons_of_le (hab.trans hbc.le), place_cons_of_le hab,
          place_cons_of_lt hbc]
      · rw [lead_cons_of_lt hba]
        rcases le_or_gt (key a) (key c) with hac | hca
        · rw [lead_cons_of_le hac, place_cons_of_lt hba]
        · rw [lead_cons_of_lt hca, place_cons_of_lt hbc]

/-- What comes last is placed after all that tie with it. -/
theorem ranked_concat (l : List α) (a : α) : ranked key (l ++ [a]) = place key a (ranked key l) := by
  induction l with
  | nil => rfl
  | cons b rest ih => rw [List.cons_append, ranked_cons, ih, lead_place, ranked_cons]

/-- Keeping a part of a ranked list, when it's what leads that's put in it. -/
theorem filter_lead (p : α → Bool) (a : α) {l : List α}
    (hl : l.Pairwise fun a b => key a ≤ key b) :
    (lead key a l).filter p = if p a then lead key a (l.filter p) else l.filter p := by
  induction l with
  | nil => cases hp : p a <;> simp [lead, hp]
  | cons b rest ih =>
    obtain ⟨hb, hrest⟩ := List.pairwise_cons.mp hl
    rcases le_or_gt (key a) (key b) with hab | hba
    · have hall : ∀ c ∈ (b :: rest).filter p, key a ≤ key c := by
        intro c hc
        rcases List.mem_cons.mp (List.mem_of_mem_filter hc) with rfl | hmem
        · exact hab
        · exact hab.trans (hb c hmem)
      rw [lead_cons_of_le hab, List.filter_cons]
      split
      · cases hf : (b :: rest).filter p with
        | nil => rfl
        | cons c later => rw [lead_cons_of_le (hall c (hf ▸ List.mem_cons_self))]
      · rfl
    · rw [lead_cons_of_lt hba, List.filter_cons, ih hrest]
      cases hpb : p b with
      | false => simp [hpb]
      | true =>
        cases hpa : p a with
        | false => simp [hpb]
        | true => simp [hpb, lead_cons_of_lt hba]

theorem filter_ranked (p : α → Bool) (l : List α) :
    (ranked key l).filter p = ranked key (l.filter p) := by
  induction l with
  | nil => rfl
  | cons a rest ih =>
    rw [ranked_cons, filter_lead p a (sorted_ranked rest), ih, List.filter_cons]
    split <;> rfl

/-- The first of a list something is placed in, known from as many of the list. -/
theorem take_place (k : ℕ) (a : α) (l : List α) :
    (place key a (l.take k)).take k = (place key a l).take k := by
  induction k generalizing l with
  | zero => rfl
  | succ k ih =>
    cases l with
    | nil => rfl
    | cons b rest =>
      rw [List.take_succ_cons]
      by_cases hba : key b ≤ key a
      · rw [place_cons_of_le hba, place_cons_of_le hba, List.take_succ_cons, List.take_succ_cons, ih]
      · rw [place_cons_of_lt (not_le.mp hba), place_cons_of_lt (not_le.mp hba), List.take_succ_cons,
          List.take_succ_cons]
        cases k with
        | zero => rfl
        | succ k => rw [List.take_succ_cons, List.take_succ_cons, List.take_take,
            Nat.min_eq_left (Nat.le_succ k)]

/-- What ties with or comes after all of a list is placed at its end. -/
theorem place_last (h : ∀ b ∈ l, key b ≤ key a) : place key a l = l ++ [a] := by
  induction l with
  | nil => rfl
  | cons b rest ih =>
    rw [place_cons_of_le (h b List.mem_cons_self), ih fun c hc => h c (List.mem_cons_of_mem _ hc),
      List.cons_append]

theorem length_place (a : α) (l : List α) : (place key a l).length = l.length + 1 :=
  List.orderedInsert_length _ l a

/-- What comes before all of a list's rest is placed in what is before it. -/
theorem place_append {before after : List α} (h : ∀ d ∈ after, key a < key d) :
    place key a (before ++ after) = place key a before ++ after := by
  induction before with
  | nil =>
    cases after with
    | nil => rfl
    | cons d rest => exact place_cons_of_lt (h d List.mem_cons_self)
  | cons b rest ih =>
    rw [List.cons_append]
    rcases le_or_gt (key b) (key a) with hba | hab
    · rw [place_cons_of_le hba, place_cons_of_le hba, ih, List.cons_append]
    · rw [place_cons_of_lt hab, place_cons_of_lt hab, List.cons_append, List.cons_append]

/-- Placing before all of a list's rest, only as much of the rest counts as is then kept. -/
theorem take_place_append (k : ℕ) {before after : List α} (h : ∀ d ∈ after, key a < key d) :
    (place key a (before ++ after.take (k - (before.length + 1)))).take k
      = (place key a (before ++ after)).take k := by
  rw [place_append h, place_append fun d hd => h d (List.mem_of_mem_take hd), List.take_append,
    List.take_append, length_place, List.take_take, Nat.min_self]

end Lib.Ranked
