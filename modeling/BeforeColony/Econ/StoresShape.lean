import Mathlib.Data.Prod.Lex
import BeforeColony.Lib.Shelf
import BeforeColony.Econ.Shelf

/-!
# The shape of the stores

No empty entries, the parts in order, and quantities in sixty-four bits: what every operation on the
stores keeps, and when taking goods is all or nothing.
-/

set_option autoImplicit false

namespace BeforeColony

open Lib

namespace PartUnit

/-- Where a part stands on the shelf: by item, the best condition and the fewest faults first. -/
def key (u : PartUnit) : Item ×ₗ ℕᵒᵈ ×ₗ ℕ :=
  toLex (u.item, toLex (OrderDual.toDual u.condition, u.faults.count))

theorem before_iff (u v : PartUnit) : u.before v ↔ u.key < v.key := by
  simp only [before, key, Prod.Lex.lt_iff, ofLex_toLex, OrderDual.toDual_lt_toDual,
    OrderDual.toDual_inj, @eq_comm ℕ u.condition]

def Clean (u : PartUnit) : Prop := u.faults.count = 0 → u.faults = Faults.none

theorem clean_new (line : FrameId) (part : Part) : (new line part).Clean := fun _ => rfl

end PartUnit

namespace Stores

namespace U64

/-- A `u64` addition that stops at the largest. -/
def saturatingAdd (a b : ℕ) : ℕ := min (a + b) u64Max

/-- A `u64` multiplication that stops at the largest. -/
def saturatingMul (a b : ℕ) : ℕ := min (a * b) u64Max

def add (s : Stores) (item : Item) (qty : ℕ) : Stores :=
  if qty = 0 then s
  else
    match item with
    | .part line part => (List.range qty).foldl (fun s _ => s.addPart (.new line part)) s
    | item => { s with stock := s.stock.update item 0 (U64.saturatingAdd · qty) }

def hasAll (s : Stores) (needs : List (Item × ℕ)) (times : ℕ) : Bool :=
  needs.all fun e => s.has e.1 (U64.saturatingMul e.2 times)

def takeAll (s : Stores) (needs : List (Item × ℕ)) (times : ℕ) : Option Stores :=
  if ¬ hasAll s needs times then none
  else some (needs.foldl (fun s e => (s.take e.1 (wrappingMul e.2 times)).getD s) s)

def addAll (s : Stores) (goods : List (Item × ℕ)) (times : ℕ) : Stores :=
  goods.foldl (fun s e => add s e.1 (U64.saturatingMul e.2 times)) s

end U64

inductive Op where
  | add (item : Item) (qty : ℕ)
  | take (item : Item) (qty : ℕ)
  | takeUpTo (item : Item) (qty : ℕ)
  | takeAll (needs : List (Item × ℕ)) (times : ℕ)
  | addAll (goods : List (Item × ℕ)) (times : ℕ)
  | addPart (unit : PartUnit)
  | takeBestPart (line : FrameId) (part : Part)
  | takeWorstPart (line : FrameId) (part : Part)
  deriving DecidableEq, Repr

def step (s : Stores) : Op → Stores
  | .add item qty => U64.add s item qty
  | .take item qty => (s.take item qty).getD s
  | .takeUpTo item qty => (s.takeUpTo item qty).2
  | .takeAll needs times => (U64.takeAll s needs times).getD s
  | .addAll goods times => U64.addAll s goods times
  | .addPart unit => s.addPart unit
  | .takeBestPart line part => ((s.takeBestPart line part).map Prod.snd).getD s
  | .takeWorstPart line part => ((s.takeWorstPart line part).map Prod.snd).getD s

def run (s : Stores) (ops : List Op) : Stores := ops.foldl step s

/-! ## What a step can do -/

/-- Parts that meet `P` are shelved, parts are taken off, and entries are set, to more than nothing
and to no more than they were or sixty-four bits hold. -/
inductive Changes (P : PartUnit → Prop) (s : Stores) : Stores → Prop where
  | refl : Changes P s s
  | shelve {s' : Stores} {u : PartUnit} (h : Changes P s s') (hu : P u) : Changes P s (s'.addPart u)
  | unshelve {s' : Stores} {parts : List PartUnit} (h : Changes P s s')
      (hsub : parts.Sublist s'.parts) : Changes P s { s' with parts }
  | stock {s' : Stores} {stock : Table Item ℕ} (h : Changes P s s')
      (hstock : ∀ item n, stock.get? item = some n → s'.stock.get? item = some n ∨
        0 < n ∧ (n ≤ u64Max ∨ ∃ m, s'.stock.get? item = some m ∧ n ≤ m)) :
      Changes P s { s' with stock }

variable {P : PartUnit → Prop} {s s' : Stores} {item : Item} {qty : ℕ} {line : FrameId}
  {part : Part} {u : PartUnit}

theorem add_part (s : Stores) (line : FrameId) (part : Part) (qty : ℕ) :
    U64.add s (.part line part) qty = (fun s => s.addPart (.new line part))^[qty] s := by
  unfold U64.add
  split
  next hzero => rw [hzero, Function.iterate_zero, id]
  next =>
    dsimp only
    rw [List.foldl_const, List.length_range]

theorem add_bulk (hbulk : ∀ line part, item ≠ .part line part) (s : Stores) (qty : ℕ) :
    U64.add s item qty = if qty = 0 then s
      else { s with stock := s.stock.update item 0 (U64.saturatingAdd · qty) } := by
  cases item with
  | part line part => exact absurd rfl (hbulk line part)
  | _ => rfl

theorem takeUnits_eq (p : PartUnit → Bool) (qty : ℕ) (parts : List PartUnit) :
    takeUnits p qty parts = (fun l => l.eraseP p)^[qty] parts := by
  rw [takeUnits, List.foldl_const, List.length_range]

theorem iterate_eraseP_sublist (p : PartUnit → Bool) (n : ℕ) (parts : List PartUnit) :
    ((fun l => l.eraseP p)^[n] parts).Sublist parts := by
  induction n with
  | zero => exact List.Sublist.refl parts
  | succ n ih =>
    rw [Function.iterate_succ_apply']
    exact List.eraseP_sublist.trans ih

theorem get?_takeStock (stock : Table Item ℕ) (item : Item) (qty : ℕ) (item' : Item) :
    (takeStock stock item qty).get? item'
      = if item' = item then (stock.get? item).bind fun n => if n - qty = 0 then none
          else some (n - qty)
        else stock.get? item' := by
  unfold takeStock
  split
  next hnone =>
    split
    next heq => rw [heq, hnone]; rfl
    next => rfl
  next n hsome =>
    rw [hsome, Option.bind_some]
    by_cases hzero : n - qty = 0
    · by_cases heq : item' = item
      · simp [hzero, heq, Table.get?_erase]
      · simp [hzero, heq, Table.get?_erase]
    · by_cases heq : item' = item
      · simp [hzero, heq]
      · simp [hzero, heq, Table.get?_insert]

theorem take_cases (h : s.take item qty = some s') : qty ≤ s.get item ∧
    ((∃ line part, item = .part line part ∧
        s' = { s with parts := takeUnits (newUnit line part) qty s.parts }) ∨
      ((∀ line part, item ≠ .part line part) ∧ s' = { s with stock := takeStock s.stock item qty } ∧
        s.get item = s.stock.getD item 0)) := by
  refine ⟨has_of_take h, ?_⟩
  unfold take at h
  split at h
  · cases h
  · cases item with
    | part line part => exact .inl ⟨line, part, rfl, (Option.some.inj h).symm⟩
    | _ => exact .inr ⟨nofun, (Option.some.inj h).symm, rfl⟩

namespace Changes

variable {s₀ : Stores}

theorem add (h : Changes P s₀ s) (hnew : ∀ line part, P (.new line part)) (item : Item) (qty : ℕ) :
    Changes P s₀ (U64.add s item qty) := by
  by_cases hbulk : ∀ line part, item ≠ .part line part
  · rw [add_bulk hbulk]
    split
    · exact h
    next hpos =>
      refine h.stock fun item' n hn => ?_
      rw [Table.update, Table.get?_insert] at hn
      split at hn
      · rw [← Option.some.inj hn, U64.saturatingAdd]
        exact .inr ⟨lt_min (by omega) (by decide), .inl (min_le_right _ _)⟩
      · exact .inl hn
  · push Not at hbulk
    obtain ⟨line, part, rfl⟩ := hbulk
    rw [add_part]
    induction qty with
    | zero => exact h
    | succ n ih =>
      rw [Function.iterate_succ_apply']
      exact ih.shelve (hnew line part)

theorem take (h : Changes P s₀ s) (item : Item) (qty : ℕ) :
    Changes P s₀ ((s.take item qty).getD s) := by
  cases htake : s.take item qty with
  | none => exact h
  | some s' =>
    rw [Option.getD_some]
    obtain ⟨-, ⟨line, part, -, rfl⟩ | ⟨-, rfl, -⟩⟩ := take_cases htake
    · rw [takeUnits_eq]
      exact h.unshelve (iterate_eraseP_sublist _ _ _)
    · refine h.stock fun item' n hn => ?_
      rw [get?_takeStock] at hn
      split at hn
      next heq =>
        obtain ⟨m, hm, hn⟩ := Option.bind_eq_some_iff.mp hn
        rw [heq]
        split at hn
        · cases hn
        next hpos =>
          rw [← Option.some.inj hn]
          exact .inr ⟨by omega, .inr ⟨m, hm, by omega⟩⟩
      next => exact .inl hn

end Changes

theorem step_changes (hnew : ∀ line part, P (.new line part)) {op : Op}
    (hop : ∀ u, op = .addPart u → P u) (s : Stores) : Changes P s (s.step op) := by
  cases op with
  | add item qty => exact Changes.refl.add hnew item qty
  | take item qty => exact Changes.refl.take item qty
  | takeUpTo item qty => exact Changes.refl.take item _
  | takeAll needs times =>
    have htakes (s' : Stores) (h : Changes P s s') : Changes P s (needs.foldl
        (fun s e => (s.take e.1 (wrappingMul e.2 times)).getD s) s') := by
      clear hop
      induction needs generalizing s' with
      | nil => exact h
      | cons e rest ih => exact ih _ (h.take _ _)
    simp only [step, U64.takeAll]
    split
    · exact .refl
    · exact htakes s .refl
  | addAll goods times =>
    have hadds (s' : Stores) (h : Changes P s s') : Changes P s (U64.addAll s' goods times) := by
      clear hop
      unfold U64.addAll
      induction goods generalizing s' with
      | nil => exact h
      | cons e rest ih => exact ih _ (h.add hnew _ _)
    exact hadds s .refl
  | addPart u => exact Changes.refl.shelve (hop u rfl)
  | takeBestPart line part =>
    simp only [step, takeBestPart, Option.map_map]
    cases s.parts.find? (ofKind line part) with
    | none => exact .refl
    | some u => exact Changes.refl.unshelve List.eraseP_sublist
  | takeWorstPart line part =>
    simp only [step, takeWorstPart, Option.map_map]
    cases s.parts.reverse.find? (ofKind line part) with
    | none => exact .refl
    | some u =>
      have hsub := (List.eraseP_sublist (p := ofKind line part) (l := s.parts.reverse)).reverse
      rw [List.reverse_reverse] at hsub
      exact Changes.refl.unshelve hsub

/-! ## The shape -/

/-- No item has an empty entry or more than sixty-four bits hold, and the parts stand in order with
their condition in 1..=100. -/
structure Tidy (s : Stores) : Prop where
  stocked : ∀ item n, s.stock.get? item = some n → 0 < n ∧ n ≤ u64Max
  sorted : s.parts.Pairwise fun u v => u.item < v.item ∨ u.item = v.item ∧
    (v.condition < u.condition ∨ v.condition = u.condition ∧ u.faults.count ≤ v.faults.count)
  conditions : ∀ u ∈ s.parts, 1 ≤ u.condition ∧ u.condition ≤ 100

theorem inOrder_iff : (s.parts.Pairwise fun u v => u.item < v.item ∨ u.item = v.item ∧
      (v.condition < u.condition ∨ v.condition = u.condition ∧ u.faults.count ≤ v.faults.count))
    ↔ Shelf.InOrder PartUnit.key s.parts := by
  have hkey (u v : PartUnit) : u.key ≤ v.key ↔ u.item < v.item ∨ u.item = v.item ∧
      (v.condition < u.condition ∨ v.condition = u.condition ∧ u.faults.count ≤ v.faults.count) := by
    simp only [PartUnit.key, Prod.Lex.le_iff, ofLex_toLex, OrderDual.toDual_lt_toDual,
      OrderDual.toDual_inj, @eq_comm ℕ u.condition]
  simp only [Shelf.InOrder, hkey]

theorem tidy_empty : Tidy empty where
  stocked := nofun
  sorted := List.Pairwise.nil
  conditions := nofun

theorem Tidy.changes (hs : s.Tidy) (h : Changes P s s') : s'.Tidy := by
  induction h with
  | refl => exact hs
  | shelve h hu ih =>
    refine ⟨ih.stocked, inOrder_iff.mpr ((inOrder_iff.mp ih.sorted).insert PartUnit.before_iff _), ?_⟩
    intro v hv
    rcases (List.mem_orderedInsert PartUnit.before).mp hv with rfl | hmem
    · exact ⟨le_max_left _ _, max_le (by omega) (min_le_right _ _)⟩
    · exact ih.conditions v hmem
  | unshelve h hsub ih =>
    exact ⟨ih.stocked, ih.sorted.sublist hsub, fun u hu => ih.conditions u (hsub.subset hu)⟩
  | stock h hstock ih =>
    refine ⟨?_, ih.sorted, ih.conditions⟩
    intro item n hn
    rcases hstock item n hn with hsame | ⟨hpos, hle | ⟨m, hm, hle⟩⟩
    · exact ih.stocked item n hsame
    · exact ⟨hpos, hle⟩
    · exact ⟨hpos, hle.trans (ih.stocked item m hm).2⟩

theorem clean_changes (h : Changes PartUnit.Clean s s') (hs : ∀ u ∈ s.parts, u.Clean) :
    ∀ u ∈ s'.parts, u.Clean := by
  induction h with
  | refl => exact hs
  | shelve h hu ih =>
    intro v hv
    rcases (List.mem_orderedInsert PartUnit.before).mp hv with rfl | hmem
    · exact hu
    · exact ih v hmem
  | unshelve h hsub ih => exact fun u hu => ih u (hsub.subset hu)
  | stock h hstock ih => exact ih

/-! ## All or nothing -/

def asked (needs : List (Item × ℕ)) (times : ℕ) (item : Item) : ℕ :=
  (needs.map fun e => if item = e.1 then e.2 * times else 0).sum

def AllOrNothing (s : Stores) (asked : Item → ℕ) : Option Stores → Prop
  | none => True
  | some s' => (∀ item, s'.get item + asked item = s.get item) ∧
      s'.parts.filter (fun u => ! u.isNew) = s.parts.filter fun u => ! u.isNew

theorem asked_cons (e : Item × ℕ) (needs : List (Item × ℕ)) (times : ℕ) (item : Item) :
    asked (e :: needs) times item = (if item = e.1 then e.2 * times else 0) + asked needs times item := by
  rw [asked, List.map_cons, List.sum_cons]
  rfl

theorem filter_eraseP {α : Type*} {p q : α → Bool} (h : ∀ u, p u = true → q u = false)
    (l : List α) : (l.eraseP p).filter q = l.filter q := by
  rcases List.exists_or_eq_self_of_eraseP p l with heq | ⟨a, l₁, l₂, -, ha, hl, heq⟩
  · rw [heq]
  · rw [heq, hl, List.filter_append, List.filter_append, List.filter_cons, h a ha]
    rfl

theorem filter_takeUnits {p q : PartUnit → Bool} (h : ∀ u, p u = true → q u = false) (qty : ℕ)
    (parts : List PartUnit) : (takeUnits p qty parts).filter q = parts.filter q := by
  rw [takeUnits_eq]
  induction qty generalizing parts with
  | zero => rfl
  | succ n ih => rw [Function.iterate_succ_apply, ih, filter_eraseP h]

theorem take_allOrNothing (s : Stores) (item : Item) (qty : ℕ) :
    AllOrNothing s (fun item' => if item' = item then qty else 0) (s.take item qty) := by
  cases htake : s.take item qty with
  | none => trivial
  | some s' =>
    refine ⟨get_take htake, ?_⟩
    obtain ⟨-, ⟨line, part, -, rfl⟩ | ⟨-, rfl, -⟩⟩ := take_cases htake
    · refine filter_takeUnits (fun u hu => ?_) qty s.parts
      rw [(newUnit_iff.mp hu).2.2]
      rfl
    · rfl

theorem take_of_le (h : qty ≤ s.get item) : ∃ s', s.take item qty = some s' := by
  have hhas : s.has item qty = true := decide_eq_true h
  unfold take
  rw [if_neg (not_not.mpr hhas)]
  cases item with
  | _ => exact ⟨_, rfl⟩

theorem get_le (hs : s.Tidy) (hroom : s.parts.length < 2 ^ 64) (item : Item) :
    s.get item ≤ u64Max := by
  have hstock (item : Item) : s.stock.getD item 0 ≤ u64Max := by
    unfold Table.getD
    cases hn : s.stock.get? item with
    | none => exact Nat.zero_le _
    | some n => exact (hs.stocked item n hn).2
  cases item with
  | part line part =>
    have hcount : s.parts.countP (newUnit line part) ≤ s.parts.length := List.countP_le_length
    exact Nat.le_sub_one_of_lt (hcount.trans_lt hroom)
  | _ => exact hstock _

theorem get_le_of_take {item' : Item} (h : s.take item qty = some s') :
    s'.get item' ≤ s.get item' := by
  have hget := get_take h item'
  omega

/-- What there is enough of for all its entries together is taken, entry by entry. -/
theorem takes_fit {needs : List (Item × ℕ)} {times : ℕ} (hle : ∀ item, s.get item ≤ u64Max)
    (hfits : ∀ item, asked needs times item ≤ s.get item) :
    AllOrNothing s (asked needs times) (some (needs.foldl
      (fun s e => (s.take e.1 (wrappingMul e.2 times)).getD s) s)) := by
  induction needs generalizing s with
  | nil => exact ⟨fun item => rfl, rfl⟩
  | cons e rest ih =>
    have hone : e.2 * times ≤ s.get e.1 := by
      have hitem := hfits e.1
      rw [asked_cons, if_pos rfl] at hitem
      omega
    have hmax : e.2 * times ≤ u64Max := hone.trans (hle e.1)
    have hwrap : wrappingMul e.2 times = e.2 * times :=
      wrappingMul_eq (Nat.lt_of_le_sub_one (by decide) hmax)
    obtain ⟨s₁, hs₁⟩ := take_of_le hone
    have htaken := get_take hs₁
    have hrest (item : Item) : asked rest times item ≤ s₁.get item := by
      have hitem := hfits item
      have hgot := htaken item
      rw [asked_cons] at hitem
      omega
    obtain ⟨hall, hworn⟩ := ih (fun item => (get_le_of_take hs₁).trans (hle item)) hrest
    have hfirst := take_allOrNothing s e.1 (e.2 * times)
    rw [hs₁] at hfirst
    rw [List.foldl_cons, hwrap, hs₁, Option.getD_some]
    refine ⟨fun item => ?_, hworn.trans hfirst.2⟩
    rw [asked_cons, ← htaken item, ← hall item]
    ring

/-- A list of goods is taken whole or not at all just when some entry is refused on its own or there is
enough of every item for all its entries together. -/
theorem takeAll_iff (hs : s.Tidy) (hroom : s.parts.length < 2 ^ 64) (needs : List (Item × ℕ))
    (times : ℕ) : AllOrNothing s (asked needs times) (U64.takeAll s needs times) ↔
      U64.hasAll s needs times = false ∨ ∀ item, asked needs times item ≤ s.get item := by
  unfold U64.takeAll
  split
  next hrefused =>
    constructor
    · intro _
      exact .inl (Bool.eq_false_iff.mpr hrefused)
    · intro _
      trivial
  next hall =>
    constructor
    · intro h
      refine .inr fun item => ?_
      have hitem := h.1 item
      omega
    · intro h
      rcases h with hfalse | hfits
      · exact absurd hfalse (by simpa using hall)
      · exact takes_fit (get_le hs hroom) hfits

/-! ## There and back -/

theorem eq_new (hconditions : u.condition ≤ 100) (hnew : newUnit line part u = true) :
    u = .new line part := by
  obtain ⟨hline, hpart, hisNew⟩ := newUnit_iff.mp hnew
  simp only [PartUnit.isNew, Faults.isEmpty, Bool.and_eq_true, decide_eq_true_eq] at hisNew
  obtain ⟨uline, upart, ucondition, ⟨word⟩⟩ := u
  simp only [PartUnit.new, Faults.none, PartUnit.mk.injEq, Faults.mk.injEq] at *
  exact ⟨hline, hpart, by omega, hisNew.2⟩

theorem eq_new_of_key (hclean : u.Clean) (hkey : u.key = (PartUnit.new line part).key) :
    u = .new line part := by
  have hparts := congrArg ofLex hkey
  have hrest := congrArg ofLex (congrArg Prod.snd hparts)
  obtain ⟨hline, hpart⟩ := Item.part.inj (congrArg Prod.fst hparts)
  have hcondition : u.condition = 100 := congrArg Prod.fst hrest
  have hnone : Faults.none.count = 0 := by decide
  have hcount : u.faults.count = Faults.none.count := by
    simpa only [PartUnit.key, PartUnit.new, ofLex_toLex] using congrArg Prod.snd hrest
  obtain ⟨uline, upart, ucondition, faults⟩ := u
  simp only [PartUnit.new, PartUnit.mk.injEq] at *
  exact ⟨hline, hpart, hcondition, hclean (hcount.trans hnone)⟩

/-- New parts taken off the shelf and put back stand where they stood. -/
theorem addParts_takeUnits (hsorted : Shelf.InOrder PartUnit.key s.parts)
    (hconditions : ∀ u ∈ s.parts, u.condition ≤ 100) (hclean : ∀ u ∈ s.parts, u.Clean) {n : ℕ}
    (hn : n ≤ s.parts.countP (newUnit line part)) :
    (fun s => addPart s (.new line part))^[n] { s with parts := takeUnits (newUnit line part) n s.parts }
      = s := by
  rw [takeUnits_eq]
  induction n with
  | zero => rfl
  | succ n ih =>
    have hsub := iterate_eraseP_sublist (newUnit line part) n s.parts
    have hcount : (takeUnits (newUnit line part) n s.parts).countP (newUnit line part) + n
        = s.parts.countP (newUnit line part) := countP_takeUnits (by omega)
    rw [takeUnits_eq] at hcount
    have hex : ∃ u ∈ (fun l => List.eraseP (newUnit line part) l)^[n] s.parts,
        newUnit line part u = true := List.countP_pos_iff.mp (by omega)
    have hback := Shelf.insert_eraseP (a := PartUnit.new line part) PartUnit.before_iff
      (hsorted.sublist hsub)
      (fun u hu hnew => eq_new (hconditions u (hsub.subset hu)) hnew)
      (fun u hu hkey => eq_new_of_key (hclean u (hsub.subset hu)) hkey) hex
    rw [Function.iterate_succ_apply, Function.iterate_succ_apply']
    have hput (l : List PartUnit) (heq : (l.eraseP (newUnit line part)).orderedInsert
        PartUnit.before (.new line part) = l) :
        addPart { s with parts := l.eraseP (newUnit line part) } (.new line part)
          = { s with parts := l } := congrArg (fun parts => { s with parts }) heq
    rw [hput _ hback]
    exact ih (by omega)

theorem update_takeStock (h : qty ≤ s.stock.getD item 0) (hpos : qty ≠ 0) :
    (takeStock s.stock item qty).update item 0 (· + qty) = s.stock := by
  refine Table.ext_get? fun item' => ?_
  rw [Table.update, Table.get?_insert, Table.getD, get?_takeStock, if_pos rfl]
  by_cases heq : item' = item
  · rw [if_pos heq, heq]
    unfold Table.getD at h
    cases hn : s.stock.get? item with
    | none =>
      rw [hn] at h
      exact absurd (Nat.le_zero.mp h) hpos
    | some n =>
      rw [hn, Option.getD_some] at h
      rw [Option.bind_some]
      split
      · simp only [Option.getD_none, Option.some.injEq]
        omega
      · simp only [Option.getD_some, Option.some.injEq]
        omega
  · rw [if_neg heq, get?_takeStock, if_neg heq]

theorem takeStock_zero (hpos : ∀ item n, s.stock.get? item = some n → 0 < n) (item : Item) :
    takeStock s.stock item 0 = s.stock := by
  refine Table.ext_get? fun item' => ?_
  rw [get?_takeStock]
  split
  next heq =>
    rw [heq]
    cases hn : s.stock.get? item with
    | none => rfl
    | some n =>
      have hn := hpos item n hn
      rw [Option.bind_some, Nat.sub_zero, if_neg (by omega)]
  next => rfl

/-- New goods taken and added back leave the stores as they were. -/
theorem add_take (hs : s.Tidy) (hclean : ∀ u ∈ s.parts, u.Clean) (h : s.take item qty = some s') :
    U64.add s' item qty = s := by
  obtain ⟨hle, ⟨line, part, rfl, rfl⟩ | ⟨hbulk, rfl, hget⟩⟩ := take_cases h
  · rw [add_part]
    exact addParts_takeUnits (inOrder_iff.mp hs.sorted) (fun u hu => (hs.conditions u hu).2)
      hclean hle
  · rw [add_bulk hbulk]
    split
    next hzero =>
      rw [hzero, takeStock_zero fun item n hn => (hs.stocked item n hn).1]
    next hpos =>
      rw [hget] at hle
      have hmax : s.stock.getD item 0 ≤ u64Max := by
        unfold Table.getD
        cases hn : s.stock.get? item with
        | none => exact Nat.zero_le _
        | some n => exact (hs.stocked item n hn).2
      have hsum : U64.saturatingAdd ((takeStock s.stock item qty).getD item 0) qty
          = (takeStock s.stock item qty).getD item 0 + qty := by
        have htaken := getD_takeStock item hle
        rw [if_pos rfl] at htaken
        refine min_eq_left ?_
        rw [htaken]
        exact hmax
      have hback := update_takeStock hle hpos
      rw [Table.update] at hback ⊢
      dsimp only
      rw [hsum, hback]

theorem addPart_comm (s : Stores) (line line' : FrameId) (part part' : Part) :
    (s.addPart (.new line part)).addPart (.new line' part')
      = (s.addPart (.new line' part')).addPart (.new line part) := by
  have hkey (heq : (PartUnit.new line part).key = (PartUnit.new line' part').key) :
      PartUnit.new line part = .new line' part' :=
    eq_new_of_key (PartUnit.clean_new line part) heq
  exact congrArg (fun parts => { s with parts })
    (Shelf.insert_comm PartUnit.before_iff hkey s.parts)

theorem saturatingAdd_comm (n q r : ℕ) :
    U64.saturatingAdd (U64.saturatingAdd n q) r = U64.saturatingAdd (U64.saturatingAdd n r) q := by
  unfold U64.saturatingAdd
  omega

/-- It doesn't matter in which order goods are added. -/
theorem add_comm (item item' : Item) (qty qty' : ℕ) :
    Function.Commute (fun s => U64.add s item qty) (fun s => U64.add s item' qty') := by
  by_cases hbulk : ∀ line part, item ≠ .part line part
  · by_cases hbulk' : ∀ line part, item' ≠ .part line part
    · intro s
      simp only [add_bulk hbulk, add_bulk hbulk']
      split <;> split <;> first | rfl | skip
      dsimp only
      rw [Table.update_comm fun n => saturatingAdd_comm n qty' qty]
    · push Not at hbulk'
      obtain ⟨line', part', rfl⟩ := hbulk'
      simp only [add_part, add_bulk hbulk]
      refine Function.Commute.iterate_right (fun s => ?_) qty'
      split <;> rfl
  · push Not at hbulk
    obtain ⟨line, part, rfl⟩ := hbulk
    simp only [add_part]
    by_cases hbulk' : ∀ line part, item' ≠ .part line part
    · simp only [add_bulk hbulk']
      refine Function.Commute.iterate_left (fun s => ?_) qty
      split <;> rfl
    · push Not at hbulk'
      obtain ⟨line', part', rfl⟩ := hbulk'
      simp only [add_part]
      exact Function.Commute.iterate_iterate (fun s => addPart_comm s line' line part' part) _ _

theorem addAll_add (goods : List (Item × ℕ)) (times : ℕ) (item : Item) (qty : ℕ) (s : Stores) :
    U64.addAll (U64.add s item qty) goods times = U64.add (U64.addAll s goods times) item qty := by
  unfold U64.addAll
  induction goods generalizing s with
  | nil => rfl
  | cons e rest ih =>
    rw [List.foldl_cons, List.foldl_cons, ← ih]
    congr 1
    exact add_comm e.1 item (U64.saturatingMul e.2 times) qty s

theorem addAll_takeAll {needs : List (Item × ℕ)} {times : ℕ} (hs : s.Tidy)
    (hclean : ∀ u ∈ s.parts, u.Clean) (hroom : s.parts.length < 2 ^ 64)
    (hfits : ∀ item, asked needs times item ≤ s.get item)
    (h : U64.takeAll s needs times = some s') : U64.addAll s' needs times = s := by
  have hback : U64.addAll (needs.foldl (fun s e => (s.take e.1 (wrappingMul e.2 times)).getD s) s)
      needs times = s := by
    clear h
    induction needs generalizing s with
    | nil => rfl
    | cons e rest ih =>
      have hone : e.2 * times ≤ s.get e.1 := by
        have hitem := hfits e.1
        rw [asked_cons, if_pos rfl] at hitem
        omega
      have hmax : e.2 * times ≤ u64Max := hone.trans (get_le hs hroom e.1)
      have hwrap : wrappingMul e.2 times = e.2 * times :=
        wrappingMul_eq (Nat.lt_of_le_sub_one (by decide) hmax)
      obtain ⟨s₁, hs₁⟩ := take_of_le hone
      have hchanges : Changes PartUnit.Clean s s₁ := by
        have htake := Changes.refl (P := PartUnit.Clean) (s := s) |>.take e.1 (e.2 * times)
        rw [hs₁] at htake
        exact htake
      have hrest (item : Item) : asked rest times item ≤ s₁.get item := by
        have hitem := hfits item
        have hgot := get_take hs₁ item
        rw [asked_cons] at hitem
        omega
      have hlength : s₁.parts.length ≤ s.parts.length := by
        obtain ⟨-, ⟨line, part, -, rfl⟩ | ⟨-, rfl, -⟩⟩ := take_cases hs₁
        · dsimp only
          rw [takeUnits_eq]
          exact (iterate_eraseP_sublist _ _ _).length_le
        · exact le_rfl
      have hagain := ih (hs.changes hchanges) (clean_changes hchanges hclean)
        (hlength.trans_lt hroom) hrest
      have hsat : U64.saturatingMul e.2 times = e.2 * times := min_eq_left hmax
      rw [List.foldl_cons, hwrap, hs₁, Option.getD_some]
      have hfirst (x : Stores) : U64.addAll x (e :: rest) times
          = U64.add (U64.addAll x rest times) e.1 (e.2 * times) := by
        rw [← addAll_add, ← hsat]
        rfl
      rw [hfirst, hagain]
      exact add_take hs hclean hs₁
  unfold U64.takeAll at h
  split at h
  · cases h
  · rw [← Option.some.inj h]
    exact hback

/-- Where nothing is more than sixty-four bits hold, the quantities are exact. -/
theorem takeAll_eq {needs : List (Item × ℕ)} {times : ℕ}
    (h : ∀ e ∈ needs, e.2 * times ≤ u64Max) (s : Stores) :
    U64.takeAll s needs times = s.takeAll needs times := by
  have hhas : U64.hasAll s needs times = s.hasAll needs times := by
    unfold U64.hasAll hasAll
    induction needs with
    | nil => rfl
    | cons e rest ih =>
      rw [List.all_cons, List.all_cons, ih fun e he => h e (List.mem_cons_of_mem _ he),
        show U64.saturatingMul e.2 times = e.2 * times from min_eq_left (h e List.mem_cons_self)]
  have htakes (s : Stores) : needs.foldl (fun s e => (s.take e.1 (wrappingMul e.2 times)).getD s) s
      = needs.foldl (fun s e => (s.take e.1 (e.2 * times)).getD s) s := by
    clear hhas
    induction needs generalizing s with
    | nil => rfl
    | cons e rest ih =>
      rw [List.foldl_cons, List.foldl_cons, ih fun e he => h e (List.mem_cons_of_mem _ he),
        wrappingMul_eq (Nat.lt_of_le_sub_one (by decide) (h e List.mem_cons_self))]
  unfold U64.takeAll takeAll
  rw [hhas, htakes]

theorem add_eq (h : s.stock.getD item 0 + qty ≤ u64Max) : U64.add s item qty = s.add item qty := by
  unfold U64.add add
  split
  · rfl
  · split
    · rfl
    next =>
      have hsum : U64.saturatingAdd (s.stock.getD item 0) qty = s.stock.getD item 0 + qty :=
        min_eq_left h
      simp only [Table.update, hsum]

/-- Whatever has been done to the stores they keep their shape; an item is taken whole or not at all,
and a list of goods just when some entry is refused on its own or there is enough of every item for all
its entries together; and, if no part came with bits set for none of its systems, what is taken new
and added back leaves the stores as they were. -/
theorem stores_keep_shape {ops : List Op} (hroom : (empty.run ops).parts.length < 2 ^ 64) :
    (empty.run ops).Tidy ∧
    (∀ item qty, AllOrNothing (empty.run ops) (fun item' => if item' = item then qty else 0)
      ((empty.run ops).take item qty)) ∧
    (∀ needs times, AllOrNothing (empty.run ops) (asked needs times)
        (U64.takeAll (empty.run ops) needs times) ↔
      U64.hasAll (empty.run ops) needs times = false ∨
        ∀ item, asked needs times item ≤ (empty.run ops).get item) ∧
    ((∀ u, .addPart u ∈ ops → u.Clean) →
      (∀ item qty s', (empty.run ops).take item qty = some s' →
        U64.add s' item qty = empty.run ops) ∧
      ∀ needs times s', (∀ item, asked needs times item ≤ (empty.run ops).get item) →
        U64.takeAll (empty.run ops) needs times = some s' →
        U64.addAll s' needs times = empty.run ops) := by
  have htidy (s : Stores) (hs : s.Tidy) (ops : List Op) : (s.run ops).Tidy := by
    induction ops generalizing s with
    | nil => exact hs
    | cons op rest ih =>
      exact ih _ (hs.changes (step_changes (P := fun _ => True) (fun _ _ => trivial)
        (fun _ _ => trivial) s))
  have hclean (s : Stores) (hs : ∀ u ∈ s.parts, u.Clean) (ops : List Op)
      (hops : ∀ u, .addPart u ∈ ops → u.Clean) : ∀ u ∈ (s.run ops).parts, u.Clean := by
    induction ops generalizing s with
    | nil => exact hs
    | cons op rest ih =>
      refine ih _ (clean_changes (step_changes PartUnit.clean_new (fun u hu => ?_) s) hs)
        fun u hu => hops u (List.mem_cons_of_mem _ hu)
      exact hops u (hu ▸ List.mem_cons_self)
  have hs := htidy empty tidy_empty ops
  refine ⟨hs, take_allOrNothing _, takeAll_iff hs hroom, fun hops => ?_⟩
  have hparts := hclean empty (fun u hu => by cases hu) ops hops
  exact ⟨fun item qty s' h => add_take hs hparts h,
    fun needs times s' hfits h => addAll_takeAll hs hparts hroom hfits h⟩

theorem stores_keep_shape_steel :
    let s := empty.run [.add (.material .steel) 7, .addPart (.new .argo .head)]
    AllOrNothing s (asked [(.material .steel, 3)] 2) (U64.takeAll s [(.material .steel, 3)] 2) ↔
      U64.hasAll s [(.material .steel, 3)] 2 = false ∨
        ∀ item, asked [(.material .steel, 3)] 2 item ≤ s.get item :=
  (stores_keep_shape (by decide)).2.2.1 _ _

/-- Five of steel and five more, of seven: five are taken. And a new part taken and put back stands
behind one like it with a bit set for no system. -/
theorem takes_five_of_ten :
    let seven := empty.run [.add (.material .steel) 7]
    let fives := [(Item.material .steel, 5), (Item.material .steel, 5)]
    let heads := empty.run [.addPart (.new .argo .head), .addPart ⟨.argo, .head, 100, ⟨2 ^ 24⟩⟩]
    ((U64.takeAll seven fives 1).map fun s => s.get (.material .steel)) = some 2 ∧
      ¬ AllOrNothing seven (asked fives 1) (U64.takeAll seven fives 1) ∧
      ((heads.take (.part .argo .head) 1).map fun s =>
        decide ((U64.add s (.part .argo .head) 1).parts = heads.parts)) = some false := by
  refine ⟨by decide, ?_, by decide⟩
  intro h
  have hsteel := h.1 (.material .steel)
  revert hsteel
  decide

end Stores

end BeforeColony
