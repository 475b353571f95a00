import BeforeColony.Econ.Escrow

/-!
# A pilot's hangar, as the exchange and the board see it

The credits, the stores, and the requests that reach the exchange. Stores count bulk
goods, weapons, modules and kits by quantity and parts one by one, each with its condition
and its faults; only parts as good as new trade. Quantities are exact.
-/

set_option autoImplicit false

namespace BeforeColony

open Lib Catalogue

structure Faults where
  word : ℕ
  deriving DecidableEq, Repr

namespace Faults

def none : Faults := ⟨0⟩

def systems : ℕ := 12

def failed : ℕ := 2

def isEmpty (f : Faults) : Bool := f.word = 0

def level (f : Faults) (sys : ℕ) : ℕ := min (f.word >>> (2 * sys) % 4) failed

def count (f : Faults) : ℕ := (List.range systems).countP fun s => f.level s ≠ 0

end Faults

structure PartUnit where
  line : FrameId
  part : Part
  condition : ℕ
  faults : Faults
  deriving DecidableEq, Repr

namespace PartUnit

def new (line : FrameId) (part : Part) : PartUnit := ⟨line, part, 100, Faults.none⟩

def item (u : PartUnit) : Item := .part u.line u.part

def isNew (u : PartUnit) : Bool := 100 ≤ u.condition && u.faults.isEmpty

/-- `u` stands before `v` on the shelf: by item, the best condition and the fewest faults
first. -/
def before (u v : PartUnit) : Prop :=
  u.item < v.item
    ∨ u.item = v.item ∧ (v.condition < u.condition
      ∨ v.condition = u.condition ∧ u.faults.count < v.faults.count)

instance : DecidableRel before := fun _ _ => inferInstanceAs (Decidable (_ ∨ _))

end PartUnit

structure Stores where
  stock : Table Item ℕ
  parts : List PartUnit

namespace Stores

def empty : Stores := ⟨Table.empty, []⟩

def newUnit (line : FrameId) (part : Part) (u : PartUnit) : Bool :=
  u.line = line && u.part = part && u.isNew

/-- How much of an item there is; of a part, how many new ones. -/
def get (s : Stores) : Item → ℕ
  | .part line part => s.parts.countP (newUnit line part)
  | item => s.stock.getD item 0

def has (s : Stores) (item : Item) (qty : ℕ) : Bool := qty ≤ s.get item

def addPart (s : Stores) (u : PartUnit) : Stores :=
  let u := { u with condition := max 1 (min u.condition 100) }
  { s with parts := s.parts.orderedInsert PartUnit.before u }

def add (s : Stores) (item : Item) (qty : ℕ) : Stores :=
  if qty = 0 then s
  else
    match item with
    | .part line part => (List.range qty).foldl (fun s _ => s.addPart (.new line part)) s
    | item => { s with stock := s.stock.update item 0 (· + qty) }

/-- Takes from the stock of a bulk good or a piece, leaving no empty entry. -/
def takeStock (stock : Table Item ℕ) (item : Item) (qty : ℕ) : Table Item ℕ :=
  match stock.get? item with
  | none => stock
  | some n => if n - qty = 0 then stock.erase item else stock.insert item (n - qty)

def takeUnits (p : PartUnit → Bool) (qty : ℕ) (parts : List PartUnit) : List PartUnit :=
  (List.range qty).foldl (fun l _ => l.eraseP p) parts

def take (s : Stores) (item : Item) (qty : ℕ) : Option Stores :=
  if ¬ s.has item qty then none
  else
    match item with
    | .part line part => some { s with parts := takeUnits (newUnit line part) qty s.parts }
    | item => some { s with stock := takeStock s.stock item qty }

def addAll (s : Stores) (goods : Table Item ℕ) : Stores :=
  goods.entries.foldl (fun s e => s.add e.1 e.2) s

theorem newUnit_iff {line : FrameId} {part : Part} {u : PartUnit} :
    newUnit line part u = true ↔ u.line = line ∧ u.part = part ∧ u.isNew = true := by
  simp [newUnit, and_assoc]

theorem get_addPart (s : Stores) (line : FrameId) (part : Part) (item : Item) :
    (s.addPart (.new line part)).get item = s.get item + if item = .part line part then 1 else 0 := by
  have hperm := List.perm_orderedInsert PartUnit.before (PartUnit.new line part) s.parts
  cases item with
  | part line' part' =>
    have hcount := hperm.countP_eq (newUnit line' part')
    rw [List.countP_cons] at hcount
    have hnew : newUnit line' part' (PartUnit.new line part) = true
        ↔ Item.part line' part' = .part line part := by
      rw [newUnit_iff, Item.part.injEq]
      constructor
      · intro h
        exact ⟨h.1.symm, h.2.1.symm⟩
      · intro h
        exact ⟨h.1.symm, h.2.symm, rfl⟩
    simp only [hnew] at hcount
    exact hcount
  | _ => rfl

theorem get_add (s : Stores) (item : Item) (qty : ℕ) (item' : Item) :
    (s.add item qty).get item' = s.get item' + if item' = item then qty else 0 := by
  unfold add
  by_cases hq : qty = 0
  · simp [hq]
  · rw [if_neg hq]
    cases item with
    | part line part =>
      have hfold (l : List ℕ) (s : Stores) :
          (l.foldl (fun s _ => s.addPart (.new line part)) s).get item'
            = s.get item' + if item' = .part line part then l.length else 0 := by
        induction l generalizing s with
        | nil => simp
        | cons x rest ih =>
          rw [List.foldl_cons, ih, get_addPart, List.length_cons]
          split <;> omega
      simpa using hfold (List.range qty) s
    | _ =>
      cases item' with
      | part line' part' => simp [get]
      | _ => simp only [get, Table.getD_update]; split <;> simp_all

theorem get_addAll (s : Stores) (goods : Table Item ℕ) (item : Item) :
    (s.addAll goods).get item = s.get item + goods.getD item 0 := by
  have htotal : goods.getD item 0
      = Table.total (fun k n => if item = k then n else 0) goods := by
    have herase := Table.total_erase (fun k n => if item = k then n else 0) goods item
    rw [Table.at?_eq_getD (d := 0) (by simp), if_pos rfl] at herase
    have hzero : Table.total (fun k n => if item = k then n else 0) (goods.erase item) = 0 := by
      have hcongr := Table.total_congr (t := goods.erase item)
        (f := fun k n => if item = k then n else 0) fun k v hk => show _ = 0 by
          rw [Table.get?_erase] at hk
          split at hk
          · cases hk
          · rename_i hne
            exact if_neg (Ne.symm hne)
      rw [hcongr]
      simp [Table.total]
    omega
  rw [htotal]
  unfold addAll Table.total
  induction goods.entries generalizing s with
  | nil => simp
  | cons e rest ih =>
    rw [List.foldl_cons, ih, get_add, List.map_cons, List.sum_cons, add_assoc]

theorem countP_takeUnits {p : PartUnit → Bool} {qty : ℕ} {parts : List PartUnit}
    (h : qty ≤ parts.countP p) : (takeUnits p qty parts).countP p + qty = parts.countP p := by
  have hfold (l : List ℕ) (ps : List PartUnit) (hl : l.length ≤ ps.countP p) :
      (l.foldl (fun l _ => l.eraseP p) ps).countP p + l.length = ps.countP p := by
    induction l generalizing ps with
    | nil => rfl
    | cons x rest ih =>
      rw [List.length_cons] at hl
      obtain ⟨a, ha, hpa⟩ := List.countP_pos_iff.mp ((Nat.succ_pos _).trans_le hl)
      obtain ⟨b, l₁, l₂, -, hb, hsplit, he⟩ := List.exists_of_eraseP ha hpa
      have hcount : (ps.eraseP p).countP p + 1 = ps.countP p := by
        rw [he, hsplit, List.countP_append, List.countP_append, List.countP_cons, hb, if_pos rfl]
        omega
      have := ih (ps.eraseP p) (by omega)
      rw [List.foldl_cons, List.length_cons]
      omega
  simpa [takeUnits] using hfold (List.range qty) parts (by simpa using h)

theorem countP_takeUnits_of_ne {p q : PartUnit → Bool} (qty : ℕ) (parts : List PartUnit)
    (h : ∀ u, p u = true → q u = false) :
    (takeUnits p qty parts).countP q = parts.countP q := by
  unfold takeUnits
  induction List.range qty generalizing parts with
  | nil => rfl
  | cons x rest ih =>
    rw [List.foldl_cons, ih]
    rcases List.exists_or_eq_self_of_eraseP p parts with he | ⟨a, l₁, l₂, -, ha, hl, he⟩
    · rw [he]
    · rw [he, hl, List.countP_append, List.countP_append, List.countP_cons, h a ha]
      simp

theorem getD_takeStock {stock : Table Item ℕ} {item : Item} {qty : ℕ} (item' : Item)
    (h : qty ≤ stock.getD item 0) :
    (takeStock stock item qty).getD item' 0 + (if item' = item then qty else 0)
      = stock.getD item' 0 := by
  unfold takeStock
  cases hn : stock.get? item with
  | none =>
    simp only [Table.getD, hn, Option.getD_none] at h ⊢
    split <;> omega
  | some n =>
    simp only [Table.getD, hn, Option.getD_some] at h
    by_cases hz : n - qty = 0
    · simp only [hz, if_true, Table.getD, Table.get?_erase]
      by_cases hi : item' = item
      · simp only [hi, if_true, hn, Option.getD_none, Option.getD_some]
        omega
      · simp [hi]
    · simp only [hz, if_false, Table.getD, Table.get?_insert]
      by_cases hi : item' = item
      · simp only [hi, if_true, hn, Option.getD_some]
        omega
      · simp [hi]

theorem get_take {s s' : Stores} {item : Item} {qty : ℕ} (h : s.take item qty = some s')
    (item' : Item) :
    s'.get item' + (if item' = item then qty else 0) = s.get item' := by
  unfold take at h
  split at h
  · cases h
  · rename_i hhas
    have hle : qty ≤ s.get item := by simpa [has] using hhas
    cases item with
    | part line part =>
      rw [← Option.some.inj h]
      cases item' with
      | part line' part' =>
        by_cases he : Item.part line' part' = .part line part
        · obtain ⟨rfl, rfl⟩ := Item.part.inj he
          rw [if_pos rfl]
          exact countP_takeUnits hle
        · rw [if_neg he]
          refine countP_takeUnits_of_ne qty s.parts fun u hu => ?_
          rw [newUnit_iff] at hu
          refine Bool.eq_false_iff.mpr fun hc => he ?_
          rw [newUnit_iff] at hc
          rw [← hc.1, ← hc.2.1, hu.1, hu.2.1]
      | _ => simp [get]
    | _ =>
      rw [← Option.some.inj h]
      cases item' with
      | part line' part' => simp [get]
      | _ => exact getD_takeStock _ hle

theorem has_of_take {s s' : Stores} {item : Item} {qty : ℕ} (h : s.take item qty = some s') :
    qty ≤ s.get item := by
  unfold take at h
  split at h
  · cases h
  · rename_i hhas
    simpa [has] using hhas

end Stores

structure Line where
  what : String
  cr : ℤ
  deriving DecidableEq, Repr

structure Hangar where
  credits : ℕ
  stores : Stores
  certified : Bool
  sortiePay : List Line

namespace Hangar

def empty : Hangar := ⟨0, Stores.empty, false, []⟩

/-- How a request went: what to tell the pilot, or why it was refused. -/
abbrev Done := Except String String

def i64Max : ℕ := 2 ^ 63 - 1

def boardPaid (h : Hangar) (what : String) (cr : ℕ) : Hangar :=
  if 0 < cr then { h with sortiePay := h.sortiePay ++ [⟨what, (min cr i64Max : ℕ)⟩] } else h

def receive (h : Hangar) (a : Account) : Hangar :=
  { h with credits := h.credits + a.credits, stores := h.stores.addAll a.goods }

def collect (h : Hangar) (ex : Exchange) (trader : Trader) :
    Hangar × Exchange × List String :=
  let (ex, a) := ex.collect trader
  (h.receive a, ex, a.notes)

def shortText (h : Hangar) (item : Item) : String :=
  match item with
  | .part _ _ => s!"you have {h.stores.get item} new {item.name} to sell"
  | _ => s!"you have {item.amount (h.stores.get item)} {item.name} to sell"

/-- Hands over what an order needs: a sell's goods, a buy's credits. -/
def handOver (h : Hangar) (item : Item) (side : Side) (price qty : ℕ) :
    Except String (Hangar × ℕ) :=
  match side with
  | .sell =>
    match h.stores.take item qty with
    | none => .error (h.shortText item)
    | some stores => .ok ({ h with stores }, 0)
  | .buy =>
    let e := Exchange.escrowFor item price qty
    if h.credits < e then .error s!"that needs {e} cr, and you have {h.credits}"
    else .ok ({ h with credits := h.credits - e }, e)

/-- Hands a refused order's goods or credits straight back. -/
def takeBack (h : Hangar) (item : Item) (side : Side) (qty escrow : ℕ) : Hangar :=
  match side with
  | .sell => { h with stores := h.stores.add item qty }
  | .buy => { h with credits := h.credits + escrow }

def placedNotes (ex : Exchange) (trader : Trader) (item : Item) (placed : Placed) :
    List String :=
  match placed.resting with
  | some id =>
    let left := ((ex.orders trader).find? fun o => o.id = id).elim 0 Order.qty
    [s!"ORDER #{id} WAITING: {item.amount left} {item.name}"]
  | none => if placed.fills.isEmpty then ["NOTHING MATCHED"] else []

/-- Places an order, handing over its escrow, and collects whatever filled at once. -/
def trade (p : Platform) (h : Hangar) (ex : Exchange) (trader : Trader) (item : Item)
    (side : Side) (price qty : ℕ) (rest : Bool) : Hangar × Exchange × Done :=
  if ¬ item.valid then (h, ex, .error "no such item")
  else
    match h.handOver item side price qty with
    | .error why => (h, ex, .error why)
    | .ok (paid, escrow) =>
      match ex.place p trader item side price qty escrow rest with
      | (ex, .ok placed) =>
        let (h, ex, notes) := paid.collect ex trader
        (h, ex, .ok (" · ".intercalate (notes ++ placedNotes ex trader item placed)))
      | (ex, .error why) => (paid.takeBack item side qty escrow, ex, .error why.text)

end Hangar

end BeforeColony
