import BeforeColony.Econ.CraftLedger

/-!
# What mending takes and what scrap gives back

A part is mended to the furthest its materials allow. What that takes is a share of the part's recipe
rounded up and what scrap gives back another rounded down, so neither mending in steps nor mending
before scrapping gains anything.
-/

set_option autoImplicit false

namespace BeforeColony

open Lib Catalogue

/-! ## Shares of a recipe -/

theorem amountIn_share (item : Item) (goods : List (Item × ℕ)) (share : ℕ → ℕ) :
    amountIn item ((goods.map fun e => (e.1, share e.2)).filter fun e => 0 < e.2)
      = (goods.map fun e => if e.1 = item then share e.2 else 0).sum := by
  induction goods with
  | nil => rfl
  | cons e rest ih =>
    rw [List.map_cons, List.map_cons, List.sum_cons, ← ih]
    by_cases hpos : 0 < share e.2
    · rw [List.filter_cons_of_pos (by simpa using hpos)]
      simp [amountIn]
    · have hzero : share e.2 = 0 := Nat.eq_zero_of_not_pos hpos
      rw [List.filter_cons_of_neg (by simpa using hpos)]
      simp [hzero]

/-- A share that is never more than two others add up to, over a whole recipe. -/
theorem sum_share_le (item : Item) (goods : List (Item × ℕ)) {f g g' : ℕ → ℕ}
    (h : ∀ qty, f qty ≤ g qty + g' qty) :
    (goods.map fun e => if e.1 = item then f e.2 else 0).sum
      ≤ (goods.map fun e => if e.1 = item then g e.2 else 0).sum
        + (goods.map fun e => if e.1 = item then g' e.2 else 0).sum := by
  rw [← List.sum_map_add]
  apply List.sum_le_sum
  intro e _
  split
  · exact h e.2
  · exact Nat.zero_le _

/-- Of a quantity, what a part's mending takes. -/
def mendShare (missing qty : ℕ) : ℕ := (qty * missing * 60 + (100 * 100 - 1)) / (100 * 100)

def scrapShare (condition qty : ℕ) : ℕ := qty * condition * 50 / (100 * 100)

theorem mendShare_add_le (a b qty : ℕ) :
    mendShare (a + b) qty ≤ mendShare a qty + mendShare b qty := by
  have hsplit : qty * (a + b) * 60 = qty * a * 60 + qty * b * 60 := by ring
  unfold mendShare
  omega

/-- What a part gains as scrap by being mended is no more than the mending takes. -/
theorem scrapShare_add_le (worn missing qty : ℕ) :
    scrapShare (worn + missing) qty ≤ scrapShare worn qty + mendShare missing qty := by
  have hsplit : qty * (worn + missing) * 50 = qty * worn * 50 + qty * missing * 50 := by ring
  have hmore : qty * missing * 60 = qty * missing * 50 + qty * missing * 10 := by ring
  unfold scrapShare mendShare
  omega

theorem amountIn_repairCost {line : FrameId} {part : Part} {r : Recipe}
    (hr : recipe (.part line part) = some r) {worn mended : ℕ} (hle : mended ≤ 100) (item : Item) :
    amountIn item (repairCost line part worn mended)
      = (r.inputs.map fun e => if e.1 = item then mendShare (mended - worn) e.2 else 0).sum := by
  have hmin : min (mended - worn) 100 = mended - worn := by omega
  rw [repairCost, hr]
  dsimp only
  rw [hmin]
  exact amountIn_share item r.inputs (mendShare (mended - worn))

theorem amountIn_scrapYield {line : FrameId} {part : Part} {r : Recipe}
    (hr : recipe (.part line part) = some r) {condition : ℕ} (hle : condition ≤ 100) (item : Item) :
    amountIn item (scrapYield (.part line part) condition)
      = (r.inputs.map fun e => if e.1 = item then scrapShare condition e.2 else 0).sum := by
  rw [scrapYield, hr]
  simp only [Item.bulk, Bool.false_eq_true, if_false, Nat.min_eq_left hle]
  exact amountIn_share item r.inputs (scrapShare condition)

theorem repairCost_self (line : FrameId) (part : Part) (worn : ℕ) :
    repairCost line part worn worn = [] := by
  unfold repairCost
  cases recipe (.part line part) with
  | none => rfl
  | some r =>
    refine List.filter_eq_nil_iff.mpr fun e he => ?_
    obtain ⟨given, -, rfl⟩ := List.mem_map.mp he
    simp

theorem repairCost_split (line : FrameId) (part : Part) {worn between mended : ℕ}
    (h : worn ≤ between) (h' : between ≤ mended) (hle : mended ≤ 100) (item : Item) :
    amountIn item (repairCost line part worn mended)
      ≤ amountIn item (repairCost line part worn between)
        + amountIn item (repairCost line part between mended) := by
  cases hr : recipe (.part line part) with
  | none =>
    rw [repairCost, hr]
    exact Nat.zero_le _
  | some r =>
    rw [amountIn_repairCost hr hle, amountIn_repairCost hr hle,
      amountIn_repairCost hr (h'.trans hle)]
    apply sum_share_le
    intro qty
    have hsum : mended - worn = (between - worn) + (mended - between) := by omega
    rw [hsum]
    exact mendShare_add_le _ _ qty

theorem scrapYield_mended (line : FrameId) (part : Part) {worn mended : ℕ} (h : worn ≤ mended)
    (hle : mended ≤ 100) (item : Item) :
    amountIn item (scrapYield (.part line part) mended)
      ≤ amountIn item (scrapYield (.part line part) worn)
        + amountIn item (repairCost line part worn mended) := by
  cases hr : recipe (.part line part) with
  | none =>
    rw [scrapYield, hr]
    exact Nat.zero_le _
  | some r =>
    rw [amountIn_scrapYield hr hle, amountIn_scrapYield hr (h.trans hle), amountIn_repairCost hr hle]
    apply sum_share_le
    intro qty
    have hsum : mended = worn + (mended - worn) := by omega
    rw [hsum, Nat.add_sub_cancel_left]
    exact scrapShare_add_le _ _ qty

/-- What mending from `worn` through each of these conditions takes of an item. -/
def stepsCost (line : FrameId) (part : Part) (item : Item) : ℕ → List ℕ → ℕ
  | _, [] => 0
  | worn, next :: rest =>
    amountIn item (repairCost line part worn next) + stepsCost line part item next rest

/-- However it is split, mending costs no less than at once. -/
theorem repairCost_steps (line : FrameId) (part : Part) (item : Item) {worn : ℕ} {steps : List ℕ}
    (hsteps : (worn :: steps).Pairwise (· ≤ ·)) (hle : ∀ c ∈ steps, c ≤ 100) :
    amountIn item (repairCost line part worn (steps.getLastD worn))
      ≤ stepsCost line part item worn steps := by
  induction steps generalizing worn with
  | nil =>
    rw [List.getLastD_nil, repairCost_self]
    exact Nat.zero_le _
  | cons next rest ih =>
    obtain ⟨hworn, hrest⟩ := List.pairwise_cons.mp hsteps
    have hlater := ih hrest fun c hc => hle c (List.mem_cons_of_mem _ hc)
    have hlast : rest.getLastD next ∈ next :: rest := by
      rw [List.getLastD_eq_getLast?]
      cases hl : rest.getLast? with
      | none => exact List.mem_cons_self
      | some c => exact List.mem_cons_of_mem _ (List.mem_of_getLast? hl)
    have hge : next ≤ rest.getLastD next := by
      rcases List.mem_cons.mp hlast with heq | hmem
      · exact heq.ge
      · exact (List.pairwise_cons.mp hrest).1 _ hmem
    rw [stepsCost, List.getLastD_cons]
    refine (repairCost_split line part (hworn next List.mem_cons_self) hge (hle _ hlast) item).trans ?_
    exact Nat.add_le_add_left hlater _

/-! ## Mending a part -/

structure Furthest (stores : Stores) (line : FrameId) (part : Part) (worn mended : ℕ) : Prop where
  worn_le : worn ≤ mended
  le : mended ≤ 100
  afford : worn < mended → stores.hasAll (repairCost line part worn mended) 1 = true
  beyond : ∀ further, mended < further → further ≤ 100 →
    stores.hasAll (repairCost line part worn further) 1 = false

namespace PilotHangar

theorem furthest_spec (afford : ℕ → Bool) {worn n : ℕ} (h : worn ≤ n) :
    worn ≤ furthest afford worn n ∧ furthest afford worn n ≤ n
      ∧ (worn < furthest afford worn n → afford (furthest afford worn n) = true)
      ∧ ∀ m, furthest afford worn n < m → m ≤ n → afford m = false := by
  induction n with
  | zero =>
    rw [furthest]
    exact ⟨h, le_rfl, fun hlt => absurd hlt (Nat.not_lt_zero _), fun m hm hle => absurd hm (by omega)⟩
  | succ n ih =>
    rw [furthest]
    by_cases hstop : (decide (worn < n + 1) && ! afford (n + 1)) = true
    · rw [if_pos hstop]
      rw [Bool.and_eq_true, decide_eq_true_eq, Bool.not_eq_true'] at hstop
      obtain ⟨hlow, hhigh, hpaid, hrest⟩ := ih (by omega)
      refine ⟨hlow, hhigh.trans (Nat.le_succ n), hpaid, fun m hm hle => ?_⟩
      rcases Nat.lt_or_ge n m with hlast | hearlier
      · rw [show m = n + 1 by omega]
        exact hstop.2
      · exact hrest m hm hearlier
    · rw [if_neg hstop]
      refine ⟨h, le_rfl, fun hlt => ?_, fun m hm hle => absurd hm (by omega)⟩
      rw [Bool.and_eq_true, decide_eq_true_eq, Bool.not_eq_true', not_and] at hstop
      exact Bool.eq_true_of_not_eq_false (hstop hlt)

variable {h : PilotHangar} {suit : Suit} {part : Part} {worn : ℕ}

theorem once_repairCost (line : FrameId) (part : Part) (worn mended : ℕ) :
    ((repairCost line part worn mended).map Prod.fst).Nodup := by
  unfold repairCost
  cases hr : recipe (.part line part) with
  | none => exact .nil
  | some r =>
    have honce := (recipe_sound hr).once
    refine (List.filter_sublist.map Prod.fst).nodup ?_
    rw [List.map_map]
    exact honce

structure Mends (h : PilotHangar) (suit : Suit) (part : Part) (worn : ℕ) (h' : PilotHangar)
    (mended : ℕ) : Prop where
  furthest : Furthest h.stores suit.line part worn mended
  bay : h'.bay = .docked { suit with parts := Function.update suit.parts part (some mended) }
  stores : ∀ item, h'.stores.get item + (if worn < mended then
      amountIn item (repairCost suit.line part worn mended) else 0) = h.stores.get item

theorem repairPart_mends (hbay : h.bay = .docked suit) (hpart : suit.parts part = some worn)
    (hle : worn ≤ 100) (fixed : List String) (short : Bool) :
    ∃ mended, Mends h suit part worn (repairPart suit (h, fixed, short) part).1 mended := by
  have hsuit : h.suit = .ok suit := by rw [PilotHangar.suit, hbay]
  obtain ⟨hlow, hhigh, hpaid, hbeyond⟩ :=
    furthest_spec (fun n => h.stores.hasAll (repairCost suit.line part worn n) 1) hle
  refine ⟨_, ⟨hlow, hhigh, hpaid, hbeyond⟩, ?_, ?_⟩
  · unfold repairPart
    simp only [hpart, hsuit]
    split
    · rfl
    · rename_i hsame
      have heq : furthest (fun n => h.stores.hasAll (repairCost suit.line part worn n) 1) worn 100
          = worn := le_antisymm (not_lt.mp hsame) hlow
      rw [heq, ← hpart, Function.update_eq_self, hbay]
  · intro item
    unfold repairPart
    simp only [hpart, hsuit]
    split
    · rename_i hmore
      obtain ⟨stores, htaken⟩ : ∃ stores, h.stores.takeAll (repairCost suit.line part worn
          (furthest (fun n => h.stores.hasAll (repairCost suit.line part worn n) 1) worn 100)) 1
            = some stores := by
        rw [Stores.takeAll, if_neg (not_not.mpr (hpaid hmore))]
        exact ⟨_, rfl⟩
      have hget := Stores.get_takeAll (once_repairCost _ _ _ _) htaken item
      rw [Nat.mul_one] at hget
      rw [htaken]
      exact hget
    · rfl

/-- Mending goes by a part's own wear and its suit's line alone. -/
theorem repairPart_congr {as : Suit} (hparts : as.parts part = suit.parts part)
    (hline : as.line = suit.line) (st : PilotHangar × List String × Bool) :
    repairPart as st part = repairPart suit st part := by
  unfold repairPart
  rw [hparts, hline]

theorem repairPart_fst (h : PilotHangar) (suit : Suit) (part : Part) (fixed : List String)
    (short : Bool) :
    (repairPart suit (h, fixed, short) part).1 = (repairPart suit (h, [], false) part).1 := by
  unfold repairPart
  dsimp only
  split
  · rfl
  · split
    · rfl
    · split <;> rfl

theorem repair_some (hbay : h.bay = .docked suit) :
    (h.repair (some part)).1 = (repairPart suit (h, [], false) part).1 := by
  have hsuit : h.suit = .ok suit := by rw [PilotHangar.suit, hbay]
  unfold repair
  rw [hsuit]
  dsimp only
  rw [apply_ite Prod.fst, ite_self]
  rfl

theorem repair_none (hbay : h.bay = .docked suit) :
    (h.repair none).1
      = ((suit.fitted.map Prod.fst).foldl (repairPart suit) (h, [], false)).1 := by
  have hsuit : h.suit = .ok suit := by rw [PilotHangar.suit, hbay]
  unfold repair
  rw [hsuit]
  dsimp only
  rw [apply_ite Prod.fst, ite_self]

theorem bay_repairPart (hbay : h.bay = .docked suit) (fixed : List String) (short : Bool) :
    ∃ suit', (repairPart suit (h, fixed, short) part).1.bay = .docked suit'
      ∧ suit'.line = suit.line ∧ ∀ other, other ≠ part → suit'.parts other = suit.parts other := by
  have hsuit : h.suit = .ok suit := by rw [PilotHangar.suit, hbay]
  unfold repairPart
  dsimp only
  split
  · exact ⟨suit, hbay, rfl, fun _ _ => rfl⟩
  · rw [hsuit]
    dsimp only
    split
    · exact ⟨_, rfl, rfl, fun other hother => Function.update_of_ne hother _ _⟩
    · exact ⟨suit, hbay, rfl, fun _ _ => rfl⟩

theorem repairParts_eq {as : Suit} {parts : List Part} (honce : parts.Nodup)
    (hbay : h.bay = .docked suit) (hline : as.line = suit.line)
    (hparts : ∀ part ∈ parts, as.parts part = suit.parts part) (fixed : List String) (short : Bool) :
    (parts.foldl (repairPart as) (h, fixed, short)).1
      = parts.foldl (fun h part => (h.repair (some part)).1) h := by
  induction parts generalizing h suit fixed short with
  | nil => rfl
  | cons part rest ih =>
    obtain ⟨hnew, hrest⟩ := List.nodup_cons.mp honce
    have hone := repairPart_congr (hparts part List.mem_cons_self) hline (h, fixed, short)
    obtain ⟨suit', hbay', hline', hother⟩ :
        ∃ suit', (repairPart suit (h, fixed, short) part).1.bay = .docked suit' ∧ suit'.line = suit.line
          ∧ ∀ other, other ≠ part → suit'.parts other = suit.parts other :=
      bay_repairPart hbay fixed short
    rw [List.foldl_cons, List.foldl_cons, hone, repair_some hbay, ← repairPart_fst h suit part fixed short]
    apply ih hrest hbay' (hline.trans hline'.symm)
    intro other hmem
    rw [hother other fun heq => hnew (heq ▸ hmem)]
    exact hparts other (List.mem_cons_of_mem _ hmem)

theorem once_fitted (suit : Suit) : (suit.fitted.map Prod.fst).Nodup := by
  have hall : Part.all.Nodup := by decide
  rw [Suit.fitted, List.map_filterMap]
  refine hall.filterMap fun p p' q hq hq' => ?_
  have hfst (r : Part) (hr : q ∈ ((suit.parts r).map fun c => (r, c)).map Prod.fst) : r = q := by
    rw [Option.map_map, Option.mem_map] at hr
    obtain ⟨c, -, heq⟩ := hr
    exact heq
  exact (hfst p hq).trans (hfst p' hq').symm

/-- Repair and scrap mint nothing: a part is mended to the furthest its materials allow, each of
several after the other, and they are what it takes; mending in steps takes no less of any material;
and scrap of a mended part is no more than of the part as it was and what the mending took. -/
theorem repair_and_scrap_mint_nothing (line : FrameId) (part : Part) {worn : ℕ} (hworn : worn ≤ 100) :
    (∀ (h : PilotHangar) (suit : Suit), h.bay = .docked suit → suit.line = line →
      suit.parts part = some worn → ∃ mended, Mends h suit part worn (h.repair (some part)).1 mended)
    ∧ (∀ (h : PilotHangar) (suit : Suit), h.bay = .docked suit → (h.repair none).1
      = (suit.fitted.map Prod.fst).foldl (fun h part => (h.repair (some part)).1) h)
    ∧ (∀ steps : List ℕ, (worn :: steps).Pairwise (· ≤ ·) → (∀ c ∈ steps, c ≤ 100) → ∀ item,
      amountIn item (repairCost line part worn (steps.getLastD worn))
        ≤ stepsCost line part item worn steps)
    ∧ ∀ mended, worn ≤ mended → mended ≤ 100 → ∀ item,
      amountIn item (scrapYield (.part line part) mended)
        ≤ amountIn item (scrapYield (.part line part) worn)
          + amountIn item (repairCost line part worn mended) := by
  refine ⟨?_, ?_, ?_, ?_⟩
  · intro h suit hbay _ hpart
    rw [repair_some hbay]
    exact repairPart_mends hbay hpart hworn [] false
  · intro h suit hbay
    rw [repair_none hbay]
    exact repairParts_eq (once_fitted suit) hbay rfl (fun _ _ => rfl) [] false
  · intro steps hsteps hle item
    exact repairCost_steps line part item hsteps hle
  · intro mended hmore hle item
    exact scrapYield_mended line part hmore hle item

/-- The worn suit a new pilot has, its torso mended from 60 % in two steps. -/
theorem repair_and_scrap_mint_nothing_torso : amountIn steel (repairCost .argo .torso 60 100)
    ≤ stepsCost .argo .torso steel 60 [75, 100] :=
  (repair_and_scrap_mint_nothing .argo .torso (by decide)).2.2.1 [75, 100] (by decide) (by decide) steel

end PilotHangar

end BeforeColony
