import BeforeColony.Econ.Priority

/-!
# Escrow always covers

A resting buy holds at least what the rest of it can cost, and a match never takes more
than was handed over. The floors of the parts of an order never add up to more than the
floor of the whole (`worth_add_le`), so what is left of an order after a fill is still
covered by what is left of its escrow (`worth_rest_le`).
-/

set_option autoImplicit false

namespace BeforeColony

open Lib Catalogue

namespace Catalogue

def exactWorth (item : Item) (price qty : ℕ) : ℕ :=
  if item.bulk then price * qty / 1000 else price * qty

theorem worth_eq (item : Item) (price qty : ℕ) :
    worth item price qty = min (exactWorth item price qty) u64Max := rfl

theorem worth_le_exact (item : Item) (price qty : ℕ) :
    worth item price qty ≤ exactWorth item price qty :=
  min_le_left _ _

theorem worth_eq_exact {item : Item} {price qty : ℕ} (h : worth item price qty < u64Max) :
    worth item price qty = exactWorth item price qty := by
  rw [worth_eq] at h ⊢
  omega

@[simp] theorem exactWorth_zero (item : Item) (price : ℕ) : exactWorth item price 0 = 0 := by
  simp [exactWorth]

theorem exactWorth_mono {item : Item} {price price' qty : ℕ} (h : price ≤ price') :
    exactWorth item price qty ≤ exactWorth item price' qty := by
  have hmul := Nat.mul_le_mul_right qty h
  unfold exactWorth
  split
  · exact Nat.div_le_div_right hmul
  · exact hmul

theorem worth_mono {item : Item} {price price' qty : ℕ} (h : price ≤ price') :
    worth item price qty ≤ worth item price' qty :=
  min_le_min_right _ (exactWorth_mono h)

/-- The floors of the parts never exceed the floor of the whole. -/
theorem exactWorth_add_le (item : Item) (price a b : ℕ) :
    exactWorth item price a + exactWorth item price b ≤ exactWorth item price (a + b) := by
  unfold exactWorth
  rw [Nat.mul_add]
  split
  · omega
  · exact le_rfl

theorem worth_le_of_le {item : Item} {price qty whole escrow : ℕ} (hq : qty ≤ whole)
    (h : worth item price whole ≤ escrow) (he : escrow < u64Max) :
    worth item price qty ≤ escrow := by
  have hwhole := worth_eq_exact (h.trans_lt he)
  have hadd := exactWorth_add_le item price qty (whole - qty)
  rw [Nat.add_sub_cancel' hq] at hadd
  have := worth_le_exact item price qty
  omega

/-- What is left of an escrow covers what is left of its order. -/
theorem worth_rest_le {item : Item} {price limit qty whole escrow : ℕ} (hq : qty ≤ whole)
    (hp : price ≤ limit) (h : worth item limit whole ≤ escrow) (he : escrow < u64Max) :
    worth item limit (whole - qty) ≤ escrow - worth item price qty := by
  have hwhole := worth_eq_exact (h.trans_lt he)
  have hadd := exactWorth_add_le item limit qty (whole - qty)
  rw [Nat.add_sub_cancel' hq] at hadd
  have hrest := worth_le_exact item limit (whole - qty)
  have hpart := (worth_le_exact item price qty).trans (exactWorth_mono hp)
  omega

theorem value_le (item : Item) : value item ≤ 200000 := by
  have hall : buildValues.entries.all (fun e => e.2 ≤ 200000) = true := by decide +kernel
  unfold value Table.getD
  cases h : buildValues.get? item with
  | none => simp
  | some v =>
    have := List.all_eq_true.mp hall (item, v) (Table.mem_entries_iff.mpr h)
    simpa using this

theorem desk_bounds {item : Item} {d : Desk} (h : desk item = some d) :
    d.base ≤ 200000 ∧ d.target ≤ 60000 := by
  unfold desk at h
  split at h
  · cases h
  · have hv := value_le item
    rw [← Option.some.inj h]
    cases item with
    | ore o => cases o <;> simpa [deskOf] using hv
    | material m => cases m <;> simp [deskOf, hv]
    | part line part => simpa [deskOf] using hv
    | weapon w => simpa [deskOf] using hv
    | module k => simpa [deskOf] using hv
    | kit k => simpa [deskOf] using hv

end Catalogue

theorem colonyPrice_sell_le {p : Platform} {d : Desk} {held : ℚ} {price : ℕ}
    (h : colonyPrice p d held .sell = some price) : price ≤ d.base * 5 + 1 := by
  unfold colonyPrice at h
  simp only at h
  split at h
  · rw [← Option.some.inj h]
    have hbase : (0 : ℚ) ≤ d.base := Nat.cast_nonneg _
    generalize (d.base : ℚ) * p.pow06 _ = x
    have hmid : max ((d.base : ℚ) / 5) (min (d.base * 5) x) ≤ d.base * 5 :=
      max_le (by linarith) (min_le_left _ _)
    have hpos : (0 : ℚ) ≤ max ((d.base : ℚ) / 5) (min (d.base * 5) x) :=
      le_max_of_le_left (by linarith)
    have hfloor : ⌊p.times09 (max ((d.base : ℚ) / 5) (min (d.base * 5) x))⌋ ≤ d.base * 5 := by
      refine Int.floor_le_iff.mpr ?_
      have hless := p.times09_le _ hpos
      push_cast
      linarith
    rw [Int.toNat_le]
    push_cast
    omega
  · cases h

namespace Exchange

variable {p : Platform} {ex : Exchange} {order : Order} {bound : ℕ}

/-- What the colony pays for one deal is far from overflowing anything. -/
theorem quote_sell_worth_le {item : Item} {price available qty : ℕ}
    (h : ex.colonyQuote p item .sell = some (price, available)) (hq : qty ≤ available) :
    worth item price qty * feeBp ≤ u64Max := by
  simp only [colonyQuote, Option.bind_eq_bind, Option.bind_eq_some_iff] at h
  obtain ⟨d, hd, c, hc, h⟩ := h
  obtain ⟨-, h⟩ := Option.ite_none_right_eq_some.mp h
  obtain ⟨rfl, rfl⟩ := Prod.mk.inj (Option.some.inj h)
  have hprice := colonyPrice_sell_le hc
  have hdesk := desk_bounds hd
  have hstep : colonyStep d ≤ 1200 := by
    unfold colonyStep
    omega
  have hexact : exactWorth item c qty ≤ c * qty := by
    unfold exactWorth
    split
    · exact Nat.div_le_self _ _
    · exact le_rfl
  have hmul : c * qty ≤ 1000001 * 1200 := Nat.mul_le_mul (by omega) (by omega)
  have := worth_le_exact item c qty
  unfold feeBp u64Max
  omega

/-- An order with what it needs against it: a buy its escrow, a sell none. -/
def Backed (bound : ℕ) (o : Order) : Prop :=
  match o.side with
  | .buy => worth o.item o.price o.qty ≤ o.escrow ∧ o.escrow ≤ bound
  | .sell => o.escrow = 0

/-- A resting order in the right book, on the right side, with something left and backed. -/
structure Covered (bound : ℕ) (item : Item) (s : Side) (o : Order) : Prop where
  item_eq : o.item = item
  side_eq : o.side = s
  qty_pos : 0 < o.qty
  backed : Backed bound o

theorem Backed.buy {o : Order} (h : Backed bound o) (hs : o.side = .buy) :
    worth o.item o.price o.qty ≤ o.escrow ∧ o.escrow ≤ bound := by
  simpa [Backed, hs] using h

theorem Backed.sell {o : Order} (h : Backed bound o) (hs : o.side = .sell) : o.escrow = 0 := by
  simpa [Backed, hs] using h

/-- The `u64` operations of the match an order would make are all exact. -/
structure NoOverflow (order : Order) (c : Counter) : Prop where
  order_qty : dealQty order c ≤ order.qty
  maker_qty : ∀ o behind, c = .maker o behind → dealQty order c ≤ o.qty
  maker_escrow : ∀ o behind, c = .maker o behind → order.side = .sell →
    dealValue order c ≤ o.escrow
  order_escrow : order.side = .buy → dealValue order c ≤ order.escrow
  fee_product : dealValue order c * feeBp ≤ u64Max
  fee_le : feeOn (sellerOf order c) (dealValue order c) ≤ dealValue order c

theorem feeOn_le (seller : Option Trader) (value : ℕ) : feeOn seller value ≤ value := by
  unfold feeOn wrappingMul feeBp
  have hmod := Nat.mod_le (value * 200) (2 ^ 64)
  split <;> omega

/-- A buy pays no more than its limit, and its escrow covers that. -/
theorem buy_value_le {c : Counter} (ho : Backed bound order) (hb : bound < u64Max)
    (hcross : order.side.crosses c.price order.price = true) (hs : order.side = .buy) :
    dealValue order c ≤ order.escrow := by
  obtain ⟨hworth, hle⟩ := ho.buy hs
  have hprice : c.price ≤ order.price := by simpa [hs, Side.crosses] using hcross
  calc dealValue order c
      ≤ worth order.item order.price (dealQty order c) := worth_mono hprice
    _ ≤ order.escrow := worth_le_of_le (min_le_left _ _) hworth (by omega)

/-- A resting buy pays its own price, and its escrow covers that. -/
theorem maker_value_le {o : Order} (behind : List Order)
    (ho : Covered bound order.item order.side.opposite o) (hb : bound < u64Max)
    (hs : order.side = .sell) : dealValue order (.maker o behind) ≤ o.escrow := by
  obtain ⟨hworth, hle⟩ := ho.backed.buy (by rw [ho.side_eq, hs]; rfl)
  rw [ho.item_eq] at hworth
  exact worth_le_of_le (min_le_right _ _) hworth (by omega)

theorem noOverflow {c : Counter} (hb : bound * feeBp ≤ u64Max)
    (hcov : AllOrders (Covered bound) ex) (ho : Backed bound order)
    (hc : ex.counter p order = some c)
    (hcross : order.side.crosses c.price order.price = true) : NoOverflow order c := by
  have hlt : bound < u64Max := by
    unfold feeBp u64Max at *
    omega
  have hmaker : ∀ o behind, c = .maker o behind →
      Covered bound order.item order.side.opposite o := by
    intro o behind heq
    rcases counter_cases hc with ⟨price, available, rfl, -, -⟩ | ⟨o', behind', rfl, hrest⟩
    · cases heq
    · cases heq
      exact hcov order.item order.side.opposite o (by rw [hrest]; exact List.mem_cons_self)
  refine ⟨min_le_left _ _, ?_, ?_, buy_value_le ho hlt hcross, ?_, feeOn_le _ _⟩
  · rintro o behind rfl
    exact min_le_right _ _
  · rintro o behind rfl hs
    exact maker_value_le behind (hmaker o behind rfl) hlt hs
  · have hle : dealValue order c ≤ bound → dealValue order c * feeBp ≤ u64Max :=
      fun h => (Nat.mul_le_mul_right _ h).trans hb
    cases hs : order.side with
    | buy => exact hle ((buy_value_le ho hlt hcross hs).trans (ho.buy hs).2)
    | sell =>
      rcases counter_cases hc with ⟨price, available, rfl, hquote, -⟩ | ⟨o, behind, rfl, -⟩
      · rw [hs] at hquote
        exact quote_sell_worth_le hquote (min_le_right _ _)
      · have hmk := hmaker o behind rfl
        exact hle ((maker_value_le behind hmk hlt hs).trans
          (hmk.backed.buy (by rw [hmk.side_eq, hs]; rfl)).2)

theorem Covered.afterDeal {o : Order} {behind : List Order}
    (ho : Covered bound order.item order.side.opposite o) (hb : bound < u64Max)
    (hq : (afterDeal o order.side (dealQty order (.maker o behind))
      (dealValue order (.maker o behind))).qty ≠ 0) :
    Covered bound order.item order.side.opposite
      (afterDeal o order.side (dealQty order (.maker o behind))
        (dealValue order (.maker o behind))) := by
  refine ⟨ho.item_eq, ho.side_eq, Nat.pos_of_ne_zero hq, ?_⟩
  cases hs : order.side with
  | buy =>
    have hside : o.side = .sell := by rw [ho.side_eq, hs]; rfl
    have hzero := ho.backed.sell hside
    simpa [Backed, Exchange.afterDeal, hside] using hzero
  | sell =>
    have hside : o.side = .buy := by rw [ho.side_eq, hs]; rfl
    obtain ⟨hworth, hle⟩ := ho.backed.buy hside
    have hval := maker_value_le behind ho hb hs
    have hrest := worth_rest_le (min_le_right order.qty o.qty) (le_refl o.price) hworth (by omega)
    rw [ho.item_eq] at hrest
    have hq' := afterDeal_qty order o behind (dealValue order (.maker o behind)) .sell
    simp only [Backed, Exchange.afterDeal, hside, if_true, ho.item_eq] at hq' ⊢
    rw [wrappingSub_eq hval, hq']
    exact ⟨hrest, (Nat.sub_le _ _).trans hle⟩

theorem Backed.remainder {c : Counter} (ho : Backed bound order) (hb : bound < u64Max)
    (hcross : order.side.crosses c.price order.price = true) :
    Backed bound (remainder order (dealQty order c) (dealValue order c)) := by
  cases hs : order.side with
  | buy =>
    obtain ⟨hworth, hle⟩ := ho.buy hs
    have hval := buy_value_le ho hb hcross hs
    have hprice : c.price ≤ order.price := by simpa [hs, Side.crosses] using hcross
    have hrest := worth_rest_le (min_le_left order.qty c.available) hprice hworth (by omega)
    have hq := remainder_qty order c
    simp only [Backed, Exchange.remainder, hs, if_true] at hq ⊢
    rw [wrappingSub_eq hval, hq]
    exact ⟨hrest, (Nat.sub_le _ _).trans hle⟩
  | sell =>
    have hzero := ho.sell hs
    simpa [Backed, Exchange.remainder, hs] using hzero

theorem covered_strike {c : Counter} (hcov : AllOrders (Covered bound) ex)
    (hb : bound < u64Max) (hc : ex.counter p order = some c) :
    AllOrders (Covered bound) (ex.strike order c).1 := by
  rcases counter_cases hc with ⟨price, available, rfl, -, -⟩ | ⟨o, behind, rfl, hrest⟩
  · exact hcov.congr (strike_books_colony ex order price available)
  · refine AllOrders.congr (hcov.setResting ?_) (strike_books_maker ex order o behind)
    have hlist : ∀ x ∈ o :: behind, Covered bound order.item order.side.opposite x :=
      hrest ▸ hcov order.item order.side.opposite
    intro x hx
    unfold leftOver at hx
    split at hx
    · exact hlist x (List.mem_cons_of_mem _ hx)
    · rename_i hq
      rcases List.mem_cons.mp hx with h | h
      · exact h ▸ (hlist o List.mem_cons_self).afterDeal hb hq
      · exact hlist x (List.mem_cons_of_mem _ h)

theorem backed_newOrder {trader : Trader} {item : Item} {side : Side} {price qty escrow : ℕ}
    {rest : Bool} (hok : ex.refusal trader item side price qty escrow rest = none)
    (he : side = .buy → escrow ≤ bound) :
    Backed bound (ex.newOrder trader item side price qty escrow) := by
  cases side with
  | buy => exact ⟨(refusal_none hok).2.2.2.2.2.1 rfl, he rfl⟩
  | sell => rfl

/-- The states matching passes through, round by round. -/
inductive MatchesTo (p : Platform) (ex : Exchange) (order : Order) : Exchange → Order → Prop
  | refl : MatchesTo p ex order ex order
  | round {ex' ex'' : Exchange} {order' order'' : Order} {fill : Fill} :
    MatchesTo p ex order ex' order' → order'.qty ≠ 0 →
    ex'.matchOne p order' = (ex'', some (order'', fill)) → MatchesTo p ex order ex'' order''

theorem covered_matchesTo {ex' : Exchange} {order' : Order} (hb : bound < u64Max)
    (hcov : AllOrders (Covered bound) ex) (ho : Backed bound order)
    (h : MatchesTo p ex order ex' order') :
    AllOrders (Covered bound) ex' ∧ Backed bound order' := by
  induction h with
  | refl => exact ⟨hcov, ho⟩
  | @round ex₁ ex₂ order₁ order₂ fill _ _ hm ih =>
    rcases matchOne_cases p ex₁ order₁ with ⟨hnone, -⟩ | ⟨c, hc, hcross, hsome⟩
    · rw [hnone] at hm
      cases hm
    · rw [hsome] at hm
      obtain ⟨rfl, hfill⟩ := Prod.mk.inj hm
      have horder : (strike (ex₁.openBook order₁.item) order₁ c).2.1 = order₂ := by
        rw [Option.some.inj hfill]
      exact ⟨covered_strike (ih.1.openBook _) hb hc, horder ▸ ih.2.remainder hb hcross⟩

theorem covered_place {trader : Trader} {item : Item} {side : Side} {price qty escrow : ℕ}
    {rest : Bool} (hb : bound < u64Max) (hcov : AllOrders (Covered bound) ex)
    (he : ex.refusal trader item side price qty escrow rest = none → side = .buy →
      escrow ≤ bound) :
    AllOrders (Covered bound) (ex.place p trader item side price qty escrow rest).1 := by
  rcases place_cases p ex trader item side price qty escrow rest with ⟨why, hr⟩ | ⟨hok, hr⟩
  · rw [hr]
    exact hcov
  · rw [hr]
    have hloop := matchLoop_induct (p := p)
      (Q := fun ex' order' => AllOrders (Covered bound) ex' ∧ Backed bound order'
        ∧ order'.item = item ∧ order'.side = side)
      (fun ex' order' hQ => ⟨hQ.1.openBook _, hQ.2⟩)
      (fun ex' order' c hQ _ hc hcross => ⟨covered_strike hQ.1 hb hc,
        hQ.2.1.remainder hb hcross, hQ.2.2⟩)
      _ ex.numbered (ex.newOrder trader item side price qty escrow) le_rfl
      ⟨hcov.congr rfl, backed_newOrder hok (he hok), rfl, rfl⟩
    obtain ⟨hcov', hback, hitem, hside⟩ := hloop.1
    unfold conclude
    split
    · rename_i hrest
      refine hcov'.setResting ?_
      intro o ho
      rcases (List.mem_orderedInsert _).mp ho with heq | hmem
      · rw [heq]
        exact ⟨rfl, rfl, hrest.1, hback⟩
      · exact hcov' _ _ o hmem
    · exact hcov'.congr rfl

theorem covered_cancel (hcov : AllOrders (Covered bound) ex) (trader : Trader) (id : ℕ) :
    AllOrders (Covered bound) (ex.cancel trader id).1 := by
  rcases cancel_cases ex trader id with hc | ⟨item, s, o, l, rfl, hc, -, -⟩
  · rw [hc]
    exact hcov
  · rw [hc]
    exact (hcov.setResting fun x hx => hcov _ _ x (List.mem_of_mem_eraseP hx)).congr rfl

theorem covered_cancelAll (hcov : AllOrders (Covered bound) ex) (trader : Trader) :
    AllOrders (Covered bound) (ex.cancelAll trader) := by
  unfold Exchange.cancelAll
  generalize (ex.orders trader).map Order.id = ids
  induction ids generalizing ex with
  | nil => exact hcov
  | cons id rest ih => exact ih (covered_cancel hcov trader id)

/-- The credits a request puts into escrow, if the exchange takes it. -/
def handedOver (ex : Exchange) : Op → ℕ
  | .place trader item .buy price qty escrow rest =>
    if ex.refusal trader item .buy price qty escrow rest = none then escrow else 0
  | _ => 0

theorem covered_apply (op : Op) (hb : bound < u64Max) (hcov : AllOrders (Covered bound) ex)
    (he : ex.handedOver op ≤ bound) : AllOrders (Covered bound) (ex.apply p op) := by
  cases op with
  | place trader item side price qty escrow rest =>
    refine covered_place hb hcov ?_
    rintro hok rfl
    simpa [handedOver, hok] using he
  | cancel trader id => exact covered_cancel hcov trader id
  | cancelAll trader => exact covered_cancelAll hcov trader
  | collect trader => exact hcov.congr rfl
  | tick dt =>
    obtain ⟨tapes, next, ht⟩ := tick_frame p ex dt
    simp only [Exchange.apply, ht]
    exact hcov.congr rfl
  | colonyReceive item qty =>
    simp only [Exchange.apply, Exchange.colonyReceive]
    split
    · exact hcov
    · exact hcov.congr rfl
  | colonyIssue item qty =>
    simp only [Exchange.apply, Exchange.colonyIssue]
    split
    · exact hcov
    · exact hcov.congr rfl
  | seedMissing =>
    obtain ⟨colony, hs⟩ := seedMissing_frame ex
    simp only [Exchange.apply, hs]
    exact hcov.congr rfl

theorem covered_run {ops : List Op} (hb : bound < u64Max)
    (h : Run.Along (apply p) (fun ex op => ex.handedOver op ≤ bound) new ops) :
    AllOrders (Covered bound) (run p ops) :=
  Run.invariant (fun _ op hcov he => covered_apply op hb hcov he) allOrders_new h

/-- With no more than `u64Max / feeBp` credits ever escrowed, every resting order is covered,
and no match along the way overflows. -/
theorem escrow_covers (p : Platform) (ops : List Op)
    (hsum : Run.total (apply p) handedOver new ops ≤ u64Max / feeBp) :
    (∀ o ∈ (run p ops).allOrders, 0 < o.qty
        ∧ (o.side = .buy → worth o.item o.price o.qty ≤ o.escrow)
        ∧ (o.side = .sell → o.escrow = 0))
      ∧ ∀ before after trader item side price qty escrow rest,
        ops = before ++ .place trader item side price qty escrow rest :: after →
        (run p before).refusal trader item side price qty escrow rest = none →
        ∀ ex order, MatchesTo p (run p before).numbered
            ((run p before).newOrder trader item side price qty escrow) ex order →
          ∀ c, ex.counter p order = some c →
            order.side.crosses c.price order.price = true → NoOverflow order c := by
  have halong := Run.along_of_total_le hsum
  have hb : u64Max / feeBp < u64Max := by decide
  constructor
  · intro o ho
    obtain ⟨item, s, hmem⟩ := mem_allOrders_iff.mp ho
    have hcov := covered_run hb halong item s o hmem
    exact ⟨hcov.qty_pos, fun hs => (hcov.backed.buy hs).1, fun hs => hcov.backed.sell hs⟩
  · rintro before after trader item side price qty escrow rest rfl hok ex order hm c hc hcross
    obtain ⟨hbefore, hplace, -⟩ := (Run.along_append _).mp halong
    have hcov := covered_run hb hbefore
    have hback : Backed (u64Max / feeBp)
        ((run p before).newOrder trader item side price qty escrow) := by
      refine backed_newOrder hok ?_
      rintro rfl
      have hle : (run p before).handedOver (.place trader item .buy price qty escrow rest)
          ≤ u64Max / feeBp := hplace
      simpa only [handedOver, hok, if_true] using hle
    have hnumbered : AllOrders (Covered (u64Max / feeBp)) (run p before).numbered :=
      hcov.congr rfl
    obtain ⟨hcov', hback'⟩ := covered_matchesTo hb hnumbered hback hm
    exact noOverflow (by decide) hcov' hback' hc hcross

/-- A bid and an ask that meet, the rest of the ask resting. -/
def meeting : List Op :=
  [.place "lyra" (.weapon .talon) .sell 100 5 0 true,
    .place "auriga" (.weapon .talon) .buy 120 3 400 true]

theorem escrow_covers_meeting :
    Run.total (apply Platform.atRest) handedOver new meeting ≤ u64Max / feeBp
      ∧ ∀ o ∈ (run Platform.atRest meeting).allOrders, 0 < o.qty
        ∧ (o.side = .buy → worth o.item o.price o.qty ≤ o.escrow)
        ∧ (o.side = .sell → o.escrow = 0) :=
  have hsum : Run.total (apply Platform.atRest) handedOver new meeting ≤ u64Max / feeBp := by
    decide +kernel
  ⟨hsum, (escrow_covers Platform.atRest meeting hsum).1⟩

end Exchange

end BeforeColony
