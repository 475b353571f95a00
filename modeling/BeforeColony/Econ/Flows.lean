import Mathlib.Tactic.Ring
import BeforeColony.Econ.Charter

/-!
# What the exchange's operations move

`netCredits` is what the exchange owes and holds, with its fees and the colony's takings
counted in and what the colony paid out counted off; `goodsOf` is what is in its accounts,
on offer and on the colony's desk. A deal moves both between their parts and the order being
matched, a place request adds what its trader handed over, and nothing else changes them
but the clock.
-/

set_option autoImplicit false

namespace BeforeColony

open Lib Catalogue

def accountsCredits (t : Table Trader Account) : ℤ :=
  Table.total (fun _ a => (a.credits : ℤ)) t

def accountsGoods (item : Item) (t : Table Trader Account) : ℚ :=
  Table.total (fun _ a => (a.goods.getD item 0 : ℚ)) t

section Accounts

variable {t : Table Trader Account} {trader : Trader} {g : Account → Account}

theorem accountsCredits_update {x : ℤ}
    (hg : ∀ a, ((g a).credits : ℤ) = a.credits + x) :
    accountsCredits (t.update trader Account.empty g) = accountsCredits t + x :=
  Table.total_update_add rfl hg

theorem accountsGoods_update {item : Item} {x : ℚ}
    (hg : ∀ a, ((g a).goods.getD item 0 : ℚ) = a.goods.getD item 0 + x) :
    accountsGoods item (t.update trader Account.empty g) = accountsGoods item t + x :=
  Table.total_update_add rfl hg

theorem accountsCredits_erase (t : Table Trader Account) (trader : Trader) :
    accountsCredits (t.erase trader)
      = accountsCredits t - (t.getD trader Account.empty).credits :=
  Table.total_erase_eq rfl

theorem accountsGoods_erase (item : Item) (t : Table Trader Account) (trader : Trader) :
    accountsGoods item (t.erase trader)
      = accountsGoods item t - (t.getD trader Account.empty).goods.getD item 0 :=
  Table.total_erase_eq rfl

@[simp] theorem addGoods_getD (a : Account) (item item' : Item) (n : ℕ) :
    (a.addGoods item n).goods.getD item' 0
      = a.goods.getD item' 0 + if item' = item then n else 0 := by
  rw [Account.addGoods, Table.getD_update]
  split
  · rename_i h
    rw [h]
  · rfl

theorem isEmpty_iff {a : Account} (h : a.isEmpty = true) :
    a.credits = 0 ∧ ∀ item, a.goods.getD item 0 = 0 := by
  simp only [Account.isEmpty, Bool.and_eq_true, decide_eq_true_eq, List.isEmpty_iff] at h
  exact ⟨h.1.1, fun item => by simp [Table.getD, Table.get?, h.1.2]⟩

theorem accountsCredits_dropEmpty (t : Table Trader Account) (trader : Trader) :
    accountsCredits (Exchange.dropEmpty t trader) = accountsCredits t := by
  unfold Exchange.dropEmpty
  split
  · rename_i h
    rw [accountsCredits_erase, (isEmpty_iff h).1]
    simp
  · rfl

theorem accountsGoods_dropEmpty (item : Item) (t : Table Trader Account) (trader : Trader) :
    accountsGoods item (Exchange.dropEmpty t trader) = accountsGoods item t := by
  unfold Exchange.dropEmpty
  split
  · rename_i h
    rw [accountsGoods_erase, (isEmpty_iff h).2]
    simp
  · rfl

end Accounts

namespace Exchange

variable {p : Platform} {ex : Exchange} {order : Order} {bound : ℕ}

def creditsOn (s : Side) (o : Order) : ℤ :=
  match s with
  | .buy => o.escrow
  | .sell => 0

def goodsOn (item : Item) (s : Side) (o : Order) : ℚ :=
  match s with
  | .buy => 0
  | .sell => if o.item = item then o.qty else 0

def escrowedCredits (ex : Exchange) : ℤ := weigh creditsOn ex

def escrowedGoods (item : Item) (ex : Exchange) : ℚ := weigh (goodsOn item) ex

def netCredits (ex : Exchange) : ℤ :=
  accountsCredits ex.accounts + ex.escrowedCredits + ex.colonyTook + ex.fees - ex.colonyPaid

def goodsOf (item : Item) (ex : Exchange) : ℚ :=
  accountsGoods item ex.accounts + ex.escrowedGoods item + ex.held item

theorem setResting_netCredits (ex : Exchange) (item : Item) (s : Side) (l : List Order) :
    (ex.setBook item ((ex.book item).withResting s l)).netCredits
      = ex.netCredits - (((ex.book item).resting s).map (creditsOn s)).sum
        + (l.map (creditsOn s)).sum := by
  simp only [netCredits, escrowedCredits, weigh_setResting]
  simp only [setBook]
  ring

theorem setResting_goodsOf (ex : Exchange) (item item' : Item) (s : Side) (l : List Order) :
    (ex.setBook item ((ex.book item).withResting s l)).goodsOf item'
      = ex.goodsOf item' - (((ex.book item).resting s).map (goodsOn item' s)).sum
        + (l.map (goodsOn item' s)).sum := by
  simp only [goodsOf, escrowedGoods, weigh_setResting]
  simp only [setBook, held]
  ring

theorem handBack_netCredits (ex : Exchange) {o : Order} (ho : o.side = .sell → o.escrow = 0) :
    (ex.handBack o).netCredits = ex.netCredits + o.escrow := by
  have hacc : accountsCredits (ex.handBack o).accounts
      = accountsCredits ex.accounts + o.escrow := by
    rw [handBack, accountsCredits_dropEmpty]
    refine accountsCredits_update fun a => ?_
    unfold handedBack
    cases hs : o.side with
    | buy => simp [Account.addCredits]
    | sell =>
      rw [ho hs]
      simp only
      split <;> simp [Account.addGoods]
  have hrest : (ex.handBack o).netCredits - accountsCredits (ex.handBack o).accounts
      = ex.netCredits - accountsCredits ex.accounts := by
    simp only [netCredits, handBack, escrowedCredits, weigh]
    ring
  linarith

theorem handBack_goodsOf (ex : Exchange) (item : Item) (o : Order) :
    (ex.handBack o).goodsOf item = ex.goodsOf item + goodsOn item o.side o := by
  have hacc : accountsGoods item (ex.handBack o).accounts
      = accountsGoods item ex.accounts + goodsOn item o.side o := by
    rw [handBack, accountsGoods_dropEmpty]
    refine accountsGoods_update fun a => ?_
    unfold handedBack goodsOn
    cases hs : o.side with
    | buy => simp [Account.addCredits]
    | sell =>
      simp only
      by_cases hq : 0 < o.qty
      · rw [if_pos hq, addGoods_getD]
        simp only [eq_comm (a := item)]
        split <;> simp
      · have hzero : o.qty = 0 := by omega
        simp [hzero]
  have hrest : (ex.handBack o).goodsOf item - accountsGoods item (ex.handBack o).accounts
      = ex.goodsOf item - accountsGoods item ex.accounts := by
    simp only [goodsOf, handBack, escrowedGoods, weigh, held]
    ring
  linarith

theorem settle_netCredits (ex : Exchange) (item : Item) (qty value : ℕ)
    (buyer seller : Option Trader) :
    (ex.settle item qty value buyer seller).netCredits
      = ex.netCredits + if seller.isSome then (value : ℤ) else 0 := by
  have hbuyer : accountsCredits (payBuyer ex.accounts item qty value buyer)
      = accountsCredits ex.accounts := by
    cases buyer with
    | none => rfl
    | some b =>
      rw [payBuyer, accountsCredits_update (x := 0), add_zero]
      intro a
      simp [Account.note, Account.addGoods]
  have hfee := feeOn_le seller value
  have hseller : accountsCredits (paySeller (payBuyer ex.accounts item qty value buyer) item qty
      value (feeOn seller value) seller)
        = accountsCredits ex.accounts
          + if seller.isSome then (value : ℤ) - feeOn seller value else 0 := by
    cases seller with
    | none => simpa [paySeller] using hbuyer
    | some s =>
      rw [paySeller, accountsCredits_update (x := (value : ℤ) - feeOn (some s) value), hbuyer]
      · simp
      · intro a
        simp only [Account.note, Account.addCredits]
        rw [wrappingSub_eq hfee]
        push_cast [hfee]
        ring
  have hzero : seller.isSome = false → feeOn seller value = 0 := by
    intro h
    simp [feeOn, h]
  simp only [netCredits, settle, hseller, escrowedCredits, weigh]
  cases hs : seller.isSome with
  | false =>
    rw [hzero hs]
    simp
  | true =>
    simp only [if_true]
    push_cast
    ring

theorem settle_goodsOf (ex : Exchange) (item item' : Item) (qty value : ℕ)
    (buyer seller : Option Trader) :
    (ex.settle item qty value buyer seller).goodsOf item'
      = ex.goodsOf item' + if buyer.isSome ∧ item' = item then (qty : ℚ) else 0 := by
  have hbuyer : accountsGoods item' (payBuyer ex.accounts item qty value buyer)
      = accountsGoods item' ex.accounts
        + if buyer.isSome ∧ item' = item then (qty : ℚ) else 0 := by
    cases buyer with
    | none => simp [payBuyer]
    | some b =>
      rw [payBuyer]
      refine accountsGoods_update fun a => ?_
      rw [Account.note, addGoods_getD]
      split <;> simp_all
  have hseller : accountsGoods item' (paySeller (payBuyer ex.accounts item qty value buyer) item
      qty value (feeOn seller value) seller)
        = accountsGoods item' (payBuyer ex.accounts item qty value buyer) := by
    cases seller with
    | none => rfl
    | some s =>
      rw [paySeller, accountsGoods_update (x := 0), add_zero]
      intro a
      simp [Account.note, Account.addCredits]
  simp only [goodsOf, settle, hseller, hbuyer, escrowedGoods, weigh, held]
  ring

/-- The desks of everything the colony deals in are on record. -/
def DesksOpen (ex : Exchange) : Prop :=
  ∀ item, item.valid = true → (desk item).isSome = true → (ex.colony.get? item).isSome = true

theorem held_dealColony (hd : (ex.colony.get? order.item).isSome = true) (qty value : ℕ)
    (item : Item) :
    (ex.dealColony order.item order.side qty value).held item
      = ex.held item + if item = order.item then
          (match order.side with | .buy => -(qty : ℚ) | .sell => qty) else 0 := by
  obtain ⟨s, hs⟩ := Option.isSome_iff_exists.mp hd
  simp only [held, dealColony, Table.update, Table.getD, Table.get?_insert]
  by_cases hi : item = order.item
  · rw [if_pos hi, if_pos hi, hi, hs]
    cases order.side with
    | buy => simp [dealStock, sub_eq_add_neg]
    | sell => simp [dealStock]
  · simp [hi]

/-- What a deal leaves of a resting order stays in the book or goes back to its trader; either
way the exchange still has it. -/
theorem dealMaker_netCredits {o : Order} {behind : List Order}
    (hrest : (ex.book order.item).resting order.side.opposite = o :: behind)
    (ho : Covered bound order.item order.side.opposite o) (hb : bound < u64Max) :
    (ex.dealMaker order.item order.side o behind (dealQty order (.maker o behind))
        (dealValue order (.maker o behind))).netCredits
      = ex.netCredits
        - if order.side = .sell then (dealValue order (.maker o behind) : ℤ) else 0 := by
  have hvalue := maker_value_le behind ho hb
  generalize dealQty order (.maker o behind) = qty
  generalize dealValue order (.maker o behind) = value at *
  have hon (x : Order) (hx : order.side.opposite = .sell → x.escrow = 0) :
      creditsOn order.side.opposite x = x.escrow := by
    cases hs : order.side with
    | buy => simp [creditsOn, Side.opposite, hx (by rw [hs]; rfl)]
    | sell => rfl
  have hsell : order.side.opposite = .sell → o.escrow = 0 :=
    fun hs => ho.backed.sell (ho.side_eq.trans hs)
  have hleft : (afterDeal o order.side qty value).escrow
      = o.escrow - if order.side = .sell then value else 0 := by
    unfold afterDeal
    split
    · rename_i hs
      exact wrappingSub_eq (hvalue hs)
    · rfl
  have hsell' : order.side.opposite = .sell →
      (afterDeal o order.side qty value).escrow = 0 := by
    intro hs
    rw [hleft, hsell hs, Nat.zero_sub]
  have hcast : ((afterDeal o order.side qty value).escrow : ℤ)
      = o.escrow - if order.side = .sell then (value : ℤ) else 0 := by
    rw [hleft]
    split
    · rename_i hs
      exact Nat.cast_sub (hvalue hs)
    · simp
  have hboth : (ex.dealMaker order.item order.side o behind qty value).netCredits
      = ex.netCredits - o.escrow + (afterDeal o order.side qty value).escrow := by
    simp only [dealMaker]
    split
    · rw [handBack_netCredits _ fun hs => hsell' (ho.side_eq.symm.trans hs),
        setResting_netCredits, hrest, List.map_cons, List.sum_cons, hon o hsell]
      ring
    · rw [setResting_netCredits, hrest, List.map_cons, List.sum_cons, List.map_cons,
        List.sum_cons, hon o hsell, hon _ hsell']
      ring
  rw [hboth, hcast]
  ring

theorem dealMaker_goodsOf {o : Order} {behind : List Order} (item : Item)
    (hrest : (ex.book order.item).resting order.side.opposite = o :: behind)
    (ho : Covered bound order.item order.side.opposite o) (value : ℕ) :
    (ex.dealMaker order.item order.side o behind (dealQty order (.maker o behind)) value).goodsOf
        item
      = ex.goodsOf item
        - if order.side = .buy ∧ item = order.item then (dealQty order (.maker o behind) : ℚ)
          else 0 := by
  have hq : dealQty order (.maker o behind) ≤ o.qty := min_le_right _ _
  have hqty : (afterDeal o order.side (dealQty order (.maker o behind)) value).qty
      = o.qty - dealQty order (.maker o behind) := afterDeal_qty order o behind value order.side
  generalize dealQty order (.maker o behind) = qty at *
  have hside : (afterDeal o order.side qty value).side = order.side.opposite := ho.side_eq
  have hleft : goodsOn item order.side.opposite (afterDeal o order.side qty value)
      = goodsOn item order.side.opposite o
        - if order.side = .buy ∧ item = order.item then (qty : ℚ) else 0 := by
    cases hs : order.side with
    | buy =>
      have hitem : (afterDeal o .buy qty value).item = order.item := ho.item_eq
      rw [hs] at hqty
      simp only [goodsOn, Side.opposite, hitem, ho.item_eq, hqty, true_and, eq_comm (a := item)]
      split
      · rw [Nat.cast_sub hq]
      · simp
    | sell => simp [goodsOn, Side.opposite]
  simp only [dealMaker]
  split
  · rw [handBack_goodsOf, hside, setResting_goodsOf, hrest, List.map_cons, List.sum_cons, hleft]
    ring
  · rw [setResting_goodsOf, hrest, List.map_cons, List.sum_cons, List.map_cons, List.sum_cons,
      hleft]
    ring

theorem openBook_netCredits (ex : Exchange) (item : Item) :
    (ex.openBook item).netCredits = ex.netCredits := by
  simp only [netCredits, escrowedCredits, weigh_openBook]
  rfl

theorem openBook_goodsOf (ex : Exchange) (item item' : Item) :
    (ex.openBook item).goodsOf item' = ex.goodsOf item' := by
  simp only [goodsOf, escrowedGoods, weigh_openBook]
  rfl

theorem quote_desk {item : Item} {s : Side} {q : ℕ × ℕ} (h : ex.colonyQuote p item s = some q) :
    (desk item).isSome = true := by
  simp only [colonyQuote, Option.bind_eq_bind, Option.bind_eq_some_iff] at h
  obtain ⟨d, hd, -⟩ := h
  rw [hd]
  rfl

/-- A deal moves credits between the order and the exchange, and makes or loses none. -/
theorem strike_netCredits {c : Counter} (hc : ex.counter p order = some c)
    (hcross : order.side.crosses c.price order.price = true)
    (hcov : AllOrders (Covered bound) ex) (ho : Backed bound order) (hb : bound < u64Max) :
    (ex.strike order c).1.netCredits + (ex.strike order c).2.1.escrow
      = ex.netCredits + order.escrow := by
  have hleft : ((ex.strike order c).2.1.escrow : ℤ)
      = order.escrow - if order.side = .buy then (dealValue order c : ℤ) else 0 := by
    rw [strike_order, remainder]
    split
    · rename_i hs
      have hle := buy_value_le ho hb hcross hs
      rw [wrappingSub_eq hle, Nat.cast_sub hle]
    · simp
  rw [hleft]
  rcases counter_cases hc with ⟨price, available, rfl, -, -⟩ | ⟨o, behind, rfl, hrest⟩
  · have hnet : (ex.strike order (.colony price available)).1.netCredits
        = ((ex.dealColony order.item order.side (dealQty order (.colony price available))
            (dealValue order (.colony price available))).settle order.item
              (dealQty order (.colony price available)) (dealValue order (.colony price available))
              (buyerOf order (.colony price available))
              (sellerOf order (.colony price available))).netCredits := rfl
    rw [hnet, settle_netCredits]
    generalize dealValue order (.colony price available) = value
    simp only [netCredits, dealColony, escrowedCredits, weigh]
    cases hs : order.side with
    | buy =>
      simp [sellerOf, hs, Counter.trader]
      ring
    | sell =>
      simp [sellerOf, hs]
      ring
  · have hmk := hcov order.item order.side.opposite o (by rw [hrest]; exact List.mem_cons_self)
    have hnet : (ex.strike order (.maker o behind)).1.netCredits
        = ((ex.dealMaker order.item order.side o behind (dealQty order (.maker o behind))
            (dealValue order (.maker o behind))).settle order.item
              (dealQty order (.maker o behind)) (dealValue order (.maker o behind))
              (buyerOf order (.maker o behind)) (sellerOf order (.maker o behind))).netCredits :=
      rfl
    rw [hnet, settle_netCredits, dealMaker_netCredits hrest hmk hb]
    have hseller : (sellerOf order (.maker o behind)).isSome = true := by
      unfold sellerOf
      cases order.side <;> rfl
    rw [if_pos hseller]
    cases order.side with
    | buy => simp
    | sell => simp

/-- A deal moves goods between the order and the exchange, and makes or loses none. -/
theorem strike_goodsOf {c : Counter} (item : Item) (hc : ex.counter p order = some c)
    (hcov : AllOrders (Covered bound) ex) (hdesks : DesksOpen ex)
    (hvalid : order.item.valid = true) :
    (ex.strike order c).1.goodsOf item
        + goodsOn item (ex.strike order c).2.1.side (ex.strike order c).2.1
      = ex.goodsOf item + goodsOn item order.side order := by
  have hleft : goodsOn item (ex.strike order c).2.1.side (ex.strike order c).2.1
      = goodsOn item order.side order
        - if order.side = .sell ∧ item = order.item then (dealQty order c : ℚ) else 0 := by
    rw [strike_order, remainder_side]
    have hle : dealQty order c ≤ order.qty := min_le_left _ _
    cases hs : order.side with
    | buy => simp [goodsOn]
    | sell =>
      simp only [goodsOn, remainder_item, remainder_qty, true_and, eq_comm (a := item)]
      split
      · rw [Nat.cast_sub hle]
      · simp
  rw [hleft]
  rcases counter_cases hc with ⟨price, available, rfl, hquote, -⟩ | ⟨o, behind, rfl, hrest⟩
  · have hnet : (ex.strike order (.colony price available)).1.goodsOf item
        = ((ex.dealColony order.item order.side (dealQty order (.colony price available))
            (dealValue order (.colony price available))).settle order.item
              (dealQty order (.colony price available)) (dealValue order (.colony price available))
              (buyerOf order (.colony price available))
              (sellerOf order (.colony price available))).goodsOf item := rfl
    have hopen := hdesks order.item hvalid (quote_desk hquote)
    rw [hnet, settle_goodsOf, goodsOf, held_dealColony hopen]
    generalize dealQty order (.colony price available) = qty
    have hsame : accountsGoods item (ex.dealColony order.item order.side qty
        (dealValue order (.colony price available))).accounts
          + escrowedGoods item (ex.dealColony order.item order.side qty
            (dealValue order (.colony price available)))
        = ex.goodsOf item - ex.held item := by
      simp only [goodsOf, dealColony, escrowedGoods, weigh]
      ring
    rw [hsame]
    by_cases hi : item = order.item
    · cases hs : order.side with
      | buy =>
        simp [buyerOf, hs, hi]
        ring
      | sell =>
        simp [buyerOf, hs, hi, Counter.trader]
        ring
    · simp [hi]
  · have hmk := hcov order.item order.side.opposite o (by rw [hrest]; exact List.mem_cons_self)
    have hnet : (ex.strike order (.maker o behind)).1.goodsOf item
        = ((ex.dealMaker order.item order.side o behind (dealQty order (.maker o behind))
            (dealValue order (.maker o behind))).settle order.item
              (dealQty order (.maker o behind)) (dealValue order (.maker o behind))
              (buyerOf order (.maker o behind))
              (sellerOf order (.maker o behind))).goodsOf item := rfl
    have hbuyer : (buyerOf order (.maker o behind)).isSome = true := by
      unfold buyerOf
      cases order.side <;> rfl
    rw [hnet, settle_goodsOf, dealMaker_goodsOf item hrest hmk]
    generalize dealQty order (.maker o behind) = qty
    simp only [hbuyer, true_and]
    cases hs : order.side with
    | buy =>
      simp only [true_and, reduceCtorEq, false_and, if_false]
      ring
    | sell =>
      simp only [true_and, reduceCtorEq, false_and, if_false]
      ring

theorem DesksOpen.congr {ex' : Exchange} (h : DesksOpen ex)
    (hc : ∀ item, (ex.colony.get? item).isSome = true → (ex'.colony.get? item).isSome = true) :
    DesksOpen ex' :=
  fun item hv hd => hc item (h item hv hd)

theorem isSome_insert {t : Table Item Stock} {item item' : Item} {s : Stock}
    (h : (t.get? item').isSome = true) : ((t.insert item s).get? item').isSome = true := by
  rw [Table.get?_insert]
  split
  · rfl
  · exact h

theorem DesksOpen.strike {c : Counter} (h : DesksOpen ex) :
    DesksOpen (ex.strike order c).1 := by
  refine h.congr fun item hi => ?_
  cases c with
  | colony price available => exact isSome_insert hi
  | maker o behind =>
    simp only [Exchange.strike, printTape, settle, dealMaker]
    split <;> exact hi

theorem desksOpen_new : DesksOpen new := by
  have hall : ∀ item ∈ Item.all, (desk item).isSome = true →
      (new.colony.get? item).isSome = true := by
    decide +kernel
  exact fun item hv => hall item (Item.mem_all hv)

/-- An order on its way through the matcher, with all it came with accounted for. -/
structure Flowing (bound : ℕ) (start : Order) (credits : ℤ) (goods : Item → ℚ) (paid : ℕ)
    (ex : Exchange) (order : Order) : Prop where
  covered : AllOrders (Covered bound) ex
  backed : Backed bound order
  desks : DesksOpen ex
  item_eq : order.item = start.item
  side_eq : order.side = start.side
  credits_eq : ex.netCredits + order.escrow = credits
  goods_eq : ∀ item, ex.goodsOf item + goodsOn item order.side order = goods item
  paid_le : paid ≤ ex.colonyPaid

theorem strike_paid_le (ex : Exchange) (order : Order) (c : Counter) :
    ex.colonyPaid ≤ (ex.strike order c).1.colonyPaid := by
  cases c with
  | colony price available => exact Nat.le_add_right _ _
  | maker o behind =>
    simp only [Exchange.strike, printTape, settle, dealMaker]
    split <;> exact le_rfl

theorem Flowing.matched {start : Order} {credits : ℤ} {goods : Item → ℚ} {paid : ℕ}
    (hb : bound < u64Max) (hvalid : start.item.valid = true)
    (h : Flowing bound start credits goods paid ex.numbered order) :
    Flowing bound start credits goods paid (matched p ex order).1 (matched p ex order).2.1 := by
  refine (matchLoop_induct ?_ ?_ _ ex.numbered order le_rfl h).1
  · intro ex order h
    exact ⟨h.covered.openBook _, h.backed, h.desks, h.item_eq, h.side_eq,
      (openBook_netCredits ex _).symm ▸ h.credits_eq,
      fun item => (openBook_goodsOf ex _ item).symm ▸ h.goods_eq item, h.paid_le⟩
  · intro ex order c h _ hc hcross
    exact ⟨covered_strike h.covered hb hc, h.backed.remainder hb hcross, h.desks.strike,
      h.item_eq, h.side_eq,
      (strike_netCredits hc hcross h.covered h.backed hb).trans h.credits_eq,
      fun item => (strike_goodsOf item hc h.covered h.desks (h.item_eq ▸ hvalid)).trans
        (h.goods_eq item), h.paid_le.trans (strike_paid_le ex order c)⟩

theorem conclude_flows {start : Order} {credits : ℤ} {goods : Item → ℚ} {paid : ℕ}
    (h : Flowing bound start credits goods paid ex order) (rest : Bool) :
    (ex.conclude order rest).1.netCredits = credits
      ∧ (∀ item, (ex.conclude order rest).1.goodsOf item = goods item)
      ∧ DesksOpen (ex.conclude order rest).1
      ∧ paid ≤ (ex.conclude order rest).1.colonyPaid := by
  unfold conclude
  split
  · have hperm := List.perm_orderedInsert (Book.beats order.side) order
      ((ex.book order.item).resting order.side)
    refine ⟨?_, fun item => ?_, h.desks, h.paid_le⟩
    · have hsum := (hperm.map (creditsOn order.side)).sum_eq
      rw [List.map_cons, List.sum_cons] at hsum
      have hon : creditsOn order.side order = order.escrow := by
        cases hs : order.side with
        | buy => rfl
        | sell => simp [creditsOn, h.backed.sell hs]
      rw [Book.insert, setResting_netCredits, hsum, hon, ← h.credits_eq]
      ring
    · have hsum := (hperm.map (goodsOn item order.side)).sum_eq
      rw [List.map_cons, List.sum_cons] at hsum
      rw [Book.insert, setResting_goodsOf, hsum, ← h.goods_eq item]
      ring
  · refine ⟨?_, fun item => ?_, h.desks, h.paid_le⟩
    · rw [handBack_netCredits _ h.backed.sell]
      exact h.credits_eq
    · rw [handBack_goodsOf]
      exact h.goods_eq item

/-- A place request adds what its trader handed over, or changes nothing. -/
theorem place_flows {trader : Trader} {item : Item} {side : Side} {price qty escrow : ℕ}
    {rest : Bool} (hb : bound < u64Max) (hcov : AllOrders (Covered bound) ex)
    (hdesks : DesksOpen ex) (hok : ex.refusal trader item side price qty escrow rest = none)
    (he : side = .buy → escrow ≤ bound) :
    (ex.place p trader item side price qty escrow rest).1.netCredits
        = ex.netCredits + (if side = .buy then escrow else 0 : ℕ)
      ∧ (∀ item', (ex.place p trader item side price qty escrow rest).1.goodsOf item'
        = ex.goodsOf item' + if side = .sell ∧ item' = item then (qty : ℚ) else 0)
      ∧ DesksOpen (ex.place p trader item side price qty escrow rest).1
      ∧ ex.colonyPaid ≤ (ex.place p trader item side price qty escrow rest).1.colonyPaid := by
  have hflow : Flowing bound (ex.newOrder trader item side price qty escrow)
      (ex.netCredits + (if side = .buy then escrow else 0 : ℕ))
      (fun item' => ex.goodsOf item' + if side = .sell ∧ item' = item then (qty : ℚ) else 0)
      ex.colonyPaid ex.numbered (ex.newOrder trader item side price qty escrow) := by
    refine ⟨hcov.congr rfl, backed_newOrder hok he, hdesks, rfl, rfl, rfl, fun item' => ?_,
      le_rfl⟩
    have hon : goodsOn item' side (ex.newOrder trader item side price qty escrow)
        = if side = .sell ∧ item' = item then (qty : ℚ) else 0 := by
      cases side with
      | buy => rfl
      | sell => simp [goodsOn, newOrder, eq_comm]
    exact congrArg (ex.goodsOf item' + ·) hon
  have hmatched := hflow.matched (p := p) hb (refusal_none hok).1
  obtain ⟨placed, hr⟩ := place_of_refusal_none p hok
  rw [hr]
  exact conclude_flows hmatched rest

theorem cancel_flows (hcov : AllOrders (Covered bound) ex) (trader : Trader) (id : ℕ) :
    (ex.cancel trader id).1.netCredits = ex.netCredits
      ∧ (∀ item, (ex.cancel trader id).1.goodsOf item = ex.goodsOf item)
      ∧ (ex.cancel trader id).1.colony = ex.colony
      ∧ (ex.cancel trader id).1.colonyPaid = ex.colonyPaid := by
  rcases cancel_cases ex trader id with hc | ⟨item, s, o, l, hl, hc, ho, hfind⟩
  · rw [hc]
    exact ⟨rfl, fun _ => rfl, rfl, rfl⟩
  · rw [hc]
    have hsplit : l.Perm (o :: l.eraseP fun x => x.id = id && x.trader = trader) := by
      have hp := List.find?_some hfind
      obtain ⟨a, l₁, l₂, hl₁, ha, he, herase⟩ :=
        List.exists_of_eraseP (p := fun x => x.id = id && x.trader = trader) ho hp
      have hoa : o = a := by
        rw [he, List.find?_append, List.find?_eq_none.mpr (by simpa using hl₁)] at hfind
        simpa [ha] using hfind.symm
      rw [herase, he, hoa]
      exact List.perm_middle
    have hmem := hcov item s o (hl ▸ ho)
    refine ⟨?_, fun item' => ?_, rfl, rfl⟩
    · have hsum := (hsplit.map (creditsOn s)).sum_eq
      rw [List.map_cons, List.sum_cons] at hsum
      have hon : creditsOn s o = o.escrow := by
        cases hs : s with
        | buy => rfl
        | sell => simp [creditsOn, hmem.backed.sell (hmem.side_eq.trans hs)]
      rw [handBack_netCredits _ hmem.backed.sell, setResting_netCredits, hl, hsum, hon]
      ring
    · have hsum := (hsplit.map (goodsOn item' s)).sum_eq
      rw [List.map_cons, List.sum_cons] at hsum
      rw [handBack_goodsOf, setResting_goodsOf, hl, hsum, hmem.side_eq]
      ring

theorem cancelAll_flows (hcov : AllOrders (Covered bound) ex) (trader : Trader) :
    (ex.cancelAll trader).netCredits = ex.netCredits
      ∧ (∀ item, (ex.cancelAll trader).goodsOf item = ex.goodsOf item)
      ∧ (ex.cancelAll trader).colony = ex.colony
      ∧ (ex.cancelAll trader).colonyPaid = ex.colonyPaid := by
  unfold cancelAll
  generalize (ex.orders trader).map Order.id = ids
  induction ids generalizing ex with
  | nil => exact ⟨rfl, fun _ => rfl, rfl, rfl⟩
  | cons id rest ih =>
    obtain ⟨h1, h2, h3, h4⟩ := cancel_flows hcov trader id
    obtain ⟨g1, g2, g3, g4⟩ := ih (covered_cancel hcov trader id)
    exact ⟨g1.trans h1, fun item => (g2 item).trans (h2 item), g3.trans h3, g4.trans h4⟩

theorem collect_flows (ex : Exchange) (trader : Trader) :
    (ex.collect trader).1.netCredits + (ex.collect trader).2.credits = ex.netCredits
      ∧ ∀ item, (ex.collect trader).1.goodsOf item + (ex.collect trader).2.goods.getD item 0
        = ex.goodsOf item := by
  constructor
  · simp only [netCredits, collect, accountsCredits_erase, escrowedCredits, weigh]
    ring
  · intro item
    simp only [goodsOf, collect, accountsGoods_erase, escrowedGoods, weigh, held]
    ring

/-- What the clock's settling does to the desk's stock of an item. -/
def settled (p : Platform) (dt : ℚ) (ex : Exchange) (item : Item) : ℚ :=
  (ex.tick p dt).held item - ex.held item

theorem tick_flows (p : Platform) (ex : Exchange) (dt : ℚ) :
    (ex.tick p dt).netCredits = ex.netCredits
      ∧ (∀ item, (ex.tick p dt).goodsOf item = ex.goodsOf item + ex.settled p dt item)
      ∧ (DesksOpen ex → DesksOpen (ex.tick p dt))
      ∧ (ex.tick p dt).books = ex.books ∧ (ex.tick p dt).colonyPaid = ex.colonyPaid := by
  unfold settled
  obtain ⟨tapes, next, ht⟩ := tick_frame p ex dt
  rw [ht]
  refine ⟨rfl, fun item => ?_, fun h => h.congr fun item hi => ?_, rfl, rfl⟩
  · simp only [goodsOf, escrowedGoods, weigh]
    ring
  · simpa [Table.get?_mapVal] using hi

theorem held_setStock (ex : Exchange) {item : Item} (s : Stock) (item' : Item) :
    ({ ex with colony := ex.colony.insert item s } : Exchange).held item'
      = if item' = item then s.held else ex.held item' := by
  simp only [held, Table.get?_insert]
  split <;> rfl

theorem colonyReceive_flows (ex : Exchange) {item : Item} (qty : ℕ)
    (hd : (ex.colony.get? item).isSome = true) :
    (ex.colonyReceive item qty).netCredits = ex.netCredits
      ∧ (∀ item', (ex.colonyReceive item qty).goodsOf item'
        = ex.goodsOf item' + if item' = item then (qty : ℚ) else 0)
      ∧ (DesksOpen ex → DesksOpen (ex.colonyReceive item qty))
      ∧ (ex.colonyReceive item qty).books = ex.books
      ∧ (ex.colonyReceive item qty).colonyPaid = ex.colonyPaid := by
  obtain ⟨s, hs⟩ := Option.isSome_iff_exists.mp hd
  simp only [colonyReceive, hs]
  refine ⟨rfl, fun item' => ?_, fun h => h.congr fun _ hi => isSome_insert hi, trivial,
    trivial⟩
  have hheld : ex.held item = s.held := by simp [held, hs]
  simp only [goodsOf, held_setStock, escrowedGoods, weigh]
  split
  · rename_i hi
    rw [hi, hheld]
    ring
  · ring

theorem colonyIssue_flows (ex : Exchange) (item : Item) (qty : ℕ) :
    (ex.colonyIssue item qty).1.netCredits = ex.netCredits
      ∧ (∀ item', (ex.colonyIssue item qty).1.goodsOf item'
          + (if item' = item then ((ex.colonyIssue item qty).2 : ℚ) else 0) = ex.goodsOf item')
      ∧ (DesksOpen ex → DesksOpen (ex.colonyIssue item qty).1)
      ∧ (ex.colonyIssue item qty).1.books = ex.books
      ∧ (ex.colonyIssue item qty).1.colonyPaid = ex.colonyPaid := by
  unfold colonyIssue
  cases hs : ex.colony.get? item with
  | none => exact ⟨rfl, fun item' => by simp, fun h => h, rfl, rfl⟩
  | some s =>
    refine ⟨rfl, fun item' => ?_, fun h => h.congr fun _ hi => isSome_insert hi, rfl, rfl⟩
    have hheld : ex.held item = s.held := by simp [held, hs]
    simp only [goodsOf, held_setStock, escrowedGoods, weigh]
    split
    · rename_i hi
      rw [hi, hheld]
      ring
    · ring

end Exchange

end BeforeColony
