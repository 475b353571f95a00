import Mathlib.Order.Lattice.Nat
import BeforeColony.Lib.Level
import BeforeColony.Econ.Flows

/-!
# Trading with the colony's desk

The exchange with any prices at its desk in place of the colony's own, and what one trader makes
of it. The stock and the goods a trader holds move against each other, so the desk's prices are
steps between levels of its stock: a trader climbs them selling and falls over them buying.
-/

set_option autoImplicit false

namespace BeforeColony

open Lib Catalogue

/-- A desk's prices: to a seller and to a buyer, by what it has in stock. -/
abbrev Pricing := Desk → ℚ → Side → Option ℕ

namespace Exchange

variable {p : Platform} {ex ex' : Exchange} {order : Order} {pricing : Pricing}

/-! ## The exchange at any prices -/

def quoteAt (pricing : Pricing) (ex : Exchange) (item : Item) (side : Side) :
    Option (ℕ × ℕ) := do
  let d ← desk item
  let price ← pricing d (ex.held item) side
  let qty :=
    match side with
    | .sell => colonyStep d
    | .buy => min (colonyStep d) ⌊ex.held item⌋.toNat
  if 0 < qty then some (price, qty) else none

def counterAt (pricing : Pricing) (ex : Exchange) (order : Order) : Option Counter :=
  let resting := (ex.book order.item).resting order.side.opposite
  match resting, ex.quoteAt pricing order.item order.side with
  | o :: behind, some (price, available) =>
    if order.side.better price o.price then some (.colony price available)
    else some (.maker o behind)
  | o :: behind, none => some (.maker o behind)
  | [], some (price, available) => some (.colony price available)
  | [], none => none

def matchOneAt (pricing : Pricing) (ex : Exchange) (order : Order) :
    Exchange × Option (Order × Fill) :=
  let ex := ex.openBook order.item
  match ex.counterAt pricing order with
  | none => (ex, none)
  | some c =>
    if order.side.crosses c.price order.price then
      let (ex, order, fill) := ex.strike order c
      (ex, some (order, fill))
    else (ex, none)

def matchLoopAt (pricing : Pricing) : ℕ → Exchange → Order → Exchange × Order × List Fill
  | 0, ex, order => (ex, order, [])
  | fuel + 1, ex, order =>
    if order.qty = 0 then (ex, order, [])
    else
      match ex.matchOneAt pricing order with
      | (ex, none) => (ex, order, [])
      | (ex, some (order, fill)) =>
        let (ex, order, fills) := matchLoopAt pricing fuel ex order
        (ex, order, fill :: fills)

def placeAt (pricing : Pricing) (ex : Exchange) (trader : Trader) (item : Item) (side : Side)
    (price qty escrow : ℕ) (rest : Bool) : Exchange × Except Refused Placed :=
  match ex.refusal trader item side price qty escrow rest with
  | some why => (ex, .error why)
  | none =>
    let order := ex.newOrder trader item side price qty escrow
    let ex := { ex with seq := ex.seq + 1, nextId := ex.nextId + 1 }
    let (ex, order, fills) := ex.matchLoopAt pricing (ex.matchFuel order) order
    let (ex, resting) := ex.conclude order rest
    (ex, .ok { fills, resting })

theorem matchOneAt_colony (p : Platform) (ex : Exchange) (order : Order) :
    ex.matchOneAt (colonyPrice p) order = ex.matchOne p order := rfl

theorem matchLoopAt_colony (p : Platform) (fuel : ℕ) (ex : Exchange) (order : Order) :
    ex.matchLoopAt (colonyPrice p) fuel order = ex.matchLoop p fuel order := by
  induction fuel generalizing ex order with
  | zero => rfl
  | succ fuel ih =>
    simp only [matchLoopAt, matchOneAt_colony, ih]
    rfl

theorem placeAt_colony (p : Platform) (ex : Exchange) (trader : Trader) (item : Item) (side : Side)
    (price qty escrow : ℕ) (rest : Bool) :
    ex.placeAt (colonyPrice p) trader item side price qty escrow rest
      = ex.place p trader item side price qty escrow rest := by
  simp only [placeAt, matchLoopAt_colony]
  rfl

/-! ## What a trader has on the exchange -/

def ownCredits (t : Trader) (s : Side) (o : Order) : ℤ := if o.trader = t then creditsOn s o else 0

def ownGoods (t : Trader) (item : Item) (s : Side) (o : Order) : ℚ :=
  if o.trader = t then goodsOn item s o else 0

/-- A trader's credits here: owed to them, and resting in their buys. -/
def purse (t : Trader) (ex : Exchange) : ℤ :=
  (ex.accounts.getD t Account.empty).credits + weigh (ownCredits t) ex

/-- A trader's goods here: owed to them, and resting in their sells. -/
def shelf (t : Trader) (item : Item) (ex : Exchange) : ℚ :=
  (ex.accounts.getD t Account.empty).goods.getD item 0 + weigh (ownGoods t item) ex

def creditsInHand (o : Order) : ℤ := creditsOn o.side o

def goodsInHand (item : Item) (o : Order) : ℚ := goodsOn item o.side o

/-- What a deal with the desk does for the trader who struck it. -/
structure Dealt (t : Trader) (item : Item) (ex : Exchange) (order : Order) (ex' : Exchange)
    (order' : Order) (n value : ℕ) : Prop where
  trader : order'.trader = order.trader
  item_eq : order'.item = order.item
  side : order'.side = order.side
  held : ex'.held item = ex.held item + match order.side with | .buy => -(n : ℚ) | .sell => n
  credits : ∃ fee : ℕ, fee ≤ value ∧ ex'.purse t + creditsInHand order'
    = ex.purse t + creditsInHand order
      + match order.side with | .buy => -(value : ℤ) | .sell => (value : ℤ) - fee
  goods : ex'.shelf t item + goodsInHand item order'
    = ex.shelf t item + goodsInHand item order
      + match order.side with | .buy => (n : ℚ) | .sell => -(n : ℚ)

/-- The account of the trader who struck a deal with the desk. -/
theorem strike_account (ex : Exchange) (order : Order) (price available : ℕ) :
    ∃ note : String, (ex.strike order (.colony price available)).1.accounts.getD order.trader
        Account.empty
      = match order.side with
        | .buy => ((ex.accounts.getD order.trader Account.empty).addGoods order.item
            (dealQty order (.colony price available))).note note
        | .sell => ((ex.accounts.getD order.trader Account.empty).addCredits
            (wrappingSub (dealValue order (.colony price available))
              (feeOn (some order.trader) (dealValue order (.colony price available))))).note note := by
  have hown (f : Account → Account) :
      (ex.accounts.update order.trader Account.empty f).getD order.trader Account.empty
        = f (ex.accounts.getD order.trader Account.empty) := by
    rw [Table.getD_update, if_pos rfl]
  cases hs : order.side with
  | buy =>
    refine ⟨boughtNote order.item (dealQty order (.colony price available))
      (dealValue order (.colony price available)), ?_⟩
    simp only [strike, settle, printTape, dealColony, buyerOf, sellerOf, hs, Counter.trader,
      payBuyer, paySeller, hown]
    rfl
  | sell =>
    refine ⟨soldNote order.item (dealQty order (.colony price available))
      (wrappingSub (dealValue order (.colony price available))
        (feeOn (some order.trader) (dealValue order (.colony price available))))
      (feeOn (some order.trader) (dealValue order (.colony price available))), ?_⟩
    simp only [strike, settle, printTape, dealColony, buyerOf, sellerOf, hs, Counter.trader,
      payBuyer, paySeller, hown]
    rfl

theorem strike_dealt (price available : ℕ)
    (hdesk : (ex.colony.get? order.item).isSome = true)
    (hescrow : order.side = .buy → dealValue order (.colony price available) ≤ order.escrow) :
    Dealt order.trader order.item ex order (ex.strike order (.colony price available)).1
      (ex.strike order (.colony price available)).2.1 (dealQty order (.colony price available))
      (dealValue order (.colony price available)) := by
  have hle : dealQty order (.colony price available) ≤ order.qty := min_le_left _ _
  have hweigh (f : Side → Order → ℤ) := weigh_congr f (strike_books_colony ex order price available)
  have hweigh' (f : Side → Order → ℚ) := weigh_congr f (strike_books_colony ex order price available)
  have hheld := held_dealColony hdesk (dealQty order (.colony price available))
    (dealValue order (.colony price available)) order.item
  rw [if_pos rfl] at hheld
  obtain ⟨note, haccount⟩ := strike_account ex order price available
  have hqty := remainder_qty order (.colony price available)
  refine ⟨rfl, rfl, rfl, hheld, ?_, ?_⟩
  · rw [purse, haccount, hweigh, purse, strike_order, creditsInHand, creditsInHand]
    cases hs : order.side with
    | buy =>
      have hleft : (remainder order (dealQty order (.colony price available))
          (dealValue order (.colony price available))).escrow
            = order.escrow - dealValue order (.colony price available) := by
        simp only [remainder, hs, if_true]
        exact wrappingSub_eq (hescrow hs)
      refine ⟨0, Nat.zero_le _, ?_⟩
      simp only [Account.note, Account.addGoods, remainder_side, hs, creditsOn, hleft]
      push_cast [hescrow hs]
      ring
    | sell =>
      have hfee := feeOn_le (some order.trader) (dealValue order (.colony price available))
      refine ⟨_, hfee, ?_⟩
      simp only [Account.note, Account.addCredits, remainder_side, hs, creditsOn,
        wrappingSub_eq hfee]
      push_cast [hfee]
      ring
  · rw [shelf, haccount, hweigh', shelf, strike_order, goodsInHand, goodsInHand]
    cases hs : order.side with
    | buy =>
      simp only [Account.note, addGoods_getD, remainder_side, hs, goodsOn, if_true]
      push_cast
      ring
    | sell =>
      simp only [Account.note, Account.addCredits, remainder_side, hs, goodsOn, remainder_item,
        if_true, hqty]
      push_cast [hle]
      ring

theorem getD_dropEmpty (accounts : Table Trader Account) (t : Trader) (item : Item) :
    ((dropEmpty accounts t).getD t Account.empty).credits = (accounts.getD t Account.empty).credits
      ∧ ((dropEmpty accounts t).getD t Account.empty).goods.getD item 0
        = (accounts.getD t Account.empty).goods.getD item 0 := by
  unfold dropEmpty
  split
  · rename_i hempty
    obtain ⟨hcredits, hgoods⟩ := isEmpty_iff hempty
    rw [hcredits, hgoods, Table.getD, Table.get?_erase, if_pos rfl]
    exact ⟨rfl, rfl⟩
  · exact ⟨rfl, rfl⟩

theorem handBack_purse (ex : Exchange) (order : Order) (item : Item) :
    (ex.handBack order).purse order.trader = ex.purse order.trader + creditsInHand order
      ∧ (ex.handBack order).shelf order.trader item
        = ex.shelf order.trader item + goodsInHand item order := by
  obtain ⟨hcredits, hgoods⟩ := getD_dropEmpty
    (ex.accounts.update order.trader Account.empty (handedBack order)) order.trader item
  rw [Table.getD_update, if_pos rfl] at hcredits hgoods
  have hweigh (f : Side → Order → ℤ) : weigh f (ex.handBack order) = weigh f ex := rfl
  have hweigh' (f : Side → Order → ℚ) : weigh f (ex.handBack order) = weigh f ex := rfl
  rw [purse, shelf, hweigh, hweigh', purse, shelf, handBack, hcredits, hgoods]
  unfold handedBack creditsInHand goodsInHand
  cases order.side with
  | buy =>
    simp only [Account.addCredits, creditsOn, goodsOn]
    push_cast
    exact ⟨by ring, by ring⟩
  | sell =>
    have hsold : ((if 0 < order.qty then (ex.accounts.getD order.trader Account.empty).addGoods
        order.item order.qty else ex.accounts.getD order.trader Account.empty).goods.getD item 0 : ℚ)
          = (ex.accounts.getD order.trader Account.empty).goods.getD item 0
            + if order.item = item then (order.qty : ℚ) else 0 := by
      by_cases hq : 0 < order.qty
      · rw [if_pos hq, addGoods_getD]
        simp only [eq_comm (a := item)]
        split <;> simp
      · have hzero : order.qty = 0 := by omega
        simp [hzero]
    have hpaid : (if 0 < order.qty then (ex.accounts.getD order.trader Account.empty).addGoods
        order.item order.qty else ex.accounts.getD order.trader Account.empty).credits
          = (ex.accounts.getD order.trader Account.empty).credits := by
      split <;> rfl
    simp only [creditsOn, goodsOn, hpaid, hsold]
    exact ⟨by ring, by ring⟩

theorem insert_purse (ex : Exchange) (order : Order) (item : Item) :
    (ex.setBook order.item ((ex.book order.item).insert order)).purse order.trader
        = ex.purse order.trader + creditsInHand order
      ∧ (ex.setBook order.item ((ex.book order.item).insert order)).shelf order.trader item
        = ex.shelf order.trader item + goodsInHand item order := by
  have hsum {M : Type} [AddCommGroup M] (f : Order → M) :
      ((((ex.book order.item).resting order.side).orderedInsert (Book.beats order.side) order).map
        f).sum = f order + (((ex.book order.item).resting order.side).map f).sum := by
    have hperm := List.perm_orderedInsert (Book.beats order.side) order
      ((ex.book order.item).resting order.side)
    rw [(hperm.map f).sum_eq, List.map_cons, List.sum_cons]
  constructor
  · rw [purse, purse, Book.insert, weigh_setResting, hsum, ownCredits, if_pos rfl, creditsInHand]
    simp only [setBook]
    ring
  · rw [shelf, shelf, Book.insert, weigh_setResting, hsum, ownGoods, if_pos rfl, goodsInHand]
    simp only [setBook]
    ring

theorem conclude_purse (ex : Exchange) (order : Order) (rest : Bool) (item : Item) :
    (ex.conclude order rest).1.purse order.trader = ex.purse order.trader + creditsInHand order
      ∧ (ex.conclude order rest).1.shelf order.trader item
        = ex.shelf order.trader item + goodsInHand item order
      ∧ (ex.conclude order rest).1.colony = ex.colony := by
  unfold conclude
  split
  · obtain ⟨hcredits, hgoods⟩ := insert_purse ex order item
    exact ⟨hcredits, hgoods, rfl⟩
  · obtain ⟨hcredits, hgoods⟩ := handBack_purse ex order item
    exact ⟨hcredits, hgoods, rfl⟩

/-! ## A trader on the levels of the desk's stock -/

/-- How many of an item a price is for: bulk goods are priced by the tonne. -/
def lot (item : Item) : ℕ := if item.bulk then 1000 else 1

theorem lot_worth_le (item : Item) (price n : ℕ) : lot item * worth item price n ≤ price * n := by
  refine (Nat.mul_le_mul_left _ (worth_le_exact item price n)).trans ?_
  unfold lot exactWorth
  split <;> omega

theorem le_lot_worth {item : Item} {price n : ℕ} (h : worth item price n < u64Max) :
    price * n ≤ lot item * worth item price n + (lot item - 1) := by
  rw [worth_eq_exact h]
  unfold lot exactWorth
  split <;> omega

/-- The steps between the levels of a desk's stock: no lower than any price a sale can climb them
at, and no higher than any a purchase can fall over them at. -/
structure Stepped (pricing : Pricing) (d : Desk) (s₀ : ℚ) (m : ℤ → ℤ) : Prop where
  sell : ∀ k b, pricing d (s₀ + (k : ℤ)) .sell = some b →
    ∀ i : ℕ, i < colonyStep d → (b : ℤ) ≤ m (k + i)
  buy : ∀ k a, pricing d (s₀ + (k : ℤ)) .buy = some a →
    ∀ i : ℕ, i < colonyStep d → m (k - 1 - i) ≤ a

/-- Up to `buys` roundings, a trader with so many credits and goods is no further up than they
started, counting the credits against the level of the stock. -/
structure Poised (Φ : ℤ → ℤ) (item : Item) (s₀ : ℚ) (stock : ℚ) (fund : ℤ) (held : ℚ)
    (credits : ℤ) (goods : ℚ) (buys : ℕ) (k : ℤ) : Prop where
  held_eq : held = s₀ + k
  goods_eq : goods + k = stock
  credits_le : lot item * credits - Φ k ≤ fund + (lot item - 1 : ℕ) * buys

theorem quoteAt_some {item : Item} {side : Side} {price available : ℕ} {d : Desk}
    (hd : desk item = some d) (h : ex.quoteAt pricing item side = some (price, available)) :
    pricing d (ex.held item) side = some price ∧ available ≤ colonyStep d := by
  simp only [quoteAt, hd, Option.bind_eq_bind, Option.bind_some, Option.bind_eq_some_iff] at h
  obtain ⟨c, hc, h⟩ := h
  obtain ⟨-, h⟩ := Option.ite_none_right_eq_some.mp h
  obtain ⟨rfl, rfl⟩ := Prod.mk.inj (Option.some.inj h)
  refine ⟨hc, ?_⟩
  cases side with
  | buy => exact min_le_left _ _
  | sell => exact le_rfl

section Walk

variable {m Φ : ℤ → ℤ} {d : Desk} {item : Item} {s₀ stock : ℚ} {fund credits : ℤ} {goods : ℚ}
  {buys : ℕ} {k : ℤ}

/-- A deal with the desk leaves a trader no further up. -/
theorem poised_dealt {order' : Order} {price n : ℕ} (hm : Stepped pricing d s₀ m)
    (hΦ : Level.Rises m Φ) (hprice : pricing d (ex.held item) order.side = some price)
    (hn : n ≤ colonyStep d) (hvalue : order.side = .buy → worth item price n < u64Max)
    (hdealt : Dealt order.trader item ex order ex' order' n (worth item price n))
    (h : Poised Φ item s₀ stock fund (ex.held item)
      (credits + (ex.purse order.trader + creditsInHand order))
      (goods + (ex.shelf order.trader item + goodsInHand item order)) buys k) :
    ∃ k', Poised Φ item s₀ stock fund (ex'.held item)
      (credits + (ex'.purse order.trader + creditsInHand order'))
      (goods + (ex'.shelf order.trader item + goodsInHand item order'))
      (buys + if order.side = .buy then 1 else 0) k' := by
  obtain ⟨fee, hfee, hcredits⟩ := hdealt.credits
  have hheld := hdealt.held
  have hgoods := hdealt.goods
  have hstock := h.goods_eq
  have hfund := h.credits_le
  rw [h.held_eq] at hprice hheld
  cases hs : order.side with
  | buy =>
    simp only [hs] at hprice hheld hgoods hcredits
    have hfall := hΦ.fall n k fun i hi => hm.buy k price hprice i (hi.trans_le hn)
    have hround : (price : ℤ) * n ≤ lot item * worth item price n + (lot item - 1 : ℕ) := by
      exact_mod_cast le_lot_worth (hvalue hs)
    refine ⟨k - n, ?_, ?_, ?_⟩
    · rw [hheld]
      push_cast
      ring
    · rw [hgoods]
      push_cast
      linarith
    · rw [hcredits]
      push_cast
      simp only [if_true]
      linarith
  | sell =>
    simp only [hs] at hprice hheld hgoods hcredits
    have hclimb := hΦ.climb n k fun i hi => hm.sell k price hprice i (hi.trans_le hn)
    have hround : (lot item : ℤ) * worth item price n ≤ price * n := by
      exact_mod_cast lot_worth_le item price n
    have hpaid : (0 : ℤ) ≤ lot item * fee := by positivity
    refine ⟨k + n, ?_, ?_, ?_⟩
    · rw [hheld]
      push_cast
      ring
    · rw [hgoods]
      push_cast
      linarith
    · rw [hcredits]
      simp only [reduceCtorEq, if_false, Nat.add_zero]
      linarith

/-- Where a counter-offer comes from: the colony's quote, or the first resting order. -/
theorem counterAt_cases {c : Counter} (h : ex.counterAt pricing order = some c) :
    (∃ price available, c = .colony price available
        ∧ ex.quoteAt pricing order.item order.side = some (price, available))
      ∨ ∃ o behind, c = .maker o behind := by
  simp only [counterAt] at h
  split at h
  · rename_i o behind price available _ hq
    split at h
    · exact Or.inl ⟨price, available, (Option.some.inj h).symm, hq⟩
    · exact Or.inr ⟨o, behind, (Option.some.inj h).symm⟩
  · rename_i o behind _ _
    exact Or.inr ⟨o, behind, (Option.some.inj h).symm⟩
  · rename_i price available _ hq
    exact Or.inl ⟨price, available, (Option.some.inj h).symm, hq⟩
  · cases h

/-- A round of matching finds nothing that crosses, or strikes a deal. -/
theorem matchOneAt_cases (pricing : Pricing) (ex : Exchange) (order : Order) :
    ex.matchOneAt pricing order = (ex.openBook order.item, none)
      ∨ ∃ c, (ex.openBook order.item).counterAt pricing order = some c
          ∧ order.side.crosses c.price order.price = true
          ∧ ex.matchOneAt pricing order
            = (((ex.openBook order.item).strike order c).1,
                some ((ex.openBook order.item).strike order c).2) := by
  unfold matchOneAt
  cases h : (ex.openBook order.item).counterAt pricing order with
  | none => exact Or.inl (by simp [h])
  | some c =>
    by_cases hc : order.side.crosses c.price order.price = true
    · exact Or.inr ⟨c, rfl, hc, by simp [h, hc]⟩
    · exact Or.inl (by simp [h, hc])

def WithColony (f : Fill) : Prop := f.buyer = none ∨ f.seller = none

instance (f : Fill) : Decidable (WithColony f) := inferInstanceAs (Decidable (_ ∨ _))

/-- The fills in which a trader bought from the colony. -/
def purchases (fills : List Fill) : ℕ := fills.countP fun f => f.buyer.isSome

theorem purchases_append (fills fills' : List Fill) :
    purchases (fills ++ fills') = purchases fills + purchases fills' :=
  List.countP_append

/-- An order in the middle of matching at the desk's prices. -/
structure Trading (Φ : ℤ → ℤ) (t : Trader) (item : Item) (s₀ stock : ℚ) (fund credits : ℤ)
    (goods : ℚ) (buys : ℕ) (ex : Exchange) (order : Order) : Prop where
  trader : order.trader = t
  item_eq : order.item = item
  backed : Backed (u64Max - 1) order
  record : (ex.colony.get? item).isSome = true
  poised : ∃ k, Poised Φ item s₀ stock fund (ex.held item)
    (credits + (ex.purse t + creditsInHand order))
    (goods + (ex.shelf t item + goodsInHand item order)) buys k

variable {t : Trader}

theorem trading_openBook (h : Trading Φ t item s₀ stock fund credits goods buys ex order) :
    Trading Φ t item s₀ stock fund credits goods buys (ex.openBook order.item) order := by
  have hpurse : (ex.openBook order.item).purse t = ex.purse t := by
    rw [purse, weigh_openBook, purse]
    rfl
  have hshelf : (ex.openBook order.item).shelf t item = ex.shelf t item := by
    rw [shelf, weigh_openBook, shelf]
    rfl
  refine ⟨h.trader, h.item_eq, h.backed, h.record, ?_⟩
  rw [hpurse, hshelf]
  exact h.poised

theorem trading_strike {price available : ℕ} (hd : desk item = some d)
    (hm : Stepped pricing d s₀ m) (hΦ : Level.Rises m Φ)
    (h : Trading Φ t item s₀ stock fund credits goods buys ex order)
    (hquote : ex.quoteAt pricing order.item order.side = some (price, available))
    (hcross : order.side.crosses price order.price = true) :
    Trading Φ t item s₀ stock fund credits goods
      (buys + purchases [(ex.strike order (.colony price available)).2.2])
      (ex.strike order (.colony price available)).1
      (ex.strike order (.colony price available)).2.1 := by
  obtain ⟨htrader, hitem, hbacked, hrecord, k, hpoised⟩ := h
  subst htrader hitem
  have hmax : u64Max - 1 < u64Max := by decide
  have hescrow := buy_value_le (c := .colony price available) hbacked hmax hcross
  obtain ⟨hprice, havailable⟩ := quoteAt_some hd hquote
  have hn : dealQty order (.colony price available) ≤ colonyStep d :=
    (min_le_right _ _).trans havailable
  have hvalue (hs : order.side = .buy) :
      worth order.item price (dealQty order (.colony price available)) < u64Max :=
    ((hescrow hs).trans (hbacked.buy hs).2).trans_lt hmax
  have hdealt := strike_dealt price available hrecord hescrow
  have hbuys : purchases [(ex.strike order (.colony price available)).2.2]
      = if order.side = .buy then 1 else 0 := by
    cases hs : order.side with
    | buy => simp [purchases, strike, buyerOf, hs]
    | sell => simp [purchases, strike, buyerOf, hs, Counter.trader]
  refine ⟨rfl, rfl, hbacked.remainder hmax hcross, isSome_insert hrecord, ?_⟩
  rw [hbuys]
  exact poised_dealt hm hΦ hprice hn hvalue hdealt hpoised

/-- However far an order is matched, if it is the colony that fills it. -/
theorem trading_loop (hd : desk item = some d) (hm : Stepped pricing d s₀ m)
    (hΦ : Level.Rises m Φ) (fuel : ℕ)
    (h : Trading Φ t item s₀ stock fund credits goods buys ex order)
    (halone : ∀ f ∈ (ex.matchLoopAt pricing fuel order).2.2, WithColony f) :
    Trading Φ t item s₀ stock fund credits goods
      (buys + purchases (ex.matchLoopAt pricing fuel order).2.2)
      (ex.matchLoopAt pricing fuel order).1 (ex.matchLoopAt pricing fuel order).2.1 := by
  induction fuel generalizing ex order buys with
  | zero => exact h
  | succ fuel ih =>
    unfold matchLoopAt at halone ⊢
    by_cases hq : order.qty = 0
    · rw [if_pos hq]
      exact h
    · rw [if_neg hq] at halone ⊢
      rcases matchOneAt_cases pricing ex order with hnone | ⟨c, hc, hcross, hone⟩
      · rw [hnone]
        exact trading_openBook h
      · rw [hone] at halone ⊢
        rcases counterAt_cases hc with ⟨price, available, rfl, hquote⟩ | ⟨o, behind, rfl⟩
        · have hstruck := trading_strike hd hm hΦ (trading_openBook h) hquote hcross
          have hrest := ih hstruck fun f hf => halone f (List.mem_cons_of_mem _ hf)
          rw [Nat.add_assoc, ← purchases_append] at hrest
          exact hrest
        · rcases halone _ List.mem_cons_self with hbuyer | hseller
          · cases hs : order.side with
            | buy => simp [strike, buyerOf, hs] at hbuyer
            | sell => simp [strike, buyerOf, hs, Counter.trader] at hbuyer
          · cases hs : order.side with
            | buy => simp [strike, sellerOf, hs, Counter.trader] at hseller
            | sell => simp [strike, sellerOf, hs] at hseller

end Walk

/-! ## A trader's run of orders -/

/-- A trader, with what they hold off the exchange and the fills they have had. -/
structure Session where
  ex : Exchange
  credits : ℤ
  goods : ℤ
  fills : List Fill

structure Placement where
  side : Side
  price : ℕ
  qty : ℕ
  escrow : ℕ
  rest : Bool

/-- Places an order, handing over what it needs. -/
def deal (pricing : Pricing) (t : Trader) (item : Item) (s : Session) (o : Placement) : Session :=
  match s.ex.placeAt pricing t item o.side o.price o.qty o.escrow o.rest with
  | (ex, .error _) => { s with ex }
  | (ex, .ok placed) =>
    { ex
      credits := s.credits - if o.side = .buy then (o.escrow : ℤ) else 0
      goods := s.goods - if o.side = .sell then (o.qty : ℤ) else 0
      fills := s.fills ++ placed.fills }

def session (pricing : Pricing) (t : Trader) (item : Item) (s : Session)
    (orders : List Placement) : Session :=
  orders.foldl (deal pricing t item) s

def wealth (t : Trader) (s : Session) : ℤ := s.credits + s.ex.purse t

def stores (t : Trader) (item : Item) (s : Session) : ℚ := s.goods + s.ex.shelf t item

/-- At no stock does the desk bid more than it asks with up to two steps more in stock: what it
buys in one step and what it sold in one step have something in common. -/
def Spread (pricing : Pricing) (d : Desk) : Prop :=
  ∀ s s' b a, pricing d s .sell = some b → pricing d s' .buy = some a →
    s < s' → s' < s + 2 * colonyStep d → b ≤ a

/-- A desk's prices don't rise as its stock does. -/
def Falling (pricing : Pricing) (d : Desk) : Prop :=
  ∀ side s s' c c', s ≤ s' → pricing d s side = some c → pricing d s' side = some c' → c' ≤ c

/-- At one stock a desk's bid is no more than its ask. -/
def Uncrossed (pricing : Pricing) (d : Desk) : Prop :=
  ∀ s b a, pricing d s .sell = some b → pricing d s .buy = some a → b ≤ a

def bestBid (pricing : Pricing) (d : Desk) (s₀ : ℚ) (k : ℤ) : ℤ :=
  ((Finset.range (colonyStep d)).sup fun i =>
    (pricing d (s₀ + ((k - i : ℤ) : ℚ)) .sell).getD 0 : ℕ)

theorem stepped_bestBid {d : Desk} (h : Spread pricing d) (s₀ : ℚ) :
    Stepped pricing d s₀ (bestBid pricing d s₀) := by
  constructor
  · intro k b hb i hi
    have hle := Finset.le_sup (f := fun j : ℕ =>
      (pricing d (s₀ + ((k + i - j : ℤ) : ℚ)) .sell).getD 0) (Finset.mem_range.mpr hi)
    have hlevel : k + (i : ℤ) - i = k := by ring
    simp only [hlevel, hb, Option.getD_some] at hle
    exact Int.ofNat_le.mpr hle
  · intro k a ha i hi
    refine Int.ofNat_le.mpr (Finset.sup_le fun j hj => ?_)
    have hj' := Finset.mem_range.mp hj
    cases hb : pricing d (s₀ + ((k - 1 - i - j : ℤ) : ℚ)) .sell with
    | none => exact Nat.zero_le _
    | some b =>
      have hij : (i : ℚ) + j + 2 ≤ 2 * colonyStep d := by
        exact_mod_cast (by omega : i + j + 2 ≤ 2 * colonyStep d)
      refine h _ _ b a hb ha ?_ ?_
      · push_cast
        have hi0 : (0 : ℚ) ≤ i := Nat.cast_nonneg i
        have hj0 : (0 : ℚ) ≤ j := Nat.cast_nonneg j
        linarith
      · push_cast
        linarith

section Run

variable {m Φ : ℤ → ℤ} {d : Desk} {t : Trader} {item : Item} {s₀ stock : ℚ} {fund : ℤ}
  {s : Session}

structure Resting (Φ : ℤ → ℤ) (t : Trader) (item : Item) (s₀ stock : ℚ) (fund : ℤ)
    (s : Session) : Prop where
  record : (s.ex.colony.get? item).isSome = true
  poised : ∃ k, Poised Φ item s₀ stock fund (s.ex.held item) (wealth t s) (stores t item s)
    (purchases s.fills) k

theorem deal_fills (pricing : Pricing) (t : Trader) (item : Item) (s : Session) (o : Placement) :
    ∃ fills, (deal pricing t item s o).fills = s.fills ++ fills := by
  unfold deal
  split
  · exact ⟨[], (List.append_nil _).symm⟩
  · exact ⟨_, rfl⟩

theorem resting_deal (hd : desk item = some d) (hm : Stepped pricing d s₀ m)
    (hΦ : Level.Rises m Φ) (h : Resting Φ t item s₀ stock fund s) (o : Placement)
    (hescrow : o.escrow < u64Max)
    (halone : ∀ f ∈ (deal pricing t item s o).fills, WithColony f) :
    Resting Φ t item s₀ stock fund (deal pricing t item s o) := by
  obtain ⟨hrecord, k, hpoised⟩ := h
  cases hok : s.ex.refusal t item o.side o.price o.qty o.escrow o.rest with
  | some why =>
    have hsame : deal pricing t item s o = s := by
      simp only [deal, placeAt, hok]
    rw [hsame]
    exact ⟨hrecord, k, hpoised⟩
  | none =>
    set order := s.ex.newOrder t item o.side o.price o.qty o.escrow with horder
    have hcash : creditsInHand order = if o.side = .buy then (o.escrow : ℤ) else 0 := by
      rw [horder, creditsInHand, newOrder]
      cases o.side <;> rfl
    have hgoods : goodsInHand item order = if o.side = .sell then (o.qty : ℚ) else 0 := by
      rw [horder, goodsInHand, newOrder]
      cases o.side <;> simp [goodsOn]
    have hstart : Trading Φ t item s₀ stock fund
        (s.credits - if o.side = .buy then (o.escrow : ℤ) else 0)
        ((s.goods - if o.side = .sell then (o.qty : ℤ) else 0 : ℤ) : ℚ) (purchases s.fills)
        s.ex.numbered order := by
      refine ⟨rfl, rfl, backed_newOrder hok fun _ => Nat.le_sub_one_of_lt hescrow, hrecord, k, ?_⟩
      have hpurse : s.ex.numbered.purse t = s.ex.purse t := rfl
      have hshelf : s.ex.numbered.shelf t item = s.ex.shelf t item := rfl
      have hheld : s.ex.numbered.held item = s.ex.held item := rfl
      refine ⟨hheld.trans hpoised.held_eq, ?_, ?_⟩
      · rw [hshelf, hgoods, ← hpoised.goods_eq, stores]
        split <;> push_cast <;> ring
      · have hle := hpoised.credits_le
        rw [wealth] at hle
        rw [hpurse, hcash]
        refine le_trans (le_of_eq ?_) hle
        ring
    have hdeal : deal pricing t item s o =
        { ex := ((s.ex.numbered.matchLoopAt pricing (s.ex.numbered.matchFuel order) order).1.conclude
            (s.ex.numbered.matchLoopAt pricing (s.ex.numbered.matchFuel order) order).2.1 o.rest).1
          credits := s.credits - if o.side = .buy then (o.escrow : ℤ) else 0
          goods := s.goods - if o.side = .sell then (o.qty : ℤ) else 0
          fills := s.fills
            ++ (s.ex.numbered.matchLoopAt pricing (s.ex.numbered.matchFuel order) order).2.2 } := by
      simp only [deal, placeAt, hok]
      rfl
    rw [hdeal] at halone ⊢
    have hmatched := trading_loop hd hm hΦ (s.ex.numbered.matchFuel order) hstart fun f hf =>
      halone f (List.mem_append_right _ hf)
    generalize s.ex.numbered.matchLoopAt pricing (s.ex.numbered.matchFuel order) order = r
      at hmatched ⊢
    obtain ⟨htrader, hitem, -, hrecord', k', hpoised'⟩ := hmatched
    obtain ⟨hcredits, hshelf, hcolony⟩ := conclude_purse r.1 r.2.1 o.rest item
    rw [htrader] at hcredits hshelf
    refine ⟨?_, k', ?_, ?_, ?_⟩
    · rw [hcolony]
      exact hrecord'
    · simp only [held, hcolony]
      exact hpoised'.held_eq
    · rw [stores, hshelf]
      exact hpoised'.goods_eq
    · rw [wealth, hcredits, purchases_append]
      exact hpoised'.credits_le

theorem resting_session (hd : desk item = some d) (hm : Stepped pricing d s₀ m)
    (hΦ : Level.Rises m Φ) (h : Resting Φ t item s₀ stock fund s) (orders : List Placement)
    (hescrow : ∀ o ∈ orders, o.escrow < u64Max)
    (halone : ∀ f ∈ (session pricing t item s orders).fills, WithColony f) :
    Resting Φ t item s₀ stock fund (session pricing t item s orders) := by
  induction orders using List.reverseRecOn with
  | nil => exact h
  | append_singleton orders o ih =>
    have hlast : session pricing t item s (orders ++ [o])
        = deal pricing t item (session pricing t item s orders) o := List.foldl_concat ..
    rw [hlast] at halone ⊢
    obtain ⟨fills, hfills⟩ := deal_fills pricing t item (session pricing t item s orders) o
    have hbefore := ih (fun o' ho' => hescrow o' (List.mem_append_left _ ho')) fun f hf =>
      halone f (hfills ▸ List.mem_append_left _ hf)
    exact resting_deal hd hm hΦ hbefore o
      (hescrow o (List.mem_append_right _ (List.mem_singleton_self _))) halone

end Run

theorem bid_le_ask {mid : ℚ} (h : 0 < mid) :
    (max ⌊mid * (9 / 10)⌋ 1).toNat ≤ ⌈mid * (11 / 10)⌉.toNat := by
  refine Int.toNat_le_toNat (max_le ?_ ?_)
  · have hfloor := Int.floor_le (mid * (9 / 10))
    have hceil := Int.le_ceil (mid * (11 / 10))
    exact_mod_cast (by linarith : ((⌊mid * (9 / 10)⌋ : ℤ) : ℚ) ≤ (⌈mid * (11 / 10)⌉ : ℤ))
  · exact Int.one_le_ceil_iff.mpr (by linarith)

/-- Where prices stand still the colony's bid is below its ask at any two stocks. -/
theorem colonyPrice_spread {d : Desk} (hbase : 0 < d.base) {s s' : ℚ} {b a : ℕ}
    (hb : colonyPrice Platform.atRest d s .sell = some b)
    (ha : colonyPrice Platform.atRest d s' .buy = some a) : b ≤ a := by
  unfold colonyPrice Platform.atRest at hb ha
  obtain ⟨-, hb⟩ := Option.ite_none_right_eq_some.mp hb
  obtain ⟨-, ha⟩ := Option.ite_none_right_eq_some.mp ha
  rw [← Option.some.inj hb, ← Option.some.inj ha]
  refine bid_le_ask (lt_of_lt_of_le ?_ (le_max_left _ _))
  have hpos : (0 : ℚ) < d.base := Nat.cast_pos.mpr hbase
  linarith

theorem colonyPrice_atRest {d : Desk} {s s' : ℚ} {side : Side} {c c' : ℕ}
    (h : colonyPrice Platform.atRest d s side = some c)
    (h' : colonyPrice Platform.atRest d s' side = some c') : c' = c := by
  unfold colonyPrice Platform.atRest at h h'
  cases side with
  | buy =>
    obtain ⟨-, h⟩ := Option.ite_none_right_eq_some.mp h
    obtain ⟨-, h'⟩ := Option.ite_none_right_eq_some.mp h'
    exact (Option.some.inj h').symm.trans (Option.some.inj h)
  | sell =>
    obtain ⟨-, h⟩ := Option.ite_none_right_eq_some.mp h
    obtain ⟨-, h'⟩ := Option.ite_none_right_eq_some.mp h'
    exact (Option.some.inj h').symm.trans (Option.some.inj h)

def tank : Item := .material .refinedPropellant

def newcomer : Session := ⟨new, 1000, 0, []⟩

/-- Four kilograms bought one by one, at two credits each, and sold together. -/
def retail : List Placement :=
  [⟨.buy, 3000, 1, 3, false⟩, ⟨.buy, 3000, 1, 3, false⟩, ⟨.buy, 3000, 1, 3, false⟩,
    ⟨.buy, 3000, 1, 3, false⟩, ⟨.sell, 1, 4, 0, false⟩]

theorem tank_desk : ∃ d, desk tank = some d ∧ 0 < d.base := by
  have hsome : ∃ d ∈ desk tank, 0 < d.base := by decide +kernel
  exact hsome

/-- A trader whom the colony alone trades with, and who ends with the goods they began with, has
gained nothing but what rounding took off their purchases, at any prices that keep a spread over two
steps: nothing at all on goods sold by the piece, and less than a credit a purchase on bulk goods. -/
theorem desk_gives_nothing (pricing : Pricing) (t : Trader) {item : Item} {d : Desk} (s : Session)
    (orders : List Placement) (hd : desk item = some d) (hspread : Spread pricing d)
    (hrecord : (s.ex.colony.get? item).isSome = true) (hnew : s.fills = [])
    (hescrow : ∀ o ∈ orders, o.escrow < u64Max)
    (halone : ∀ f ∈ (session pricing t item s orders).fills, WithColony f)
    (hgoods : stores t item (session pricing t item s orders) = stores t item s) :
    (item.bulk = false → wealth t (session pricing t item s orders) ≤ wealth t s)
      ∧ 1000 * (wealth t (session pricing t item s orders) - wealth t s)
        ≤ 999 * purchases (session pricing t item s orders).fills := by
  set s₀ := s.ex.held item with hs₀
  have hm := stepped_bestBid hspread s₀
  have hΦ := Level.rises_height (bestBid pricing d s₀)
  have hstart : Resting (Level.height (bestBid pricing d s₀)) t item s₀ (stores t item s)
      (lot item * wealth t s - Level.height (bestBid pricing d s₀) 0) s := by
    refine ⟨hrecord, 0, ?_, ?_, ?_⟩
    · rw [← hs₀, Int.cast_zero, add_zero]
    · rw [Int.cast_zero, add_zero]
    · rw [hnew, purchases, List.countP_nil, Nat.cast_zero, mul_zero, add_zero]
  obtain ⟨-, k, -, hk, hle⟩ := resting_session hd hm hΦ hstart orders hescrow halone
  have hzero : k = 0 := by
    rw [hgoods] at hk
    exact_mod_cast add_eq_left.mp hk
  rw [hzero] at hle
  generalize purchases (session pricing t item s orders).fills = buys at hle ⊢
  cases hbulk : item.bulk with
  | false =>
    simp only [lot, hbulk] at hle
    push_cast at hle
    constructor
    · intro _
      simp at hle
      linarith
    · simp at hle
      linarith [Int.natCast_nonneg buys]
  | true =>
    simp only [lot, hbulk] at hle
    push_cast at hle
    constructor
    · intro h
      cases h
    · norm_num at hle
      linarith

theorem desk_gives_nothing_retail :
    1000 * (wealth "lyra" (session (colonyPrice Platform.atRest) "lyra" tank newcomer retail)
        - wealth "lyra" newcomer)
      ≤ 999 * purchases (session (colonyPrice Platform.atRest) "lyra" tank newcomer retail).fills
      := by
  obtain ⟨d, hd, hbase⟩ := tank_desk
  exact (desk_gives_nothing (colonyPrice Platform.atRest) "lyra" newcomer retail hd
    (fun _ _ _ _ hb ha _ _ => colonyPrice_spread hbase hb ha) (by decide +kernel) rfl (by decide)
    (by decide +kernel) (by decide +kernel)).2

/-- A trader filled by the colony alone gains nothing, at any prices that are as `ok` says. -/
def NoGain (ok : Pricing → Item → Desk → Prop) : Prop :=
  ∀ (pricing : Pricing) (t : Trader) (item : Item) (d : Desk) (s : Session)
    (orders : List Placement), desk item = some d → ok pricing item d →
    (s.ex.colony.get? item).isSome = true → s.fills = [] → (∀ o ∈ orders, o.escrow < u64Max) →
    (∀ f ∈ (session pricing t item s orders).fills, WithColony f) →
    stores t item (session pricing t item s orders) = stores t item s →
    wealth t (session pricing t item s orders) ≤ wealth t s

/-- Dear with fewer than three in stock, and cheap from there on. -/
def cliff : Pricing := fun _ s _ => some (if s < 3 then 100 else 10)

/-- One bought on top of the cliff, and sold at its foot. -/
def jump : List Placement := [⟨.buy, 10, 1, 10, false⟩, ⟨.sell, 1, 1, 0, false⟩]

/-- Rounding down gives credits away at the colony's own prices; and so does a price that rises
within a step, since a deal is made at the price before it. -/
theorem desk_gives_credits :
    ¬ NoGain (fun pricing _ d => Falling pricing d ∧ Uncrossed pricing d)
      ∧ ¬ NoGain (fun pricing _ d => pricing = colonyPrice Platform.atRest ∧ Falling pricing d
        ∧ Uncrossed pricing d)
      ∧ ¬ NoGain (fun pricing item d => item.bulk = false ∧ Falling pricing d
        ∧ Uncrossed pricing d) := by
  have hretail : ¬ NoGain (fun pricing _ d => pricing = colonyPrice Platform.atRest
      ∧ Falling pricing d ∧ Uncrossed pricing d) := by
    intro h
    obtain ⟨d, hd, hbase⟩ := tank_desk
    have hgain := h (colonyPrice Platform.atRest) "lyra" tank d newcomer retail hd
      ⟨rfl, fun _ _ _ _ _ _ hc hc' => (colonyPrice_atRest hc hc').le,
        fun _ _ _ => colonyPrice_spread hbase⟩
      (by decide +kernel) rfl (by decide) (by decide +kernel) (by decide +kernel)
    exact absurd hgain (by decide +kernel)
  refine ⟨fun h => hretail fun pricing t item d s orders hd hok => ?_, hretail, fun h => ?_⟩
  · exact h pricing t item d s orders hd hok.2
  · obtain ⟨d, hd⟩ : ∃ d, desk (.weapon .beamRifle) = some d :=
      Option.isSome_iff_exists.mp (by decide +kernel)
    have hfalling : Falling cliff d := by
      intro side s s' c c' hle hc hc'
      rw [← Option.some.inj hc, ← Option.some.inj hc']
      split <;> split <;> first | omega | linarith
    have huncrossed : Uncrossed cliff d := by
      intro s b a hb ha
      exact (Option.some.inj (hb.symm.trans ha)).le
    have hgain := h cliff "lyra" (.weapon .beamRifle) d newcomer jump hd ⟨rfl, hfalling, huncrossed⟩
      (by decide +kernel) rfl (by decide) (by decide +kernel) (by decide +kernel)
    exact absurd hgain (by decide +kernel)

end Exchange

end BeforeColony
