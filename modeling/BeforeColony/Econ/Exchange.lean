import Mathlib.Data.List.Sort
import Mathlib.Data.String.Basic
import BeforeColony.Econ.Catalogue

/-!
# The exchange

An order book per item, where pilots trade with each other and with the colony's desk.
The definitions follow the source operation by operation. Credits and quantities are
naturals; the five `u64` operations of a match (`matchOne`) wrap as they do there, and
that they never have to is a theorem. The desk's stock is an exact number.
-/

set_option autoImplicit false

namespace BeforeColony

open Lib Catalogue

/-- What the code takes from the platform: `powf(0.6)`, `exp`, the products with 0.9 and 1.1 as
they are rounded, and Unicode's upper case. -/
structure Platform where
  pow06 : ℚ → ℚ
  exp : ℚ → ℚ
  times09 : ℚ → ℚ
  times11 : ℚ → ℚ
  toUppercase : String → String
  times09_le : ∀ x, 0 ≤ x → times09 x ≤ x

/-- The platform as it is at a stock on target and with no time passing, nothing rounded. -/
def Platform.atRest : Platform where
  pow06 _ := 1
  exp _ := 1
  times09 x := x * (9 / 10)
  times11 x := x * (11 / 10)
  toUppercase := String.toUpper
  times09_le x hx := by linarith

abbrev Trader := String

/-- The colony's fee on every sale, in basis points of its value. -/
def feeBp : ℕ := 200
def maxOrders : ℕ := 32
/-- Samples of each item's price kept for its chart. -/
def history : ℕ := 60
def sampleSecs : ℚ := 60
def maxPrice : ℕ := 1000000000000
def maxQty : ℕ := 1000000000

inductive Side where
  | buy | sell
  deriving DecidableEq, Repr

namespace Side

def opposite : Side → Side
  | buy => sell
  | sell => buy

def better (s : Side) (a b : ℕ) : Bool :=
  match s with
  | buy => a < b
  | sell => b < a

def crosses (s : Side) (price limit : ℕ) : Bool :=
  match s with
  | buy => price ≤ limit
  | sell => limit ≤ price

end Side

structure Order where
  id : ℕ
  trader : Trader
  item : Item
  side : Side
  price : ℕ
  /-- Still wanted, or still on offer. -/
  qty : ℕ
  /-- A buy order's credits held against it. -/
  escrow : ℕ
  seq : ℕ
  deriving DecidableEq, Repr

structure Book where
  /-- Highest first, oldest first at a price. -/
  bids : List Order
  /-- Lowest first, oldest first at a price. -/
  asks : List Order
  deriving DecidableEq, Repr

namespace Book

def empty : Book := ⟨[], []⟩

def resting (b : Book) : Side → List Order
  | .buy => b.bids
  | .sell => b.asks

def withResting (b : Book) (s : Side) (l : List Order) : Book :=
  match s with
  | .buy => { b with bids := l }
  | .sell => { b with asks := l }

def beats (s : Side) (order o : Order) : Prop :=
  match s with
  | .buy => o.price < order.price
  | .sell => order.price < o.price

instance (s : Side) : DecidableRel (beats s) := fun a b => by
  cases s <;> exact inferInstanceAs (Decidable (_ < _))

def insert (b : Book) (order : Order) : Book :=
  b.withResting order.side
    ((b.resting order.side).orderedInsert (beats order.side) order)

end Book

/-- What a trader is owed, waiting to be collected. -/
structure Account where
  credits : ℕ
  goods : Table Item ℕ
  notes : List String

namespace Account

def empty : Account := ⟨0, Table.empty, []⟩

def isEmpty (a : Account) : Bool :=
  a.credits = 0 && a.goods.entries.isEmpty && a.notes.isEmpty

def addCredits (a : Account) (n : ℕ) : Account := { a with credits := a.credits + n }

def addGoods (a : Account) (item : Item) (qty : ℕ) : Account :=
  { a with goods := a.goods.update item 0 (· + qty) }

def note (a : Account) (text : String) : Account := { a with notes := a.notes ++ [text] }

end Account

structure Tape where
  last : Option ℕ
  volume : ℕ
  /-- A sample a minute, oldest first. -/
  samples : List ℕ
  deriving DecidableEq, Repr

def Tape.empty : Tape := ⟨none, 0, []⟩

/-- One trade, as it happened; `none` is the colony. -/
structure Fill where
  item : Item
  price : ℕ
  qty : ℕ
  buyer : Option Trader
  seller : Option Trader
  fee : ℕ
  deriving DecidableEq, Repr

inductive Refused where
  | noSuchItem | bounds | escrow | tooManyOrders
  deriving DecidableEq, Repr

def Refused.text : Refused → String
  | noSuchItem => "no such item on the exchange"
  | bounds => "that price or quantity isn't possible"
  | escrow => "not enough to cover the order"
  | tooManyOrders => "too many open orders"

/-- What an order did: its fills, and the id the rest of it rests under. -/
structure Placed where
  fills : List Fill
  resting : Option ℕ
  deriving DecidableEq, Repr

structure Stock where
  held : ℚ
  deriving DecidableEq, Repr

structure Exchange where
  books : Table Item Book
  colony : Table Item Stock
  accounts : Table Trader Account
  tapes : Table Item Tape
  nextId : ℕ
  seq : ℕ
  clock : ℚ
  nextSample : ℚ
  fees : ℕ
  colonyPaid : ℕ
  colonyTook : ℕ

/-- The colony's price for `side` of an item with `held` in stock: its bid to a seller or
its ask to a buyer. -/
def colonyPrice (p : Platform) (d : Desk) (held : ℚ) (side : Side) : Option ℕ :=
  let target : ℚ := d.target
  let base : ℚ := d.base
  let s := max (max held (target / 32)) (1 / 1000000000)
  let mid := max (base / 5) (min (base * 5) (base * p.pow06 (target / s)))
  match side with
  | .sell => if d.buys then some (max ⌊p.times09 mid⌋ 1).toNat else none
  | .buy => if d.sells ∧ 1 ≤ held then some ⌈p.times11 mid⌉.toNat else none

/-- How much the colony trades at one price before it re-prices. -/
def colonyStep (d : Desk) : ℕ := max (d.target / 50) 1

namespace Exchange

/-- A new exchange, the colony holding what it wants of everything. -/
def new : Exchange where
  books := Table.empty
  colony := Table.ofList <|
    Item.all.filterMap fun item => (desk item).map fun d => (item, ⟨d.target⟩)
  accounts := Table.empty
  tapes := Table.empty
  nextId := 1
  seq := 0
  clock := 0
  nextSample := 0
  fees := 0
  colonyPaid := 0
  colonyTook := 0

/-- Stocks the desks the colony holds no record for; how many it opened. -/
def seedMissing (ex : Exchange) : Exchange × ℕ :=
  Item.all.foldl (fun r item =>
    match desk item with
    | none => r
    | some d =>
      if r.1.colony.contains item then r
      else ({ r.1 with colony := r.1.colony.insert item ⟨d.target⟩ }, r.2 + 1)) (ex, 0)

def escrowFor (item : Item) (price qty : ℕ) : ℕ := worth item price qty

def book (ex : Exchange) (item : Item) : Book := ex.books.getD item Book.empty

def held (ex : Exchange) (item : Item) : ℚ := (ex.colony.get? item).elim 0 Stock.held

def colonyQuote (p : Platform) (ex : Exchange) (item : Item) (side : Side) :
    Option (ℕ × ℕ) := do
  let d ← desk item
  let price ← colonyPrice p d (ex.held item) side
  let qty :=
    match side with
    | .sell => colonyStep d
    | .buy => min (colonyStep d) ⌊ex.held item⌋.toNat
  if 0 < qty then some (price, qty) else none

/-- Every resting order, book by book, bids before asks. -/
def allOrders (ex : Exchange) : List Order :=
  ex.books.values.flatMap fun b => b.bids ++ b.asks

def orders (ex : Exchange) (trader : Trader) : List Order :=
  ex.allOrders.filter fun o => o.trader = trader

def setBook (ex : Exchange) (item : Item) (b : Book) : Exchange :=
  { ex with books := ex.books.insert item b }

def dropEmpty (accounts : Table Trader Account) (trader : Trader) : Table Trader Account :=
  if (accounts.getD trader Account.empty).isEmpty then accounts.erase trader else accounts

/-- An account with what an order no longer needs: a buy's unspent escrow, a sell's unsold
goods. -/
def handedBack (order : Order) (a : Account) : Account :=
  match order.side with
  | .buy => a.addCredits order.escrow
  | .sell => if 0 < order.qty then a.addGoods order.item order.qty else a

/-- Returns what an order no longer needs to its trader's account. -/
def handBack (ex : Exchange) (order : Order) : Exchange :=
  { ex with
    accounts := dropEmpty (ex.accounts.update order.trader Account.empty (handedBack order))
      order.trader }

/-- The best counter-offer to an order: the colony's quote, or the first resting order with
those behind it. -/
inductive Counter where
  | colony (price available : ℕ)
  | maker (o : Order) (behind : List Order)

def Counter.price : Counter → ℕ
  | colony price _ => price
  | maker o _ => o.price

def Counter.available : Counter → ℕ
  | colony _ available => available
  | maker o _ => o.qty

def counter (p : Platform) (ex : Exchange) (order : Order) : Option Counter :=
  let resting := (ex.book order.item).resting order.side.opposite
  match resting, ex.colonyQuote p order.item order.side with
  | o :: behind, some (price, available) =>
    if order.side.better price o.price then some (.colony price available)
    else some (.maker o behind)
  | o :: behind, none => some (.maker o behind)
  | [], some (price, available) => some (.colony price available)
  | [], none => none

def dealStock (side : Side) (qty : ℕ) (s : Stock) : Stock :=
  match side with
  | .buy => ⟨s.held - qty⟩
  | .sell => ⟨s.held + qty⟩

def dealColony (ex : Exchange) (item : Item) (side : Side) (qty value : ℕ) : Exchange :=
  { ex with
    colony := ex.colony.update item ⟨(desk item).elim 0 fun d => d.target⟩ (dealStock side qty)
    colonyTook := ex.colonyTook + if side = .buy then value else 0
    colonyPaid := ex.colonyPaid + if side = .sell then value else 0 }

/-- A resting order after a deal of `qty` for `value` with an order on `side`: a resting
buyer pays out of its escrow. -/
def afterDeal (o : Order) (side : Side) (qty value : ℕ) : Order :=
  { o with
    qty := wrappingSub o.qty qty
    escrow := if side = .sell then wrappingSub o.escrow value else o.escrow }

/-- Deals `qty` for `value` with the first resting order against `side`; done with, it
leaves the book. -/
def dealMaker (ex : Exchange) (item : Item) (side : Side) (o : Order) (behind : List Order)
    (qty value : ℕ) : Exchange :=
  let o := afterDeal o side qty value
  let book := ex.book item
  if o.qty = 0 then
    (ex.setBook item (book.withResting side.opposite behind)).handBack o
  else ex.setBook item (book.withResting side.opposite (o :: behind))

def feeOn (seller : Option Trader) (value : ℕ) : ℕ :=
  if seller.isSome then wrappingMul value feeBp / 10000 else 0

def boughtNote (item : Item) (qty value : ℕ) : String :=
  s!"BOUGHT {item.amount qty} {item.name} FOR {value} CR"

def soldNote (item : Item) (qty net fee : ℕ) : String :=
  s!"SOLD {item.amount qty} {item.name} FOR {net} CR (FEE {fee})"

def payBuyer (accounts : Table Trader Account) (item : Item) (qty value : ℕ) :
    Option Trader → Table Trader Account
  | none => accounts
  | some b => accounts.update b Account.empty fun a =>
      (a.addGoods item qty).note (boughtNote item qty value)

def paySeller (accounts : Table Trader Account) (item : Item) (qty value fee : ℕ) :
    Option Trader → Table Trader Account
  | none => accounts
  | some s => accounts.update s Account.empty fun a =>
      (a.addCredits (wrappingSub value fee)).note
        (soldNote item qty (wrappingSub value fee) fee)

def settle (ex : Exchange) (item : Item) (qty value : ℕ) (buyer seller : Option Trader) :
    Exchange :=
  let fee := feeOn seller value
  { ex with
    fees := ex.fees + fee
    accounts := paySeller (payBuyer ex.accounts item qty value buyer) item qty value fee seller }

def printTape (ex : Exchange) (item : Item) (price qty : ℕ) : Exchange :=
  { ex with
    tapes := ex.tapes.update item Tape.empty fun t =>
      { t with last := some price, volume := t.volume + qty } }

def remainder (order : Order) (qty value : ℕ) : Order :=
  { order with
    qty := wrappingSub order.qty qty
    escrow := if order.side = .buy then wrappingSub order.escrow value else order.escrow }

/-- The other side of a deal: the resting order's trader, or the colony. -/
def Counter.trader : Counter → Option Trader
  | colony _ _ => none
  | maker o _ => some o.trader

def buyerOf (order : Order) (c : Counter) : Option Trader :=
  match order.side with
  | .buy => some order.trader
  | .sell => c.trader

def sellerOf (order : Order) (c : Counter) : Option Trader :=
  match order.side with
  | .buy => c.trader
  | .sell => some order.trader

def strike (ex : Exchange) (order : Order) (c : Counter) : Exchange × Order × Fill :=
  let item := order.item
  let qty := min order.qty c.available
  let value := worth item c.price qty
  let ex :=
    match c with
    | .colony _ _ => ex.dealColony item order.side qty value
    | .maker o behind => ex.dealMaker item order.side o behind qty value
  let buyer := buyerOf order c
  let seller := sellerOf order c
  let ex := (ex.settle item qty value buyer seller).printTape item c.price qty
  (ex, remainder order qty value,
    { item, price := c.price, qty, buyer, seller, fee := feeOn seller value })

def openBook (ex : Exchange) (item : Item) : Exchange := ex.setBook item (ex.book item)

/-- Fills the best counter-offer against `order`, if one crosses it. -/
def matchOne (p : Platform) (ex : Exchange) (order : Order) :
    Exchange × Option (Order × Fill) :=
  let ex := ex.openBook order.item
  match ex.counter p order with
  | none => (ex, none)
  | some c =>
    if order.side.crosses c.price order.price then
      let (ex, order, fill) := ex.strike order c
      (ex, some (order, fill))
    else (ex, none)

def matchLoop (p : Platform) : ℕ → Exchange → Order → Exchange × Order × List Fill
  | 0, ex, order => (ex, order, [])
  | fuel + 1, ex, order =>
    if order.qty = 0 then (ex, order, [])
    else
      match ex.matchOne p order with
      | (ex, none) => (ex, order, [])
      | (ex, some (order, fill)) =>
        let (ex, order, fills) := matchLoop p fuel ex order
        (ex, order, fill :: fills)

/-- Each round of matching takes from the order, or a spent order from the book: this many
rounds always do (`matchLoop_done`). -/
def matchFuel (ex : Exchange) (order : Order) : ℕ :=
  order.qty + ((ex.book order.item).resting order.side.opposite).length + 1

def newOrder (ex : Exchange) (trader : Trader) (item : Item) (side : Side)
    (price qty escrow : ℕ) : Order where
  id := ex.nextId
  trader := trader
  item := item
  side := side
  price := price
  qty := qty
  escrow := if side = .buy then escrow else 0
  seq := ex.seq + 1

/-- The checks a place request has to pass, in the source's order. -/
def refusal (ex : Exchange) (trader : Trader) (item : Item) (side : Side)
    (price qty escrow : ℕ) (rest : Bool) : Option Refused :=
  if ¬ item.valid then some .noSuchItem
  else if price = 0 ∨ qty = 0 ∨ maxPrice < price ∨ maxQty < qty then some .bounds
  else if side = .buy ∧ escrow < escrowFor item price qty then some .escrow
  else if rest ∧ maxOrders ≤ (ex.orders trader).length then some .tooManyOrders
  else none

/-- What is left of a matched order rests in its book, or is handed back. -/
def conclude (ex : Exchange) (order : Order) (rest : Bool) : Exchange × Option ℕ :=
  if 0 < order.qty ∧ rest then
    (ex.setBook order.item ((ex.book order.item).insert order), some order.id)
  else (ex.handBack order, none)

/-- Places an order. `escrow` is the credits handed over for a buy; for a sell the goods are
taken to be handed over. With `rest`, what doesn't fill at once rests in the book. -/
def place (p : Platform) (ex : Exchange) (trader : Trader) (item : Item) (side : Side)
    (price qty escrow : ℕ) (rest : Bool) : Exchange × Except Refused Placed :=
  match ex.refusal trader item side price qty escrow rest with
  | some why => (ex, .error why)
  | none =>
    let order := ex.newOrder trader item side price qty escrow
    let ex := { ex with seq := ex.seq + 1, nextId := ex.nextId + 1 }
    let (ex, order, fills) := ex.matchLoop p (ex.matchFuel order) order
    let (ex, resting) := ex.conclude order rest
    (ex, .ok { fills, resting })

def pull (trader : Trader) (id : ℕ) (b : Book) : Option (Order × Book) :=
  let hit (o : Order) : Bool := o.id = id && o.trader = trader
  match b.bids.find? hit with
  | some o => some (o, { b with bids := b.bids.eraseP hit })
  | none => (b.asks.find? hit).map fun o => (o, { b with asks := b.asks.eraseP hit })

/-- Cancels one of a trader's orders; what it held goes back to their account. -/
def cancel (ex : Exchange) (trader : Trader) (id : ℕ) : Exchange × Bool :=
  let found := ex.books.entries.findSome? fun e => (pull trader id e.2).map fun r => (e.1, r)
  match found with
  | some (item, order, b) => ((ex.setBook item b).handBack order, true)
  | none => (ex, false)

def cancelAll (ex : Exchange) (trader : Trader) : Exchange :=
  ((ex.orders trader).map Order.id).foldl (fun ex id => (ex.cancel trader id).1) ex

def collect (ex : Exchange) (trader : Trader) : Exchange × Account :=
  ({ ex with accounts := ex.accounts.erase trader }, ex.accounts.getD trader Account.empty)

/-- A side's best price and how much is there, pilots' orders alone. -/
def level (l : List Order) : Option (ℕ × ℕ) :=
  l.head?.map fun o => (o.price, ((l.takeWhile fun x => x.price = o.price).map Order.qty).sum)

/-- The better of two levels, taken together at an equal price. -/
def pick (higher : Bool) : Option (ℕ × ℕ) → Option (ℕ × ℕ) → Option (ℕ × ℕ)
  | some x, some y =>
    if x.1 = y.1 then some (x.1, x.2 + y.2)
    else if decide (y.1 < x.1) = higher then some x else some y
  | x, none => x
  | none, y => y

/-- The best bid and ask for an item, pilots' or the colony's. -/
def top (p : Platform) (ex : Exchange) (item : Item) : Option (ℕ × ℕ) × Option (ℕ × ℕ) :=
  (pick true (level (ex.book item).bids) (ex.colonyQuote p item .sell),
    pick false (level (ex.book item).asks) (ex.colonyQuote p item .buy))

/-- A fair price for an item now: the middle of the market, else its last trade. -/
def mark (p : Platform) (ex : Exchange) (item : Item) : Option ℕ :=
  match ex.top p item with
  | (some b, some a) => some ((b.1 + a.1) / 2)
  | (some x, none) => some x.1
  | (none, some x) => some x.1
  | (none, none) => (ex.tapes.get? item).bind Tape.last

def sampleItem (p : Platform) (ex : Exchange) (item : Item) : Exchange :=
  match ex.mark p item with
  | none => ex
  | some price =>
    { ex with
      tapes := ex.tapes.update item Tape.empty fun t =>
        let samples := t.samples ++ [price]
        { t with samples := if history < samples.length then samples.tail else samples } }

def sample (p : Platform) (ex : Exchange) : Exchange :=
  Item.all.foldl (sampleItem p) { ex with nextSample := ex.nextSample + sampleSecs }

def settleStock (p : Platform) (dt : ℚ) (item : Item) (s : Stock) : Stock :=
  match desk item with
  | none => s
  | some d =>
    let k := 1 - p.exp (-dt / (d.settleHours * 3600))
    ⟨s.held + (d.target - s.held) * k⟩

def tick (p : Platform) (ex : Exchange) (dt : ℚ) : Exchange :=
  let dt := max dt 0
  let ex := { ex with
    clock := ex.clock + dt
    colony := ex.colony.mapVal (settleStock p dt) }
  -- One sample for every `sampleSecs` the clock is past the next one due.
  let due := if ex.nextSample ≤ ex.clock then
    ⌊(ex.clock - ex.nextSample) / sampleSecs⌋.toNat + 1 else 0
  (List.range due).foldl (fun ex _ => ex.sample p) ex

def colonyReceive (ex : Exchange) (item : Item) (qty : ℕ) : Exchange :=
  match ex.colony.get? item with
  | none => ex
  | some s => { ex with colony := ex.colony.insert item ⟨s.held + qty⟩ }

/-- The colony hands over up to `qty` of what it holds whole, outside the books. -/
def colonyIssue (ex : Exchange) (item : Item) (qty : ℕ) : Exchange × ℕ :=
  match ex.colony.get? item with
  | none => (ex, 0)
  | some s =>
    let n := min qty ⌊max s.held 0⌋.toNat
    ({ ex with colony := ex.colony.insert item ⟨s.held - n⟩ }, n)

def colonyStock (ex : Exchange) (item : Item) : Option ℚ :=
  (ex.colony.get? item).map Stock.held

end Exchange

end BeforeColony
