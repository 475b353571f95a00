import BeforeColony.Econ.Pricing
import BeforeColony.Econ.Priority

/-!
# Best execution

Each fill of an order is struck at the best price on offer at that moment, a pilot's or the
colony's, the oldest pilot's order first at a price. Where the colony's prices don't rise as its
stock does, each deal leaves nothing better than itself, so prices only get worse for the taker
(`counter_strike`). What is left rests only where nothing on offer crosses it.
-/

set_option autoImplicit false

namespace BeforeColony

open Lib Catalogue

namespace Side

variable {s : Side} {a b c : ℕ}

theorem not_better_trans (hab : s.better b a = false) (hbc : s.better c b = false) :
    s.better c a = false := by
  cases s <;> simp only [better, decide_eq_false_iff_not, not_lt] at * <;> omega

theorem not_better_of_better (h : s.better a b = true) : s.better b a = false := by
  cases s <;> simp only [better, decide_eq_true_eq, decide_eq_false_iff_not, not_lt] at * <;> omega

theorem not_crosses_of_not_better {limit : ℕ} (h : s.better b a = false)
    (ha : s.crosses a limit = false) : s.crosses b limit = false := by
  cases s <;> simp only [better, crosses, decide_eq_false_iff_not, not_lt, not_le] at * <;> omega

end Side

def Fill.other (s : Side) (f : Fill) : Option Trader :=
  match s with
  | .buy => f.seller
  | .sell => f.buyer

namespace Exchange

variable {p : Platform} {ex ex' : Exchange} {order : Order} {c : Counter}

/-! ### The moments of the loop -/

/-- A fill, with the exchange and what was left of the order as it was struck. -/
structure Moment where
  ex : Exchange
  order : Order
  fill : Fill

def moments (p : Platform) : ℕ → Exchange → Order → List Moment
  | 0, _, _ => []
  | fuel + 1, ex, order =>
    if order.qty = 0 then []
    else
      match ex.matchOne p order with
      | (_, none) => []
      | (ex', some (order', fill)) => ⟨ex, order, fill⟩ :: moments p fuel ex' order'

theorem fills_eq_moments (fuel : ℕ) (ex : Exchange) (order : Order) :
    (ex.matchLoop p fuel order).2.2 = (moments p fuel ex order).map Moment.fill := by
  induction fuel generalizing ex order with
  | zero => rfl
  | succ fuel ih =>
    unfold matchLoop moments
    split
    · rfl
    · cases hm : ex.matchOne p order with
      | mk ex' r =>
        cases r with
        | none => rfl
        | some of => exact congrArg (of.2 :: ·) (ih ex' of.1)

/-- A round of matching takes from what the loop has left to do, so no more rounds than that
change anything. -/
theorem matchLoop_stable (fuel fuel' : ℕ) (ex : Exchange) (order : Order)
    (h : ex.matchFuel order ≤ fuel) (h' : ex.matchFuel order ≤ fuel') :
    ex.matchLoop p fuel order = ex.matchLoop p fuel' order := by
  induction fuel generalizing fuel' ex order with
  | zero => exact absurd h (by simp [matchFuel])
  | succ fuel ih =>
    cases fuel' with
    | zero => exact absurd h' (by simp [matchFuel])
    | succ fuel' =>
      unfold matchLoop
      by_cases hq : order.qty = 0
      · rw [if_pos hq, if_pos hq]
      · rw [if_neg hq, if_neg hq]
        rcases matchOne_cases p ex order with ⟨hm, -⟩ | ⟨c, hc, -, hm⟩
        · rw [hm]
        · rw [hm]
          have hdec := rounds_decrease hq hc
          have hlen : (ex.openBook order.item).matchFuel order = ex.matchFuel order := by
            simp [matchFuel]
          rw [hlen] at hdec
          have hnext := ih fuel' ((ex.openBook order.item).strike order c).1
            ((ex.openBook order.item).strike order c).2.1 (by omega) (by omega)
          dsimp only
          rw [hnext]

theorem qty_matchLoop (fuel : ℕ) (ex : Exchange) (order : Order) :
    (ex.matchLoop p fuel order).2.1.qty + ((ex.matchLoop p fuel order).2.2.map Fill.qty).sum
      = order.qty := by
  induction fuel generalizing ex order with
  | zero => rfl
  | succ fuel ih =>
    unfold matchLoop
    by_cases hq : order.qty = 0
    · rw [if_pos hq]
      rfl
    · rw [if_neg hq]
      rcases matchOne_cases p ex order with ⟨hm, -⟩ | ⟨c, hc, -, hm⟩
      · rw [hm]
        rfl
      · rw [hm]
        have hrest := ih ((ex.openBook order.item).strike order c).1
          ((ex.openBook order.item).strike order c).2.1
        have hqty : ((ex.openBook order.item).strike order c).2.1.qty
            = order.qty - dealQty order c := by rw [strike_order, remainder_qty]
        have hfill : ((ex.openBook order.item).strike order c).2.2.qty = dealQty order c := rfl
        have hle : dealQty order c ≤ order.qty := min_le_left _ _
        dsimp only
        generalize matchLoop p fuel ((ex.openBook order.item).strike order c).1
          ((ex.openBook order.item).strike order c).2.1 = r at hrest ⊢
        obtain ⟨ex', order', fills⟩ := r
        dsimp only at hrest ⊢
        rw [List.map_cons, List.sum_cons, hfill]
        omega

/-! ### The best price on offer -/

/-- A fill at the best price on offer at its moment, of the oldest pilot's order at that price if
there is one and of the colony's quote otherwise. -/
structure Best (p : Platform) (mo : Moment) : Prop where
  limit : mo.order.side.crosses mo.fill.price mo.order.price = true
  pilots : ∀ o ∈ (mo.ex.book mo.order.item).resting mo.order.side.opposite,
    mo.order.side.better o.price mo.fill.price = false
  colony : ∀ price available,
    mo.ex.colonyQuote p mo.order.item mo.order.side = some (price, available) →
      mo.order.side.better price mo.fill.price = false
  offered : (∃ available,
      mo.ex.colonyQuote p mo.order.item mo.order.side = some (mo.fill.price, available)
        ∧ mo.fill.other mo.order.side = none ∧ mo.fill.qty = min mo.order.qty available
        ∧ ∀ o ∈ (mo.ex.book mo.order.item).resting mo.order.side.opposite,
            o.price ≠ mo.fill.price)
    ∨ ∃ o ∈ (mo.ex.book mo.order.item).resting mo.order.side.opposite,
        o.price = mo.fill.price ∧ mo.fill.other mo.order.side = some o.trader
          ∧ mo.fill.qty = min mo.order.qty o.qty
          ∧ ∀ o' ∈ (mo.ex.book mo.order.item).resting mo.order.side.opposite,
              o'.price = o.price → o.seq ≤ o'.seq

theorem first_best {o : Order} {behind : List Order} {s : Side}
    (hsorted : (o :: behind).Pairwise (precedes s.opposite)) {o' : Order} (ho : o' ∈ o :: behind) :
    s.better o'.price o.price = false ∧ (o'.price = o.price → o.seq ≤ o'.seq) := by
  rcases List.mem_cons.mp ho with rfl | hmem
  · cases s <;> simp [Side.better]
  · have hbefore := (List.pairwise_cons.mp hsorted).1 o' hmem
    cases s <;>
      simp only [Side.opposite, precedes, Book.beats, Side.better, decide_eq_false_iff_not,
        not_lt] at hbefore ⊢ <;> omega

theorem counter_best (h : Orderly ex) (hc : ex.counter p order = some c) :
    (∀ o ∈ (ex.book order.item).resting order.side.opposite,
        order.side.better o.price c.price = false)
      ∧ ∀ price available, ex.colonyQuote p order.item order.side = some (price, available) →
          order.side.better price c.price = false := by
  have hsorted := h.sorted order.item order.side.opposite
  unfold counter at hc
  generalize (ex.book order.item).resting order.side.opposite = l at hc hsorted ⊢
  generalize ex.colonyQuote p order.item order.side = quote at hc ⊢
  have hself (s : Side) (a : ℕ) : s.better a a = false := by cases s <;> simp [Side.better]
  cases l with
  | nil =>
    cases quote with
    | none => cases hc
    | some q =>
      cases hc
      refine ⟨fun o ho => absurd ho List.not_mem_nil, fun price available hq => ?_⟩
      cases hq
      exact hself _ _
  | cons o behind =>
    have hfirst (o' : Order) (ho : o' ∈ o :: behind) := (first_best hsorted ho).1
    cases quote with
    | none =>
      cases hc
      refine ⟨hfirst, fun price available hq => ?_⟩
      cases hq
    | some q =>
      dsimp only at hc
      split at hc
      · rename_i hbetter
        cases hc
        refine ⟨fun o' ho => ?_, fun price available hq => ?_⟩
        · exact Side.not_better_trans (Side.not_better_of_better hbetter) (hfirst o' ho)
        · cases hq
          exact hself _ _
      · rename_i hworse
        cases hc
        refine ⟨hfirst, fun price available hq => ?_⟩
        cases hq
        exact Bool.eq_false_iff.mpr hworse

theorem best_strike (h : Orderly ex) (hc : ex.counter p order = some c)
    (hcross : order.side.crosses c.price order.price = true) :
    Best p ⟨ex, order, ((ex.openBook order.item).strike order c).2.2⟩ := by
  obtain ⟨hpilots, hcolony⟩ := counter_best h hc
  have hother : ((ex.openBook order.item).strike order c).2.2.other order.side = c.trader := by
    unfold Fill.other strike buyerOf sellerOf
    cases order.side <;> rfl
  refine ⟨hcross, hpilots, hcolony, ?_⟩
  rcases counter_cases hc with ⟨price, available, rfl, hquote, hfirst⟩ | ⟨o, behind, rfl, hrest⟩
  · refine .inl ⟨available, hquote, hother, rfl, fun o ho heq => ?_⟩
    have hsorted := h.sorted order.item order.side.opposite
    cases hl : (ex.book order.item).resting order.side.opposite with
    | nil => rw [hl] at ho; cases ho
    | cons a behind =>
      rw [hl] at ho hsorted hfirst
      have hbetter := hfirst a rfl
      have hbest := (first_best hsorted ho).1
      rw [show o.price = price from heq] at hbest
      rw [hbest] at hbetter
      cases hbetter
  · have hsorted := h.sorted order.item order.side.opposite
    rw [hrest] at hsorted
    refine .inr ⟨o, hrest ▸ List.mem_cons_self, rfl, hother, rfl, fun o' ho' => ?_⟩
    exact (first_best hsorted (hrest ▸ ho')).2

/-! ### Prices get no better -/

/-- What the desk holds has moved against the taker: no more of it for a buyer, no less for a
seller. -/
def Moved (side : Side) (held held' : ℚ) : Prop :=
  match side with
  | .buy => held' ≤ held
  | .sell => held ≤ held'

theorem colonyQuote_some {item : Item} {side : Side} {price available : ℕ}
    (h : ex.colonyQuote p item side = some (price, available)) :
    ∃ d, desk item = some d ∧ colonyPrice p d (ex.held item) side = some price
      ∧ (side = .buy → 1 ≤ ex.held item) := by
  simp only [colonyQuote, Option.bind_eq_bind, Option.bind_eq_some_iff] at h
  obtain ⟨d, hd, price', hprice, h⟩ := h
  obtain ⟨-, h⟩ := Option.ite_none_right_eq_some.mp h
  obtain ⟨rfl, -⟩ := Prod.mk.inj (Option.some.inj h)
  refine ⟨d, hd, hprice, fun hside => ?_⟩
  subst hside
  exact (Option.ite_none_right_eq_some.mp hprice).1.2

/-- A desk deals with a seller where it buys at all, and with a buyer where it has one to sell. -/
theorem colonyQuote_of_desk {item : Item} {side : Side} {d : Desk} (hd : desk item = some d)
    (hsell : side = .sell → d.buys = true)
    (hbuy : side = .buy → d.sells = true ∧ 1 ≤ ex.held item) :
    ∃ price available, ex.colonyQuote p item side = some (price, available) := by
  have hstep : 0 < colonyStep d := lt_of_lt_of_le Nat.one_pos (le_max_right _ _)
  simp only [colonyQuote, colonyPrice, hd, Option.bind_eq_bind, Option.bind_some]
  cases side with
  | sell =>
    dsimp only
    rw [if_pos (hsell rfl), Option.bind_some, if_pos hstep]
    exact ⟨_, _, rfl⟩
  | buy =>
    obtain ⟨hsells, hheld⟩ := hbuy rfl
    have hfloor : 0 < min (colonyStep d) ⌊ex.held item⌋.toNat := by
      have hone : 1 ≤ ⌊ex.held item⌋ := Int.le_floor.mpr (by exact_mod_cast hheld)
      omega
    dsimp only
    rw [if_pos ⟨hsells, hheld⟩, Option.bind_some, if_pos hfloor]
    exact ⟨_, _, rfl⟩

/-- So it dealt already before its stock moved against the taker. -/
theorem colonyQuote_before {item : Item} {side : Side} {price available : ℕ}
    (h : ex'.colonyQuote p item side = some (price, available))
    (hmoved : Moved side (ex.held item) (ex'.held item)) :
    ∃ price' available', ex.colonyQuote p item side = some (price', available') := by
  obtain ⟨d, hd, hprice, hheld⟩ := colonyQuote_some h
  refine colonyQuote_of_desk hd (fun hside => ?_) fun hside => ?_
  · subst hside
    exact (Option.ite_none_right_eq_some.mp hprice).1
  · subst hside
    exact ⟨(Option.ite_none_right_eq_some.mp hprice).1.1, (hheld rfl).trans hmoved⟩

theorem moved_strike (hc : ex.counter p order = some c) :
    Moved order.side (ex.held order.item) ((ex.strike order c).1.held order.item) := by
  rcases counter_cases hc with ⟨price, available, rfl, hquote, -⟩ | ⟨o, behind, rfl, -⟩
  · obtain ⟨d, -, -, hstock⟩ := colonyQuote_some hquote
    have hcolony : (ex.strike order (.colony price available)).1.colony
        = ex.colony.update order.item ⟨(desk order.item).elim 0 fun d => d.target⟩
            (dealStock order.side (dealQty order (.colony price available))) := rfl
    generalize dealQty order (.colony price available) = qty at hcolony
    have hqty : (0 : ℚ) ≤ qty := Nat.cast_nonneg qty
    unfold held at hstock ⊢
    rw [hcolony, Table.update, Table.get?_insert_self, Table.getD]
    cases hget : ex.colony.get? order.item with
    | none =>
      rw [hget] at hstock
      cases hside : order.side with
      | buy => exact absurd (hstock hside) (by simp)
      | sell =>
        have htarget : (0 : ℚ) ≤ (desk order.item).elim 0 fun d => (d.target : ℚ) := by
          cases desk order.item with
          | none => exact le_rfl
          | some d => exact Nat.cast_nonneg _
        exact add_nonneg htarget hqty
    | some st =>
      cases order.side with
      | buy => exact sub_le_self st.held hqty
      | sell => exact le_add_of_nonneg_right hqty
  · have hheld : (ex.strike order (.maker o behind)).1.held order.item = ex.held order.item := by
      unfold strike
      simp only [printTape, settle, dealMaker]
      split <;> rfl
    rw [hheld]
    cases order.side <;> exact le_rfl

theorem quote_strike (hfall : ∀ d, desk order.item = some d → Falling (colonyPrice p) d)
    (hc : ex.counter p order = some c) {price available : ℕ}
    (hq : (ex.strike order c).1.colonyQuote p order.item order.side = some (price, available)) :
    ∃ price' available', ex.colonyQuote p order.item order.side = some (price', available')
      ∧ order.side.better price price' = false := by
  have hmoved := moved_strike hc
  obtain ⟨price', available', hbefore⟩ := colonyQuote_before hq hmoved
  refine ⟨price', available', hbefore, ?_⟩
  obtain ⟨d, hd, hprice, -⟩ := colonyQuote_some hq
  obtain ⟨d', hd', hprice', -⟩ := colonyQuote_some hbefore
  rw [hd] at hd'
  cases hd'
  cases hside : order.side with
  | buy =>
    rw [hside] at hmoved hprice hprice'
    simpa [Side.better] using hfall d hd .buy _ _ _ _ hmoved hprice hprice'
  | sell =>
    rw [hside] at hmoved hprice hprice'
    simpa [Side.better] using hfall d hd .sell _ _ _ _ hmoved hprice' hprice

theorem resting_strike (hc : ex.counter p order = some c) {o : Order}
    (ho : o ∈ ((ex.strike order c).1.book order.item).resting order.side.opposite) :
    ∃ o' ∈ (ex.book order.item).resting order.side.opposite, key o' = key o := by
  rcases counter_cases hc with ⟨price, available, rfl, -, -⟩ | ⟨a, behind, rfl, hrest⟩
  · exact ⟨o, ho, rfl⟩
  · rw [book_congr (strike_books_maker ex order a behind), book_setBook_self,
      Book.withResting_resting] at ho
    rw [hrest]
    exact (shrinks_leftOver _ _ _ _ _).mem ho

theorem counter_strike (h : Orderly ex)
    (hfall : ∀ d, desk order.item = some d → Falling (colonyPrice p) d)
    (hc : ex.counter p order = some c) {c' : Counter}
    (hc' : (ex.strike order c).1.counter p (ex.strike order c).2.1 = some c') :
    order.side.better c'.price c.price = false := by
  obtain ⟨hpilots, hcolony⟩ := counter_best h hc
  rw [strike_order] at hc'
  rcases counter_cases hc' with ⟨price, available, rfl, hquote, -⟩ | ⟨o, behind, rfl, hrest⟩
  · obtain ⟨price', available', hbefore, hworse⟩ := quote_strike hfall hc hquote
    exact Side.not_better_trans (hcolony _ _ hbefore) hworse
  · have hmem : o ∈ ((ex.strike order c).1.book order.item).resting order.side.opposite :=
      hrest ▸ List.mem_cons_self
    obtain ⟨o', ho', hkey⟩ := resting_strike hc hmem
    have hprice : o'.price = o.price := (Prod.mk.inj (Prod.mk.inj (Prod.mk.inj hkey).2).2).1
    show order.side.better o.price c.price = false
    rw [← hprice]
    exact hpilots o' ho'

/-! ### The whole loop -/

/-- Either the loop is at its end, or its first moment is a deal and the others are of the loop
from there. -/
theorem moments_cases (p : Platform) (fuel : ℕ) (ex : Exchange) (order : Order) :
    moments p (fuel + 1) ex order = []
      ∨ ∃ c, ex.counter p order = some c ∧ order.side.crosses c.price order.price = true
          ∧ moments p (fuel + 1) ex order
            = ⟨ex, order, ((ex.openBook order.item).strike order c).2.2⟩
              :: moments p fuel ((ex.openBook order.item).strike order c).1
                ((ex.openBook order.item).strike order c).2.1 := by
  rw [moments]
  by_cases hq : order.qty = 0
  · exact .inl (if_pos hq)
  · rw [if_neg hq]
    rcases matchOne_cases p ex order with ⟨hm, -⟩ | ⟨c, hc, hcross, hm⟩
    · rw [hm]
      exact .inl rfl
    · rw [hm]
      exact .inr ⟨c, (counter_openBook order.item).symm.trans hc, hcross, rfl⟩

theorem best_moments (h : Orderly ex) (fuel : ℕ) :
    ∀ mo ∈ moments p fuel ex order, Best p mo := by
  induction fuel generalizing ex order with
  | zero => exact fun mo hmo => absurd hmo List.not_mem_nil
  | succ fuel ih =>
    rcases moments_cases p fuel ex order with hend | ⟨c, hc, hcross, hmoments⟩
    · rw [hend]
      exact fun mo hmo => absurd hmo List.not_mem_nil
    · have hopen := (counter_openBook order.item).trans hc
      rw [hmoments, List.forall_mem_cons]
      exact ⟨best_strike h hc hcross, ih ((h.openBook order.item).strike hopen)⟩

def NoBetter (p : Platform) (ex : Exchange) (order : Order) (price : ℕ) : Prop :=
  ∀ c, ex.counter p order = some c → order.side.better c.price price = false

/-- No fill of a loop is better than what there was to begin with, nor than one before it. -/
theorem prices_moments (h : Orderly ex)
    (hfall : ∀ d, desk order.item = some d → Falling (colonyPrice p) d) (fuel : ℕ) :
    (∀ price, NoBetter p ex order price →
        ∀ mo ∈ moments p fuel ex order, order.side.better mo.fill.price price = false)
      ∧ (moments p fuel ex order).Pairwise fun mo mo' =>
          order.side.better mo'.fill.price mo.fill.price = false := by
  induction fuel generalizing ex order with
  | zero => exact ⟨fun _ _ mo hmo => absurd hmo List.not_mem_nil, .nil⟩
  | succ fuel ih =>
    rcases moments_cases p fuel ex order with hend | ⟨c, hc, -, hmoments⟩
    · rw [hend]
      exact ⟨fun _ _ mo hmo => absurd hmo List.not_mem_nil, .nil⟩
    · have hopen := (counter_openBook order.item).trans hc
      have hafter : NoBetter p ((ex.openBook order.item).strike order c).1
          ((ex.openBook order.item).strike order c).2.1 c.price := fun c' hc' =>
        counter_strike (h.openBook order.item) hfall hopen hc'
      obtain ⟨hrest, hpairs⟩ := @ih _ ((ex.openBook order.item).strike order c).2.1
        ((h.openBook order.item).strike hopen) hfall
      rw [hmoments]
      constructor
      · intro price hprice
        rw [List.forall_mem_cons]
        refine ⟨hprice c hc, hrest price fun c' hc' => ?_⟩
        exact Side.not_better_trans (hprice c hc) (hafter c' hc')
      · exact List.pairwise_cons.mpr ⟨hrest c.price hafter, hpairs⟩

/-! ### What rests -/

/-- An order nothing crosses is out of the reach of every pilot's order on the other side, and of
the colony's quote. -/
structure Clear (p : Platform) (ex : Exchange) (order : Order) : Prop where
  pilots : ∀ o ∈ (ex.book order.item).resting order.side.opposite,
    order.side.crosses o.price order.price = false
  colony : ∀ price available,
    ex.colonyQuote p order.item order.side = some (price, available) →
      order.side.crosses price order.price = false

theorem clear_of_settled (h : Orderly ex) (hs : Settled p ex order) : Clear p ex order := by
  refine ⟨settled_clear hs h, fun price available hquote => ?_⟩
  cases hc : ex.counter p order with
  | none =>
    unfold counter at hc
    rw [hquote] at hc
    cases hl : (ex.book order.item).resting order.side.opposite with
    | nil =>
      rw [hl] at hc
      cases hc
    | cons o behind =>
      rw [hl] at hc
      dsimp only at hc
      split at hc <;> cases hc
  | some c =>
    exact Side.not_crosses_of_not_better ((counter_best h hc).2 price available hquote) (hs c hc)

theorem Clear.insert (h : Clear p ex order) :
    Clear p (ex.setBook order.item ((ex.book order.item).insert order)) order := by
  refine ⟨?_, h.colony⟩
  rw [book_setBook_self, Book.insert, Book.withResting_of_ne _ _ (Side.opposite_ne _)]
  exact h.pilots

/-- Where an order comes out of matching: the books in order, what it is known by unchanged, and
either filled or with nothing crossing it. -/
theorem matched_spec (h : Orderly ex) (order : Order) :
    Orderly (matched p ex order).1
      ∧ (matched p ex order).2.1.item = order.item
      ∧ (matched p ex order).2.1.side = order.side
      ∧ key (matched p ex order).2.1 = key order
      ∧ ((matched p ex order).2.1.qty = 0
        ∨ Settled p (matched p ex order).1 (matched p ex order).2.1) := by
  have hloop := matchLoop_induct (p := p)
    (Q := fun ex' order' => Orderly ex' ∧ order'.item = order.item ∧ order'.side = order.side
      ∧ key order' = key order)
    (fun ex' order' hQ => ⟨hQ.1.openBook _, hQ.2⟩)
    (fun ex' order' c hQ _ hc _ => ⟨hQ.1.strike hc, hQ.2⟩)
    _ ex.numbered order le_rfl ⟨h.congr rfl (Nat.le_succ _) (Nat.le_succ _), rfl, rfl, rfl⟩
  exact ⟨hloop.1.1, hloop.1.2.1, hloop.1.2.2.1, hloop.1.2.2.2, hloop.2⟩

theorem falling_colonyPrice (hpow : Monotone p.pow06) (hbid : Monotone p.times09)
    (hask : Monotone p.times11) (d : Desk) : Falling (colonyPrice p) d := by
  intro side s s' c c' hss hc hc'
  have hpos : (0 : ℚ) < max (max s (d.target / 32)) (1 / 1000000000) :=
    lt_max_of_lt_right (by norm_num)
  have hstock : max (max s ((d.target : ℚ) / 32)) (1 / 1000000000)
      ≤ max (max s' (d.target / 32)) (1 / 1000000000) :=
    max_le_max (max_le_max hss le_rfl) le_rfl
  have hratio := div_le_div_of_nonneg_left (Nat.cast_nonneg d.target) hpos hstock
  have hbase : (0 : ℚ) ≤ d.base := Nat.cast_nonneg d.base
  have hmid : max ((d.base : ℚ) / 5) (min (d.base * 5)
        (d.base * p.pow06 (d.target / max (max s' (d.target / 32)) (1 / 1000000000))))
      ≤ max ((d.base : ℚ) / 5) (min (d.base * 5)
        (d.base * p.pow06 (d.target / max (max s (d.target / 32)) (1 / 1000000000)))) :=
    max_le_max le_rfl (min_le_min le_rfl (mul_le_mul_of_nonneg_left (hpow hratio) hbase))
  unfold colonyPrice at hc hc'
  cases side with
  | sell =>
    rw [← Option.some.inj (Option.ite_none_right_eq_some.mp hc).2,
      ← Option.some.inj (Option.ite_none_right_eq_some.mp hc').2]
    exact Int.toNat_le_toNat (max_le_max (Int.floor_le_floor (hbid hmid)) le_rfl)
  | buy =>
    rw [← Option.some.inj (Option.ite_none_right_eq_some.mp hc).2,
      ← Option.some.inj (Option.ite_none_right_eq_some.mp hc').2]
    exact Int.toNat_le_toNat (Int.ceil_le_ceil (hask hmid))

/-! ### Placing an order -/

def placedMoments (p : Platform) (ex : Exchange) (order : Order) : List Moment :=
  moments p (ex.numbered.matchFuel order) ex.numbered order

theorem place_ok {trader : Trader} {item : Item} {side : Side} {price qty escrow : ℕ}
    {rest : Bool} {placed : Placed}
    (h : (ex.place p trader item side price qty escrow rest).2 = .ok placed) :
    placed.fills = (matched p ex (ex.newOrder trader item side price qty escrow)).2.2
      ∧ (ex.place p trader item side price qty escrow rest).1
        = ((matched p ex (ex.newOrder trader item side price qty escrow)).1.conclude
            (matched p ex (ex.newOrder trader item side price qty escrow)).2.1 rest).1
      ∧ placed.resting
        = ((matched p ex (ex.newOrder trader item side price qty escrow)).1.conclude
            (matched p ex (ex.newOrder trader item side price qty escrow)).2.1 rest).2 := by
  unfold place at h ⊢
  cases hr : ex.refusal trader item side price qty escrow rest with
  | some why =>
    rw [hr] at h
    cases h
  | none =>
    rw [hr] at h
    cases h
    exact ⟨rfl, rfl, rfl⟩

structure Rests (p : Platform) (ex : Exchange) (order : Order) (qty id : ℕ) : Prop where
  clear : Clear p ex order
  rests : ∃ o ∈ (ex.book order.item).resting order.side, key o = key order ∧ o.id = id ∧ o.qty = qty

/-- An order placed in `ex` executed at its best: `placed` is what it did, and `after` what it left
of the exchange. -/
structure BestExecuted (p : Platform) (ex : Exchange) (order : Order) (rest : Bool)
    (placed : Placed) (after : Exchange) : Prop where
  /-- Enough rounds of matching are all there are, -/
  ends : ∃ rounds, ∀ fuel, rounds ≤ fuel →
    ex.numbered.matchLoop p fuel order = matched p ex order
  /-- with the order filled or nothing crossing it. -/
  done : (matched p ex order).2.1.qty = 0
    ∨ ((matched p ex order).1.matchOne p (matched p ex order).2.1).2 = none
  fills : placed.fills = (placedMoments p ex order).map Moment.fill
  best : ∀ mo ∈ placedMoments p ex order, Best p mo
  /-- Where the colony's prices don't rise with its stock, no fill is better than one before. -/
  worse : (∀ d, desk order.item = some d → Falling (colonyPrice p) d) →
    placed.fills.Pairwise fun f f' => order.side.better f'.price f.price = false
  resting : placed.resting.isSome = true
    ↔ rest = true ∧ (placed.fills.map Fill.qty).sum < order.qty
  rests : ∀ id, placed.resting = some id →
    Rests p after order (order.qty - (placed.fills.map Fill.qty).sum) id

theorem done_of_settled (hs : Settled p ex order) : (ex.matchOne p order).2 = none := by
  rcases matchOne_cases p ex order with ⟨hm, -⟩ | ⟨c, hc, hcross, -⟩
  · rw [hm]
  · have hnot := hs c ((counter_openBook order.item).symm.trans hc)
    rw [hcross] at hnot
    cases hnot

theorem rests_conclude {left : Order} (h : Orderly ex) (hs : Settled p ex left)
    (hitem : left.item = order.item) (hside : left.side = order.side) (hkey : key left = key order)
    {id : ℕ} (hid : left.id = id) :
    Rests p (ex.setBook left.item ((ex.book left.item).insert left)) order left.qty id := by
  have hprice : left.price = order.price := (Prod.mk.inj (Prod.mk.inj (Prod.mk.inj hkey).2).2).1
  have hclear := (clear_of_settled h hs).insert
  refine ⟨⟨?_, ?_⟩, left, ?_, hkey, hid, rfl⟩
  · rw [← hitem, ← hside, ← hprice]
    exact hclear.pilots
  · rw [← hitem, ← hside, ← hprice]
    exact hclear.colony
  · rw [← hitem, ← hside, book_setBook_self, Book.insert, Book.withResting_resting]
    exact (List.mem_orderedInsert _).mpr (.inl rfl)

/-- Best execution, in every exchange whose books are in order, and so in every one a run reaches. -/
theorem best_execution (p : Platform) :
    (∀ ops, Orderly (run p ops)) ∧ ∀ (ex : Exchange) (trader : Trader) (item : Item) (side : Side)
      (price qty escrow : ℕ) (rest : Bool) (placed : Placed), Orderly ex →
      (ex.place p trader item side price qty escrow rest).2 = .ok placed →
      BestExecuted p ex (ex.newOrder trader item side price qty escrow) rest placed
        (ex.place p trader item side price qty escrow rest).1 := by
  refine ⟨orderly_run p, ?_⟩
  intro ex trader item side price qty escrow rest placed h hplaced
  obtain ⟨hfills, hafter, hresting⟩ := place_ok hplaced
  generalize horder : ex.newOrder trader item side price qty escrow = order at *
  have hnumbered : Orderly ex.numbered := h.congr rfl (Nat.le_succ _) (Nat.le_succ _)
  obtain ⟨horderly, hitem, hside, hkey, hend⟩ := matched_spec (p := p) h order
  have hmoments : placed.fills = (placedMoments p ex order).map Moment.fill :=
    hfills.trans (fills_eq_moments _ _ _)
  have hqty : (matched p ex order).2.1.qty + (placed.fills.map Fill.qty).sum = order.qty := by
    rw [hfills]
    exact qty_matchLoop _ _ _
  unfold conclude at hafter hresting
  refine ⟨?_, hend.imp_right done_of_settled, hmoments, best_moments hnumbered _, ?_, ?_, ?_⟩
  · exact ⟨_, fun fuel hfuel => matchLoop_stable fuel _ _ _ hfuel le_rfl⟩
  · intro hfall
    rw [hmoments, List.pairwise_map]
    exact (prices_moments hnumbered hfall _).2
  · rw [hresting]
    split
    · rename_i hleft
      exact iff_of_true rfl ⟨hleft.2, by omega⟩
    · rename_i hleft
      refine iff_of_false Bool.false_ne_true fun hrest => hleft ⟨?_, hrest.1⟩
      omega
  · intro id hid
    rw [hafter]
    rw [hresting] at hid
    split at hid
    · rename_i hleft
      rw [if_pos hleft]
      have hrests := rests_conclude horderly (hend.resolve_left hleft.1.ne') hitem hside hkey
        (Option.some.inj hid)
      rw [← hqty, Nat.add_sub_cancel]
      exact hrests
    · cases hid

/-- An exchange with one pilot's offer, under the colony's price. -/
def offered : Exchange := run Platform.atRest [.place "ada" tank .sell 2700 3 0 true]

theorem best_execution_tank :
    ∃ placed, (offered.place Platform.atRest "lyra" tank .buy 2700 10 1000000 true).2 = .ok placed
      ∧ BestExecuted Platform.atRest offered
          (offered.newOrder "lyra" tank .buy 2700 10 1000000) true placed
          (offered.place Platform.atRest "lyra" tank .buy 2700 10 1000000 true).1
      ∧ placed.fills.Pairwise fun f f' => Side.buy.better f'.price f.price = false := by
  have hok : offered.refusal "lyra" tank .buy 2700 10 1000000 true = none := by decide +kernel
  obtain ⟨placed, hplaced⟩ := place_of_refusal_none Platform.atRest hok
  have hanswer : (offered.place Platform.atRest "lyra" tank .buy 2700 10 1000000 true).2
      = .ok placed := by rw [hplaced]
  have hbest := (best_execution Platform.atRest).2 offered "lyra" tank .buy 2700 10 1000000 true
    placed ((best_execution Platform.atRest).1 _) hanswer
  have hbid : Monotone Platform.atRest.times09 := fun x y hxy => by
    simp only [Platform.atRest]
    linarith
  have hask : Monotone Platform.atRest.times11 := fun x y hxy => by
    simp only [Platform.atRest]
    linarith
  exact ⟨placed, hanswer, hbest,
    hbest.worse fun d _ => falling_colonyPrice (fun _ _ _ => le_rfl) hbid hask d⟩

end Exchange

end BeforeColony
