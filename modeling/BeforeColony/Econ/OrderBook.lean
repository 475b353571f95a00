import BeforeColony.Econ.Exchange

/-!
# What an operation does to the books

Every operation of the exchange reaches the books through `setBook`. This module says
what each puts there, in one lemma an operation, and what that does to two kinds of
statement: a property of every resting order (`AllOrders`) and a quantity added up over
them (`weigh`). The invariants of the next modules are stated in these terms and never
unfold an operation.
-/

set_option autoImplicit false

namespace BeforeColony

open Lib Catalogue

namespace Side

@[simp] theorem opposite_opposite (s : Side) : s.opposite.opposite = s := by
  cases s <;> rfl

theorem opposite_ne (s : Side) : s.opposite ≠ s := by
  cases s <;> decide

end Side

namespace Book

@[simp] theorem resting_empty (s : Side) : empty.resting s = [] := by
  cases s <;> rfl

@[simp] theorem withResting_resting (b : Book) (s : Side) (l : List Order) :
    (b.withResting s l).resting s = l := by
  cases s <;> rfl

theorem withResting_of_ne (b : Book) {s s' : Side} (l : List Order) (h : s' ≠ s) :
    (b.withResting s l).resting s' = b.resting s' := by
  cases s <;> cases s' <;> first | rfl | exact absurd rfl h

@[simp] theorem withResting_self (b : Book) (s : Side) : b.withResting s (b.resting s) = b := by
  cases s <;> rfl

end Book

namespace Exchange

variable {p : Platform} {ex : Exchange} {order : Order}

@[simp] theorem book_setBook_self (ex : Exchange) (item : Item) (b : Book) :
    (ex.setBook item b).book item = b := by
  simp [book, setBook, Table.getD_insert]

theorem book_setBook_of_ne (ex : Exchange) {item item' : Item} (b : Book) (h : item' ≠ item) :
    (ex.setBook item b).book item' = ex.book item' := by
  simp [book, setBook, Table.getD_insert, h]

theorem book_congr {ex ex' : Exchange} (h : ex'.books = ex.books) (item : Item) :
    ex'.book item = ex.book item := by
  rw [book, book, h]

@[simp] theorem book_openBook (ex : Exchange) (item item' : Item) :
    (ex.openBook item).book item' = ex.book item' := by
  by_cases h : item' = item
  · rw [h]
    exact book_setBook_self ex item _
  · exact book_setBook_of_ne ex _ h

@[simp] theorem book_new (item : Item) : new.book item = Book.empty := rfl

/-- What a deal leaves of the side it was made with. -/
def leftOver (o : Order) (behind : List Order) (s : Side) (qty value : ℕ) : List Order :=
  if (afterDeal o s qty value).qty = 0 then behind else afterDeal o s qty value :: behind

theorem dealMaker_books (ex : Exchange) (item : Item) (s : Side) (o : Order)
    (behind : List Order) (qty value : ℕ) :
    (ex.dealMaker item s o behind qty value).books
      = (ex.setBook item ((ex.book item).withResting s.opposite
          (leftOver o behind s qty value))).books := by
  unfold dealMaker leftOver
  split <;> simp_all [handBack]

def dealQty (order : Order) (c : Counter) : ℕ := min order.qty c.available

def dealValue (order : Order) (c : Counter) : ℕ :=
  worth order.item c.price (dealQty order c)

theorem strike_books_colony (ex : Exchange) (order : Order) (price available : ℕ) :
    (ex.strike order (.colony price available)).1.books = ex.books := rfl

theorem strike_books_maker (ex : Exchange) (order o : Order) (behind : List Order) :
    (ex.strike order (.maker o behind)).1.books
      = (ex.setBook order.item ((ex.book order.item).withResting order.side.opposite
          (leftOver o behind order.side (dealQty order (.maker o behind))
            (dealValue order (.maker o behind))))).books :=
  dealMaker_books ex order.item order.side o behind _ _

theorem strike_counters (ex : Exchange) (order : Order) (c : Counter) :
    (ex.strike order c).1.nextId = ex.nextId ∧ (ex.strike order c).1.seq = ex.seq := by
  cases c with
  | colony price available => exact ⟨rfl, rfl⟩
  | maker o behind =>
    simp only [strike, printTape, settle, dealMaker]
    split <;> exact ⟨rfl, rfl⟩

theorem strike_order (ex : Exchange) (order : Order) (c : Counter) :
    (ex.strike order c).2.1 = remainder order (dealQty order c) (dealValue order c) := rfl

theorem counter_cases {c : Counter} (h : ex.counter p order = some c) :
    (∃ price available, c = .colony price available
        ∧ ex.colonyQuote p order.item order.side = some (price, available)
        ∧ ∀ o ∈ ((ex.book order.item).resting order.side.opposite).head?,
            order.side.better price o.price)
      ∨ ∃ o behind, c = .maker o behind
          ∧ (ex.book order.item).resting order.side.opposite = o :: behind := by
  simp only [counter] at h
  split at h
  · rename_i o behind price available hr hq
    split at h
    · rename_i hb
      refine Or.inl ⟨price, available, (Option.some.inj h).symm, hq, ?_⟩
      intro x hx
      rw [hr, List.head?_cons, Option.mem_some] at hx
      exact hx ▸ hb
    · exact Or.inr ⟨o, behind, (Option.some.inj h).symm, hr⟩
  · rename_i o behind hr _
    exact Or.inr ⟨o, behind, (Option.some.inj h).symm, hr⟩
  · rename_i price available hr hq
    refine Or.inl ⟨price, available, (Option.some.inj h).symm, hq, ?_⟩
    simp [hr]
  · cases h

/-- One round of matching either finds nothing that crosses, or strikes a deal. -/
theorem matchOne_cases (p : Platform) (ex : Exchange) (order : Order) :
    (ex.matchOne p order = (ex.openBook order.item, none)
        ∧ ∀ c, (ex.openBook order.item).counter p order = some c →
            order.side.crosses c.price order.price = false)
      ∨ ∃ c, (ex.openBook order.item).counter p order = some c
          ∧ order.side.crosses c.price order.price = true
          ∧ ex.matchOne p order
            = (((ex.openBook order.item).strike order c).1,
                some ((ex.openBook order.item).strike order c).2) := by
  unfold matchOne
  cases h : (ex.openBook order.item).counter p order with
  | none => exact Or.inl ⟨by simp [h], by simp⟩
  | some c =>
    by_cases hc : order.side.crosses c.price order.price = true
    · exact Or.inr ⟨c, rfl, hc, by simp [h, hc]⟩
    · refine Or.inl ⟨by simp [h, hc], ?_⟩
      intro c' hc'
      rw [← Option.some.inj hc']
      simpa using hc

/-! ## The matching loop -/

@[simp] theorem remainder_item (order : Order) (qty value : ℕ) :
    (remainder order qty value).item = order.item := rfl

@[simp] theorem remainder_side (order : Order) (qty value : ℕ) :
    (remainder order qty value).side = order.side := rfl

@[simp] theorem remainder_price (order : Order) (qty value : ℕ) :
    (remainder order qty value).price = order.price := rfl

@[simp] theorem remainder_qty (order : Order) (c : Counter) :
    (remainder order (dealQty order c) (dealValue order c)).qty
      = order.qty - dealQty order c :=
  wrappingSub_eq (min_le_left _ _)

@[simp] theorem afterDeal_qty (order o : Order) (behind : List Order) (value : ℕ) (s : Side) :
    (afterDeal o s (dealQty order (.maker o behind)) value).qty
      = o.qty - dealQty order (.maker o behind) :=
  wrappingSub_eq (min_le_right _ _)

theorem colonyQuote_pos {item : Item} {s : Side} {price available : ℕ}
    (h : ex.colonyQuote p item s = some (price, available)) : 0 < available := by
  simp only [colonyQuote, Option.bind_eq_bind, Option.bind_eq_some_iff] at h
  obtain ⟨d, -, c, -, h⟩ := h
  obtain ⟨hpos, h⟩ := Option.ite_none_right_eq_some.mp h
  exact (Prod.mk.inj (Option.some.inj h)).2 ▸ hpos

@[simp] theorem counter_openBook (item : Item) :
    (ex.openBook item).counter p order = ex.counter p order := by
  have hq : (ex.openBook item).colonyQuote p order.item order.side
      = ex.colonyQuote p order.item order.side := rfl
  simp only [counter, hq, book_openBook]

/-- Nothing on offer crosses the order any more. -/
def Settled (p : Platform) (ex : Exchange) (order : Order) : Prop :=
  ∀ c, ex.counter p order = some c → order.side.crosses c.price order.price = false

/-- A round of matching that deals takes from the order, or a spent order from the book. -/
theorem rounds_decrease {c : Counter} (hq : order.qty ≠ 0) (hc : ex.counter p order = some c) :
    ((ex.strike order c).1.matchFuel (ex.strike order c).2.1) < ex.matchFuel order := by
  rcases counter_cases hc with ⟨price, available, rfl, hquote, -⟩ | ⟨o, behind, rfl, hrest⟩
  · have hpos := colonyQuote_pos hquote
    have hdeal : dealQty order (.colony price available) = min order.qty available := rfl
    have hbook : (ex.strike order (.colony price available)).1.book order.item
        = ex.book order.item := rfl
    simp only [matchFuel, strike_order, remainder_qty, remainder_item, remainder_side, hbook]
    omega
  · have hbook : (ex.strike order (.maker o behind)).1.book order.item
        = (ex.book order.item).withResting order.side.opposite
            (leftOver o behind order.side (dealQty order (.maker o behind))
              (dealValue order (.maker o behind))) := by
      rw [book_congr (strike_books_maker ex order o behind), book_setBook_self]
    have hdeal : dealQty order (.maker o behind) = min order.qty o.qty := rfl
    simp only [matchFuel, strike_order, remainder_qty, remainder_item, remainder_side, hbook,
      Book.withResting_resting, hrest, leftOver, afterDeal_qty, List.length_cons]
    split
    · omega
    · rw [List.length_cons]
      omega

/-- What every deal preserves, the loop preserves; and it ends with the order filled or
nothing crossing it. -/
theorem matchLoop_induct {Q : Exchange → Order → Prop}
    (hopen : ∀ ex order, Q ex order → Q (ex.openBook order.item) order)
    (hstrike : ∀ ex order c, Q ex order → order.qty ≠ 0 → ex.counter p order = some c →
      order.side.crosses c.price order.price = true →
      Q (ex.strike order c).1 (ex.strike order c).2.1)
    (fuel : ℕ) (ex : Exchange) (order : Order) (hfuel : ex.matchFuel order ≤ fuel)
    (hQ : Q ex order) :
    Q (ex.matchLoop p fuel order).1 (ex.matchLoop p fuel order).2.1
      ∧ ((ex.matchLoop p fuel order).2.1.qty = 0
        ∨ Settled p (ex.matchLoop p fuel order).1 (ex.matchLoop p fuel order).2.1) := by
  induction fuel generalizing ex order with
  | zero => exact absurd hfuel (by simp [matchFuel])
  | succ fuel ih =>
    unfold matchLoop
    by_cases hq : order.qty = 0
    · rw [if_pos hq]
      exact ⟨hQ, Or.inl hq⟩
    · rw [if_neg hq]
      rcases matchOne_cases p ex order with ⟨hm, hend⟩ | ⟨c, hc, hcross, hm⟩
      · rw [hm]
        refine ⟨hopen ex order hQ, Or.inr ?_⟩
        intro c hc
        exact hend c hc
      · rw [hm]
        have hdec := rounds_decrease hq hc
        have hlen : (ex.openBook order.item).matchFuel order = ex.matchFuel order := by
          simp [matchFuel]
        have hle := Nat.le_of_lt_succ (hlen ▸ hdec |>.trans_le hfuel)
        exact ih _ _ hle (hstrike _ order c (hopen ex order hQ) hq hc hcross)

/-- The state a place request starts matching from. -/
def numbered (ex : Exchange) : Exchange := { ex with seq := ex.seq + 1, nextId := ex.nextId + 1 }

/-- A place request's order, matched as far as it goes. -/
def matched (p : Platform) (ex : Exchange) (order : Order) : Exchange × Order × List Fill :=
  ex.numbered.matchLoop p (ex.numbered.matchFuel order) order

theorem place_of_refusal (p : Platform) {trader : Trader} {item : Item} {side : Side}
    {price qty escrow : ℕ} {rest : Bool} {why : Refused}
    (h : ex.refusal trader item side price qty escrow rest = some why) :
    ex.place p trader item side price qty escrow rest = (ex, .error why) := by
  simp [place, h]

/-- A request that isn't refused is matched, and the rest of it rests or goes back. -/
theorem place_of_refusal_none (p : Platform) {trader : Trader} {item : Item} {side : Side}
    {price qty escrow : ℕ} {rest : Bool}
    (h : ex.refusal trader item side price qty escrow rest = none) :
    ∃ placed, ex.place p trader item side price qty escrow rest
      = (((matched p ex (ex.newOrder trader item side price qty escrow)).1.conclude
          (matched p ex (ex.newOrder trader item side price qty escrow)).2.1 rest).1,
        .ok placed) := by
  simp only [place, h]
  exact ⟨_, rfl⟩

theorem place_cases (p : Platform) (ex : Exchange) (trader : Trader) (item : Item) (side : Side)
    (price qty escrow : ℕ) (rest : Bool) :
    (∃ why, ex.place p trader item side price qty escrow rest = (ex, .error why))
      ∨ ex.refusal trader item side price qty escrow rest = none
        ∧ (ex.place p trader item side price qty escrow rest).1
          = ((matched p ex (ex.newOrder trader item side price qty escrow)).1.conclude
              (matched p ex (ex.newOrder trader item side price qty escrow)).2.1 rest).1 := by
  cases h : ex.refusal trader item side price qty escrow rest with
  | some why => exact Or.inl ⟨why, place_of_refusal p h⟩
  | none =>
    obtain ⟨placed, hp⟩ := place_of_refusal_none p h
    exact Or.inr ⟨rfl, by rw [hp]⟩

theorem refusal_none {trader : Trader} {item : Item} {side : Side} {price qty escrow : ℕ}
    {rest : Bool} (h : ex.refusal trader item side price qty escrow rest = none) :
    item.valid = true ∧ 0 < price ∧ 0 < qty ∧ price ≤ maxPrice ∧ qty ≤ maxQty
      ∧ (side = .buy → worth item price qty ≤ escrow)
      ∧ (rest = true → (ex.orders trader).length < maxOrders) := by
  unfold refusal at h
  split at h
  · cases h
  · rename_i hv
    split at h
    · cases h
    · rename_i hb
      split at h
      · cases h
      · rename_i he
        split at h
        · cases h
        · rename_i hr
          simp only [not_or, not_and, not_lt, not_le, escrowFor] at hb he hr
          exact ⟨by simpa using hv, by omega, by omega, hb.2.2.1, hb.2.2.2, he, hr⟩

/-- A cancellation finds nothing and changes nothing, or takes one order out of one book and
hands it back. -/
theorem cancel_cases (ex : Exchange) (trader : Trader) (id : ℕ) :
    ex.cancel trader id = (ex, false)
      ∨ ∃ item s o l, (ex.book item).resting s = l
          ∧ (ex.cancel trader id)
            = ((ex.setBook item ((ex.book item).withResting s
                (l.eraseP fun x => x.id = id && x.trader = trader))).handBack o, true)
          ∧ o ∈ l ∧ l.find? (fun x => x.id = id && x.trader = trader) = some o := by
  unfold cancel
  simp only
  split
  · rename_i item order b hf
    obtain ⟨⟨k, bk⟩, hmem, hp⟩ := List.exists_of_findSome?_eq_some hf
    obtain ⟨r, hr, hk⟩ := Option.map_eq_some_iff.mp hp
    obtain ⟨rfl, rfl⟩ := Prod.mk.inj hk
    have hbook : ex.book k = bk := by
      simp [book, Table.getD, Table.mem_entries_iff.mp hmem]
    right
    unfold pull at hr
    simp only at hr
    split at hr
    · rename_i o ho
      obtain ⟨rfl, rfl⟩ := Prod.mk.inj (Option.some.inj hr)
      refine ⟨k, .buy, o, bk.bids, by rw [hbook]; rfl, by rw [hbook]; rfl,
        List.mem_of_find?_eq_some ho, ho⟩
    · obtain ⟨o, ho, hb⟩ := Option.map_eq_some_iff.mp hr
      obtain ⟨rfl, rfl⟩ := Prod.mk.inj hb
      refine ⟨k, .sell, o, bk.asks, by rw [hbook]; rfl, by rw [hbook]; rfl,
        List.mem_of_find?_eq_some ho, ho⟩
  · exact Or.inl rfl

theorem sample_frame (p : Platform) (ex : Exchange) :
    ∃ tapes, ex.sample p
      = { ex with tapes := tapes, nextSample := ex.nextSample + sampleSecs } := by
  have hfold (items : List Item) (a : Exchange) :
      ∃ tapes, items.foldl (sampleItem p) a = { a with tapes := tapes } := by
    induction items generalizing a with
    | nil => exact ⟨a.tapes, rfl⟩
    | cons item rest ih =>
      have hitem : ∃ tapes, sampleItem p a item = { a with tapes := tapes } := by
        unfold sampleItem
        split
        · exact ⟨a.tapes, rfl⟩
        · exact ⟨_, rfl⟩
      obtain ⟨tapes, htapes⟩ := hitem
      obtain ⟨tapes', htapes'⟩ := ih (sampleItem p a item)
      refine ⟨tapes', ?_⟩
      rw [List.foldl_cons, htapes', htapes]
  exact hfold Item.all _

/-- The clock settles the colony's stocks and samples prices; nothing else changes. -/
theorem tick_frame (p : Platform) (ex : Exchange) (dt : ℚ) :
    ∃ tapes nextSample, ex.tick p dt
      = { ex with
          clock := ex.clock + max dt 0
          colony := ex.colony.mapVal (settleStock p (max dt 0))
          tapes := tapes
          nextSample := nextSample } := by
  have hfold (n : List ℕ) (a : Exchange) : ∃ tapes nextSample,
      n.foldl (fun ex _ => ex.sample p) a
        = { a with tapes := tapes, nextSample := nextSample } := by
    induction n generalizing a with
    | nil => exact ⟨a.tapes, a.nextSample, rfl⟩
    | cons x rest ih =>
      obtain ⟨tapes, htapes⟩ := sample_frame p a
      obtain ⟨tapes', nextSample', h⟩ := ih (a.sample p)
      refine ⟨tapes', nextSample', ?_⟩
      rw [List.foldl_cons, h, htapes]
  exact hfold _ _

theorem seedMissing_frame (ex : Exchange) :
    ∃ colony, ex.seedMissing.1 = { ex with colony := colony } := by
  unfold seedMissing
  refine List.foldlRecOn (motive := fun r : Exchange × ℕ =>
    ∃ colony, r.1 = { ex with colony := colony }) Item.all _ ⟨ex.colony, rfl⟩ ?_
  rintro r ⟨colony, hr⟩ item -
  split
  · exact ⟨colony, hr⟩
  · split
    · exact ⟨colony, hr⟩
    · exact ⟨_, by rw [hr]⟩

/-! ## Properties of every resting order -/

def AllOrders (P : Item → Side → Order → Prop) (ex : Exchange) : Prop :=
  ∀ item s, ∀ o ∈ (ex.book item).resting s, P item s o

variable {P : Item → Side → Order → Prop}

theorem AllOrders.congr {ex' : Exchange} (h : AllOrders P ex) (hb : ex'.books = ex.books) :
    AllOrders P ex' := by
  intro item s o ho
  rw [book_congr hb] at ho
  exact h item s o ho

theorem AllOrders.mono {Q : Item → Side → Order → Prop} (h : AllOrders P ex)
    (hPQ : ∀ item s o, P item s o → Q item s o) : AllOrders Q ex :=
  fun item s o ho => hPQ item s o (h item s o ho)

theorem AllOrders.setBook {item : Item} {b : Book} (h : AllOrders P ex)
    (hb : ∀ s, ∀ o ∈ b.resting s, P item s o) : AllOrders P (ex.setBook item b) := by
  intro item' s o ho
  by_cases hi : item' = item
  · subst hi
    rw [book_setBook_self] at ho
    exact hb s o ho
  · rw [book_setBook_of_ne ex b hi] at ho
    exact h item' s o ho

theorem AllOrders.setResting {item : Item} {s : Side} {l : List Order} (h : AllOrders P ex)
    (hl : ∀ o ∈ l, P item s o) :
    AllOrders P (ex.setBook item ((ex.book item).withResting s l)) := by
  refine h.setBook ?_
  intro s' o ho
  by_cases hs : s' = s
  · subst hs
    rw [Book.withResting_resting] at ho
    exact hl o ho
  · rw [Book.withResting_of_ne _ _ hs] at ho
    exact h item s' o ho

theorem AllOrders.openBook (h : AllOrders P ex) (item : Item) :
    AllOrders P (ex.openBook item) :=
  h.setBook (h item)

theorem allOrders_new : AllOrders P new := by
  intro item s o ho
  simp at ho

theorem mem_allOrders_iff {o : Order} :
    o ∈ ex.allOrders ↔ ∃ item s, o ∈ (ex.book item).resting s := by
  simp only [allOrders, List.mem_flatMap, Table.mem_values_iff, List.mem_append]
  constructor
  · rintro ⟨b, ⟨item, hb⟩, ho⟩
    have hbook : ex.book item = b := by simp [book, Table.getD, hb]
    rcases ho with ho | ho
    · exact ⟨item, .buy, hbook ▸ ho⟩
    · exact ⟨item, .sell, hbook ▸ ho⟩
  · rintro ⟨item, s, ho⟩
    cases hb : ex.books.get? item with
    | none => simp [book, Table.getD, hb] at ho
    | some b =>
      have hbook : ex.book item = b := by simp [book, Table.getD, hb]
      rw [hbook] at ho
      refine ⟨b, ⟨item, hb⟩, ?_⟩
      cases s with
      | buy => exact Or.inl ho
      | sell => exact Or.inr ho

/-! ## Quantities added up over the resting orders -/

section Weigh

variable {M : Type*} [AddCommMonoid M]

def bookWeight (f : Side → Order → M) (b : Book) : M :=
  (b.bids.map (f .buy)).sum + (b.asks.map (f .sell)).sum

def weigh (f : Side → Order → M) (ex : Exchange) : M :=
  Table.total (fun _ b => bookWeight f b) ex.books

@[simp] theorem weigh_new (f : Side → Order → M) : weigh f new = 0 := rfl

theorem weigh_congr {ex' : Exchange} (f : Side → Order → M) (h : ex'.books = ex.books) :
    weigh f ex' = weigh f ex := by
  rw [weigh, weigh, h]

theorem bookWeight_withResting (f : Side → Order → M) (b : Book) (s : Side) (l : List Order) :
    bookWeight f (b.withResting s l) + ((b.resting s).map (f s)).sum
      = bookWeight f b + (l.map (f s)).sum := by
  cases s <;> simp only [bookWeight, Book.withResting, Book.resting] <;> abel

theorem weigh_setBook (f : Side → Order → M) (ex : Exchange) (item : Item) (b : Book) :
    weigh f (ex.setBook item b) + bookWeight f (ex.book item)
      = weigh f ex + bookWeight f b := by
  have h := Table.total_insert (fun _ b => bookWeight f b) ex.books item b
  rwa [Table.at?_eq_getD (d := Book.empty) (by simp [bookWeight, Book.empty])] at h

end Weigh

/-- Putting another list in place of a resting one changes a weight by the difference. -/
theorem weigh_setResting {M : Type*} [AddCommGroup M] (f : Side → Order → M) (ex : Exchange)
    (item : Item) (s : Side) (l : List Order) :
    weigh f (ex.setBook item ((ex.book item).withResting s l))
      = weigh f ex - (((ex.book item).resting s).map (f s)).sum + (l.map (f s)).sum := by
  have h1 := weigh_setBook f ex item ((ex.book item).withResting s l)
  have h2 := bookWeight_withResting f (ex.book item) s l
  have h3 : weigh f (ex.setBook item ((ex.book item).withResting s l))
      = weigh f ex + bookWeight f ((ex.book item).withResting s l)
        - bookWeight f (ex.book item) := eq_sub_of_add_eq h1
  rw [h3, eq_sub_of_add_eq h2]
  abel

@[simp] theorem weigh_openBook {M : Type*} [AddCommGroup M] (f : Side → Order → M)
    (ex : Exchange) (item : Item) : weigh f (ex.openBook item) = weigh f ex := by
  have h := weigh_setBook f ex item (ex.book item)
  exact add_right_cancel h

end Exchange

end BeforeColony
