import Mathlib.Algebra.Order.BigOperators.Group.List
import BeforeColony.Lib.Run
import BeforeColony.Econ.OrderBook

/-!
# Price-time priority

The invariant of the order books over any run of the exchange: each side sorted best
price first and oldest first at a price, ids unique and below the next one, no trader
over their limit, no book crossed. Matching and cancelling only take orders out of a
list or change what is left of its first one (`Shrinks`); a new order goes in once.
-/

set_option autoImplicit false

namespace BeforeColony

open Lib Catalogue

namespace Exchange

inductive Op where
  | place (trader : Trader) (item : Item) (side : Side) (price qty escrow : ℕ) (rest : Bool)
  | cancel (trader : Trader) (id : ℕ)
  | cancelAll (trader : Trader)
  | collect (trader : Trader)
  | tick (dt : ℚ)
  | colonyReceive (item : Item) (qty : ℕ)
  | colonyIssue (item : Item) (qty : ℕ)
  | seedMissing

def apply (p : Platform) (ex : Exchange) : Op → Exchange
  | .place trader item side price qty escrow rest =>
    (ex.place p trader item side price qty escrow rest).1
  | .cancel trader id => (ex.cancel trader id).1
  | .cancelAll trader => ex.cancelAll trader
  | .collect trader => (ex.collect trader).1
  | .tick dt => ex.tick p dt
  | .colonyReceive item qty => ex.colonyReceive item qty
  | .colonyIssue item qty => (ex.colonyIssue item qty).1
  | .seedMissing => ex.seedMissing.1

def run (p : Platform) (ops : List Op) : Exchange := ops.foldl (apply p) new

/-- What an order is known by, which no fill changes. -/
def key (o : Order) : ℕ × Trader × ℕ × ℕ := (o.id, o.trader, o.price, o.seq)

/-- `a` stands before `b` on its side: at a better price, or older at the same. -/
def precedes (s : Side) (a b : Order) : Prop :=
  Book.beats s a b ∨ a.price = b.price ∧ a.seq < b.seq

/-- `l'` is what is left of `l`: some orders gone, the others perhaps partly filled. -/
def Shrinks (l' l : List Order) : Prop := (l'.map key).Sublist (l.map key)

theorem Shrinks.of_sublist {l' l : List Order} (h : l'.Sublist l) : Shrinks l' l := h.map key

theorem Shrinks.mem {l' l : List Order} (h : Shrinks l' l) {o : Order} (ho : o ∈ l') :
    ∃ o' ∈ l, key o' = key o := by
  have := h.subset (List.mem_map_of_mem ho)
  simpa using this

theorem Shrinks.pairwise {l' l : List Order} {s : Side} (h : Shrinks l' l)
    (hl : l.Pairwise (precedes s)) : l'.Pairwise (precedes s) := by
  let r (a b : ℕ × Trader × ℕ × ℕ) : Prop :=
    (match s with | .buy => b.2.2.1 < a.2.2.1 | .sell => a.2.2.1 < b.2.2.1)
      ∨ a.2.2.1 = b.2.2.1 ∧ a.2.2.2 < b.2.2.2
  have hr : ∀ a b, precedes s a b ↔ r (key a) (key b) := fun a b => by
    cases s <;> exact Iff.rfl
  have hkeys : (l.map key).Pairwise r := List.pairwise_map.mpr (hl.imp fun h => (hr _ _).mp h)
  exact (List.pairwise_map.mp (hkeys.sublist h)).imp fun h => (hr _ _).mpr h

theorem Shrinks.sum_le {l' l : List Order} {g : ℕ × Trader × ℕ × ℕ → ℤ} (h : Shrinks l' l)
    (hg : ∀ k, 0 ≤ g k) :
    (l'.map fun o => g (key o)).sum ≤ (l.map fun o => g (key o)).sum := by
  have hsum := List.Sublist.sum_le_sum (h.map g) (by simpa using fun _ _ => hg _)
  simpa [Function.comp_def] using hsum

theorem shrinks_leftOver (o : Order) (behind : List Order) (s : Side) (qty value : ℕ) :
    Shrinks (leftOver o behind s qty value) (o :: behind) := by
  unfold leftOver
  split
  · exact Shrinks.of_sublist (List.sublist_cons_self o behind)
  · exact List.Sublist.refl _

/-- How many orders are known by a key that meets `c`. -/
def census (c : ℕ × Trader × ℕ × ℕ → Bool) (ex : Exchange) : ℤ :=
  weigh (fun _ o => if c (key o) then 1 else 0) ex

theorem census_eq_countP (c : ℕ × Trader × ℕ × ℕ → Bool) (ex : Exchange) :
    census c ex = ex.allOrders.countP fun o => c (key o) := by
  have hcount (l : List Order) :
      (l.map fun o => if c (key o) then (1 : ℤ) else 0).sum = l.countP fun o => c (key o) := by
    induction l with
    | nil => rfl
    | cons o rest ih =>
      rw [List.map_cons, List.sum_cons, ih, List.countP_cons]
      split <;> push_cast <;> ring
  simp only [census, weigh, Table.total, bookWeight, hcount, allOrders, Table.values,
    List.flatMap_map]
  induction ex.books.entries with
  | nil => rfl
  | cons e rest ih =>
    rw [List.map_cons, List.sum_cons, ih, List.flatMap_cons, List.countP_append,
      List.countP_append]
    push_cast
    ring

structure Orderly (ex : Exchange) : Prop where
  sorted : ∀ item s, ((ex.book item).resting s).Pairwise (precedes s)
  numbered : AllOrders (fun _ _ o => o.id < ex.nextId ∧ o.seq ≤ ex.seq) ex
  ids : ∀ id, census (fun k => k.1 = id) ex ≤ 1
  limit : ∀ trader, census (fun k => k.2.1 = trader) ex ≤ maxOrders
  uncrossed : ∀ item, ∀ b ∈ (ex.book item).bids, ∀ a ∈ (ex.book item).asks, b.price < a.price

theorem orderly_new : Orderly new where
  sorted item s := by simp
  numbered := allOrders_new
  ids id := by simp [census]
  limit trader := by simp [census]
  uncrossed item b hb := by
    rw [book_new] at hb
    cases hb

section Orderly

variable {p : Platform} {ex : Exchange} {order : Order}

/-- An operation that leaves the books alone keeps them in order. -/
theorem Orderly.congr {ex' : Exchange} (h : Orderly ex) (hb : ex'.books = ex.books)
    (hid : ex.nextId ≤ ex'.nextId) (hseq : ex.seq ≤ ex'.seq) : Orderly ex' where
  sorted item s := by
    rw [book_congr hb]
    exact h.sorted item s
  numbered := by
    refine (h.numbered.mono fun _ _ o ho => ?_).congr hb
    exact ⟨ho.1.trans_le hid, ho.2.trans hseq⟩
  ids id := (weigh_congr _ hb).trans_le (h.ids id)
  limit trader := (weigh_congr _ hb).trans_le (h.limit trader)
  uncrossed item := by
    rw [book_congr hb]
    exact h.uncrossed item

theorem Orderly.openBook (h : Orderly ex) (item : Item) : Orderly (ex.openBook item) where
  sorted item' s := by
    rw [book_openBook]
    exact h.sorted item' s
  numbered := h.numbered.openBook item
  ids id := (weigh_openBook _ ex item).trans_le (h.ids id)
  limit trader := (weigh_openBook _ ex item).trans_le (h.limit trader)
  uncrossed item' := by
    rw [book_openBook]
    exact h.uncrossed item'

theorem census_shrink {item : Item} {s : Side} {l : List Order}
    (hl : Shrinks l ((ex.book item).resting s)) (c : ℕ × Trader × ℕ × ℕ → Bool) :
    census c (ex.setBook item ((ex.book item).withResting s l)) ≤ census c ex := by
  have hsum := hl.sum_le (g := fun k => if c k then 1 else 0) (fun k => by split <;> simp)
  rw [census, weigh_setResting]
  unfold census
  linarith

/-- Every resting order of a book shrunk on one side was, by its key, in the book before. -/
theorem shrink_mem {item : Item} {s : Side} {l : List Order} (s' : Side)
    (hl : Shrinks l ((ex.book item).resting s)) {o : Order}
    (ho : o ∈ ((ex.book item).withResting s l).resting s') :
    ∃ o' ∈ (ex.book item).resting s', key o' = key o := by
  by_cases hs : s' = s
  · subst hs
    rw [Book.withResting_resting] at ho
    exact hl.mem ho
  · rw [Book.withResting_of_ne _ _ hs] at ho
    exact ⟨o, ho, rfl⟩

theorem Orderly.shrink {item : Item} {s : Side} {l : List Order} (h : Orderly ex)
    (hl : Shrinks l ((ex.book item).resting s)) :
    Orderly (ex.setBook item ((ex.book item).withResting s l)) where
  sorted item' s' := by
    by_cases hi : item' = item
    · subst hi
      rw [book_setBook_self]
      by_cases hs : s' = s
      · subst hs
        rw [Book.withResting_resting]
        exact hl.pairwise (h.sorted item' s')
      · rw [Book.withResting_of_ne _ _ hs]
        exact h.sorted item' s'
    · rw [book_setBook_of_ne _ _ hi]
      exact h.sorted item' s'
  numbered := by
    refine h.numbered.setResting fun o ho => ?_
    obtain ⟨o', ho', hk⟩ := hl.mem ho
    have hold := h.numbered item s o' ho'
    simp only [key, Prod.mk.injEq] at hk
    exact hk.1 ▸ hk.2.2.2 ▸ hold
  ids id := (census_shrink hl _).trans (h.ids id)
  limit trader := (census_shrink hl _).trans (h.limit trader)
  uncrossed item' b hb a ha := by
    by_cases hi : item' = item
    · subst hi
      rw [book_setBook_self] at hb ha
      obtain ⟨b', hb', hkb⟩ := shrink_mem .buy hl hb
      obtain ⟨a', ha', hka⟩ := shrink_mem .sell hl ha
      have hold := h.uncrossed item' b' hb' a' ha'
      simp only [key, Prod.mk.injEq] at hkb hka
      exact hkb.2.2.1 ▸ hka.2.2.1 ▸ hold
    · rw [book_setBook_of_ne _ _ hi] at hb ha
      exact h.uncrossed item' b hb a ha

theorem insert_sorted {s : Side} {l : List Order} (hl : l.Pairwise (precedes s))
    (hnew : ∀ o ∈ l, o.seq < order.seq) :
    (l.orderedInsert (Book.beats s) order).Pairwise (precedes s) := by
  have htrans : ∀ {a b : Order}, Book.beats s order a → precedes s a b →
      Book.beats s order b := by
    intro a b hoa hab
    cases s with
    | buy =>
      simp only [precedes, Book.beats] at hoa hab ⊢
      omega
    | sell =>
      simp only [precedes, Book.beats] at hoa hab ⊢
      omega
  have hbehind : ∀ o : Order, o.seq < order.seq → ¬ Book.beats s order o →
      precedes s o order := by
    intro o hseq hn
    cases s with
    | buy =>
      simp only [precedes, Book.beats] at hn ⊢
      omega
    | sell =>
      simp only [precedes, Book.beats] at hn ⊢
      omega
  induction l with
  | nil => simp
  | cons a rest ih =>
    have hrest := List.pairwise_cons.mp hl
    rw [List.orderedInsert_cons]
    split
    · rename_i hb
      refine List.pairwise_cons.mpr ⟨?_, hl⟩
      intro o ho
      rcases List.mem_cons.mp ho with h | h
      · exact Or.inl (h ▸ hb)
      · exact Or.inl (htrans hb (hrest.1 o h))
    · rename_i hb
      refine List.pairwise_cons.mpr ⟨?_, ih hrest.2 fun o ho => hnew o (List.mem_cons_of_mem _ ho)⟩
      intro o ho
      rcases (List.mem_orderedInsert _).mp ho with h | h
      · exact h ▸ hbehind a (hnew a List.mem_cons_self) hb
      · exact hrest.1 o h

theorem Orderly.strike {c : Counter} (h : Orderly ex) (hc : ex.counter p order = some c) :
    Orderly (ex.strike order c).1 := by
  have hcounters := strike_counters ex order c
  rcases counter_cases hc with ⟨price, available, rfl, -, -⟩ | ⟨o, behind, rfl, hrest⟩
  · exact h.congr (strike_books_colony ex order price available) hcounters.1.ge hcounters.2.ge
  · have hl : Shrinks (leftOver o behind order.side (dealQty order (.maker o behind))
        (dealValue order (.maker o behind)))
          ((ex.book order.item).resting order.side.opposite) :=
      hrest ▸ shrinks_leftOver _ _ _ _ _
    exact (h.shrink hl).congr (strike_books_maker ex order o behind) hcounters.1.ge
      hcounters.2.ge

/-- An order on its way through the matcher: it is newer than every resting order. -/
structure Entering (ex : Exchange) (order : Order) : Prop where
  orderly : Orderly ex
  older : AllOrders (fun _ _ o => o.id < order.id ∧ o.seq < order.seq) ex
  counted : order.id < ex.nextId ∧ order.seq ≤ ex.seq

theorem Entering.strike {c : Counter} (h : Entering ex order)
    (hc : ex.counter p order = some c) :
    Entering (ex.strike order c).1 (ex.strike order c).2.1 := by
  have hcounters := strike_counters ex order c
  refine ⟨h.orderly.strike hc, ?_, hcounters.1 ▸ hcounters.2 ▸ h.counted⟩
  rcases counter_cases hc with ⟨price, available, rfl, -, -⟩ | ⟨o, behind, rfl, hrest⟩
  · exact h.older.congr (strike_books_colony ex order price available)
  · have hb := strike_books_maker ex order o behind
    have hl : Shrinks (leftOver o behind order.side (dealQty order (.maker o behind))
        (dealValue order (.maker o behind)))
          ((ex.book order.item).resting order.side.opposite) :=
      hrest ▸ shrinks_leftOver _ _ _ _ _
    refine AllOrders.congr (h.older.setResting fun x hx => ?_) hb
    obtain ⟨x', hx', hk⟩ := hl.mem hx
    have hold := h.older _ _ x' hx'
    simp only [key, Prod.mk.injEq] at hk
    exact hk.1 ▸ hk.2.2.2 ▸ hold

/-- An order nothing crosses is priced clear of the other side of its book. -/
theorem settled_clear (hs : Settled p ex order) (hb : Orderly ex) :
    ∀ o ∈ (ex.book order.item).resting order.side.opposite,
      order.side.crosses o.price order.price = false := by
  intro o ho
  have hsorted := hb.sorted order.item order.side.opposite
  cases hrest : (ex.book order.item).resting order.side.opposite with
  | nil =>
    rw [hrest] at ho
    cases ho
  | cons a behind =>
    rw [hrest] at ho hsorted
    have hfirst : order.side.crosses a.price order.price = false := by
      cases hq : ex.colonyQuote p order.item order.side with
      | none => exact hs (.maker a behind) (by simp [counter, hrest, hq])
      | some q =>
        by_cases hbetter : order.side.better q.1 a.price = true
        · have hquote : order.side.crosses q.1 order.price = false :=
            hs (.colony q.1 q.2) (by simp [counter, hrest, hq, hbetter])
          cases hside : order.side with
          | buy =>
            simp only [hside, Side.better, Side.crosses, decide_eq_true_eq,
              decide_eq_false_iff_not] at hbetter hquote ⊢
            omega
          | sell =>
            simp only [hside, Side.better, Side.crosses, decide_eq_true_eq,
              decide_eq_false_iff_not] at hbetter hquote ⊢
            omega
        · exact hs (.maker a behind) (by simp [counter, hrest, hq, hbetter])
    rcases List.mem_cons.mp ho with h | h
    · exact h ▸ hfirst
    · have hbefore := (List.pairwise_cons.mp hsorted).1 o h
      cases hside : order.side with
      | buy =>
        simp only [hside, Side.crosses, Side.opposite, precedes, Book.beats,
          decide_eq_false_iff_not] at hfirst hbefore ⊢
        omega
      | sell =>
        simp only [hside, Side.crosses, Side.opposite, precedes, Book.beats,
          decide_eq_false_iff_not] at hfirst hbefore ⊢
        omega

theorem census_insert (c : ℕ × Trader × ℕ × ℕ → Bool) :
    census c (ex.setBook order.item ((ex.book order.item).insert order))
      = census c ex + if c (key order) then 1 else 0 := by
  rw [census, Book.insert, weigh_setResting, census]
  have hperm := ((List.perm_orderedInsert (Book.beats order.side) order
    ((ex.book order.item).resting order.side)).map
      fun o => if c (key o) then (1 : ℤ) else 0).sum_eq
  rw [hperm, List.map_cons, List.sum_cons]
  ring

theorem Entering.insert (h : Entering ex order) (hs : Settled p ex order)
    (hlimit : census (fun k => k.2.1 = order.trader) ex < maxOrders) :
    Orderly (ex.setBook order.item ((ex.book order.item).insert order)) where
  sorted item s := by
    by_cases hi : item = order.item
    · subst hi
      rw [book_setBook_self, Book.insert]
      by_cases hside : s = order.side
      · subst hside
        rw [Book.withResting_resting]
        exact insert_sorted (h.orderly.sorted _ _) fun o ho => (h.older _ _ o ho).2
      · rw [Book.withResting_of_ne _ _ hside]
        exact h.orderly.sorted _ _
    · rw [book_setBook_of_ne _ _ hi]
      exact h.orderly.sorted item s
  numbered := by
    refine h.orderly.numbered.setResting fun o ho => ?_
    rcases (List.mem_orderedInsert _).mp ho with heq | hmem
    · exact heq ▸ h.counted
    · exact h.orderly.numbered _ _ o hmem
  ids id := by
    rw [census_insert]
    by_cases hid : order.id = id
    · have hnone : census (fun k => k.1 = id) ex = 0 := by
        rw [census_eq_countP]
        refine Int.natCast_eq_zero.mpr (List.countP_eq_zero.mpr fun o ho => ?_)
        obtain ⟨item, s, hmem⟩ := mem_allOrders_iff.mp ho
        have hlt := (h.older item s o hmem).1
        exact fun hc => hlt.ne (hid ▸ of_decide_eq_true hc)
      rw [hnone]
      split <;> simp
    · have hkey : ¬ (key order).1 = id := hid
      rw [if_neg (by simpa using hkey), add_zero]
      exact h.orderly.ids id
  limit trader := by
    rw [census_insert]
    by_cases ht : order.trader = trader
    · subst ht
      split <;> omega
    · have hkey : ¬ (key order).2.1 = trader := ht
      rw [if_neg (by simpa using hkey), add_zero]
      exact h.orderly.limit trader
  uncrossed item b hb a ha := by
    by_cases hi : item = order.item
    · subst hi
      have hclear := settled_clear hs h.orderly
      have hold := h.orderly.uncrossed order.item
      rw [book_setBook_self, Book.insert] at hb ha
      cases hside : order.side with
      | buy =>
        simp only [hside, Book.withResting, Book.resting, Side.opposite, Side.crosses,
          decide_eq_false_iff_not, not_le] at hb ha hclear
        rcases (List.mem_orderedInsert _).mp hb with heq | hmem
        · exact heq ▸ hclear a ha
        · exact hold b hmem a ha
      | sell =>
        simp only [hside, Book.withResting, Book.resting, Side.opposite, Side.crosses,
          decide_eq_false_iff_not, not_le] at hb ha hclear
        rcases (List.mem_orderedInsert _).mp ha with heq | hmem
        · exact heq ▸ hclear b hb
        · exact hold b hb a hmem
    · rw [book_setBook_of_ne _ _ hi] at hb ha
      exact h.orderly.uncrossed item b hb a ha

theorem census_strike (c : ℕ × Trader × ℕ × ℕ → Bool) {offer : Counter}
    (hc : ex.counter p order = some offer) :
    census c (ex.strike order offer).1 ≤ census c ex := by
  rcases counter_cases hc with ⟨price, available, rfl, -, -⟩ | ⟨o, behind, rfl, hrest⟩
  · exact (weigh_congr _ (strike_books_colony ex order price available)).le
  · refine (weigh_congr _ (strike_books_maker ex order o behind)).trans_le ?_
    exact census_shrink (hrest ▸ shrinks_leftOver _ _ _ _ _) c

theorem Entering.matched {limit : ℤ} (h : Entering ex.numbered order)
    (hlimit : census (fun k => k.2.1 = order.trader) ex.numbered < limit) :
    Entering (matched p ex order).1 (matched p ex order).2.1
      ∧ (matched p ex order).2.1.trader = order.trader
      ∧ census (fun k => k.2.1 = order.trader) (matched p ex order).1 < limit
      ∧ ((matched p ex order).2.1.qty = 0
        ∨ Settled p (matched p ex order).1 (matched p ex order).2.1) := by
  have hloop := matchLoop_induct (p := p)
    (Q := fun ex' order' => Entering ex' order' ∧ order'.trader = order.trader
      ∧ census (fun k => k.2.1 = order.trader) ex' < limit)
    (fun ex' order' hQ => ⟨⟨hQ.1.orderly.openBook _, hQ.1.older.openBook _, hQ.1.counted⟩,
      hQ.2.1, (weigh_openBook _ ex' order'.item).trans_lt hQ.2.2⟩)
    (fun ex' order' c hQ _ hc _ => ⟨hQ.1.strike hc, hQ.2.1, (census_strike _ hc).trans_lt hQ.2.2⟩)
    _ ex.numbered order le_rfl ⟨h, rfl, hlimit⟩
  exact ⟨hloop.1.1, hloop.1.2.1, hloop.1.2.2, hloop.2⟩

theorem orders_length (ex : Exchange) (trader : Trader) :
    ((ex.orders trader).length : ℤ) = census (fun k => k.2.1 = trader) ex := by
  rw [census_eq_countP, orders, List.countP_eq_length_filter]
  rfl

theorem Orderly.place (h : Orderly ex) (trader : Trader) (item : Item) (side : Side)
    (price qty escrow : ℕ) (rest : Bool) :
    Orderly (ex.place p trader item side price qty escrow rest).1 := by
  rcases place_cases p ex trader item side price qty escrow rest with ⟨why, hr⟩ | ⟨hok, hr⟩
  · rw [hr]
    exact h
  · rw [hr]
    have hentering : Entering ex.numbered (ex.newOrder trader item side price qty escrow) := by
      refine ⟨h.congr rfl (Nat.le_succ _) (Nat.le_succ _), ?_,
        ⟨Nat.lt_succ_self _, le_rfl⟩⟩
      exact h.numbered.mono fun _ _ o ho => ⟨ho.1, Nat.lt_succ_of_le ho.2⟩
    obtain ⟨hm, -, -, -⟩ := hentering.matched (p := p) (lt_add_one _)
    unfold conclude
    split
    · rename_i hrest
      have hlimit : census (fun k => k.2.1 = trader) ex.numbered < maxOrders := by
        have := (refusal_none hok).2.2.2.2.2.2 hrest.2
        rw [← orders_length]
        exact_mod_cast this
      obtain ⟨hm, ht, hcount, hend⟩ := hentering.matched (p := p) hlimit
      have hs := hend.resolve_left hrest.1.ne'
      exact hm.insert hs (ht ▸ hcount)
    · exact hm.orderly.congr rfl le_rfl le_rfl

theorem Orderly.cancel (h : Orderly ex) (trader : Trader) (id : ℕ) :
    Orderly (ex.cancel trader id).1 := by
  rcases cancel_cases ex trader id with hc | ⟨item, s, o, l, rfl, hc, -, -⟩
  · rw [hc]
    exact h
  · rw [hc]
    exact (h.shrink (Shrinks.of_sublist List.eraseP_sublist)).congr rfl le_rfl le_rfl

theorem Orderly.cancelAll (h : Orderly ex) (trader : Trader) : Orderly (ex.cancelAll trader) := by
  unfold Exchange.cancelAll
  generalize (ex.orders trader).map Order.id = ids
  induction ids generalizing ex with
  | nil => exact h
  | cons id rest ih => exact ih (h.cancel trader id)

end Orderly

theorem Orderly.apply {p : Platform} {ex : Exchange} (h : Orderly ex) (op : Op) :
    Orderly (ex.apply p op) := by
  cases op with
  | place trader item side price qty escrow rest =>
    exact h.place trader item side price qty escrow rest
  | cancel trader id => exact h.cancel trader id
  | cancelAll trader => exact h.cancelAll trader
  | collect trader => exact h.congr rfl le_rfl le_rfl
  | tick dt =>
    obtain ⟨tapes, next, ht⟩ := tick_frame p ex dt
    simp only [Exchange.apply, ht]
    exact h.congr rfl le_rfl le_rfl
  | colonyReceive item qty =>
    simp only [Exchange.apply, Exchange.colonyReceive]
    split
    · exact h
    · exact h.congr rfl le_rfl le_rfl
  | colonyIssue item qty =>
    simp only [Exchange.apply, Exchange.colonyIssue]
    split
    · exact h
    · exact h.congr rfl le_rfl le_rfl
  | seedMissing =>
    obtain ⟨colony, hs⟩ := seedMissing_frame ex
    simp only [Exchange.apply, hs]
    exact h.congr rfl le_rfl le_rfl

theorem orderly_run (p : Platform) (ops : List Op) : Orderly (run p ops) :=
  Run.invariant (C := fun _ _ => True) (fun _ op h _ => h.apply op) orderly_new
    (Run.along_of_forall _ (fun _ _ => trivial) _ _)

/-- In every state of the exchange each side of a book is sorted by price and age, order ids
are unique and below the next one, no trader has more than `maxOrders` resting, and no book
is crossed. -/
theorem book_invariant (p : Platform) (ops : List Op) :
    (∀ item, ((run p ops).book item).bids.Pairwise fun a b =>
        b.price < a.price ∨ a.price = b.price ∧ a.seq < b.seq)
      ∧ (∀ item, ((run p ops).book item).asks.Pairwise fun a b =>
        a.price < b.price ∨ a.price = b.price ∧ a.seq < b.seq)
      ∧ ((run p ops).allOrders.map Order.id).Nodup
      ∧ (∀ o ∈ (run p ops).allOrders, o.id < (run p ops).nextId)
      ∧ (∀ trader, ((run p ops).orders trader).length ≤ maxOrders)
      ∧ ∀ item bid ask, ((run p ops).book item).bids.head? = some bid →
        ((run p ops).book item).asks.head? = some ask → bid.price < ask.price := by
  have h := orderly_run p ops
  refine ⟨fun item => h.sorted item .buy, fun item => h.sorted item .sell, ?_, ?_, ?_, ?_⟩
  · refine List.nodup_iff_count_le_one.mpr fun id => ?_
    have hid := h.ids id
    rw [census_eq_countP] at hid
    rw [List.count, List.countP_map]
    exact_mod_cast hid
  · intro o ho
    obtain ⟨item, s, hmem⟩ := mem_allOrders_iff.mp ho
    exact (h.numbered item s o hmem).1
  · intro trader
    have := h.limit trader
    rw [← orders_length] at this
    exact_mod_cast this
  · intro item bid ask hbid hask
    exact h.uncrossed item bid (List.mem_of_mem_head? hbid) ask (List.mem_of_mem_head? hask)

end Exchange

end BeforeColony
