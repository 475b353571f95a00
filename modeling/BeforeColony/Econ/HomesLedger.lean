import Mathlib.Algebra.BigOperators.Ring.Finset
import BeforeColony.Econ.Homes
import BeforeColony.Econ.Flows

/-!
# The ledger of the homes

Every credit a pilot pays the register is on a panel, waiting for someone, or booked as taken or
sold for, less what was paid back; and goods are in stores, in chests and safes, or waiting.
Whatever is asked of the register and whenever its clock comes by, both stay as they were.
-/

set_option autoImplicit false

namespace BeforeColony

open Lib

namespace Homes

/-! ## Goods -/

def amountOf (item : Item) (goods : List (Item × ℕ)) : ℕ :=
  (goods.map fun e => if item = e.1 then e.2 else 0).sum

/-- How much of an item a home's chests and safes hold. -/
def stashed (item : Item) (h : Held) : ℕ := (h.pieces.map fun p => amountOf item p.holds).sum

theorem amountOf_flatMap (item : Item) (pieces : List Piece) :
    amountOf item (pieces.flatMap Piece.holds)
      = (pieces.map fun p => amountOf item p.holds).sum := by
  induction pieces with
  | nil => rfl
  | cons p rest ih =>
    rw [List.flatMap_cons, List.map_cons, List.sum_cons, ← ih]
    simp [amountOf]

theorem get_putAway (s : Stores) (goods : List (Item × ℕ)) (item : Item) :
    (putAway s goods).get item = s.get item + amountOf item goods := by
  induction goods generalizing s with
  | nil => rfl
  | cons e rest ih =>
    have hone := Stores.get_add s e.1 e.2 item
    have hrest := ih (s.add e.1 e.2)
    simp only [putAway, List.foldl_cons, amountOf, List.map_cons, List.sum_cons] at *
    omega

theorem getD_addGoods (a : Account) (goods : List (Item × ℕ)) (item : Item) :
    (goods.foldl (fun a e => a.addGoods e.1 e.2) a).goods.getD item 0
      = a.goods.getD item 0 + amountOf item goods := by
  induction goods generalizing a with
  | nil => rfl
  | cons e rest ih =>
    have hone := addGoods_getD a e.1 item e.2
    have hrest := ih (a.addGoods e.1 e.2)
    simp only [List.foldl_cons, amountOf, List.map_cons, List.sum_cons] at *
    omega

theorem credits_addGoods (a : Account) (goods : List (Item × ℕ)) :
    (goods.foldl (fun a e => a.addGoods e.1 e.2) a).credits = a.credits := by
  induction goods generalizing a with
  | nil => rfl
  | cons e rest ih => rw [List.foldl_cons, ih, Account.addGoods]

theorem amountOf_holdMore (item : Item) (qty : ℕ) (holds : List (Item × ℕ)) (item' : Item) :
    amountOf item' (holdMore item qty holds)
      = amountOf item' holds + if item' = item then qty else 0 := by
  induction holds with
  | nil => simp [holdMore, amountOf]
  | cons e rest ih =>
    unfold holdMore
    by_cases he : e.1 = item
    · simp only [if_pos he, amountOf, List.map_cons, List.sum_cons]
      rw [he]
      split <;> omega
    · simp only [if_neg he, amountOf, List.map_cons, List.sum_cons] at ih ⊢
      omega

theorem holdLess_some {item : Item} {qty : ℕ} {holds : List (Item × ℕ)}
    (h : (holds.any fun e => e.1 = item && qty ≤ e.2 && 0 < qty) = true) :
    ∃ left, holdLess item qty holds = some left
      ∧ ∀ item', amountOf item' left + (if item' = item then qty else 0)
        = amountOf item' holds := by
  induction holds with
  | nil => simp at h
  | cons e rest ih =>
    unfold holdLess
    by_cases he : e.1 = item ∧ qty ≤ e.2
    · rw [if_pos he, checkedSub_of_le he.2]
      refine ⟨_, rfl, ?_⟩
      intro item'
      have hle := he.2
      by_cases hz : e.2 - qty = 0
      · simp only [if_pos hz, amountOf, List.map_cons, List.sum_cons, he.1]
        split <;> omega
      · simp only [if_neg hz, amountOf, List.map_cons, List.sum_cons, he.1]
        split <;> omega
    · have hrest : (rest.any fun e => e.1 = item && qty ≤ e.2 && 0 < qty) = true := by
        simp only [List.any_cons, Bool.or_eq_true, Bool.and_eq_true, decide_eq_true_eq] at h
        exact h.resolve_left fun hor => he hor.1
      obtain ⟨left, hleft, hamount⟩ := ih hrest
      rw [if_neg he, hleft]
      refine ⟨_, rfl, ?_⟩
      intro item'
      have hi := hamount item'
      simp only [amountOf, List.map_cons, List.sum_cons] at hi ⊢
      omega

theorem stashed_setPiece {pieces : List Piece} {piece : ℕ} {p : Piece}
    (h : (pieces.find? fun p => p.id = piece) = some p) (holds : List (Item × ℕ)) (item : Item) :
    ((setPiece pieces piece holds).map fun p => amountOf item p.holds).sum + amountOf item p.holds
      = (pieces.map fun p => amountOf item p.holds).sum + amountOf item holds := by
  induction pieces with
  | nil => cases h
  | cons q rest ih =>
    unfold setPiece
    by_cases hq : q.id = piece
    · rw [List.find?_cons_of_pos (by simpa using hq), Option.some.injEq] at h
      subst h
      simp only [if_pos hq, List.map_cons, List.sum_cons]
      omega
    · rw [List.find?_cons_of_neg (by simpa using hq)] at h
      have hrest := ih h
      simp only [if_neg hq, List.map_cons, List.sum_cons]
      omega

theorem stashed_eraseP {pieces : List Piece} {piece : ℕ} {p : Piece}
    (h : (pieces.find? fun p => p.id = piece) = some p) (hempty : p.holds = []) (item : Item) :
    ((pieces.eraseP fun p => p.id = piece).map fun p => amountOf item p.holds).sum
      = (pieces.map fun p => amountOf item p.holds).sum := by
  induction pieces with
  | nil => rfl
  | cons q rest ih =>
    by_cases hq : q.id = piece
    · rw [List.find?_cons_of_pos (by simpa using hq), Option.some.injEq] at h
      subst h
      rw [List.eraseP_cons_of_pos (by simpa using hq), List.map_cons, List.sum_cons, hempty]
      simp [amountOf]
    · rw [List.find?_cons_of_neg (by simpa using hq)] at h
      rw [List.eraseP_cons_of_neg (by simpa using hq), List.map_cons, List.map_cons, List.sum_cons,
        List.sum_cons, ih h]

/-! ## What the register holds -/

/-- What it holds and has taken, less what it has paid back. -/
def funds (r : Homes) : ℤ :=
  r.holding + r.rentTaken + r.soldFor + r.furnitureSold - r.paidBack - r.furnitureBack

def goods (item : Item) (r : Homes) : ℚ :=
  Table.total (fun _ h => (stashed item h : ℚ)) r.held + accountsGoods item r.accounts

theorem holding_eq (r : Homes) :
    (r.holding : ℤ) = Table.total (fun _ (h : Held) => (h.tenure.bank : ℤ)) r.held
      + accountsCredits r.accounts := by
  simp only [holding, Table.total, accountsCredits, Table.values, List.map_map]
  push_cast
  simp only [List.map_map]
  rfl

variable {r r' : Homes} {id : ℕ} {h h' : Held} {who : Trader}

/-- Nothing the register holds has changed. -/
structure Even (r r' : Homes) : Prop where
  funds : r'.funds = r.funds
  goods : ∀ item, r'.goods item = r.goods item

theorem Even.refl (r : Homes) : Even r r := ⟨rfl, fun _ => rfl⟩

theorem Even.trans {r'' : Homes} (h : Even r r') (h' : Even r' r'') : Even r r'' :=
  ⟨h'.funds.trans h.funds, fun item => (h'.goods item).trans (h.goods item)⟩

theorem heldBy_ok (hok : r.heldBy id who = .ok h) : r.held.get? id = some h := by
  unfold heldBy at hok
  split at hok
  · split at hok
    · cases hok
      assumption
    · cases hok
  · cases hok

theorem crewOf_ok (hok : r.crewOf id who = .ok h) : r.held.get? id = some h := by
  unfold crewOf at hok
  split at hok
  · split at hok
    · cases hok
      assumption
    · cases hok
  · cases hok

theorem canTake_ok {home : Home} (hok : r.canTake home who = .ok ()) :
    r.held.get? home.id = none := by
  unfold canTake at hok
  split at hok
  · cases hok
  · split at hok
    · cases hok
    · rename_i hnot
      simpa [Table.contains] using hnot

theorem funds_setHeld (hget : r.held.get? id = some h) :
    (r.setHeld id h').funds = r.funds + h'.tenure.bank - h.tenure.bank := by
  have htotal := Table.total_insert (fun _ (h : Held) => (h.tenure.bank : ℤ)) r.held id h'
  rw [Table.at?_of_get? hget] at htotal
  simp only [funds, holding_eq, setHeld]
  linarith

theorem goods_setHeld (item : Item) (hget : r.held.get? id = some h) :
    (r.setHeld id h').goods item = r.goods item + stashed item h' - stashed item h := by
  have htotal := Table.total_insert (fun _ (h : Held) => (stashed item h : ℚ)) r.held id h'
  rw [Table.at?_of_get? hget] at htotal
  simp only [goods, setHeld]
  linarith

theorem even_setHeld (hget : r.held.get? id = some h) (hbank : h'.tenure.bank = h.tenure.bank)
    (hgoods : ∀ item, stashed item h' = stashed item h) : Even r (r.setHeld id h') := by
  constructor
  · rw [funds_setHeld hget, hbank]
    ring
  · intro item
    rw [goods_setHeld item hget, hgoods]
    ring

theorem even_enterCode (r : Homes) (id : ℕ) (who : Trader) (code now : ℕ) :
    Even r (r.enterCode id who code now).1 := by
  have hput {h : Held} (hget : r.held.get? id = some h) (l : Lock) :
      Even r (r.setHeld id { h with lock := l }) := even_setHeld hget rfl fun _ => rfl
  unfold enterCode
  split
  · exact Even.refl r
  · cases hget : r.held.get? id with
    | none => exact Even.refl r
    | some h =>
      dsimp only
      by_cases hshut : now < h.lock.shutUntil
      · rw [if_pos hshut]
        exact Even.refl r
      · rw [if_neg hshut]
        -- Whatever the code does, it is to the lock.
        generalize (if h.lock.shutUntil ≠ 0 then { h.lock with shutUntil := 0, misses := 0 }
          else h.lock) = l
        generalize remember l.crew who crewCap = crew
        generalize (if l.isCrew who = true then (l.guests, true)
          else remember l.guests who guestCap) = guests
        split_ifs <;> exact hput hget _

theorem even_setCode (r : Homes) (id : ℕ) (who : Trader) (guest : Bool) (code : Option ℕ) :
    Even r (r.setCode id who guest code).1 := by
  unfold setCode
  split
  · exact Even.refl r
  · split
    · exact Even.refl r
    · rename_i h hok
      split
      · exact even_setHeld (crewOf_ok hok) rfl fun _ => rfl
      · split
        · exact Even.refl r
        · exact even_setHeld (crewOf_ok hok) rfl fun _ => rfl

theorem even_setLocked (r : Homes) (id : ℕ) (who : Trader) (locked : Bool) :
    Even r (r.setLocked id who locked).1 := by
  unfold setLocked
  split
  · exact Even.refl r
  · rename_i h hok
    exact even_setHeld (crewOf_ok hok) rfl fun _ => rfl

theorem even_door (r : Homes) (id : ℕ) (who : Trader) (isOpen : Bool) :
    Even r (r.door id who isOpen).1 := by
  unfold door
  split
  · exact Even.refl r
  · rename_i h hget
    split
    · exact Even.refl r
    · exact even_setHeld hget rfl fun _ => rfl

theorem even_leaveCrew (r : Homes) (id : ℕ) (who : Trader) : Even r (r.leaveCrew id who).1 := by
  unfold leaveCrew
  split
  · exact Even.refl r
  · rename_i h hget
    split
    · exact Even.refl r
    · exact even_setHeld hget rfl fun _ => rfl

theorem even_clearCrew (r : Homes) (id : ℕ) (who : Trader) : Even r (r.clearCrew id who).1 := by
  unfold clearCrew
  split
  · exact Even.refl r
  · rename_i h hok
    exact even_setHeld (crewOf_ok hok) rfl fun _ => rfl

theorem even_knock (r : Homes) (id : ℕ) (name : String) : Even r (r.knock id name).1 := by
  unfold knock
  split
  · exact Even.refl r
  · exact ⟨rfl, fun _ => rfl⟩

theorem even_visited (r : Homes) (id : ℕ) (who : Trader) (now : ℕ) :
    Even r (r.visited id who now) := by
  unfold visited
  split
  · exact Even.refl r
  · rename_i h hget
    split
    · exact Even.refl r
    · split
      · exact Even.refl r
      · rename_i paid seen htenure
        exact even_setHeld hget (by rw [htenure]; rfl) fun _ => rfl

theorem bank_holdAt (now : ℕ) (t : Tenure) : (t.holdAt now).bank = t.bank := by
  cases t <;> rfl

theorem even_hold (r : Homes) (now : ℕ) : Even r (r.hold now).1 := by
  constructor
  · simp only [funds, holding_eq, hold, Table.total_mapVal, bank_holdAt]
  · intro item
    simp only [goods, hold, Table.total_mapVal]
    rfl

theorem even_wake (r : Homes) (who : Trader) : Even r (r.wake who).1 := by
  unfold wake
  split
  · exact Even.refl r
  · rename_i id h hfind
    have hget : r.held.get? id = some h := Table.mem_entries_iff.mp (List.mem_of_find?_eq_some hfind)
    split
    · exact Even.refl r
    · exact even_setHeld hget rfl fun _ => rfl

theorem even_sleep (r : Homes) (id : ℕ) (who : Trader) (name : String) (far : Piece → ℚ) :
    Even r (r.sleep id who name far).1 := by
  have hwake := even_wake r who
  unfold sleep
  generalize r.wake who = woken at hwake ⊢
  dsimp only
  split
  · exact hwake
  · rename_i h hget
    split
    · exact hwake
    · split
      · exact hwake
      · exact hwake.trans (even_setHeld hget rfl fun _ => rfl)

theorem even_movePiece (c : City) (r : Homes) (id : ℕ) (who : Trader)
    (piece s x turn storey : ℕ) : Even r (r.movePiece c id who piece s x turn storey).1 := by
  unfold movePiece
  split
  · exact Even.refl r
  · rename_i h hok
    split
    · exact Even.refl r
    · rename_i i hfound
      split
      · exact Even.refl r
      · rename_i p hp
        dsimp only
        split
        · exact Even.refl r
        · refine even_setHeld (crewOf_ok hok) rfl fun item => ?_
          obtain ⟨hlt, rfl⟩ := List.getElem?_eq_some_iff.mp hp
          rw [stashed, stashed, List.map_set]
          change ((h.pieces.map fun p => amountOf item p.holds).set i
            (amountOf item h.pieces[i].holds)).sum = _
          rw [← List.map_set (f := fun p : Piece => amountOf item p.holds), List.set_getElem_self]

/-! ## What a request does -/

/-- A request has taken from the register what it gave the hangar. -/
structure Balanced (r : Homes) (hangar : Hangar) (r' : Homes) (hangar' : Hangar) : Prop where
  credits : hangar'.credits + r'.funds = hangar.credits + r.funds
  goods : ∀ item, (hangar'.stores.get item : ℚ) + r'.goods item
    = hangar.stores.get item + r.goods item

/-- A request comes to an end, with nothing made or lost. -/
def Squares (r : Homes) (hangar : Hangar) (o : Outcome) : Prop :=
  ∃ r' hangar' done, o = some (r', hangar', done) ∧ Balanced r hangar r' hangar'

variable {hangar : Hangar}

theorem Even.balanced (h : Even r r') (hangar : Hangar) : Balanced r hangar r' hangar :=
  ⟨by rw [h.funds], fun item => by rw [h.goods]⟩

theorem squares_refused (r : Homes) (hangar : Hangar) (why : String) :
    Squares r hangar (some (r, hangar, .error why)) :=
  ⟨_, _, _, rfl, (Even.refl r).balanced hangar⟩

theorem squares_even {done : Hangar.Done} (h : Even r r') (hangar : Hangar) :
    Squares r hangar (some (r', hangar, done)) :=
  ⟨_, _, _, rfl, h.balanced hangar⟩

/-- A home newly taken is empty but for what is on its panel. -/
theorem taken (held : Held) (hnone : r.held.get? id = none) (hempty : held.pieces = []) :
    ({ r with held := r.held.insert id held } : Homes).funds = r.funds + held.tenure.bank
      ∧ ∀ item, ({ r with held := r.held.insert id held } : Homes).goods item = r.goods item := by
  constructor
  · have htotal := Table.total_insert (fun _ (h : Held) => (h.tenure.bank : ℤ)) r.held id held
    rw [Table.at?_of_none hnone] at htotal
    simp only [funds, holding_eq]
    linarith
  · intro item
    have htotal := Table.total_insert (fun _ (h : Held) => (stashed item h : ℚ)) r.held id held
    have hzero : stashed item held = 0 := by rw [stashed, hempty, List.map_nil, List.sum_nil]
    rw [Table.at?_of_none hnone, hzero, Nat.cast_zero] at htotal
    simp only [goods]
    linarith

/-- A home given up or gone takes what it held out of the register. -/
theorem let_go (hget : r.held.get? id = some h) :
    ({ r with held := r.held.erase id } : Homes).funds = r.funds - h.tenure.bank
      ∧ ∀ item, ({ r with held := r.held.erase id } : Homes).goods item
        = r.goods item - stashed item h := by
  constructor
  · have htotal := Table.total_erase (fun _ (h : Held) => (h.tenure.bank : ℤ)) r.held id
    rw [Table.at?_of_get? hget] at htotal
    simp only [funds, holding_eq]
    linarith
  · intro item
    have htotal := Table.total_erase (fun _ (h : Held) => (stashed item h : ℚ)) r.held id
    rw [Table.at?_of_get? hget] at htotal
    simp only [goods]
    linarith

theorem squares_rent (c : City) (r : Homes) (home : Home) (who : Trader) (name : String)
    (weeks : ℕ) (hangar : Hangar) (now : ℕ) :
    Squares r hangar (r.rent c home who name weeks hangar now) := by
  unfold rent
  split
  · exact squares_refused _ _ _
  · split
    · exact squares_refused _ _ _
    · rename_i hok
      dsimp only
      split
      · exact squares_refused _ _ _
      · rename_i hcost
        have hle := not_lt.mp hcost
        rw [checkedSub_of_le hle]
        obtain ⟨hfunds, hgoods⟩ := taken
          (newlyHeld who name (.lease (c.rent home * max 1 (min weeks maxWeeks)) now none) now)
          (canTake_ok hok) rfl
        refine ⟨_, _, _, rfl, ?_, ?_⟩
        · rw [hfunds]
          simp only [newlyHeld, Tenure.bank]
          push_cast [hle]
          ring
        · intro item
          rw [hgoods]

theorem squares_buy (c : City) (r : Homes) (home : Home) (who : Trader) (name : String)
    (hangar : Hangar) (now : ℕ) : Squares r hangar (r.buy c home who name hangar now) := by
  unfold buy
  split
  · exact squares_refused _ _ _
  · split
    · exact squares_refused _ _ _
    · rename_i hok
      dsimp only
      split
      · exact squares_refused _ _ _
      · rename_i hcost
        have hle := not_lt.mp hcost
        rw [checkedSub_of_le hle]
        obtain ⟨hfunds, hgoods⟩ := taken (newlyHeld who name (.deed (c.price home) now) now)
          (canTake_ok hok) rfl
        refine ⟨_, _, _, rfl, ?_, ?_⟩
        · simp only [funds, holding, newlyHeld, Tenure.bank] at hfunds ⊢
          push_cast [hle] at hfunds ⊢
          linarith
        · exact fun item => congrArg _ (hgoods item)

theorem squares_giveUp (c : City) (r : Homes) (id : ℕ) (who : Trader) (hangar : Hangar) :
    Squares r hangar (r.giveUp c id who hangar) := by
  unfold giveUp
  split
  · exact squares_refused _ _ _
  · rename_i held hok
    obtain ⟨hfunds, hgoods⟩ := let_go (heldBy_ok hok)
    have hstores (item : Item) : (putAway hangar.stores (held.pieces.flatMap Piece.holds)).get item
        = hangar.stores.get item + stashed item held := by
      rw [get_putAway, amountOf_flatMap, stashed]
    simp only [clearedOut]
    split
    · rename_i bank chargedTo unpaidSince htenure
      rw [htenure] at hfunds
      refine ⟨_, _, _, rfl, ?_, ?_⟩
      · simp only [funds, holding, Tenure.bank] at hfunds ⊢
        push_cast at hfunds ⊢
        linarith
      · intro item
        have hitem := hgoods item
        simp only [goods, hstores] at hitem ⊢
        push_cast
        linarith
    · rename_i paid seen htenure
      rw [htenure] at hfunds
      refine ⟨_, _, _, rfl, ?_, ?_⟩
      · simp only [funds, holding, Tenure.bank] at hfunds ⊢
        push_cast at hfunds ⊢
        linarith
      · intro item
        have hitem := hgoods item
        simp only [goods, hstores] at hitem ⊢
        push_cast
        linarith

theorem squares_feed (r : Homes) (id credits : ℕ) (hangar : Hangar) :
    Squares r hangar (r.feed id credits hangar) := by
  unfold feed
  split
  · exact squares_refused _ _ _
  · rename_i h hget
    split
    · exact squares_refused _ _ _
    · rename_i bank chargedTo unpaidSince htenure
      split
      · exact squares_refused _ _ _
      · rename_i hcredits
        have hle := not_lt.mp (not_or.mp hcredits).2
        rw [checkedSub_of_le hle]
        refine ⟨_, _, _, rfl, ?_, ?_⟩
        · rw [funds_setHeld hget, htenure]
          simp only [Tenure.bank]
          push_cast [hle]
          ring
        · intro item
          rw [goods_setHeld item hget]
          simp only [stashed]
          ring

theorem squares_withdraw (r : Homes) (id : ℕ) (who : Trader) (credits : ℕ) (hangar : Hangar) :
    Squares r hangar (r.withdraw id who credits hangar) := by
  unfold withdraw
  split
  · exact squares_refused _ _ _
  · rename_i h hok
    have hget := crewOf_ok hok
    split
    · exact squares_refused _ _ _
    · rename_i bank chargedTo unpaidSince htenure
      split
      · exact squares_refused _ _ _
      · rename_i hcredits
        have hle := not_lt.mp (not_or.mp hcredits).2
        rw [checkedSub_of_le hle]
        refine ⟨_, _, _, rfl, ?_, ?_⟩
        · rw [funds_setHeld hget, htenure]
          simp only [Tenure.bank]
          push_cast [hle]
          ring
        · intro item
          rw [goods_setHeld item hget]
          simp only [stashed]
          ring

theorem squares_furnish (c : City) (r : Homes) (id : ℕ) (who : Trader) (kind : Furniture)
    (s x turn storey : ℕ) (hangar : Hangar) :
    Squares r hangar (r.furnish c id who kind s x turn storey hangar) := by
  unfold furnish
  split
  · exact squares_refused _ _ _
  · rename_i h hok
    have hget := crewOf_ok hok
    split
    · exact squares_refused _ _ _
    · dsimp only
      split
      · exact squares_refused _ _ _
      · split
        · exact squares_refused _ _ _
        · rename_i hprice
          have hle := not_lt.mp hprice
          rw [checkedSub_of_le hle]
          -- The piece put down is empty.
          have heven : Even r (r.setHeld id { h with
              nextPiece := (h.nextPiece + 1) % 2 ^ 16
              pieces := h.pieces ++ [⟨h.nextPiece, kind, s, x, turn % 4, storey, []⟩] }) :=
            even_setHeld hget rfl fun item => by simp [stashed, amountOf]
          refine ⟨_, _, _, rfl, ?_, heven.balanced hangar |>.goods⟩
          have hfunds := heven.funds
          simp only [funds, holding] at hfunds ⊢
          push_cast [hle] at hfunds ⊢
          linarith

theorem squares_sellPiece (r : Homes) (id : ℕ) (who : Trader) (piece : ℕ) (hangar : Hangar) :
    Squares r hangar (r.sellPiece id who piece hangar) := by
  unfold sellPiece
  split
  · exact squares_refused _ _ _
  · rename_i h hok
    have hget := crewOf_ok hok
    split
    · exact squares_refused _ _ _
    · rename_i p hfound
      split
      · exact squares_refused _ _ _
      · rename_i hempty
        split
        · exact squares_refused _ _ _
        · have hnone : p.holds = [] := by simpa using hempty
          have heven : Even r (r.setHeld id { h with
              pieces := h.pieces.eraseP fun p => p.id = piece }) :=
            even_setHeld hget rfl fun item => stashed_eraseP hfound hnone item
          refine ⟨_, _, _, rfl, ?_, heven.balanced hangar |>.goods⟩
          have hfunds := heven.funds
          simp only [funds, holding] at hfunds ⊢
          push_cast at hfunds ⊢
          linarith

theorem squares_stash (r : Homes) (id : ℕ) (who : Trader) (piece : ℕ) (item : Item) (qty : ℕ)
    (hangar : Hangar) : Squares r hangar (r.stash id who piece item qty hangar) := by
  unfold stash
  split
  · exact squares_refused _ _ _
  · split
    · exact squares_refused _ _ _
    · rename_i h hok
      have hget := crewOf_ok hok
      split
      · exact squares_refused _ _ _
      · rename_i p hfound
        dsimp only
        split
        · exact squares_refused _ _ _
        · split
          · exact squares_refused _ _ _
          · split
            · exact squares_refused _ _ _
            · rename_i stores htake
              refine ⟨_, _, _, rfl, ?_, ?_⟩
              · rw [funds_setHeld hget]
                ring
              · intro item'
                have hstash := stashed_setPiece hfound (holdMore item qty p.holds) item'
                have hstores := Stores.get_take htake item'
                rw [amountOf_holdMore] at hstash
                rw [goods_setHeld item' hget]
                simp only [stashed]
                rw [← hstores]
                have hsum := congrArg (Nat.cast (R := ℚ)) hstash
                push_cast at hsum ⊢
                linarith

theorem squares_unstash (r : Homes) (id : ℕ) (who : Trader) (piece : ℕ) (item : Item) (qty : ℕ)
    (hangar : Hangar) : Squares r hangar (r.unstash id who piece item qty hangar) := by
  unfold unstash
  split
  · exact squares_refused _ _ _
  · rename_i h hok
    have hget := crewOf_ok hok
    split
    · exact squares_refused _ _ _
    · rename_i p hfound
      split
      · exact squares_refused _ _ _
      · rename_i hheld
        obtain ⟨left, hleft, hamount⟩ := holdLess_some (not_not.mp hheld)
        rw [hleft]
        refine ⟨_, _, _, rfl, ?_, ?_⟩
        · rw [funds_setHeld hget]
          ring
        · intro item'
          have hstash := stashed_setPiece hfound left item'
          rw [← hamount item'] at hstash
          rw [goods_setHeld item' hget, Stores.get_add]
          simp only [stashed]
          have hsum := congrArg (Nat.cast (R := ℚ)) hstash
          push_cast at hsum ⊢
          linarith

theorem balanced_collect (r : Homes) (hangar : Hangar) (who : Trader) :
    Balanced r hangar (r.collect hangar who).1 (r.collect hangar who).2.1 := by
  unfold collect
  split
  · exact (Even.refl r).balanced hangar
  · rename_i a hget
    have hgot : r.accounts.getD who Account.empty = a := by rw [Table.getD, hget, Option.getD_some]
    constructor
    · have herase := accountsCredits_erase r.accounts who
      rw [hgot] at herase
      simp only [funds, holding_eq, Hangar.receive, herase]
      push_cast
      ring
    · intro item
      have herase := accountsGoods_erase item r.accounts who
      rw [hgot] at herase
      simp only [goods, Hangar.receive, herase, Stores.get_addAll]
      push_cast
      ring

/-! ## The clock -/

theorem funds_took (r : Homes) (n : ℕ) :
    ({ r with rentTaken := r.rentTaken + n } : Homes).funds = r.funds + n := by
  simp only [funds, holding]
  push_cast
  ring

/-- Charging a home moves its rent from its panel to what the colony has taken. -/
theorem even_charge (c : City) (now : ℕ) (t : Charged) (id : ℕ) :
    ∃ t', charge c now t id = some t' ∧ Even t.reg t'.reg := by
  unfold charge
  split
  · rename_i h home hget hhome
    split
    · rename_i bank chargedTo unpaidSince htenure
      dsimp only
      split
      · exact ⟨t, rfl, Even.refl _⟩
      · generalize max (c.hourly home h.lock.crew.length) 1 * ((now - chargedTo) / hourS) = due
        have hle := min_le_right due bank
        rw [checkedSub_of_le hle]
        refine ⟨_, rfl, ?_, ?_⟩
        · rw [funds_took, funds_setHeld hget, htenure]
          simp only [Tenure.bank]
          push_cast [hle]
          ring
        · intro item
          exact (goods_setHeld item hget).trans (add_sub_cancel_right _ _)
    · exact ⟨_, rfl, Even.refl _⟩
  · exact ⟨t, rfl, Even.refl _⟩

theorem even_chargeAll (c : City) (now : ℕ) (ids : List ℕ) (t : Charged) :
    ∃ t', ids.foldlM (charge c now) t = some t' ∧ Even t.reg t'.reg := by
  induction ids generalizing t with
  | nil => exact ⟨t, rfl, Even.refl _⟩
  | cons id rest ih =>
    obtain ⟨t₁, hone, heven⟩ := even_charge c now t id
    obtain ⟨t₂, hrest, hlast⟩ := ih t₁
    refine ⟨t₂, ?_, heven.trans hlast⟩
    rw [List.foldlM_cons, hone]
    exact hrest

theorem handed (accounts : Table Trader Account) (who : Trader) (cr : ℕ)
    (goods : List (Item × ℕ)) (why : String) :
    let a := ((accounts.getD who Account.empty).addCredits cr)
    let a := (goods.foldl (fun a e => a.addGoods e.1 e.2) a).note why
    accountsCredits (accounts.insert who a) = accountsCredits accounts + cr
      ∧ ∀ item, accountsGoods item (accounts.insert who a)
        = accountsGoods item accounts + amountOf item goods := by
  constructor
  · refine accountsCredits_update (t := accounts) (g := fun a =>
      (goods.foldl (fun a e => a.addGoods e.1 e.2) (a.addCredits cr)).note why) fun a => ?_
    rw [Account.note, credits_addGoods, Account.addCredits]
    push_cast
    rfl
  · intro item
    refine accountsGoods_update (t := accounts) (g := fun a =>
      (goods.foldl (fun a e => a.addGoods e.1 e.2) (a.addCredits cr)).note why) fun a => ?_
    rw [Account.note, getD_addGoods, Account.addCredits]
    push_cast
    rfl

/-- A home gone hands everything in it to its holder's account. -/
theorem even_lapse (c : City) (r : Homes) (gone : ℕ × String) : Even r (r.lapse c gone) := by
  unfold lapse
  split
  · exact Even.refl r
  · rename_i h hget
    obtain ⟨hfunds, hgoods⟩ := let_go hget
    simp only [clearedOut]
    constructor
    · cases htenure : h.tenure with
      | lease bank chargedTo unpaidSince =>
        simp only [htenure, funds, holding_eq, Tenure.bank, handed] at hfunds ⊢
        push_cast
        linarith
      | deed paid seen =>
        simp only [htenure, funds, holding_eq, Tenure.bank, handed] at hfunds ⊢
        push_cast at hfunds ⊢
        linarith
    · intro item
      have hitem := hgoods item
      have hamount : amountOf item (h.pieces.flatMap Piece.holds) = stashed item h :=
        amountOf_flatMap item h.pieces
      simp only [goods, handed, hamount] at hitem ⊢
      linarith

theorem even_tick (c : City) (r : Homes) (now : ℕ) :
    ∃ r' changed, r.tick c now = some (r', changed) ∧ Even r r' := by
  obtain ⟨t, hcharged, heven⟩ := even_chargeAll c now r.held.keys ⟨r, [], false⟩
  have hgone (gone : List (ℕ × String)) (r : Homes) : Even r (gone.foldl (lapse c) r) := by
    induction gone generalizing r with
    | nil => exact Even.refl r
    | cons g rest ih => exact (even_lapse c r g).trans (ih _)
  refine ⟨t.gone.foldl (lapse c) t.reg, t.changed || !t.gone.isEmpty, ?_, heven.trans (hgone _ _)⟩
  rw [tick, hcharged]
  rfl

theorem squares_serve (c : City) (req : HomeRequest) (hangar : Hangar) (r : Homes)
    (who : Trader) (name : String) (now : ℕ) :
    Squares r hangar (r.serve c req hangar who name now) := by
  unfold serve
  split
  · exact squares_refused _ _ _
  · rename_i h hhome
    cases req with
    | rent id weeks => exact squares_rent c r h who name weeks hangar now
    | buy id => exact squares_buy c r h who name hangar now
    | giveUp id => exact squares_giveUp c r id who hangar
    | enterCode id code => exact squares_even (even_enterCode r id who code now) hangar
    | door id isOpen => exact squares_even (even_door r id who isOpen) hangar
    | knock id => exact squares_even (even_knock r id name) hangar
    | setCode id guest code => exact squares_even (even_setCode r id who guest code) hangar
    | lock id locked => exact squares_even (even_setLocked r id who locked) hangar
    | leaveCrew id => exact squares_even (even_leaveCrew r id who) hangar
    | clearCrew id => exact squares_even (even_clearCrew r id who) hangar
    | feed id credits => exact squares_feed r id credits hangar
    | takeRent id credits => exact squares_withdraw r id who credits hangar
    | furnish id furniture s x turn storey =>
      dsimp only
      split
      · exact squares_furnish c r id who _ s x turn storey hangar
      · exact squares_refused _ _ _
    | movePiece id piece s x turn storey =>
      exact squares_even (even_movePiece c r id who piece s x turn storey) hangar
    | sellPiece id piece => exact squares_sellPiece r id who piece hangar
    | stash id piece item qty => exact squares_stash r id who piece item qty hangar
    | unstash id piece item qty => exact squares_unstash r id who piece item qty hangar

end Homes

/-! ## Runs -/

/-- The register, and every pilot's hangar. -/
structure Tenancy where
  hangars : Table Trader Hangar
  reg : Homes

/-- What is asked of the register, and what its clock and its callers do. -/
inductive HomesAct where
  | serve (who : Trader) (name : String) (now : ℕ) (req : HomeRequest)
  | collect (who : Trader)
  | tick (now : ℕ)
  | hold (now : ℕ)
  | visited (id : ℕ) (who : Trader) (now : ℕ)
  | sleep (id : ℕ) (who : Trader) (name : String) (far : Piece → ℚ)
  | wake (who : Trader)

namespace Tenancy

def hangar (t : Tenancy) (who : Trader) : Hangar := t.hangars.getD who Hangar.empty

/-- One thing done; `none` where a subtraction would go below zero. -/
def step (c : City) (t : Tenancy) : HomesAct → Option Tenancy
  | .serve who name now req => do
    let (reg, hangar, _) ← t.reg.serve c req (t.hangar who) who name now
    some ⟨t.hangars.insert who hangar, reg⟩
  | .collect who =>
    let (reg, hangar, _) := t.reg.collect (t.hangar who) who
    some ⟨t.hangars.insert who hangar, reg⟩
  | .tick now => do
    let (reg, _) ← t.reg.tick c now
    some { t with reg }
  | .hold now => some { t with reg := (t.reg.hold now).1 }
  | .visited id who now => some { t with reg := t.reg.visited id who now }
  | .sleep id who name far => some { t with reg := (t.reg.sleep id who name far).1 }
  | .wake who => some { t with reg := (t.reg.wake who).1 }

def run (c : City) (t : Tenancy) (acts : List HomesAct) : Option Tenancy := acts.foldlM (step c) t

/-- The pilots' credits, what the register holds, and what the colony has taken and sold for, less
what it has paid back. -/
def credits (t : Tenancy) : ℤ :=
  Table.total (fun _ (h : Hangar) => (h.credits : ℤ)) t.hangars + t.reg.holding + t.reg.rentTaken
    + t.reg.soldFor + t.reg.furnitureSold - t.reg.paidBack - t.reg.furnitureBack

/-- What the hangars' stores and the homes' chests and safes hold of an item. -/
def kept (item : Item) (t : Tenancy) : ℚ :=
  Table.total (fun _ (h : Hangar) => (h.stores.get item : ℚ)) t.hangars
    + Table.total (fun _ h => (Homes.stashed item h : ℚ)) t.reg.held

/-- And what waits to be collected, of a home that lapsed or was sold back. -/
def goods (item : Item) (t : Tenancy) : ℚ := t.kept item + accountsGoods item t.reg.accounts

variable {t t' : Tenancy}

structure Kept (t t' : Tenancy) : Prop where
  credits : t'.credits = t.credits
  goods : ∀ item, t'.goods item = t.goods item

theorem credits_eq (t : Tenancy) :
    t.credits = Table.total (fun _ (h : Hangar) => (h.credits : ℤ)) t.hangars + t.reg.funds := by
  simp only [credits, Homes.funds]
  ring

theorem goods_eq (item : Item) (t : Tenancy) :
    t.goods item = Table.total (fun _ (h : Hangar) => (h.stores.get item : ℚ)) t.hangars
      + t.reg.goods item := by
  simp only [goods, kept, Homes.goods]
  ring

theorem kept_reg {reg : Homes} (h : Homes.Even t.reg reg) : Kept t { t with reg } := by
  constructor
  · rw [credits_eq, credits_eq, h.funds]
  · intro item
    rw [goods_eq, goods_eq, h.goods]

theorem kept_balanced {who : Trader} {reg : Homes} {hangar : Hangar}
    (h : Homes.Balanced t.reg (t.hangar who) reg hangar) :
    Kept t ⟨t.hangars.insert who hangar, reg⟩ := by
  constructor
  · have htotal := Table.total_insert (fun _ (h : Hangar) => (h.credits : ℤ)) t.hangars who hangar
    rw [Table.at?_eq_getD (d := Hangar.empty) rfl] at htotal
    have hcredits := h.credits
    rw [credits_eq, credits_eq]
    simp only [Tenancy.hangar] at hcredits
    linarith
  · intro item
    have htotal := Table.total_insert (fun _ (h : Hangar) => (h.stores.get item : ℚ)) t.hangars who
      hangar
    have hnone : ((Hangar.empty.stores.get item : ℕ) : ℚ) = 0 := by cases item <;> rfl
    rw [Table.at?_eq_getD (d := Hangar.empty) hnone] at htotal
    have hgoods := h.goods item
    rw [goods_eq, goods_eq]
    simp only [Tenancy.hangar] at hgoods
    linarith

theorem kept_step (c : City) (t : Tenancy) (act : HomesAct) :
    ∃ t', t.step c act = some t' ∧ Kept t t' := by
  cases act with
  | serve who name now req =>
    obtain ⟨reg, hangar, done, heq, hbalanced⟩ :=
      Homes.squares_serve c req (t.hangar who) t.reg who name now
    refine ⟨_, ?_, kept_balanced hbalanced⟩
    rw [step, heq]
    rfl
  | collect who => exact ⟨_, rfl, kept_balanced (Homes.balanced_collect _ _ _)⟩
  | tick now =>
    obtain ⟨reg, changed, heq, heven⟩ := Homes.even_tick c t.reg now
    refine ⟨_, ?_, kept_reg heven⟩
    rw [step, heq]
    rfl
  | hold now => exact ⟨_, rfl, kept_reg (Homes.even_hold _ _)⟩
  | visited id who now => exact ⟨_, rfl, kept_reg (Homes.even_visited _ _ _ _)⟩
  | sleep id who name far => exact ⟨_, rfl, kept_reg (Homes.even_sleep _ _ _ _ _)⟩
  | wake who => exact ⟨_, rfl, kept_reg (Homes.even_wake _ _)⟩

/-- Over any run no subtraction goes below zero, the credits of the pilots and the register, with
what the colony has taken less what it has paid back, are what they were, and so is what there is
of every item in stores, in homes, and waiting for who held a home that is gone. -/
theorem homes_ledger (c : City) (t : Tenancy) (acts : List HomesAct) :
    ∃ t', t.run c acts = some t' ∧ t'.credits = t.credits
      ∧ ∀ item, t'.goods item = t.goods item := by
  induction acts generalizing t with
  | nil => exact ⟨t, rfl, rfl, fun _ => rfl⟩
  | cons act rest ih =>
    obtain ⟨t₁, hstep, hkept⟩ := kept_step c t act
    obtain ⟨t₂, hrun, hcredits, hgoods⟩ := ih t₁
    refine ⟨t₂, ?_, hcredits.trans hkept.credits, fun item => (hgoods item).trans (hkept.goods item)⟩
    rw [run, List.foldlM_cons, hstep]
    exact hrun

/-- A city of one flat, at 100 cr a week and 1 cr an hour. -/
def oneFlat : City where
  home id := if id = 0 then some ⟨0, false, false⟩ else none
  rent _ := 100
  price _ := 6000
  hourly _ _ := 1
  address _ := "FLAT GA · 1 OLD TOWN"
  placed _ _ _ _ := .ok ()

/-- A chest's steel leaves the homes with a lapsed lease, and is in no stores until its holder
collects it. -/
theorem lapsed_chest_waits :
    ¬ ∀ (c : City) (t : Tenancy) (acts : List HomesAct) (t' : Tenancy), t.run c acts = some t' →
      ∀ item, t'.kept item = t.kept item := by
  intro h
  let steel := Item.material .steel
  let hangar : Hangar := { Hangar.empty with
    credits := 10000
    stores := Stores.empty.add steel 5 }
  let t : Tenancy := ⟨Table.empty.insert "0xa" hangar, Homes.new⟩
  let acts : List HomesAct :=
    [.serve "0xa" "ADA" 0 (.rent 0 1), .serve "0xa" "ADA" 0 (.furnish 0 "chest" 10 10 0 0),
      .serve "0xa" "ADA" 0 (.stash 0 0 steel 5), .tick (200 * hourS)]
  have hlost : ((t.run oneFlat acts).map fun t => t.kept steel) = some 0 := by decide +kernel
  obtain ⟨t', hrun, hnone⟩ := Option.map_eq_some_iff.mp hlost
  rw [h oneFlat t acts t' hrun steel] at hnone
  exact absurd hnone (by decide +kernel)

end Tenancy

end BeforeColony
