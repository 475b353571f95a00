import BeforeColony.Econ.BoardFlows

/-!
# A room

A pilot's request is served in a room: their hangar, the Board and the exchange. Whatever it
does, the credits and the goods of the room keep their sums, the colony's payments and the
works' deliveries counted.
-/

set_option autoImplicit false

namespace BeforeColony

open Lib Catalogue Exchange

/-- A pilot's hangar with the Board and the exchange, as a request finds them. -/
structure Room where
  board : Board
  hangar : Hangar
  ex : Exchange

namespace Room

variable {bound : ℕ} {r r' r'' : Room}

def credits (r : Room) : ℤ := r.board.netCredits + r.hangar.credits + r.ex.netCredits

def goods (item : Item) (r : Room) : ℚ :=
  r.board.goodsOf item + r.board.worked item + r.hangar.stores.get item + r.ex.goodsOf item

def paid (r : Room) : ℕ := r.ex.colonyPaid + r.board.colonyPaid

structure Sound (bound : ℕ) (r : Room) : Prop where
  board : r.board.Sound
  covered : AllOrders (Covered bound) r.ex
  desks : DesksOpen r.ex

structure Conserves (bound : ℕ) (r r' : Room) : Prop where
  credits : r'.credits = r.credits
  goods : ∀ item, r'.goods item = r.goods item
  paid : r.paid ≤ r'.paid
  sound : r'.Sound bound

theorem Conserves.refl (h : r.Sound bound) : Conserves bound r r :=
  ⟨rfl, fun _ => rfl, le_rfl, h⟩

theorem Conserves.trans (h : Conserves bound r r') (h' : Conserves bound r' r'') :
    Conserves bound r r'' where
  credits := h'.credits.trans h.credits
  goods item := (h'.goods item).trans (h.goods item)
  paid := h.paid.trans h'.paid
  sound := h'.sound

theorem conserves_board {b : Board} (hs : r.Sound bound) (h : Board.SameLedger r.board b) :
    Conserves bound r { r with board := b } where
  credits := by simp only [Room.credits, h.credits]
  goods item := by simp only [Room.goods, h.goods, h.worked]
  paid := Nat.add_le_add_left h.paid _
  sound := ⟨h.sound hs.board, hs.covered, hs.desks⟩

theorem conserves_ex {ex : Exchange} (hs : r.Sound bound)
    (hcov : AllOrders (Covered bound) ex) (hc : ex.netCredits = r.ex.netCredits)
    (hg : ∀ item, ex.goodsOf item = r.ex.goodsOf item) (hcolony : ex.colony = r.ex.colony)
    (hpaid : ex.colonyPaid = r.ex.colonyPaid) : Conserves bound r { r with ex := ex } where
  credits := by simp only [Room.credits, hc]
  goods item := by simp only [Room.goods, hg]
  paid := by simp only [Room.paid, hpaid, le_refl]
  sound := ⟨hs.board, hcov, hs.desks.congr fun item hi => by rwa [hcolony]⟩

/-! ## The exchange's requests -/

theorem receive_credits (h : Hangar) (a : Account) :
    (h.receive a).credits = h.credits + a.credits := rfl

theorem receive_goods (h : Hangar) (a : Account) (item : Item) :
    (h.receive a).stores.get item = h.stores.get item + a.goods.getD item 0 :=
  Stores.get_addAll _ _ item

def collect (who : Trader) (r : Room) : Room :=
  { r with hangar := (r.hangar.collect r.ex who).1, ex := (r.hangar.collect r.ex who).2.1 }

theorem conserves_collect (who : Trader) (hs : r.Sound bound) :
    Conserves bound r (r.collect who) := by
  obtain ⟨hc, hg⟩ := collect_flows r.ex who
  constructor
  · simp only [Room.credits, collect, Hangar.collect, receive_credits]
    push_cast
    linarith
  · intro item
    have hi := hg item
    simp only [Room.goods, collect, Hangar.collect, receive_goods]
    push_cast
    linarith
  · exact le_rfl
  · exact ⟨hs.board, hs.covered.congr rfl, hs.desks.congr fun _ hi => hi⟩

theorem handOver_cases {h paid : Hangar} {item : Item} {side : Side} {price qty escrow : ℕ}
    (hok : h.handOver item side price qty = .ok (paid, escrow)) :
    (side = .buy ∧ escrow ≤ h.credits ∧ paid = { h with credits := h.credits - escrow })
      ∨ (side = .sell ∧ ∃ stores, h.stores.take item qty = some stores
        ∧ paid = { h with stores := stores }) := by
  cases side with
  | buy =>
    simp only [Hangar.handOver] at hok
    split at hok
    · cases hok
    · rename_i hlt
      obtain ⟨rfl, rfl⟩ := Prod.mk.inj (Except.ok.inj hok)
      exact Or.inl ⟨rfl, not_lt.mp hlt, rfl⟩
  | sell =>
    simp only [Hangar.handOver] at hok
    split at hok
    · cases hok
    · rename_i stores htake
      obtain ⟨rfl, rfl⟩ := Prod.mk.inj (Except.ok.inj hok)
      exact Or.inr ⟨rfl, stores, htake, rfl⟩

section Trade

variable {p : Platform} {who : Trader} {item : Item} {side : Side} {price qty escrow : ℕ}
  {rest : Bool} {paid : Hangar}

/-- The room once the exchange has taken an order with what was handed over for it. -/
theorem conserves_placed (hs : r.Sound bound) (hb : bound < u64Max)
    (hcr : r.hangar.credits ≤ bound)
    (hok : r.ex.refusal who item side price qty escrow rest = none)
    (hpaid : r.hangar.handOver item side price qty = .ok (paid, escrow)) :
    Conserves bound r
      { r with hangar := paid, ex := (r.ex.place p who item side price qty escrow rest).1 } := by
  rcases handOver_cases hpaid with ⟨rfl, hle, rfl⟩ | ⟨rfl, stores, htake, rfl⟩
  · obtain ⟨hc, hg, hd, hp⟩ := place_flows (p := p) hb hs.covered hs.desks hok
      fun _ => hle.trans hcr
    refine ⟨?_, fun item' => ?_, Nat.add_le_add_right hp _, hs.board,
      covered_place hb hs.covered fun _ _ => hle.trans hcr, hd⟩
    · simp only [Room.credits, hc, if_true]
      omega
    · simp [Room.goods, hg item']
  · obtain ⟨hc, hg, hd, hp⟩ := place_flows (p := p) hb hs.covered hs.desks hok
      fun h => by cases h
    refine ⟨?_, fun item' => ?_, Nat.add_le_add_right hp _, hs.board,
      covered_place hb hs.covered fun _ h => (by cases h), hd⟩
    · simp [Room.credits, hc]
    · have hget := Stores.get_take htake item'
      simp only [Room.goods, hg item', true_and]
      rw [← hget]
      push_cast
      ring

/-- A refused order's escrow or goods are back where they were. -/
theorem conserves_takeBack (hs : r.Sound bound)
    (hpaid : r.hangar.handOver item side price qty = .ok (paid, escrow)) :
    Conserves bound r { r with hangar := paid.takeBack item side qty escrow } := by
  have hsound : Room.Sound bound { r with hangar := paid.takeBack item side qty escrow } :=
    ⟨hs.board, hs.covered, hs.desks⟩
  rcases handOver_cases hpaid with ⟨rfl, hle, rfl⟩ | ⟨rfl, stores, htake, rfl⟩
  · refine ⟨?_, fun item' => rfl, le_rfl, hsound⟩
    simp only [Room.credits, Hangar.takeBack, Nat.sub_add_cancel hle]
  · refine ⟨rfl, fun item' => ?_, le_rfl, hsound⟩
    have hget := Stores.get_take htake item'
    simp only [Room.goods, Hangar.takeBack, Stores.get_add, hget]

def trade (p : Platform) (who : Trader) (item : Item) (side : Side) (price qty : ℕ) (rest : Bool)
    (r : Room) : Room :=
  { r with
    hangar := (r.hangar.trade p r.ex who item side price qty rest).1
    ex := (r.hangar.trade p r.ex who item side price qty rest).2.1 }

theorem conserves_trade (hs : r.Sound bound) (hb : bound < u64Max)
    (hcr : r.hangar.credits ≤ bound) :
    Conserves bound r (r.trade p who item side price qty rest) := by
  unfold trade Hangar.trade
  split
  · exact Conserves.refl hs
  · cases hpaid : r.hangar.handOver item side price qty with
    | error why => exact Conserves.refl hs
    | ok h =>
      obtain ⟨paid, escrow⟩ := h
      cases hok : r.ex.refusal who item side price qty escrow rest with
      | some why =>
        simp only [place_of_refusal p hok]
        exact conserves_takeBack hs hpaid
      | none =>
        have hplaced := conserves_placed (p := p) hs hb hcr hok hpaid
        obtain ⟨placed, hr⟩ := place_of_refusal_none p hok
        rw [hr] at hplaced
        simp only [hr]
        exact hplaced.trans (conserves_collect who hplaced.sound)

end Trade

/-! ## The Board's requests -/

def boardCollect (who : Trader) (r : Room) : Room :=
  { r with
    board := (r.board.collect r.hangar who).1
    hangar := (r.board.collect r.hangar who).2.1 }

theorem conserves_boardCollect (who : Trader) (hs : r.Sound bound) :
    Conserves bound r (r.boardCollect who) := by
  unfold boardCollect Board.collect
  cases ha : r.board.accounts.get? who with
  | none => exact Conserves.refl hs
  | some a =>
    have hget : r.board.accounts.getD who Account.empty = a := by simp [Table.getD, ha]
    have hc := accountsCredits_erase r.board.accounts who
    have hg (item : Item) := accountsGoods_erase item r.board.accounts who
    simp only [hget] at hc hg
    refine ⟨?_, fun item => ?_, le_rfl, hs.board.congr rfl rfl, hs.covered, hs.desks⟩
    · simp only [Room.credits, Board.netCredits, Board.escrow, receive_credits, hc]
      push_cast
      ring
    · simp only [Room.goods, Board.goodsOf, Board.worked, receive_goods, hg]
      push_cast
      ring

def collectAtDesk (who : Trader) (r : Room) : Room :=
  { r with
    board := (r.board.collectAtDesk r.hangar who).1
    hangar := (r.board.collectAtDesk r.hangar who).2.1 }

theorem conserves_collectAtDesk (who : Trader) (hs : r.Sound bound) :
    Conserves bound r (r.collectAtDesk who) := by
  unfold collectAtDesk Board.collectAtDesk
  cases ha : r.board.atDesk.get? who with
  | none => exact Conserves.refl hs
  | some a =>
    have hget : r.board.atDesk.getD who Account.empty = a := by simp [Table.getD, ha]
    have hc := accountsCredits_erase r.board.atDesk who
    have hg (item : Item) := accountsGoods_erase item r.board.atDesk who
    simp only [hget] at hc hg
    refine ⟨?_, fun item => ?_, le_rfl, hs.board.congr rfl rfl, hs.covered, hs.desks⟩
    · simp only [Room.credits, Board.netCredits, Board.escrow, receive_credits, hc]
      push_cast
      ring
    · simp only [Room.goods, Board.goodsOf, Board.worked, receive_goods, hg]
      push_cast
      ring

def withdraw (who : Trader) (id : ℕ) (r : Room) : Room :=
  { r with
    board := (r.board.withdraw r.hangar who id).1
    hangar := (r.board.withdraw r.hangar who id).2.1 }

theorem conserves_withdraw (who : Trader) (id : ℕ) (hs : r.Sound bound) :
    Conserves bound r (r.withdraw who id) := by
  unfold withdraw Board.withdraw
  cases r.board.contracts.get? id with
  | none => exact Conserves.refl hs
  | some c =>
    simp only
    split
    · exact Conserves.refl hs
    · have hclose := conserves_board hs (Board.same_close r.board id "WITHDRAWN")
      exact hclose.trans (conserves_boardCollect who hclose.sound)

def post (p : Platform) (who : Trader) (name : String) (item : Item) (qty reward hours now : ℕ)
    (r : Room) : Room :=
  { r with
    board := (r.board.post p r.hangar who name item qty reward hours now).1
    hangar := (r.board.post p r.hangar who name item qty reward hours now).2.1 }

theorem postRefusal_none {b : Board} {h : Hangar} {who : Trader} {item : Item}
    {qty reward hours : ℕ} (hok : b.postRefusal h who item qty reward hours = none) :
    0 < qty ∧ reward ≤ h.credits := by
  unfold Board.postRefusal at hok
  split_ifs at hok with h1 h2 h3 h4 h5 h6
  omega

theorem conserves_post (p : Platform) (who : Trader) (name : String) (item : Item)
    (qty reward hours now : ℕ) (hs : r.Sound bound) (hb : bound < u64Max)
    (hcr : r.hangar.credits ≤ bound) :
    Conserves bound r (r.post p who name item qty reward hours now) := by
  unfold post Board.post
  cases hok : r.board.postRefusal r.hangar who item qty reward hours with
  | some why => exact Conserves.refl hs
  | none =>
    obtain ⟨hq, hle⟩ := postRefusal_none hok
    have hname := Board.same_rename r.board who name
    have hcontract : ∀ c : Contract, c.id = (r.board.rename who name).nextId →
        c.issuer = some who → c.task = .supply item qty 0 → c.reward = reward → c.paid = 0 →
        ContractOk (r.board.rename who name).nextId c := by
      intro c hid hissuer htask hreward hpaid
      constructor
      · exact hid
      · intro item' qty' delivered h
        obtain ⟨rfl, rfl, rfl⟩ := Task.supply.inj (htask.symm.trans h)
        exact ⟨hq, by simp [hpaid, Contract.payFor]⟩
      · intro h
        simp [htask, Task.isPatrol] at h
      · intro _
        omega
      · intro item' qty' delivered _ h
        rw [hissuer] at h
        cases h
    obtain ⟨hc, hg, hw, hp, hsound⟩ := Board.postContract_flows (hname.sound hs.board) hcontract
    refine ⟨?_, fun item' => ?_, ?_, hsound, hs.covered, hs.desks⟩
    · simp only [Room.credits]
      rw [hc, hname.credits, Option.isSome_some, if_pos rfl]
      omega
    · simp only [Room.goods]
      rw [hg, hw, hname.goods, hname.worked]
    · simp only [Room.paid]
      rw [hp]
      exact Nat.add_le_add_left hname.paid _

@[simp] theorem boardPaid_credits (h : Hangar) (what : String) (cr : ℕ) :
    (h.boardPaid what cr).credits = h.credits := by
  unfold Hangar.boardPaid
  split <;> rfl

@[simp] theorem boardPaid_stores (h : Hangar) (what : String) (cr : ℕ) :
    (h.boardPaid what cr).stores = h.stores := by
  unfold Hangar.boardPaid
  split <;> rfl

section Pay

variable {b : Board} {who : Trader} {n cr : ℕ} {what : String} {g : Account → Account}

/-- What the colony pays out, it owes to the pilot it pays. -/
theorem conserves_owed (hs : r.Sound bound) (h : Board.SameLedger r.board b)
    (hg : ∀ a, ((g a).credits : ℤ) = a.credits + n) (hgoods : ∀ a, (g a).goods = a.goods) :
    Conserves bound r { r with
      board := (b.colonyPays who n).owe who g, hangar := r.hangar.boardPaid what cr } := by
  refine ⟨?_, fun item => ?_, ?_, (h.sound hs.board).congr rfl rfl, hs.covered, hs.desks⟩
  · simp only [Room.credits, boardPaid_credits]
    rw [Board.owe_netCredits hg, Board.colonyPays_netCredits, h.credits]
    ring
  · simp only [Room.goods, boardPaid_stores]
    rw [Board.owe_goodsOf (x := 0) fun a => by rw [hgoods, add_zero], add_zero, ← h.goods item,
      ← h.worked item]
    rfl
  · exact Nat.add_le_add_left (h.paid.trans (Nat.le_add_right _ _)) _

theorem conserves_deskOwed (hs : r.Sound bound) (h : Board.SameLedger r.board b)
    (hg : ∀ a, ((g a).credits : ℤ) = a.credits + n) (hgoods : ∀ a, (g a).goods = a.goods) :
    Conserves bound r { r with
      board := (b.colonyPays who n).deskOwes who g, hangar := r.hangar.boardPaid what cr } := by
  refine ⟨?_, fun item => ?_, ?_, (h.sound hs.board).congr rfl rfl, hs.covered, hs.desks⟩
  · simp only [Room.credits, boardPaid_credits]
    rw [Board.deskOwes_netCredits hg, Board.colonyPays_netCredits, h.credits]
    ring
  · simp only [Room.goods, boardPaid_stores]
    rw [Board.deskOwes_goodsOf (x := 0) fun a => by rw [hgoods, add_zero], add_zero,
      ← h.goods item, ← h.worked item]
    rfl
  · exact Nat.add_le_add_left (h.paid.trans (Nat.le_add_right _ _)) _

end Pay

def payAce (k : ℕ) (who : Trader) (atDesk : Bool) (r : Room) : Room :=
  { r with
    board := (r.board.payAce r.hangar k who atDesk).1
    hangar := (r.board.payAce r.hangar k who atDesk).2.1 }

theorem conserves_payAce (k : ℕ) (who : Trader) (atDesk : Bool) (hs : r.Sound bound) :
    Conserves bound r (r.payAce k who atDesk) := by
  unfold payAce Board.payAce
  cases atDesk with
  | false =>
    refine ⟨?_, fun item => ?_, ?_, hs.board.congr rfl rfl, hs.covered, hs.desks⟩
    · simp only [Bool.false_eq_true, not_false_eq_true, if_true, Room.credits,
        Board.colonyPays_netCredits, boardPaid_credits]
      push_cast
      ring
    · simp [Room.goods, Board.goodsOf, Board.worked, Board.colonyPays]
    · exact Nat.add_le_add_left (Nat.le_add_right _ _) _
  | true =>
    exact conserves_deskOwed hs (Board.SameLedger.refl _)
      (fun a => by simp [Account.note, Account.addCredits]) fun a => rfl

def certify (who : Trader) (r : Room) : Room where
  board := (r.board.certify r.hangar who r.ex).1
  hangar := (r.board.certify r.hangar who r.ex).2.1
  ex := (r.board.certify r.hangar who r.ex).2.2.1

theorem colonyIssue_le (ex : Exchange) (item : Item) (qty : ℕ) :
    (ex.colonyIssue item qty).2 ≤ qty := by
  unfold Exchange.colonyIssue
  split
  · exact Nat.zero_le qty
  · exact min_le_left _ _

theorem conserves_certify (who : Trader) (hs : r.Sound bound) :
    Conserves bound r (r.certify who) := by
  unfold certify Board.certify
  split
  · exact Conserves.refl hs
  · obtain ⟨h1, h2, h3, h4, h5⟩ := colonyIssue_flows r.ex (.weapon .beamRifle) 1
    simp only
    split
    · rename_i hone
      refine ⟨?_, fun item => ?_, ?_, hs.board.congr rfl rfl, hs.covered.congr h4, h3 hs.desks⟩
      · simp only [Room.credits, h1]
        rw [Board.deskOwes_netCredits (x := 0), add_zero]
        intro a
        simp [Account.note, Account.addGoods]
      · have hg := h2 item
        rw [hone] at hg
        simp only [Room.goods]
        rw [Board.deskOwes_goodsOf (x := if item = .weapon .beamRifle then 1 else 0), ← hg]
        · simp only [Board.worked, Board.deskOwes, Nat.cast_one]
          ring
        · intro a
          rw [Account.note, addGoods_getD]
          split <;> simp
      · simp only [Room.paid, h5]
        exact le_rfl
    · rename_i hone
      have hzero : (r.ex.colonyIssue (.weapon .beamRifle) 1).2 = 0 := by
        have := colonyIssue_le r.ex (.weapon .beamRifle) 1
        omega
      generalize value (.weapon .beamRifle) = v
      refine ⟨?_, fun item => ?_, ?_, hs.board.congr rfl rfl, hs.covered.congr h4, h3 hs.desks⟩
      · simp only [Room.credits, h1]
        rw [Board.deskOwes_netCredits (x := v)]
        · simp only [Board.netCredits, Board.escrow]
          push_cast
          ring
        · intro a
          simp [Account.note, Account.addCredits]
      · have hg := h2 item
        rw [hzero, Nat.cast_zero, ite_self, add_zero] at hg
        simp only [Room.goods, hg]
        rw [Board.deskOwes_goodsOf (x := 0), add_zero]
        · simp only [Board.goodsOf, Board.worked, Board.deskOwes]
        · intro a
          rw [Account.note, Account.addCredits, add_zero]
      · simp only [Room.paid, h5]
        exact Nat.add_le_add_left (Nat.le_add_right _ _) _

def bounties (p : Platform) (who : Trader) (bounty now : ℕ) (atDesk : Bool) (r : Room) : Room :=
  { r with
    board := (r.board.bounties p r.hangar who bounty now atDesk).1
    hangar := (r.board.bounties p r.hangar who bounty now atDesk).2.1 }

theorem conserves_bounties (p : Platform) (who : Trader) (bounty now : ℕ) (atDesk : Bool)
    (hs : r.Sound bound) : Conserves bound r (r.bounties p who bounty now atDesk) := by
  unfold bounties Board.bounties
  split
  · exact Conserves.refl hs
  · split
    · exact Conserves.refl hs
    · rename_i key c hfind
      have hget := Table.mem_entries_iff.mp (List.mem_of_find?_eq_some hfind)
      have hc := hs.board.contract key c hget
      split
      · exact Conserves.refl hs
      · rename_i target earned htask
        have hissuer : c.issuer = none := hc.patrol (by simp [htask, Task.isPatrol])
        have hset : Board.SameLedger r.board { r.board with
            contracts := r.board.contracts.insert key
              { c with task := .patrol target (min (earned + bounty) target) } } := by
          refine Board.same_setContract hget rfl fun _ => ?_
          exact ⟨hc.id_eq, fun _ _ _ h => (by cases h), fun _ => hissuer, hc.reward_le,
            fun _ _ _ h => (by cases h)⟩
        simp only
        split
        · exact conserves_board hs hset
        · have hput : (r.board.contracts.insert key
              { c with task := .patrol target (min (earned + bounty) target) }).get? c.id
                = some { c with task := .patrol target (min (earned + bounty) target) } := by
            rw [hc.id_eq]
            exact Table.get?_insert_self _ _ _
          have hdrop := hset.trans (Board.same_dropContract hput
            (by simp [contractEscrow, hissuer]))
          cases atDesk with
          | false =>
            exact conserves_owed hs hdrop (fun a => by simp [Account.addCredits]) fun a => rfl
          | true =>
            exact conserves_deskOwed hs hdrop
              (fun a => by simp [Account.note, Account.addCredits]) fun a => rfl

def deliver (p : Platform) (who : Trader) (name : String) (id qty now : ℕ) (r : Room) : Room where
  board := (r.board.deliver p r.hangar r.ex who name id qty now).1
  hangar := (r.board.deliver p r.hangar r.ex who name id qty now).2.1
  ex := (r.board.deliver p r.hangar r.ex who name id qty now).2.2.1

section Deliver

variable {p : Platform} {who : Trader} {name : String} {id wanted delivered n pay : ℕ}
  {c : Contract} {item : Item} {stores : Stores} {b : Board} {ex : Exchange}

/-- The room once `n` of a contract's goods were handed over, paid for and passed on. -/
theorem conserves_passOn (hs : r.Sound bound) (hget : r.board.contracts.get? id = some c)
    (htask : c.task = .supply item wanted delivered) (htake : r.hangar.stores.take item n = some stores)
    (hpay : c.paid + pay ≤ c.reward)
    (hpass : Board.passOn p ({ r.board with
        contracts := r.board.contracts.insert id (Board.deliveredTo c item wanted delivered n pay) }
          |>.rename who name) r.ex id c who name item n pay = (b, ex)) :
    let hangar := { r.hangar with stores, credits := r.hangar.credits + pay }
    Room.credits ⟨b, hangar, ex⟩ = r.credits
      ∧ (∀ item', Room.goods item' ⟨b, hangar, ex⟩ = r.goods item')
      ∧ r.paid ≤ ex.colonyPaid + b.colonyPaid
      ∧ b.contracts = r.board.contracts.insert id (Board.deliveredTo c item wanted delivered n pay)
      ∧ b.nextId = r.board.nextId ∧ AllOrders (Covered bound) ex ∧ DesksOpen ex := by
  have hc := hs.board.contract id c hget
  have hdesk : c.issuer = none → (r.ex.colony.get? item).isSome = true := by
    intro hnone
    obtain ⟨hv, hd⟩ := hc.dealt item wanted delivered htask hnone
    exact hs.desks item hv hd
  obtain ⟨names, hname⟩ := Board.rename_frame { r.board with
    contracts := r.board.contracts.insert id (Board.deliveredTo c item wanted delivered n pay) }
    who name
  rw [hname] at hpass
  obtain ⟨h1, h2, h3, h4, h5, h6, h7, h8⟩ := Board.passOn_flows hdesk hpass
  have hinsert := Board.insert_netCredits (b := r.board) (k := id)
    (Board.deliveredTo c item wanted delivered n pay)
  rw [Table.at?_of_get? hget, Board.contractEscrow_delivered hpay] at hinsert
  refine ⟨?_, fun item' => ?_, h6, h3, h4, hs.covered.congr h7, h8 hs.desks⟩
  · have hboth := h1.trans (congrArg (fun x => x + r.ex.netCredits - _) hinsert)
    simp only [Room.credits]
    push_cast
    split at hboth <;> push_cast at hboth <;> linarith
  · have hget' := Stores.get_take htake item'
    have hgoods := h2 item'
    have hsame : ({ r.board with
        contracts := r.board.contracts.insert id (Board.deliveredTo c item wanted delivered n pay)
        names := names } : Board).goodsOf item' = r.board.goodsOf item' := rfl
    have hworked : b.worked item' = r.board.worked item' := by
      simp only [Board.worked, h5]
    simp only [Room.goods, hworked, ← hget']
    rw [hsame] at hgoods
    push_cast
    linarith

/-- A delivery is refused and changes nothing, or hands over `n` of what the contract still
wants. -/
theorem deliver_cases (p : Platform) (b : Board) (h : Hangar) (ex : Exchange) (who : Trader)
    (name : String) (id qty now : ℕ) :
    (∃ why, b.deliver p h ex who name id qty now = (b, h, ex, .error why))
      ∨ ∃ c item wanted delivered n stores b' ex' text, b.contracts.get? id = some c
        ∧ c.task = .supply item wanted delivered ∧ n ≤ wanted - delivered
        ∧ h.stores.take item n = some stores
        ∧ Board.passOn p ({ b with
            contracts := b.contracts.insert id (Board.deliveredTo c item wanted delivered n
              (c.payFor (delivered + n) wanted - c.payFor delivered wanted)) } |>.rename who name)
            ex id c who name item n (c.payFor (delivered + n) wanted - c.payFor delivered wanted)
          = (b', ex')
        ∧ b.deliver p h ex who name id qty now
          = (if delivered + n = wanted then b'.retire id c else b',
            { h with
              stores
              credits := h.credits
                + (c.payFor (delivered + n) wanted - c.payFor delivered wanted) },
            ex', .ok text) := by
  unfold Board.deliver
  cases hget : b.contracts.get? id with
  | none => exact Or.inl ⟨_, rfl⟩
  | some c =>
    cases htask : c.task with
    | patrol bounty earned =>
      simp only [htask]
      exact Or.inl ⟨_, rfl⟩
    | supply item wanted delivered =>
      simp only [htask]
      split
      · exact Or.inl ⟨_, rfl⟩
      · split
        · exact Or.inl ⟨_, rfl⟩
        · split
          · exact Or.inl ⟨_, rfl⟩
          · split
            · exact Or.inl ⟨_, rfl⟩
            · rename_i stores htake
              exact Or.inr ⟨c, item, wanted, delivered, _, stores, _, _, _, rfl, htask,
                (min_le_left _ _).trans (min_le_right _ _), htake, rfl, rfl⟩

theorem conserves_deliver (p : Platform) (who : Trader) (name : String) (id qty now : ℕ)
    (hs : r.Sound bound) : Conserves bound r (r.deliver p who name id qty now) := by
  unfold deliver
  rcases deliver_cases p r.board r.hangar r.ex who name id qty now with ⟨why, hd⟩ |
    ⟨c, item, wanted, delivered, n, stores, b, ex, text, hget, htask, hn, htake, hpass, hd⟩
  · rw [hd]
    exact Conserves.refl hs
  · have hc := hs.board.contract id c hget
    obtain ⟨hlt, hpaid⟩ := hc.supply item wanted delivered htask
    have hmono : c.payFor delivered wanted ≤ c.payFor (delivered + n) wanted :=
      payFor_mono (Nat.le_add_right _ _)
    have hle : c.payFor (delivered + n) wanted ≤ c.reward := payFor_le (by omega)
    have hsum : c.paid + (c.payFor (delivered + n) wanted - c.payFor delivered wanted)
        = c.payFor (delivered + n) wanted := by omega
    rw [hd]
    generalize c.payFor (delivered + n) wanted - c.payFor delivered wanted = pay at *
    obtain ⟨h1, h2, h3, h4, h5, h6, h7⟩ :=
      conserves_passOn hs hget htask htake (hsum.trans_le hle) hpass
    have hinsert : b.contracts.get? id = some (Board.deliveredTo c item wanted delivered n pay) := by
      rw [h4, Table.get?_insert_self]
    by_cases hfull : delivered + n = wanted
    · have hzero : contractEscrow (Board.deliveredTo c item wanted delivered n pay) = 0 := by
        unfold contractEscrow Board.deliveredTo Contract.unpaid
        simp only
        split
        · rename_i hsome
          rw [hsum, hfull, payFor_all (by omega) (hc.reward_le hsome), Nat.sub_self,
            Nat.cast_zero]
        · rfl
      obtain ⟨g1, g2, g3, g4, g5, g6⟩ := Board.retire_flows (c := c) hinsert hzero
      simp only [if_pos hfull]
      refine ⟨?_, fun item' => ?_, ?_, hs.board.sub (fun id' c' hs' => ?_) (g4.trans h5).ge, h6,
        h7⟩
      · simpa only [Room.credits, g1] using h1
      · have hworked : (b.retire id c).worked item' = b.worked item' := by
          simp only [Board.worked, g5]
        simpa only [Room.goods, g2, hworked] using h2 item'
      · simpa only [Room.paid, g6] using h3
      · rw [g3, h4, Table.get?_erase] at hs'
        split at hs'
        · cases hs'
        · rename_i hne
          rwa [Table.get?_insert_of_ne _ _ hne] at hs'
    · simp only [if_neg hfull]
      refine ⟨h1, h2, h3, hs.board.insert h4 ?_ (h5 ▸ hs.board.fresh id c hget) h5.ge, h6, h7⟩
      constructor
      · exact hc.id_eq
      · intro item' qty' delivered' ht
        obtain ⟨rfl, rfl, rfl⟩ := Task.supply.inj ht
        exact ⟨by omega, hsum⟩
      · intro ht
        cases ht
      · exact hc.reward_le
      · intro item' qty' delivered' ht hnone
        obtain ⟨rfl, rfl, rfl⟩ := Task.supply.inj ht
        exact hc.dealt item wanted delivered htask hnone

end Deliver

def contribute (p : Platform) (who : Trader) (name : String) (work : Work) (item : Item)
    (qty now : ℕ) (r : Room) : Room :=
  { r with
    board := (r.board.contribute p r.hangar who name work item qty now).1
    hangar := (r.board.contribute p r.hangar who name work item qty now).2.1 }

def worksBoard (b : Board) (who : Trader) (name : String) (work : Work) (item : Item)
    (n pay : ℕ) : Board :=
  let b := (b.rename who name).colonyPays who pay
  { b with works := b.works.insert work (Board.contributed (b.progress work) who item n pay) }

theorem conserves_contributed (who : Trader) (name : String) (work : Work) {item : Item}
    {n : ℕ} (pay : ℕ) {stores : Stores} (hs : r.Sound bound)
    (htake : r.hangar.stores.take item n = some stores) :
    Conserves bound r { r with
      board := worksBoard r.board who name work item n pay
      hangar := { r.hangar with stores, credits := r.hangar.credits + pay } } := by
  obtain ⟨names, hname⟩ := Board.rename_frame r.board who name
  unfold worksBoard
  rw [hname]
  refine ⟨?_, fun item' => ?_, ?_, hs.board.congr rfl rfl, hs.covered, hs.desks⟩
  · simp only [Room.credits, Board.netCredits, Board.escrow, Board.colonyPays]
    push_cast
    ring
  · have hget := Stores.get_take htake item'
    simp only [Room.goods, Board.worked_insert, ← hget]
    simp only [Board.goodsOf, Board.worked, Board.colonyPays, Board.contributed, Board.progress,
      Table.getD_update]
    by_cases hi : item' = item
    · simp only [hi, if_true]
      push_cast
      ring
    · simp only [hi, if_false]
      push_cast
      ring
  · exact Nat.add_le_add_left (Nat.le_add_right _ _) _

theorem conserves_contribute (p : Platform) (who : Trader) (name : String) (work : Work)
    (item : Item) (qty now : ℕ) (hs : r.Sound bound) :
    Conserves bound r (r.contribute p who name work item qty now) := by
  unfold contribute Board.contribute
  split
  · exact Conserves.refl hs
  · split
    · exact Conserves.refl hs
    · simp only
      split
      · exact Conserves.refl hs
      · split
        · exact Conserves.refl hs
        · rename_i stores htake
          have hgave := fun pay => conserves_contributed who name work pay hs htake
          split
          · exact (hgave _).trans (conserves_board (hgave _).sound (Board.same_finish _ work now))
          · exact hgave _

end Room

end BeforeColony
