import BeforeColony.Lib.Run
import BeforeColony.Econ.Room

/-!
# The ledger

The world is the exchange, the Board, every hangar, and what other code took from the exchange
or brought to it. Requests, the clocks and the colony's desk make its runs, and over any of
them the credits and the goods are conserved.
-/

set_option autoImplicit false

namespace BeforeColony

open Lib Catalogue Exchange

/-- What a pilot, or the sector for them, asks of the exchange and the Board. -/
inductive Request where
  | trade (item : Item) (side : Side) (price qty : ℕ) (rest : Bool)
  | collect
  | cancel (id : ℕ)
  | cancelAll
  | post (item : Item) (qty reward hours : ℕ)
  | withdraw (id : ℕ)
  | deliver (id qty : ℕ)
  | contribute (work : Work) (item : Item) (qty : ℕ)
  | boardCollect
  | collectAtDesk
  | payAce (k : ℕ) (atDesk : Bool)
  | certify
  | take (id : ℕ)
  | dropPatrol (id : ℕ)
  | bounties (bounty : ℕ) (atDesk : Bool)
  | sign
  | setTerms (salvage : Bool)
  | aceDowned (k : ℕ)

namespace Room

variable {bound : ℕ} {r : Room}

def serve (p : Platform) (who : Trader) (name : String) (now : ℕ) (r : Room) : Request → Room
  | .trade item side price qty rest => r.trade p who item side price qty rest
  | .collect => r.collect who
  | .cancel id => { r with ex := (r.ex.cancel who id).1 }
  | .cancelAll => { r with ex := r.ex.cancelAll who }
  | .post item qty reward hours => r.post p who name item qty reward hours now
  | .withdraw id => r.withdraw who id
  | .deliver id qty => r.deliver p who name id qty now
  | .contribute work item qty => r.contribute p who name work item qty now
  | .boardCollect => r.boardCollect who
  | .collectAtDesk => r.collectAtDesk who
  | .payAce k atDesk => r.payAce k who atDesk
  | .certify => r.certify who
  | .take id => { r with board := (r.board.take who name id now).1 }
  | .dropPatrol id => { r with board := (r.board.dropPatrol who id now).1 }
  | .bounties bounty atDesk => r.bounties p who bounty now atDesk
  | .sign => { r with board := (r.board.sign who name now).1 }
  | .setTerms salvage => { r with board := (r.board.setTerms who salvage).1 }
  | .aceDowned k => { r with board := (r.board.aceDowned p k who name now).1 }

theorem conserves_serve (p : Platform) (who : Trader) (name : String) (now : ℕ)
    (request : Request) (hs : r.Sound bound) (hb : bound < u64Max)
    (hcr : r.hangar.credits ≤ bound) : Conserves bound r (r.serve p who name now request) := by
  cases request with
  | trade item side price qty rest => exact conserves_trade hs hb hcr
  | collect => exact conserves_collect who hs
  | cancel id =>
    obtain ⟨h1, h2, h3, h4⟩ := cancel_flows hs.covered who id
    exact conserves_ex hs (covered_cancel hs.covered who id) h1 h2 h3 h4
  | cancelAll =>
    obtain ⟨h1, h2, h3, h4⟩ := cancelAll_flows hs.covered who
    exact conserves_ex hs (covered_cancelAll hs.covered who) h1 h2 h3 h4
  | post item qty reward hours =>
    exact conserves_post p who name item qty reward hours now hs hb hcr
  | withdraw id => exact conserves_withdraw who id hs
  | deliver id qty => exact conserves_deliver p who name id qty now hs
  | contribute work item qty => exact conserves_contribute p who name work item qty now hs
  | boardCollect => exact conserves_boardCollect who hs
  | collectAtDesk => exact conserves_collectAtDesk who hs
  | payAce k atDesk => exact conserves_payAce k who atDesk hs
  | certify => exact conserves_certify who hs
  | take id => exact conserves_board hs (Board.same_take _ who name id now)
  | dropPatrol id => exact conserves_board hs (Board.same_dropPatrol _ who id now)
  | bounties bounty atDesk => exact conserves_bounties p who bounty now atDesk hs
  | sign => exact conserves_board hs (Board.same_sign _ who name now)
  | setTerms salvage => exact conserves_board hs (Board.same_setTerms _ who salvage)
  | aceDowned k => exact conserves_board hs (Board.same_aceDowned p _ k who name now)

end Room

/-- The exchange, the Board, the hangars, and what other code took out of the exchange: the
accounts it collected itself, and the goods it drew from the colony's desk less those it
brought there. -/
structure World where
  ex : Exchange
  board : Board
  hangars : Table Trader Hangar
  outCredits : ℕ
  outGoods : Item → ℤ

inductive Act where
  | serve (who : Trader) (name : String) (now : ℕ) (request : Request)
  | tick (dt : ℚ)
  | boardTick (now : ℕ)
  | collectAccount (who : Trader)
  | colonyReceive (item : Item) (qty : ℕ)
  | colonyIssue (item : Item) (qty : ℕ)
  | aceOut (k : ℕ)

namespace World

def room (w : World) (who : Trader) : Room := ⟨w.board, w.hangars.getD who Hangar.empty, w.ex⟩

def setRoom (w : World) (who : Trader) (r : Room) : World :=
  { w with board := r.board, hangars := w.hangars.insert who r.hangar, ex := r.ex }

/-- Goods brought to a desk the colony doesn't keep stay with who brought them. -/
def takenIn (ex : Exchange) (item : Item) (qty : ℕ) : ℕ :=
  if (ex.colony.get? item).isSome then qty else 0

def step (p : Platform) (w : World) : Act → World
  | .serve who name now request => w.setRoom who ((w.room who).serve p who name now request)
  | .tick dt => { w with ex := w.ex.tick p dt }
  | .boardTick now => { w with board := (w.board.tick now w.ex).1 }
  | .collectAccount who =>
    let (ex, a) := w.ex.collect who
    { w with
      ex
      outCredits := w.outCredits + a.credits
      outGoods := fun item => w.outGoods item + a.goods.getD item 0 }
  | .colonyReceive item qty =>
    { w with
      ex := w.ex.colonyReceive item qty
      outGoods := Function.update w.outGoods item (w.outGoods item - takenIn w.ex item qty) }
  | .colonyIssue item qty =>
    let (ex, n) := w.ex.colonyIssue item qty
    { w with ex, outGoods := Function.update w.outGoods item (w.outGoods item + n) }
  | .aceOut k => { w with board := w.board.aceOut k }

/-- The credits held: in the hangars, the exchange's accounts and its resting buys, the Board's
escrow and its accounts, and by who collected an account. -/
def credits (w : World) : ℤ :=
  Table.total (fun _ (h : Hangar) => (h.credits : ℤ)) w.hangars
    + accountsCredits w.ex.accounts + w.ex.escrowedCredits
    + (w.board.escrow + accountsCredits w.board.accounts + accountsCredits w.board.atDesk)
    + w.outCredits

/-- The goods of an item: in the stores, the exchange's accounts and its resting sells, the
Board's accounts, on the colony's desk, and with who drew them from there. -/
def goods (item : Item) (w : World) : ℚ :=
  Table.total (fun _ (h : Hangar) => (h.stores.get item : ℚ)) w.hangars
    + accountsGoods item w.ex.accounts + w.ex.escrowedGoods item
    + (accountsGoods item w.board.accounts + accountsGoods item w.board.atDesk)
    + w.ex.held item + w.outGoods item

/-- What the clock's settling does to the desk's stock of an item at a step. -/
def settledAt (p : Platform) (item : Item) (w : World) : Act → ℚ
  | .tick dt => w.ex.settled p dt item
  | _ => 0

def net (w : World) : ℤ :=
  w.credits + w.ex.colonyTook + w.ex.fees - w.ex.colonyPaid - w.board.colonyPaid

def gross (item : Item) (w : World) : ℚ := w.goods item + w.board.worked item

variable {p : Platform} {bound : ℕ} {w : World}

structure Sound (bound : ℕ) (w : World) : Prop where
  board : w.board.Sound
  covered : AllOrders (Covered bound) w.ex
  desks : DesksOpen w.ex

theorem Sound.room (h : w.Sound bound) (who : Trader) : (w.room who).Sound bound :=
  ⟨h.board, h.covered, h.desks⟩

theorem net_eq (w : World) :
    w.net = Table.total (fun _ (h : Hangar) => (h.credits : ℤ)) w.hangars + w.board.netCredits
      + w.ex.netCredits + w.outCredits := by
  simp only [net, credits, Board.netCredits, netCredits]
  ring

theorem gross_eq (item : Item) (w : World) :
    w.gross item = Table.total (fun _ (h : Hangar) => (h.stores.get item : ℚ)) w.hangars
      + w.board.goodsOf item + w.board.worked item + w.ex.goodsOf item + w.outGoods item := by
  simp only [gross, goods, Board.goodsOf, goodsOf]
  ring

theorem net_setRoom {who : Trader} {r : Room} (h : Room.Conserves bound (w.room who) r) :
    (w.setRoom who r).net = w.net := by
  have htotal := Table.total_insert (fun _ (h : Hangar) => (h.credits : ℤ)) w.hangars who r.hangar
  rw [Table.at?_eq_getD (d := Hangar.empty) rfl] at htotal
  have hcredits := h.credits
  simp only [Room.credits, room] at hcredits
  simp only [net_eq, setRoom]
  linarith

theorem gross_setRoom (item : Item) {who : Trader} {r : Room}
    (h : Room.Conserves bound (w.room who) r) :
    (w.setRoom who r).gross item = w.gross item := by
  have htotal := Table.total_insert (fun _ (h : Hangar) => (h.stores.get item : ℚ)) w.hangars who
    r.hangar
  rw [Table.at?_eq_getD (d := Hangar.empty) (by cases item <;> rfl)] at htotal
  have hgoods := h.goods item
  simp only [Room.goods, room] at hgoods
  simp only [gross_eq, setRoom]
  linarith

theorem accountsCredits_nonneg (t : Table Trader Account) : 0 ≤ accountsCredits t :=
  Table.total_nonneg fun _ a => Int.natCast_nonneg a.credits

theorem escrowedCredits_nonneg (ex : Exchange) : 0 ≤ ex.escrowedCredits := by
  have hlist (s : Side) (l : List Order) : 0 ≤ (l.map (creditsOn s)).sum := by
    refine List.sum_nonneg fun x hx => ?_
    obtain ⟨o, -, rfl⟩ := List.mem_map.mp hx
    cases s with
    | buy => exact Int.natCast_nonneg o.escrow
    | sell => exact le_rfl
  exact Table.total_nonneg fun _ (b : Book) => add_nonneg (hlist .buy b.bids) (hlist .sell b.asks)

theorem boardEscrow_nonneg (b : Board) : 0 ≤ b.escrow := by
  refine Table.total_nonneg fun _ c => ?_
  unfold contractEscrow
  split
  · exact Int.natCast_nonneg c.unpaid
  · exact le_rfl

theorem hangar_credits_le (w : World) (who : Trader) :
    ((w.room who).hangar.credits : ℤ) ≤ w.credits := by
  have herase := Table.total_erase_eq (f := fun _ (h : Hangar) => (h.credits : ℤ))
    (t := w.hangars) (k := who) (d := Hangar.empty) rfl
  have hrest : 0 ≤ Table.total (fun _ (h : Hangar) => (h.credits : ℤ)) (w.hangars.erase who) :=
    Table.total_nonneg fun _ h => Int.natCast_nonneg h.credits
  have h1 := accountsCredits_nonneg w.ex.accounts
  have h2 := accountsCredits_nonneg w.board.accounts
  have h3 := accountsCredits_nonneg w.board.atDesk
  have h4 := escrowedCredits_nonneg w.ex
  have h5 := boardEscrow_nonneg w.board
  simp only [credits, room]
  omega

/-! ## Every step, and every run -/

/-- What a step keeps: the world's soundness and its credits; and it changes the goods by what
the clock settled. -/
structure Keeps (p : Platform) (bound : ℕ) (w : World) (act : Act) : Prop where
  sound : (w.step p act).Sound bound
  net : (w.step p act).net = w.net
  gross : ∀ item, (w.step p act).gross item = w.gross item + settledAt p item w act

theorem keeps_serve (who : Trader) (name : String) (now : ℕ) (request : Request)
    (hs : w.Sound bound) (hb : bound < u64Max) (hcr : w.credits ≤ bound) :
    Keeps p bound w (.serve who name now request) := by
  have hle : (w.room who).hangar.credits ≤ bound := by
    have := hangar_credits_le w who
    omega
  have h := Room.conserves_serve p who name now request (hs.room who) hb hle
  exact ⟨⟨h.sound.board, h.sound.covered, h.sound.desks⟩, net_setRoom h,
    fun item => (gross_setRoom item h).trans (add_zero _).symm⟩

theorem keeps_tick (dt : ℚ) (hs : w.Sound bound) : Keeps p bound w (.tick dt) := by
  obtain ⟨h1, h2, h3, h4, h5⟩ := tick_flows p w.ex dt
  refine ⟨⟨hs.board, hs.covered.congr h4, h3 hs.desks⟩, ?_, fun item => ?_⟩
  · simp only [net_eq, step, h1]
  · simp only [gross_eq, step, h2, settledAt]
    ring

theorem keeps_board {act : Act} {b : Board} (hs : w.Sound bound) (h : Board.SameLedger w.board b)
    (hstep : w.step p act = { w with board := b }) (hsettled : ∀ item, settledAt p item w act = 0) :
    Keeps p bound w act := by
  refine ⟨hstep ▸ ⟨h.sound hs.board, hs.covered, hs.desks⟩, ?_, fun item => ?_⟩
  · simp only [hstep, net_eq, h.credits]
  · simp only [hstep, gross_eq, h.goods, h.worked, hsettled, add_zero]

theorem keeps_collectAccount (who : Trader) (hs : w.Sound bound) :
    Keeps p bound w (.collectAccount who) := by
  obtain ⟨hc, hg⟩ := collect_flows w.ex who
  refine ⟨⟨hs.board, hs.covered.congr rfl, hs.desks.congr fun _ hi => hi⟩, ?_, fun item => ?_⟩
  · simp only [net_eq, step]
    push_cast
    linarith
  · have hi := hg item
    simp only [gross_eq, step, settledAt]
    push_cast
    linarith

theorem keeps_colonyReceive (item : Item) (qty : ℕ) (hs : w.Sound bound) :
    Keeps p bound w (.colonyReceive item qty) := by
  cases hd : (w.ex.colony.get? item).isSome with
  | true =>
    obtain ⟨h1, h2, h3, h4, h5⟩ := colonyReceive_flows w.ex qty hd
    refine ⟨⟨hs.board, hs.covered.congr h4, h3 hs.desks⟩, ?_, fun item' => ?_⟩
    · simp only [net_eq, step, h1]
    · simp only [gross_eq, step, h2, settledAt, takenIn, hd, Function.update_apply]
      split
      · rename_i hi
        rw [hi]
        push_cast
        ring
      · ring
  | false =>
    have hnone : w.ex.colony.get? item = none := by simpa using hd
    have hsame : w.ex.colonyReceive item qty = w.ex := by
      simp only [Exchange.colonyReceive, hnone]
    refine ⟨?_, ?_, fun item' => ?_⟩
    · simp only [step, hsame]
      exact ⟨hs.board, hs.covered, hs.desks⟩
    · simp only [net_eq, step, hsame]
    · simp [gross_eq, step, hsame, settledAt, takenIn, hd]

theorem keeps_colonyIssue (item : Item) (qty : ℕ) (hs : w.Sound bound) :
    Keeps p bound w (.colonyIssue item qty) := by
  obtain ⟨h1, h2, h3, h4, h5⟩ := colonyIssue_flows w.ex item qty
  refine ⟨⟨hs.board, hs.covered.congr h4, h3 hs.desks⟩, ?_, fun item' => ?_⟩
  · simp only [net_eq, step, h1]
  · have hg := h2 item'
    simp only [gross_eq, step, settledAt, Function.update_apply]
    split at hg
    · rename_i hi
      rw [if_pos hi, ← hg, hi]
      push_cast
      ring
    · rename_i hi
      rw [if_neg hi, ← hg]
      ring

theorem keeps_step (act : Act) (hs : w.Sound bound) (hb : bound < u64Max)
    (hcr : w.credits ≤ bound) : Keeps p bound w act := by
  cases act with
  | serve who name now request => exact keeps_serve who name now request hs hb hcr
  | tick dt => exact keeps_tick dt hs
  | boardTick now => exact keeps_board hs (Board.same_tick now w.ex hs.board) rfl fun _ => rfl
  | collectAccount who => exact keeps_collectAccount who hs
  | colonyReceive item qty => exact keeps_colonyReceive item qty hs
  | colonyIssue item qty => exact keeps_colonyIssue item qty hs
  | aceOut k => exact keeps_board hs (Board.same_announce _ _) rfl fun _ => rfl

/-- The exchange and the Board are new; the hangars hold what they hold. -/
structure Fresh (w : World) : Prop where
  ex : w.ex = Exchange.new
  board : w.board = Board.new

theorem Fresh.sound (h : w.Fresh) : w.Sound bound := by
  constructor
  · rw [h.board]
    exact Board.sound_new
  · rw [h.ex]
    exact allOrders_new
  · rw [h.ex]
    exact desksOpen_new

/-- Over any run in which the credits held stay below what a `u64` counts, the credits held,
with what the colony took and the fees, are those at the start with what the colony paid out;
and the goods of an item, with what was delivered to the works, change by what the clock
settles. -/
theorem ledger_conserved (p : Platform) (w : World) (acts : List Act) (hw : w.Fresh)
    (hheld : Run.Along (step p) (fun w _ => w.credits < u64Max) w acts) :
    (acts.foldl (step p) w).credits + (acts.foldl (step p) w).ex.colonyTook
        + (acts.foldl (step p) w).ex.fees
      = w.credits + (acts.foldl (step p) w).ex.colonyPaid
        + (acts.foldl (step p) w).board.colonyPaid
      ∧ ∀ item, (acts.foldl (step p) w).goods item + (acts.foldl (step p) w).board.worked item
        = w.goods item + Run.total (step p) (settledAt p item) w acts := by
  have hkeep (w : World) (act : Act) (hs : w.Sound (u64Max - 1)) (hc : w.credits < u64Max) :
      Keeps p (u64Max - 1) w act :=
    keeps_step act hs (by decide) (Int.le_sub_one_of_lt hc)
  have hsound (w : World) (act : Act) (hs : w.Sound (u64Max - 1)) (hc : w.credits < u64Max) :
      (w.step p act).Sound (u64Max - 1) := (hkeep w act hs hc).sound
  constructor
  · have hrun := Run.invariant (I := fun w' => w'.Sound (u64Max - 1) ∧ w'.net = w.net)
      (fun s i hs hc => ⟨hsound s i hs.1 hc, ((hkeep s i hs.1 hc).net).trans hs.2⟩)
      ⟨hw.sound, rfl⟩ hheld
    have hstart : w.net = w.credits := by
      simp [net, hw.ex, hw.board, Exchange.new, Board.new]
    have hnet := hrun.2.trans hstart
    simp only [net] at hnet
    linarith
  · intro item
    have hstart : w.board.worked item = 0 := by
      have hworks : Board.new.works.entries
          = Work.all.map fun work => (work, Progress.empty) := rfl
      simp [hw.board, Board.worked, Table.total, hworks, Progress.empty, Table.getD, Work.all]
    have hrun := Run.measure_eq (μ := gross item) (δ := settledAt p item) hsound
      (fun s i hs hc => (hkeep s i hs hc).gross item) hw.sound hheld
    simp only [gross, hstart, add_zero] at hrun
    exact hrun

def hoard (credits n : ℕ) : Hangar :=
  { Hangar.empty with
    credits
    stores := ⟨Table.ofList [(.weapon .heavyBeamRifle, n), (steel, n)], []⟩ }

/-- Two pilots with ten million rifles each, and one with `credits`. -/
def market (credits : ℕ) : World where
  ex := Exchange.new
  board := Board.new
  hangars := Table.ofList
    [("lyra", hoard 0 10000000), ("auriga", hoard 0 10000000), ("cygnus", hoard credits 0)]
  outCredits := 0
  outGoods := fun _ => 0

def sellAll (who : Trader) : Act :=
  .serve who who 0 (.trade (.weapon .heavyBeamRifle) .sell maxPrice 10000000 true)

def buyAll (who : Trader) : Act :=
  .serve who who 0 (.trade (.weapon .heavyBeamRifle) .buy maxPrice 20000000 false)

/-- Both pilots sell at the highest price, the third buys, and steel goes to a great work. -/
def bazaar : List Act :=
  [sellAll "lyra", sellAll "auriga", buyAll "cygnus", .tick 60, .boardTick 60,
    .serve "lyra" "lyra" 60 (.contribute .secondFoundry steel 1)]

theorem ledger_conserved_bazaar :
    ((bazaar.foldl (step Platform.atRest) (market 1000000)).credits
        + (bazaar.foldl (step Platform.atRest) (market 1000000)).ex.colonyTook
        + (bazaar.foldl (step Platform.atRest) (market 1000000)).ex.fees
      = (market 1000000).credits
        + (bazaar.foldl (step Platform.atRest) (market 1000000)).ex.colonyPaid
        + (bazaar.foldl (step Platform.atRest) (market 1000000)).board.colonyPaid)
      ∧ ∀ item, (bazaar.foldl (step Platform.atRest) (market 1000000)).goods item
          + (bazaar.foldl (step Platform.atRest) (market 1000000)).board.worked item
        = (market 1000000).goods item
          + Run.total (step Platform.atRest) (settledAt Platform.atRest item) (market 1000000)
            bazaar := by
  have hheld : Run.Along (step Platform.atRest) (fun w _ => w.credits < u64Max) (market 1000000)
      bazaar := by
    show _ ∧ _ ∧ _ ∧ _ ∧ _ ∧ _ ∧ True
    decide +kernel
  exact ledger_conserved Platform.atRest (market 1000000) bazaar ⟨rfl, rfl⟩ hheld

/-- What was delivered to the works that are finished. -/
def spent (item : Item) (w : World) : ℚ :=
  Table.total (fun _ pr => if pr.done.isSome then (pr.delivered.getD item 0 : ℚ) else 0)
    w.board.works

/-- A buy whose escrow saturates wraps round as it fills, so the credits aren't conserved without
a bound; and the goods delivered to an unfinished work are nowhere either. -/
theorem ledger_leaks :
    (¬ ∀ (w : World) (acts : List Act), w.Fresh →
      (acts.foldl (step Platform.atRest) w).credits
          + (acts.foldl (step Platform.atRest) w).ex.colonyTook
          + (acts.foldl (step Platform.atRest) w).ex.fees
        = w.credits + (acts.foldl (step Platform.atRest) w).ex.colonyPaid
          + (acts.foldl (step Platform.atRest) w).board.colonyPaid)
      ∧ ¬ ∀ (w : World) (acts : List Act) (item : Item), w.Fresh →
        (acts.foldl (step Platform.atRest) w).goods item
            + (acts.foldl (step Platform.atRest) w).spent item
          = w.goods item + Run.total (step Platform.atRest) (settledAt Platform.atRest item) w acts := by
  constructor
  · intro h
    have hrun := h (market u64Max) [sellAll "lyra", sellAll "auriga", buyAll "cygnus"] ⟨rfl, rfl⟩
    exact absurd hrun (by decide +kernel)
  · intro h
    have hrun := h (market 0) [.serve "lyra" "lyra" 0 (.contribute .secondFoundry steel 1)] steel
      ⟨rfl, rfl⟩
    exact absurd hrun (by decide +kernel)

end World

end BeforeColony
