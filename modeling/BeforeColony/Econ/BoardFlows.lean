import BeforeColony.Econ.Flows

/-!
# What the Board's operations move

The Board holds the escrow of pilots' contracts and two sets of accounts. Its invariant
(`Sound`) ties what a contract has paid to what was delivered on it, so a filled contract
holds nothing back. A `Room` is one pilot's hangar, the Board and the exchange; a request
served in it moves credits and goods about and keeps their sums (`Conserves`).
-/

set_option autoImplicit false

namespace BeforeColony

open Lib Catalogue Exchange

def contractEscrow (c : Contract) : ℤ := if c.issuer.isSome then c.unpaid else 0

structure ContractOk (id : ℕ) (c : Contract) : Prop where
  id_eq : c.id = id
  supply : ∀ item qty delivered, c.task = .supply item qty delivered →
    delivered < qty ∧ c.paid = c.payFor delivered qty
  patrol : c.task.isPatrol = true → c.issuer = none
  reward_le : c.issuer.isSome = true → c.reward ≤ u64Max
  dealt : ∀ item qty delivered, c.task = .supply item qty delivered → c.issuer = none →
    item.valid = true ∧ (desk item).isSome = true

theorem payFor_mono {c : Contract} {a b qty : ℕ} (h : a ≤ b) : c.payFor a qty ≤ c.payFor b qty :=
  min_le_min_right _ (Nat.div_le_div_right (Nat.mul_le_mul_left _ h))

theorem payFor_le {c : Contract} {delivered qty : ℕ} (h : delivered ≤ qty) :
    c.payFor delivered qty ≤ c.reward := by
  refine (min_le_left _ _).trans (Nat.div_le_of_le_mul ?_)
  rw [Nat.mul_comm c.reward]
  exact Nat.mul_le_mul_right _ (h.trans (le_max_left _ _))

theorem payFor_all {c : Contract} {qty : ℕ} (hq : 0 < qty) (hr : c.reward ≤ u64Max) :
    c.payFor qty qty = c.reward := by
  unfold Contract.payFor
  rw [max_eq_left (show 1 ≤ qty from hq), Nat.mul_div_cancel _ hq, min_eq_left hr]

namespace Board

variable {b : Board}

def escrow (b : Board) : ℤ := Table.total (fun _ c => contractEscrow c) b.contracts

def netCredits (b : Board) : ℤ :=
  b.escrow + accountsCredits b.accounts + accountsCredits b.atDesk - b.colonyPaid

def goodsOf (item : Item) (b : Board) : ℚ :=
  accountsGoods item b.accounts + accountsGoods item b.atDesk

/-- What was delivered to the great works, finished or not. -/
def worked (item : Item) (b : Board) : ℚ :=
  Table.total (fun _ pr => (pr.delivered.getD item 0 : ℚ)) b.works

structure Sound (b : Board) : Prop where
  contract : ∀ id c, b.contracts.get? id = some c → ContractOk id c
  fresh : ∀ id c, b.contracts.get? id = some c → id < b.nextId

theorem sound_new : new.Sound := by
  constructor <;> intro id c h <;> cases h

theorem Sound.congr {b' : Board} (h : b.Sound) (hc : b'.contracts = b.contracts)
    (hid : b'.nextId = b.nextId) : b'.Sound := by
  constructor
  · rw [hc]
    exact h.contract
  · rw [hc, hid]
    exact h.fresh

theorem Sound.sub {b' : Board} (h : b.Sound)
    (hget : ∀ id c, b'.contracts.get? id = some c → b.contracts.get? id = some c)
    (hid : b.nextId ≤ b'.nextId) : b'.Sound := by
  constructor
  · intro id c hs
    exact h.contract id c (hget id c hs)
  · intro id c hs
    exact (h.fresh id c (hget id c hs)).trans_le hid

theorem Sound.erase {b' : Board} {id : ℕ} (h : b.Sound) (hc : b'.contracts = b.contracts.erase id)
    (hid : b'.nextId = b.nextId) : b'.Sound := by
  refine h.sub (fun id' c hs => ?_) hid.ge
  rw [hc, Table.get?_erase] at hs
  split at hs
  · cases hs
  · exact hs

theorem Sound.insert {b' : Board} {id : ℕ} {c : Contract} (h : b.Sound)
    (hc : b'.contracts = b.contracts.insert id c) (hok : ContractOk id c) (hlt : id < b'.nextId)
    (hid : b.nextId ≤ b'.nextId) : b'.Sound := by
  constructor
  · intro id' c' hs
    rw [hc, Table.get?_insert] at hs
    split at hs
    · rename_i heq
      rw [heq, ← Option.some.inj hs]
      exact hok
    · exact h.contract id' c' hs
  · intro id' c' hs
    rw [hc, Table.get?_insert] at hs
    split at hs
    · rename_i heq
      rwa [heq]
    · exact (h.fresh id' c' hs).trans_le hid

theorem rename_frame (b : Board) (trader : Trader) (name : String) :
    ∃ names, b.rename trader name = { b with names := names } := by
  unfold rename
  split
  · exact ⟨_, rfl⟩
  · exact ⟨b.names, rfl⟩

section Owed

variable {trader : Trader} {g : Account → Account} {item : Item}

theorem owe_netCredits {x : ℤ} (hg : ∀ a, ((g a).credits : ℤ) = a.credits + x) :
    (b.owe trader g).netCredits = b.netCredits + x := by
  have hacc : accountsCredits (b.owe trader g).accounts = accountsCredits b.accounts + x :=
    accountsCredits_update hg
  simp only [netCredits, hacc]
  simp only [owe, escrow]
  ring

theorem owe_goodsOf {x : ℚ}
    (hg : ∀ a, ((g a).goods.getD item 0 : ℚ) = a.goods.getD item 0 + x) :
    (b.owe trader g).goodsOf item = b.goodsOf item + x := by
  have hacc : accountsGoods item (b.owe trader g).accounts = accountsGoods item b.accounts + x :=
    accountsGoods_update hg
  simp only [goodsOf, hacc]
  simp only [owe]
  ring

theorem deskOwes_netCredits {x : ℤ} (hg : ∀ a, ((g a).credits : ℤ) = a.credits + x) :
    (b.deskOwes trader g).netCredits = b.netCredits + x := by
  have hacc : accountsCredits (b.deskOwes trader g).atDesk = accountsCredits b.atDesk + x :=
    accountsCredits_update hg
  simp only [netCredits, hacc]
  simp only [deskOwes, escrow]
  ring

theorem deskOwes_goodsOf {x : ℚ}
    (hg : ∀ a, ((g a).goods.getD item 0 : ℚ) = a.goods.getD item 0 + x) :
    (b.deskOwes trader g).goodsOf item = b.goodsOf item + x := by
  have hacc : accountsGoods item (b.deskOwes trader g).atDesk = accountsGoods item b.atDesk + x :=
    accountsGoods_update hg
  simp only [goodsOf, hacc]
  simp only [deskOwes]
  ring

end Owed

/-- A board with the same ledger as another: only its news, names, notes and the like differ. -/
structure SameLedger (b b' : Board) : Prop where
  credits : b'.netCredits = b.netCredits
  goods : ∀ item, b'.goodsOf item = b.goodsOf item
  worked : ∀ item, b'.worked item = b.worked item
  paid : b.colonyPaid ≤ b'.colonyPaid
  sound : b.Sound → b'.Sound

theorem SameLedger.refl (b : Board) : SameLedger b b :=
  ⟨rfl, fun _ => rfl, fun _ => rfl, le_rfl, id⟩

theorem SameLedger.trans {b' b'' : Board} (h : SameLedger b b') (h' : SameLedger b' b'') :
    SameLedger b b'' where
  credits := h'.credits.trans h.credits
  goods item := (h'.goods item).trans (h.goods item)
  worked item := (h'.worked item).trans (h.worked item)
  paid := h.paid.trans h'.paid
  sound hs := h'.sound (h.sound hs)

theorem same_rename (b : Board) (trader : Trader) (name : String) :
    SameLedger b (b.rename trader name) := by
  obtain ⟨names, h⟩ := rename_frame b trader name
  rw [h]
  exact ⟨rfl, fun _ => rfl, fun _ => rfl, le_rfl, fun hs => hs.congr rfl rfl⟩

theorem same_announce (b : Board) (text : String) : SameLedger b (b.announce text) :=
  ⟨rfl, fun _ => rfl, fun _ => rfl, le_rfl, fun hs => hs.congr rfl rfl⟩

theorem same_oweNote (b : Board) (trader : Trader) (text : String) :
    SameLedger b (b.owe trader fun a => a.note text) where
  credits := (owe_netCredits (x := 0) fun a => by simp [Account.note]).trans (add_zero _)
  goods item := (owe_goodsOf (x := 0) fun a => by simp [Account.note]).trans (add_zero _)
  worked _ := rfl
  paid := le_rfl
  sound hs := hs.congr rfl rfl

/-! ## Contracts -/

theorem erase_netCredits {id : ℕ} {c : Contract} (h : b.contracts.get? id = some c) :
    ({ b with contracts := b.contracts.erase id } : Board).netCredits
      = b.netCredits - contractEscrow c := by
  have htotal := Table.total_erase (fun _ c => contractEscrow c) b.contracts id
  rw [Table.at?_of_get? h] at htotal
  simp only [netCredits, escrow]
  linarith

theorem insert_netCredits {k : ℕ} (c : Contract) :
    ({ b with contracts := b.contracts.insert k c } : Board).netCredits
      = b.netCredits - Table.at? (fun _ c => contractEscrow c) b.contracts k
        + contractEscrow c := by
  have htotal := Table.total_insert (fun _ c => contractEscrow c) b.contracts k c
  simp only [netCredits, escrow]
  linarith

theorem same_tellHolder (b : Board) (c : Contract) (why : String) :
    SameLedger b (b.tellHolder c why) := by
  unfold tellHolder
  split
  · exact SameLedger.refl b
  · split
    · exact same_oweNote _ _ _
    · exact SameLedger.refl b

/-- A closed contract's escrow goes back to its issuer. -/
theorem same_giveBack {id : ℕ} {c : Contract} (h : b.contracts.get? id = some c)
    (why : String) :
    SameLedger b (({ b with contracts := b.contracts.erase id } : Board).giveBack c why) := by
  have herase := erase_netCredits h
  unfold giveBack
  split
  · rename_i hi
    exact ⟨herase.trans (by simp [contractEscrow, hi]), fun _ => rfl, fun _ => rfl, le_rfl,
      fun hs => hs.erase rfl rfl⟩
  · rename_i issuer hi
    refine ⟨?_, fun item => ?_, fun _ => rfl, le_rfl, fun hs => hs.erase rfl rfl⟩
    · rw [owe_netCredits (x := c.unpaid), herase]
      · simp [contractEscrow, hi]
      · intro a
        simp [Account.note, Account.addCredits]
    · rw [owe_goodsOf (x := 0), add_zero]
      · rfl
      · intro a
        simp [Account.note, Account.addCredits]

theorem same_close (b : Board) (id : ℕ) (why : String) : SameLedger b (b.close id why) := by
  unfold close
  split
  · exact SameLedger.refl b
  · rename_i c h
    exact (same_giveBack h why).trans (same_tellHolder _ c why)

theorem postContract_flows {issuer : Option Trader} {issuerName : String} {task : Task}
    {reward now secs : ℕ} (hs : b.Sound)
    (hok : ∀ c : Contract, c.id = b.nextId → c.issuer = issuer → c.task = task →
      c.reward = reward → c.paid = 0 → ContractOk b.nextId c) :
    (b.postContract issuer issuerName task reward now secs).1.netCredits
        = b.netCredits + (if issuer.isSome then reward else 0 : ℕ)
      ∧ (∀ item, (b.postContract issuer issuerName task reward now secs).1.goodsOf item
        = b.goodsOf item)
      ∧ (∀ item, (b.postContract issuer issuerName task reward now secs).1.worked item
        = b.worked item)
      ∧ (b.postContract issuer issuerName task reward now secs).1.colonyPaid = b.colonyPaid
      ∧ (b.postContract issuer issuerName task reward now secs).1.Sound := by
  refine ⟨?_, fun _ => rfl, fun _ => rfl, rfl,
    hs.insert rfl (hok _ rfl rfl rfl rfl rfl) (Nat.lt_succ_self _) (Nat.le_succ _)⟩
  have hnone : b.contracts.get? b.nextId = none := by
    cases h : b.contracts.get? b.nextId with
    | none => rfl
    | some c => exact absurd (hs.fresh _ _ h) (lt_irrefl _)
  have hinsert := insert_netCredits (b := b) (k := b.nextId)
    { id := b.nextId, issuer, issuerName, task, reward, paid := 0, posted := now
      expires := now + secs, holder := none }
  rw [Table.at?_of_none hnone, sub_zero] at hinsert
  refine hinsert.trans ?_
  cases issuer with
  | none => simp [contractEscrow]
  | some t => simp [contractEscrow, Contract.unpaid]

theorem same_postColony {task : Task} {name : String} {reward now secs : ℕ} (hs : b.Sound)
    (htask : ∀ item qty delivered, task = .supply item qty delivered →
      delivered < qty ∧ delivered = 0 ∧ item.valid = true ∧ (desk item).isSome = true) :
    SameLedger b (b.postContract none name task reward now secs).1 := by
  have hok : ∀ c : Contract, c.id = b.nextId → c.issuer = none → c.task = task →
      c.reward = reward → c.paid = 0 → ContractOk b.nextId c := by
    intro c hid hissuer ht _ hp
    constructor
    · exact hid
    · intro item qty delivered h
      obtain ⟨hlt, hz, -, -⟩ := htask item qty delivered (ht.symm.trans h)
      exact ⟨hlt, by simp [hp, Contract.payFor, hz]⟩
    · exact fun _ => hissuer
    · intro hsome
      simp [hissuer] at hsome
    · intro item qty delivered h _
      exact (htask item qty delivered (ht.symm.trans h)).2.2
  obtain ⟨h1, h2, h3, h4, h5⟩ := postContract_flows hs hok
  exact ⟨by simpa using h1, h2, h3, h4.ge, fun _ => h5⟩

theorem nextJob_mem {ex : Exchange} {job : Item × ℕ} (h : b.nextJob ex = some job) :
    job ∈ supplyJobs := by
  revert h
  apply List.foldlRecOn (motive := fun r => r = some job → job ∈ supplyJobs)
  · intro h
    cases h
  · intro best hbest y hy hx
    have hy' := (List.mem_filter.mp hy).1
    split at hx
    · exact Option.some.inj hx ▸ hy'
    · split at hx
      · exact Option.some.inj hx ▸ hy'
      · exact hbest hx

theorem supplyJobs_ok : ∀ job ∈ supplyJobs,
    0 < job.2 ∧ job.1.valid = true ∧ (desk job.1).isSome = true := by
  decide +kernel

theorem same_postSupply (ex : Exchange) (now rounds : ℕ) (hs : b.Sound) :
    SameLedger b (postSupply ex now rounds b).1 := by
  induction rounds generalizing b with
  | zero => exact SameLedger.refl b
  | succ rounds ih =>
    unfold postSupply
    split
    · split
      · exact SameLedger.refl b
      · rename_i item qty hjob
        obtain ⟨hq, hv, hd⟩ := supplyJobs_ok _ (nextJob_mem hjob)
        have hpost : SameLedger b (b.postContract none "THE COLONY" (.supply item qty 0)
            (priced item qty supplyPct) now supplySecs).1 :=
          same_postColony hs fun item' qty' delivered h => by
            obtain ⟨rfl, rfl, rfl⟩ := Task.supply.inj h
            exact ⟨hq, rfl, hv, hd⟩
        exact hpost.trans (ih (hpost.sound hs))
    · exact SameLedger.refl b

theorem same_postPatrols (now rounds : ℕ) (hs : b.Sound) :
    SameLedger b (postPatrols now rounds b).1 := by
  induction rounds generalizing b with
  | zero => exact SameLedger.refl b
  | succ rounds ih =>
    unfold postPatrols
    split
    · have hpost : SameLedger b (b.postContract none "THE MILITIA" (.patrol patrolBounty 0)
          patrolReward now patrolStandsSecs).1 :=
        same_postColony hs fun _ _ _ h => by cases h
      exact hpost.trans (ih (hpost.sound hs))
    · exact SameLedger.refl b

/-- The Board's clock moves no credits and no goods between the Board and anyone. -/
theorem same_tick (now : ℕ) (ex : Exchange) (hs : b.Sound) : SameLedger b (b.tick now ex).1 := by
  have hclose (ids : List ℕ) (b : Board) :
      SameLedger b (ids.foldl (fun b id => b.close id "EXPIRED") b) := by
    induction ids generalizing b with
    | nil => exact SameLedger.refl b
    | cons id rest ih => exact (same_close b id "EXPIRED").trans (ih _)
  unfold tick
  have h1 := hclose ((b.contracts.values.filter fun c => c.expires ≤ now).map Contract.id) b
  have h2 := h1.trans (same_postSupply ex now colonySupply (h1.sound hs))
  simp only
  split
  · exact h2.trans (same_postPatrols now colonyPatrols (h2.sound hs))
  · exact h2

theorem same_setContract {id : ℕ} {c c' : Contract} (h : b.contracts.get? id = some c)
    (he : contractEscrow c' = contractEscrow c) (hok : b.Sound → ContractOk id c') :
    SameLedger b { b with contracts := b.contracts.insert id c' } := by
  refine ⟨?_, fun _ => rfl, fun _ => rfl, le_rfl, fun hs => ?_⟩
  · rw [insert_netCredits, Table.at?_of_get? h, he]
    ring
  · exact hs.insert rfl (hok hs) (hs.fresh id c h) le_rfl

theorem same_dropContract {id : ℕ} {c : Contract} (h : b.contracts.get? id = some c)
    (he : contractEscrow c = 0) : SameLedger b { b with contracts := b.contracts.erase id } :=
  ⟨(erase_netCredits h).trans (by rw [he, sub_zero]), fun _ => rfl, fun _ => rfl, le_rfl,
    fun hs => hs.erase rfl rfl⟩

theorem same_take (b : Board) (trader : Trader) (name : String) (id now : ℕ) :
    SameLedger b (b.take trader name id now).1 := by
  unfold take
  split
  · exact SameLedger.refl b
  · cases h : b.contracts.get? id with
    | none => exact SameLedger.refl b
    | some c =>
      simp only
      split
      · exact SameLedger.refl b
      · split
        · exact SameLedger.refl b
        · have hset : SameLedger b { b with
              contracts := b.contracts.insert id
                { c with holder := some trader, expires := now + patrolSecs } } := by
            refine same_setContract h rfl fun hs => ?_
            have hc := hs.contract id c h
            exact ⟨hc.id_eq, hc.supply, hc.patrol, hc.reward_le, hc.dealt⟩
          exact hset.trans (same_rename _ trader name)

theorem same_dropPatrol (b : Board) (trader : Trader) (id now : ℕ) :
    SameLedger b (b.dropPatrol trader id now).1 := by
  unfold dropPatrol
  cases h : b.contracts.get? id with
  | none => exact SameLedger.refl b
  | some c =>
    simp only
    split
    · exact SameLedger.refl b
    · refine same_setContract h rfl fun hs => ?_
      have hc := hs.contract id c h
      cases ht : c.task with
      | supply item qty delivered =>
        exact ⟨hc.id_eq, fun i q d hi => hc.supply i q d (ht.trans hi), hc.patrol ∘ by simp [ht, unearned],
          hc.reward_le, fun i q d hi => hc.dealt i q d (ht.trans hi)⟩
      | patrol bounty earned =>
        exact ⟨hc.id_eq, fun i q d hi => by simp [unearned] at hi,
          fun _ => hc.patrol (by simp [ht, Task.isPatrol]), hc.reward_le,
          fun i q d hi => by simp [unearned] at hi⟩

theorem worked_insert (work : Work) (pr : Progress) (item : Item) :
    ({ b with works := b.works.insert work pr } : Board).worked item
      = b.worked item - (b.progress work).delivered.getD item 0 + pr.delivered.getD item 0 := by
  have htotal := Table.total_insert (fun _ pr => (pr.delivered.getD item 0 : ℚ)) b.works work pr
  rw [Table.at?_eq_getD (d := Progress.empty) rfl] at htotal
  simp only [worked, progress]
  linarith

theorem same_setDone (b : Board) (work : Work) (now : ℕ) :
    SameLedger b { b with
      works := b.works.update work Progress.empty fun pr => { pr with done := some now } } := by
  refine ⟨rfl, fun _ => rfl, fun item => ?_, le_rfl, fun hs => hs.congr rfl rfl⟩
  exact (worked_insert work _ item).trans (sub_add_cancel _ _)

theorem same_finish (b : Board) (work : Work) (now : ℕ) : SameLedger b (b.finish work now) := by
  have hdone := (same_setDone b work now).trans (same_announce _ work.finished)
  unfold finish
  simp only
  split
  · exact hdone.trans (same_announce _ _)
  · exact hdone

theorem same_sign (b : Board) (trader : Trader) (name : String) (now : ℕ) :
    SameLedger b (b.sign trader name now).1 := by
  have hsigned : SameLedger b { b.rename trader name with
      signatures := (b.rename trader name).signatures ++ [trader] } :=
    (same_rename b trader name).trans
      ⟨rfl, fun _ => rfl, fun _ => rfl, le_rfl, fun hs => hs.congr rfl rfl⟩
  unfold sign
  split
  · exact SameLedger.refl b
  · split
    · exact SameLedger.refl b
    · split
      · exact SameLedger.refl b
      · split
        · exact SameLedger.refl b
        · simp only
          split
          · exact hsigned
          · refine hsigned.trans ((same_setDone _ .charterVote now).trans ?_)
            exact ⟨rfl, fun _ => rfl, fun _ => rfl, le_rfl, fun hs => hs.congr rfl rfl⟩

theorem same_setTerms (b : Board) (trader : Trader) (salvage : Bool) :
    SameLedger b (b.setTerms trader salvage).1 := by
  unfold setTerms
  split_ifs
  · exact SameLedger.refl b
  · exact ⟨rfl, fun _ => rfl, fun _ => rfl, le_rfl, fun hs => hs.congr rfl rfl⟩
  · exact ⟨rfl, fun _ => rfl, fun _ => rfl, le_rfl, fun hs => hs.congr rfl rfl⟩

theorem same_aceDowned (p : Platform) (b : Board) (k : ℕ) (trader : Trader) (name : String)
    (now : ℕ) : SameLedger b (b.aceDowned p k trader name now).1 :=
  (same_rename b trader name).trans
    ⟨rfl, fun _ => rfl, fun _ => rfl, le_rfl, fun hs => hs.congr rfl rfl⟩

theorem colonyPays_netCredits (trader : Trader) (credits : ℕ) :
    (b.colonyPays trader credits).netCredits = b.netCredits - credits := by
  simp only [colonyPays, netCredits, escrow]
  push_cast
  ring

/-! ## Deliveries -/

theorem contractEscrow_delivered {c : Contract} {item : Item} {wanted delivered n pay : ℕ}
    (h : c.paid + pay ≤ c.reward) :
    contractEscrow (deliveredTo c item wanted delivered n pay)
      = contractEscrow c - if c.issuer.isSome then pay else 0 := by
  unfold contractEscrow deliveredTo Contract.unpaid
  simp only
  split <;> omega

theorem passOn_flows {p : Platform} {ex : Exchange} {id : ℕ} {c : Contract} {trader : Trader}
    {name : String} {item : Item} {n pay : ℕ}
    (hdesk : c.issuer = none → (ex.colony.get? item).isSome = true) {b' : Board} {ex' : Exchange}
    (h : passOn p b ex id c trader name item n pay = (b', ex')) :
    b'.netCredits + ex'.netCredits
        = b.netCredits + ex.netCredits - (if c.issuer.isSome then 0 else pay)
      ∧ (∀ item', b'.goodsOf item' + ex'.goodsOf item'
        = b.goodsOf item' + ex.goodsOf item' + if item' = item then (n : ℚ) else 0)
      ∧ b'.contracts = b.contracts ∧ b'.nextId = b.nextId ∧ b'.works = b.works
      ∧ ex.colonyPaid + b.colonyPaid ≤ ex'.colonyPaid + b'.colonyPaid
      ∧ ex'.books = ex.books ∧ (DesksOpen ex → DesksOpen ex') := by
  unfold passOn at h
  cases hi : c.issuer with
  | none =>
    rw [hi] at h
    obtain ⟨rfl, rfl⟩ := Prod.mk.inj h
    obtain ⟨h1, h2, h3, h4, h5⟩ := colonyReceive_flows ex n (hdesk hi)
    refine ⟨?_, fun item' => ?_, rfl, rfl, rfl, ?_, h4, h3⟩
    · rw [h1, colonyPays_netCredits]
      simp only [Option.isSome_none, Bool.false_eq_true, if_false]
      ring
    · rw [h2]
      simp only [colonyPays, goodsOf]
      ring
    · rw [h5]
      exact Nat.add_le_add_left (Nat.le_add_right _ _) _
  | some issuer =>
    rw [hi] at h
    obtain ⟨rfl, rfl⟩ := Prod.mk.inj h
    refine ⟨?_, fun item' => ?_, rfl, rfl, rfl, le_rfl, rfl, fun hd => hd⟩
    · rw [owe_netCredits (x := 0)]
      · simp
      · intro a
        simp [Account.note, Account.addGoods]
    · rw [owe_goodsOf (x := if item' = item then (n : ℚ) else 0)]
      · ring
      · intro a
        rw [Account.note, addGoods_getD]
        split <;> simp

/-- A contract that holds nothing in escrow leaves the Board's ledger as it was. -/
theorem retire_flows {id : ℕ} {c c' : Contract} (h : b.contracts.get? id = some c')
    (he : contractEscrow c' = 0) :
    (b.retire id c).netCredits = b.netCredits
      ∧ (∀ item, (b.retire id c).goodsOf item = b.goodsOf item)
      ∧ (b.retire id c).contracts = b.contracts.erase id
      ∧ (b.retire id c).nextId = b.nextId ∧ (b.retire id c).works = b.works
      ∧ (b.retire id c).colonyPaid = b.colonyPaid := by
  have herase := erase_netCredits h
  rw [he, sub_zero] at herase
  unfold retire
  cases c.issuer with
  | none => exact ⟨herase, fun _ => rfl, rfl, rfl, rfl, rfl⟩
  | some issuer =>
    have hnote := same_oweNote b issuer s!"CONTRACT #{id} FILLED"
    refine ⟨?_, hnote.goods, rfl, rfl, rfl, rfl⟩
    have herase' := erase_netCredits (b := b.owe issuer fun a => a.note s!"CONTRACT #{id} FILLED") h
    rw [he, sub_zero] at herase'
    exact herase'.trans hnote.credits

end Board

end BeforeColony
