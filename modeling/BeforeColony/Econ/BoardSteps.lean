import BeforeColony.Econ.Ledger

/-!
# What a step does to the Board

The Board's runs, each request with any hangar and any exchange. `Turn` says all that one request
does to the contracts and to the money they stand for; the clock is described apart.
-/

set_option autoImplicit false

namespace BeforeColony

open Lib Catalogue

/-- A request of the Board with the hangar and the exchange it finds, or the clock, or an ace. -/
inductive BoardAct where
  | serve (h : Hangar) (ex : Exchange) (who : Trader) (name : String) (now : ℕ) (request : Request)
  | tick (now : ℕ) (ex : Exchange)
  | aceOut (k : ℕ)

def BoardAct.Typed : BoardAct → Prop
  | .serve _ _ _ _ _ (.post _ _ reward _) => reward ≤ u64Max
  | _ => True

namespace BoardAct

def delivers : BoardAct → Option ℕ
  | .serve _ _ _ _ _ (.deliver id _) => some id
  | _ => none

/-- The step may earn a pilot what a contract pays. -/
def earns : BoardAct → Bool
  | .serve _ _ _ _ _ (.deliver _ _) | .serve _ _ _ _ _ (.bounties _ _) => true
  | _ => false

theorem delivers_of_quiet {act : BoardAct} (h : act.earns = false) : act.delivers = none := by
  cases act with
  | serve _ _ _ _ _ request =>
    cases request with
    | deliver id qty => cases h
    | _ => rfl
  | tick now ex => rfl
  | aceOut k => rfl

def hangar : BoardAct → Hangar
  | .serve h _ _ _ _ _ => h
  | _ => Hangar.empty

end BoardAct

namespace Board

variable {p : Platform} {b b' : Board}

def served (p : Platform) (b : Board) (h : Hangar) (ex : Exchange) (who : Trader) (name : String)
    (now : ℕ) (request : Request) : Room :=
  Room.serve p who name now ⟨b, h, ex⟩ request

def step (p : Platform) (b : Board) : BoardAct → Board
  | .serve h ex who name now request => (b.served p h ex who name now request).board
  | .tick now ex => (b.tick now ex).1
  | .aceOut k => b.aceOut k

def run (p : Platform) (acts : List BoardAct) : Board := acts.foldl (step p) Board.new

def balance (b : Board) (t : Trader) : ℕ := (b.accounts.getD t Account.empty).credits

def deskBalance (b : Board) (t : Trader) : ℕ := (b.atDesk.getD t Account.empty).credits

structure Touched (b b' : Board) (id : ℕ) (x : Option Contract) : Prop where
  get : ∀ id', b'.contracts.get? id' = if id' = id then x else b.contracts.get? id'
  next : b'.nextId = b.nextId

/-! ## Small parts -/

@[simp] theorem rename_contracts (b : Board) (t : Trader) (name : String) :
    (b.rename t name).contracts = b.contracts := by
  obtain ⟨names, h⟩ := rename_frame b t name
  rw [h]

@[simp] theorem rename_nextId (b : Board) (t : Trader) (name : String) :
    (b.rename t name).nextId = b.nextId := by
  obtain ⟨names, h⟩ := rename_frame b t name
  rw [h]

@[simp] theorem rename_balance (b : Board) (t u : Trader) (name : String) :
    (b.rename t name).balance u = b.balance u := by
  obtain ⟨names, h⟩ := rename_frame b t name
  rw [h]
  rfl

@[simp] theorem owe_contracts (b : Board) (t : Trader) (f : Account → Account) :
    (b.owe t f).contracts = b.contracts := rfl

@[simp] theorem owe_nextId (b : Board) (t : Trader) (f : Account → Account) :
    (b.owe t f).nextId = b.nextId := rfl

theorem owe_balance {t : Trader} {f : Account → Account} {x : ℕ}
    (hf : ∀ a, (f a).credits = a.credits + x) (u : Trader) :
    (b.owe t f).balance u = b.balance u + if u = t then x else 0 := by
  simp only [balance, owe, Table.getD_update]
  by_cases h : u = t
  · subst h
    simp only [if_true, hf]
  · simp only [if_neg h, Nat.add_zero]

theorem deskOwes_deskBalance {t : Trader} {f : Account → Account} {x : ℕ}
    (hf : ∀ a, (f a).credits = a.credits + x) (u : Trader) :
    (b.deskOwes t f).deskBalance u = b.deskBalance u + if u = t then x else 0 := by
  simp only [deskBalance, deskOwes, Table.getD_update]
  by_cases h : u = t
  · subst h
    simp only [if_true, hf]
  · simp only [if_neg h, Nat.add_zero]

section Paid

variable {n : ℕ} (b₀ : Board) (who : Trader) {f : Account → Account}

theorem owe_paid (ha : b₀.accounts = b.accounts) (hd : b₀.atDesk = b.atDesk)
    (hf : ∀ a, (f a).credits = a.credits + n) :
    (b₀.owe who f).balance who + (b₀.owe who f).deskBalance who
        = b.balance who + b.deskBalance who + n
      ∧ ∀ t, t ≠ who → (b₀.owe who f).balance t = b.balance t
        ∧ (b₀.owe who f).deskBalance t = b.deskBalance t := by
  have hdesk (t : Trader) : (b₀.owe who f).deskBalance t = b.deskBalance t :=
    congrArg (fun a : Table Trader Account => (a.getD t Account.empty).credits) hd
  have hbalance (t : Trader) : b₀.balance t = b.balance t :=
    congrArg (fun a : Table Trader Account => (a.getD t Account.empty).credits) ha
  constructor
  · rw [owe_balance hf, hdesk, hbalance, if_pos rfl, Nat.add_right_comm]
  · intro t ht
    rw [owe_balance hf, hdesk, hbalance, if_neg ht]
    exact ⟨rfl, rfl⟩

theorem deskOwes_paid (ha : b₀.accounts = b.accounts) (hd : b₀.atDesk = b.atDesk)
    (hf : ∀ a, (f a).credits = a.credits + n) :
    (b₀.deskOwes who f).balance who + (b₀.deskOwes who f).deskBalance who
        = b.balance who + b.deskBalance who + n
      ∧ ∀ t, t ≠ who → (b₀.deskOwes who f).balance t = b.balance t
        ∧ (b₀.deskOwes who f).deskBalance t = b.deskBalance t := by
  have hbalance (t : Trader) : (b₀.deskOwes who f).balance t = b.balance t :=
    congrArg (fun a : Table Trader Account => (a.getD t Account.empty).credits) ha
  have hdesk (t : Trader) : b₀.deskBalance t = b.deskBalance t :=
    congrArg (fun a : Table Trader Account => (a.getD t Account.empty).credits) hd
  constructor
  · rw [deskOwes_deskBalance hf, hbalance, hdesk, if_pos rfl, Nat.add_assoc]
  · intro t ht
    rw [deskOwes_deskBalance hf, hbalance, hdesk, if_neg ht]
    exact ⟨rfl, rfl⟩

end Paid

theorem owe_same (b : Board) (t : Trader) (f : Account → Account)
    (hf : ∀ a, (f a).credits = a.credits) (u : Trader) : (b.owe t f).balance u = b.balance u := by
  rw [owe_balance (x := 0) hf, ite_self, Nat.add_zero]

theorem touched_set {id : ℕ} {c : Contract} (hc : b'.contracts = b.contracts.insert id c)
    (hn : b'.nextId = b.nextId) : Touched b b' id (some c) := by
  refine ⟨fun id' => ?_, hn⟩
  rw [hc, Table.get?_insert]

theorem touched_erase {id : ℕ} (hc : b'.contracts = b.contracts.erase id)
    (hn : b'.nextId = b.nextId) : Touched b b' id none := by
  refine ⟨fun id' => ?_, hn⟩
  rw [hc, Table.get?_erase]

theorem Touched.erased {id : ℕ} {x : Option Contract} {b'' : Board} (h : Touched b b' id x)
    (hc : b''.contracts = b'.contracts.erase id) (hn : b''.nextId = b'.nextId) :
    Touched b b'' id none := by
  refine ⟨fun id' => ?_, hn.trans h.next⟩
  rw [hc, Table.get?_erase, h.get]
  split <;> rfl

/-- What closing contract `id` gives back to a pilot. -/
def backOf (b : Board) (id : ℕ) (t : Trader) : ℕ :=
  (b.contracts.get? id).elim 0 fun c => if c.issuer = some t then c.unpaid else 0

theorem tellHolder_frame (b : Board) (c : Contract) (why : String) :
    (b.tellHolder c why).contracts = b.contracts ∧ (b.tellHolder c why).nextId = b.nextId
      ∧ ∀ t, (b.tellHolder c why).balance t = b.balance t := by
  unfold tellHolder
  split
  · exact ⟨rfl, rfl, fun _ => rfl⟩
  · split
    · refine ⟨rfl, rfl, fun t => ?_⟩
      apply owe_same
      exact fun _ => rfl
    · exact ⟨rfl, rfl, fun _ => rfl⟩

theorem giveBack_frame (b : Board) (c : Contract) (why : String) :
    (b.giveBack c why).contracts = b.contracts ∧ (b.giveBack c why).nextId = b.nextId
      ∧ ∀ t, (b.giveBack c why).balance t
        = b.balance t + if c.issuer = some t then c.unpaid else 0 := by
  unfold giveBack
  cases hi : c.issuer with
  | none => exact ⟨rfl, rfl, fun t => by simp⟩
  | some issuer =>
    refine ⟨rfl, rfl, fun t => ?_⟩
    rw [owe_balance (x := c.unpaid) (fun _ => rfl)]
    simp only [Option.some.injEq, eq_comm (a := t)]

/-- A contract closed is off the board, and its poster has what it hasn't paid. -/
theorem close_frame (b : Board) (id : ℕ) (why : String) :
    Touched b (b.close id why) id none
      ∧ ∀ t, (b.close id why).balance t = b.balance t + b.backOf id t := by
  unfold close backOf
  cases hget : b.contracts.get? id with
  | none =>
    refine ⟨⟨fun id' => ?_, rfl⟩, fun _ => rfl⟩
    by_cases heq : id' = id
    · rw [if_pos heq, heq]
      exact hget
    · rw [if_neg heq]
  | some c =>
    obtain ⟨hc, hn, hb⟩ := giveBack_frame { b with contracts := b.contracts.erase id } c why
    obtain ⟨hc', hn', hb'⟩ :=
      tellHolder_frame (({ b with contracts := b.contracts.erase id } : Board).giveBack c why) c why
    exact ⟨touched_erase (hc'.trans hc) (hn'.trans hn), fun t => (hb' t).trans (hb t)⟩

theorem collect_frame (b : Board) (h : Hangar) (t : Trader) :
    (b.collect h t).1.contracts = b.contracts ∧ (b.collect h t).1.nextId = b.nextId
      ∧ (b.collect h t).2.1.credits + (b.collect h t).1.balance t = h.credits + b.balance t
      ∧ ∀ u, (b.collect h t).1.balance u ≤ b.balance u := by
  unfold collect
  cases ha : b.accounts.get? t with
  | none => exact ⟨rfl, rfl, rfl, fun _ => le_rfl⟩
  | some a =>
    refine ⟨rfl, rfl, ?_, fun u => ?_⟩
    · simp only [balance, Table.getD, Table.get?_erase, if_true, ha, Option.getD_some,
        Option.getD_none, Room.receive_credits]
      rfl
    · simp only [balance, Table.getD, Table.get?_erase]
      split
      · exact Nat.zero_le _
      · exact le_rfl

/-! ## One request -/

/-- What one step but the clock's does to the contracts, with the hangar `h'` after it. -/
inductive Turn (b b' : Board) (h' : Hangar) : BoardAct → Prop where
  | refused {act : BoardAct} (board : b' = b) (hangar : h' = act.hangar) : Turn b b' h' act
  | still {act : BoardAct} (quiet : act.earns = false) (contracts : b'.contracts = b.contracts)
      (next : b'.nextId = b.nextId) (given : ∀ t, b'.balance t ≤ b.balance t) : Turn b b' h' act
  | posted {h : Hangar} {ex : Exchange} {who : Trader} {name : String} {now : ℕ} {item : Item}
      {qty reward hours : ℕ} (ok : b.postRefusal h who item qty reward hours = none)
      (contracts : b'.contracts = b.contracts.insert b.nextId
        { id := b.nextId, issuer := some who, issuerName := name, task := .supply item qty 0
          reward, paid := 0, posted := now, expires := now + hours * 3600, holder := none })
      (next : b'.nextId = b.nextId + 1) (escrowed : h'.credits + reward = h.credits)
      (given : ∀ t, b'.balance t ≤ b.balance t) :
    Turn b b' h' (.serve h ex who name now (.post item qty reward hours))
  | withdrawn {h : Hangar} {ex : Exchange} {who : Trader} {name : String} {now id : ℕ}
      {c : Contract} (get : b.contracts.get? id = some c) (issuer : c.issuer = some who)
      (touched : Touched b b' id none)
      (back : h'.credits + b'.balance who = h.credits + b.balance who + c.unpaid)
      (others : ∀ t, t ≠ who → b'.balance t ≤ b.balance t) :
    Turn b b' h' (.serve h ex who name now (.withdraw id))
  | delivered {h : Hangar} {ex : Exchange} {who : Trader} {name : String} {now id qty : ℕ}
      {c : Contract} {item : Item} {wanted had n : ℕ} (get : b.contracts.get? id = some c)
      (task : c.task = .supply item wanted had) (other : c.issuer ≠ some who)
      (live : now < c.expires) (pos : 0 < n) (fits : n ≤ wanted - had)
      (touched : Touched b b' id (if had + n = wanted then none
        else some (deliveredTo c item wanted had n (c.payFor (had + n) wanted - c.payFor had wanted))))
      (given : h'.stores.get item + n = h.stores.get item)
      (paid : h'.credits = h.credits + (c.payFor (had + n) wanted - c.payFor had wanted))
      (balances : ∀ t, b'.balance t = b.balance t) :
    Turn b b' h' (.serve h ex who name now (.deliver id qty))
  | taken {h : Hangar} {ex : Exchange} {who : Trader} {name : String} {now id : ℕ}
      {c : Contract} {bounty earned : ℕ}
      (free : ∀ id' c', b.contracts.get? id' = some c' → c'.holder ≠ some who)
      (get : b.contracts.get? id = some c) (task : c.task = .patrol bounty earned)
      (holder : c.holder = none)
      (touched : Touched b b' id (some { c with holder := some who, expires := now + patrolSecs }))
      (balances : ∀ t, b'.balance t = b.balance t) :
    Turn b b' h' (.serve h ex who name now (.take id))
  | dropped {h : Hangar} {ex : Exchange} {who : Trader} {name : String} {now id : ℕ}
      {c : Contract} (get : b.contracts.get? id = some c) (holder : c.holder = some who)
      (touched : Touched b b' id (some { c with
        holder := none, task := unearned c.task, expires := now + patrolStandsSecs }))
      (balances : ∀ t, b'.balance t = b.balance t) :
    Turn b b' h' (.serve h ex who name now (.dropPatrol id))
  | counted {h : Hangar} {ex : Exchange} {who : Trader} {name : String} {now bounty : ℕ}
      {atDesk : Bool} {key : ℕ} {c : Contract} {target earned : ℕ}
      (get : b.contracts.get? key = some c) (holder : c.holder = some who) (live : now < c.expires)
      (task : c.task = .patrol target earned) (short : earned + bounty < target)
      (touched : Touched b b' key (some { c with task := .patrol target (earned + bounty) }))
      (balances : ∀ t, b'.balance t = b.balance t ∧ b'.deskBalance t = b.deskBalance t)
      (hangar : h'.credits = h.credits) :
    Turn b b' h' (.serve h ex who name now (.bounties bounty atDesk))
  | flown {h : Hangar} {ex : Exchange} {who : Trader} {name : String} {now bounty : ℕ}
      {atDesk : Bool} {key : ℕ} {c : Contract} {target earned : ℕ}
      (get : b.contracts.get? key = some c) (holder : c.holder = some who) (live : now < c.expires)
      (task : c.task = .patrol target earned) (full : target ≤ earned + bounty)
      (touched : c.id = key → Touched b b' key none)
      (paid : b'.balance who + b'.deskBalance who
        = b.balance who + b.deskBalance who + c.reward)
      (others : ∀ t, t ≠ who →
        b'.balance t = b.balance t ∧ b'.deskBalance t = b.deskBalance t)
      (hangar : h'.credits = h.credits) :
    Turn b b' h' (.serve h ex who name now (.bounties bounty atDesk))

/-- The hangar a step leaves, if it is a pilot's request. -/
def hangarAfter (p : Platform) (b : Board) : BoardAct → Hangar
  | .serve h ex who name now request => (b.served p h ex who name now request).hangar
  | _ => Hangar.empty

section Requests

variable {h : Hangar} {ex : Exchange} {who : Trader} {name : String} {now : ℕ}

theorem turn_post (item : Item) (qty reward hours : ℕ) :
    let act := BoardAct.serve h ex who name now (.post item qty reward hours)
    Turn b (b.step p act) (b.hangarAfter p act) act := by
  simp only [step, hangarAfter, served, Room.serve, Room.post, Board.post]
  cases hok : b.postRefusal h who item qty reward hours with
  | some why => exact .refused rfl rfl
  | none =>
    obtain ⟨-, hle⟩ := Room.postRefusal_none hok
    obtain ⟨names, hname⟩ := rename_frame b who name
    refine .posted hok ?_ ?_ (Nat.sub_add_cancel hle) fun t => ?_
    · simp only [postContract, hname]
    · simp only [postContract, hname]
    · exact (rename_balance b who t name).le

theorem turn_withdraw (id : ℕ) :
    let act := BoardAct.serve h ex who name now (.withdraw id)
    Turn b (b.step p act) (b.hangarAfter p act) act := by
  simp only [step, hangarAfter, served, Room.serve, Room.withdraw, Board.withdraw]
  cases hget : b.contracts.get? id with
  | none => exact .refused rfl rfl
  | some c =>
    simp only
    split
    · exact .refused rfl rfl
    · rename_i hissuer
      rw [not_not] at hissuer
      obtain ⟨htouched, hbalance⟩ := close_frame b id "WITHDRAWN"
      obtain ⟨hc, hn, hcredits, hgiven⟩ := collect_frame (b.close id "WITHDRAWN") h who
      refine .withdrawn hget hissuer ⟨fun id' => ?_, hn.trans htouched.next⟩ ?_ fun t ht => ?_
      · rw [hc, htouched.get]
      · rw [hcredits, hbalance, backOf, hget, Option.elim_some, if_pos hissuer, Nat.add_assoc]
      · have hnot : c.issuer ≠ some t := fun h => ht (Option.some.inj (h.symm.trans hissuer))
        have hle := hgiven t
        rw [hbalance, backOf, hget, Option.elim_some, if_neg hnot, Nat.add_zero] at hle
        exact hle

theorem passOn_frame (p : Platform) (b : Board) (ex : Exchange) (id : ℕ) (c : Contract)
    (who : Trader) (name : String) (item : Item) (n pay : ℕ) :
    (passOn p b ex id c who name item n pay).1.contracts = b.contracts
      ∧ (passOn p b ex id c who name item n pay).1.nextId = b.nextId
      ∧ ∀ t, (passOn p b ex id c who name item n pay).1.balance t = b.balance t := by
  unfold passOn
  cases c.issuer with
  | none => exact ⟨rfl, rfl, fun _ => rfl⟩
  | some issuer =>
    refine ⟨rfl, rfl, fun t => ?_⟩
    apply owe_same
    exact fun _ => rfl

theorem retire_frame (b : Board) (id : ℕ) (c : Contract) :
    (b.retire id c).contracts = b.contracts.erase id ∧ (b.retire id c).nextId = b.nextId
      ∧ ∀ t, (b.retire id c).balance t = b.balance t := by
  unfold retire
  cases c.issuer with
  | none => exact ⟨rfl, rfl, fun _ => rfl⟩
  | some issuer =>
    refine ⟨rfl, rfl, fun t => ?_⟩
    apply owe_same
    exact fun _ => rfl

theorem turn_deliver (id qty : ℕ) :
    let act := BoardAct.serve h ex who name now (.deliver id qty)
    Turn b (b.step p act) (b.hangarAfter p act) act := by
  simp only [step, hangarAfter, served, Room.serve, Room.deliver, Board.deliver]
  cases hget : b.contracts.get? id with
  | none => exact .refused rfl rfl
  | some c =>
    cases htask : c.task with
    | patrol bounty earned =>
      simp only [htask]
      exact .refused rfl rfl
    | supply item wanted had =>
      simp only [htask]
      split
      · exact .refused rfl rfl
      · rename_i hother
        split
        · exact .refused rfl rfl
        · rename_i hlive
          split
          · exact .refused rfl rfl
          · rename_i hn
            have hle : min (min qty (wanted - had)) (h.stores.get item) ≤ wanted - had :=
              (min_le_left _ _).trans (min_le_right _ _)
            generalize min (min qty (wanted - had)) (h.stores.get item) = n at hn hle ⊢
            split
            · exact .refused rfl rfl
            · rename_i stores htake
              set pay := c.payFor (had + n) wanted - c.payFor had wanted with hpay
              set after := Board.rename { b with
                contracts := b.contracts.insert id (deliveredTo c item wanted had n pay) } who name
              have hset : Touched b after id (some (deliveredTo c item wanted had n pay)) :=
                touched_set (rename_contracts _ _ _) (rename_nextId _ _ _)
              have hsame : ∀ t, after.balance t = b.balance t := fun t => rename_balance _ _ _ _
              obtain ⟨hc, hnext, hbalance⟩ := passOn_frame p after ex id c who name item n
                pay
              obtain ⟨hc', hnext', hbalance'⟩ := retire_frame
                (passOn p after ex id c who name item n pay).1 id c
              refine .delivered hget htask hother (not_le.mp hlive) (Nat.pos_of_ne_zero hn) hle
                ?_ (by simpa using Stores.get_take htake item) rfl fun t => ?_
              · by_cases hfull : had + n = wanted
                · simp only [if_pos hfull]
                  exact hset.erased (hc'.trans (congrArg (fun t => t.erase id) hc))
                    (hnext'.trans hnext)
                · simp only [if_neg hfull]
                  refine ⟨fun id' => ?_, hnext.trans hset.next⟩
                  rw [hc, hset.get]
              · by_cases hfull : had + n = wanted
                · rw [if_pos hfull, hbalance', hbalance, hsame]
                · rw [if_neg hfull, hbalance, hsame]

theorem turn_take (id : ℕ) :
    let act := BoardAct.serve h ex who name now (.take id)
    Turn b (b.step p act) (b.hangarAfter p act) act := by
  simp only [step, hangarAfter, served, Room.serve, Board.take]
  split
  · exact .refused rfl rfl
  · rename_i hfree
    cases hget : b.contracts.get? id with
    | none => exact .refused rfl rfl
    | some c =>
      cases htask : c.task with
      | supply item qty had =>
        simp only [htask]
        exact .refused rfl rfl
      | patrol bounty earned =>
        simp only [htask]
        split
        · exact .refused rfl rfl
        · rename_i hholder
          refine .taken (fun id' c' hget' hheld => hfree ?_) hget htask (by simpa using hholder) ?_
            fun t => rename_balance _ _ _ _
          · rw [List.any_eq_true]
            exact ⟨c', Table.mem_values_of_get? hget', by simpa using hheld⟩
          · apply touched_set
            · simp only [rename_contracts, htask]
            · simp only [rename_nextId]

theorem turn_drop (id : ℕ) :
    let act := BoardAct.serve h ex who name now (.dropPatrol id)
    Turn b (b.step p act) (b.hangarAfter p act) act := by
  simp only [step, hangarAfter, served, Room.serve, Board.dropPatrol]
  cases hget : b.contracts.get? id with
  | none => exact .refused rfl rfl
  | some c =>
    simp only
    split
    · exact .refused rfl rfl
    · rename_i hholder
      exact .dropped hget (not_not.mp hholder) (touched_set rfl rfl) fun _ => rfl

theorem turn_bounties (bounty : ℕ) (atDesk : Bool) :
    let act := BoardAct.serve h ex who name now (.bounties bounty atDesk)
    Turn b (b.step p act) (b.hangarAfter p act) act := by
  simp only [step, hangarAfter, served, Room.serve, Room.bounties, Board.bounties]
  split
  · exact .refused rfl rfl
  · cases hfind : b.contracts.entries.find? fun e => e.2.holder = some who ∧ now < e.2.expires with
    | none => exact .refused rfl rfl
    | some found =>
      obtain ⟨key, c⟩ := found
      have hget := Table.mem_entries_iff.mp (List.mem_of_find?_eq_some hfind)
      have hheld := List.find?_some hfind
      simp only [decide_eq_true_eq] at hheld
      cases htask : c.task with
      | supply item qty had =>
        simp only [htask]
        exact .refused rfl rfl
      | patrol target earned =>
        simp only [htask]
        split
        · rename_i hshort
          have hless : earned + bounty < target := by omega
          rw [min_eq_left hless.le]
          exact .counted hget hheld.1 hheld.2 htask hless (touched_set rfl rfl)
            (fun _ => ⟨rfl, rfl⟩) rfl
        · rename_i hfull
          have hmore : target ≤ earned + bounty := by omega
          have htouched (hid : c.id = key) : ∀ b₁ : Board, b₁.contracts
              = (b.contracts.insert key { c with
                task := .patrol target (min (earned + bounty) target) }).erase c.id →
              b₁.nextId = b.nextId → Touched b b₁ key none := by
            intro b₁ hc hn
            refine ⟨fun id' => ?_, hn⟩
            rw [hc, hid, Table.get?_erase, Table.get?_insert]
            split <;> rfl
          cases atDesk with
          | false =>
            obtain ⟨hpaid, hothers⟩ := owe_paid (Board.colonyPays _ who c.reward) who (b := b)
              (f := fun a => a.addCredits c.reward) rfl rfl fun _ => rfl
            exact .flown hget hheld.1 hheld.2 htask hmore (fun hid => htouched hid _ rfl rfl) hpaid
              hothers (Room.boardPaid_credits _ _ _)
          | true =>
            obtain ⟨hpaid, hothers⟩ := deskOwes_paid (Board.colonyPays _ who c.reward) who (b := b)
              (f := fun a => (a.addCredits c.reward).note _) rfl rfl fun _ => rfl
            exact .flown hget hheld.1 hheld.2 htask hmore (fun hid => htouched hid _ rfl rfl) hpaid
              hothers (Room.boardPaid_credits _ _ _)

/-- No contract is touched and nobody is owed more. -/
structure Calm (b b' : Board) : Prop where
  contracts : b'.contracts = b.contracts
  next : b'.nextId = b.nextId
  given : ∀ t, b'.balance t ≤ b.balance t

theorem Calm.refl (b : Board) : Calm b b := ⟨rfl, rfl, fun _ => le_rfl⟩

theorem calm_rename (b : Board) (t : Trader) (name : String) : Calm b (b.rename t name) :=
  ⟨rename_contracts b t name, rename_nextId b t name, fun u => (rename_balance b t u name).le⟩

theorem calm_finish {b₀ : Board} (work : Work) (now : ℕ) (h : Calm b₀ b) :
    Calm b₀ (b.finish work now) := by
  unfold finish
  simp only
  split <;> exact ⟨h.contracts, h.next, h.given⟩

theorem calm_contribute (b : Board) (h : Hangar) (who : Trader) (name : String) (work : Work)
    (item : Item) (qty now : ℕ) : Calm b (b.contribute p h who name work item qty now).1 := by
  have hname := calm_rename b who name
  unfold contribute
  split
  · exact Calm.refl b
  · split
    · exact Calm.refl b
    · simp only
      split
      · exact Calm.refl b
      · split
        · exact Calm.refl b
        · split
          · exact calm_finish work now ⟨hname.contracts, hname.next, hname.given⟩
          · exact ⟨hname.contracts, hname.next, hname.given⟩

theorem calm_sign (b : Board) (who : Trader) (name : String) (now : ℕ) :
    Calm b (b.sign who name now).1 := by
  have hname := calm_rename b who name
  unfold sign
  split
  · exact Calm.refl b
  · split
    · exact Calm.refl b
    · split
      · exact Calm.refl b
      · split
        · exact Calm.refl b
        · simp only
          split <;> exact ⟨hname.contracts, hname.next, hname.given⟩

theorem calm_certify (b : Board) (h : Hangar) (who : Trader) (ex : Exchange) :
    Calm b (b.certify h who ex).1 := by
  unfold certify
  split
  · exact Calm.refl b
  · simp only
    split <;> exact ⟨rfl, rfl, fun _ => le_rfl⟩

theorem calm_payAce (b : Board) (h : Hangar) (k : ℕ) (who : Trader) (atDesk : Bool) :
    Calm b (b.payAce h k who atDesk).1 := by
  unfold payAce
  simp only
  split <;> exact ⟨rfl, rfl, fun _ => le_rfl⟩

theorem calm_setTerms (b : Board) (who : Trader) (salvage : Bool) :
    Calm b (b.setTerms who salvage).1 := by
  unfold setTerms
  split
  · split <;> exact ⟨rfl, rfl, fun _ => le_rfl⟩
  · exact ⟨rfl, rfl, fun _ => le_rfl⟩

theorem calm_collectAtDesk (b : Board) (h : Hangar) (who : Trader) :
    Calm b (b.collectAtDesk h who).1 := by
  unfold collectAtDesk
  split <;> exact ⟨rfl, rfl, fun _ => le_rfl⟩

theorem calm_collect (b : Board) (h : Hangar) (who : Trader) : Calm b (b.collect h who).1 := by
  obtain ⟨hc, hn, -, hgiven⟩ := collect_frame b h who
  exact ⟨hc, hn, hgiven⟩

theorem calm_aceDowned (b : Board) (k : ℕ) (who : Trader) (name : String) (now : ℕ) :
    Calm b (b.aceDowned p k who name now).1 := by
  have hname := calm_rename b who name
  exact ⟨hname.contracts, hname.next, hname.given⟩

theorem Calm.turn {h' : Hangar} {act : BoardAct} (h : Calm b b') (hquiet : act.earns = false) :
    Turn b b' h' act :=
  .still hquiet h.contracts h.next h.given

theorem turn (act : BoardAct) (hact : ∀ now ex, act ≠ .tick now ex) :
    Turn b (b.step p act) (b.hangarAfter p act) act := by
  cases act with
  | tick now ex => exact absurd rfl (hact now ex)
  | aceOut k => exact .still rfl rfl rfl fun _ => le_rfl
  | serve h ex who name now request =>
    cases request with
    | post item qty reward hours => exact turn_post item qty reward hours
    | withdraw id => exact turn_withdraw id
    | deliver id qty => exact turn_deliver id qty
    | take id => exact turn_take id
    | dropPatrol id => exact turn_drop id
    | bounties bounty atDesk => exact turn_bounties bounty atDesk
    | trade item side price qty rest => exact .still rfl rfl rfl fun _ => le_rfl
    | collect => exact .still rfl rfl rfl fun _ => le_rfl
    | cancel id => exact .still rfl rfl rfl fun _ => le_rfl
    | cancelAll => exact .still rfl rfl rfl fun _ => le_rfl
    | contribute work item qty => exact (calm_contribute b h who name work item qty now).turn rfl
    | boardCollect => exact (calm_collect b h who).turn rfl
    | collectAtDesk => exact (calm_collectAtDesk b h who).turn rfl
    | payAce k atDesk => exact (calm_payAce b h k who atDesk).turn rfl
    | certify => exact (calm_certify b h who ex).turn rfl
    | sign => exact (calm_sign b who name now).turn rfl
    | setTerms salvage => exact (calm_setTerms b who salvage).turn rfl
    | aceDowned k => exact (calm_aceDowned b k who name now).turn rfl

end Requests

/-! ## The clock -/

inductive ColonyPost (b : Board) (now : ℕ) : Board → Prop where
  | supply {item : Item} {qty : ℕ} (job : (item, qty) ∈ supplyJobs) :
    ColonyPost b now (b.postContract none "THE COLONY" (.supply item qty 0)
      (priced item qty supplyPct) now supplySecs).1
  | patrol : ColonyPost b now (b.postContract none "THE MILITIA" (.patrol patrolBounty 0)
      patrolReward now patrolStandsSecs).1

def expired (b : Board) (now : ℕ) : List ℕ :=
  (b.contracts.values.filter fun c => c.expires ≤ now).map Contract.id

def closed (b : Board) (ids : List ℕ) : Board := ids.foldl (fun b id => b.close id "EXPIRED") b

/-- What holds once the expired contracts are closed, and is kept by each of the colony's posts,
holds after the clock's step. -/
theorem tick_posts {Q : Board → Prop} (now : ℕ) (ex : Exchange)
    (hpost : ∀ b b', Q b → ColonyPost b now b' → Q b') (hclosed : Q (b.closed (b.expired now))) :
    Q (b.tick now ex).1 := by
  have hsupply (rounds : ℕ) (b : Board) (hb : Q b) : Q (postSupply ex now rounds b).1 := by
    induction rounds generalizing b with
    | zero => exact hb
    | succ rounds ih =>
      unfold postSupply
      split
      · split
        · exact hb
        · rename_i item qty hjob
          exact ih _ (hpost _ _ hb (.supply (nextJob_mem hjob)))
      · exact hb
  have hpatrols (rounds : ℕ) (b : Board) (hb : Q b) : Q (postPatrols now rounds b).1 := by
    induction rounds generalizing b with
    | zero => exact hb
    | succ rounds ih =>
      unfold postPatrols
      split
      · exact ih _ (hpost _ _ hb .patrol)
      · exact hb
  unfold tick
  simp only
  split
  · exact hpatrols _ _ (hsupply _ _ hclosed)
  · exact hsupply _ _ hclosed

theorem closed_frame (ids : List ℕ) (b : Board) (hnodup : ids.Nodup) :
    (∀ id, (b.closed ids).contracts.get? id = if id ∈ ids then none else b.contracts.get? id)
      ∧ (b.closed ids).nextId = b.nextId
      ∧ ∀ t, (b.closed ids).balance t = b.balance t + (ids.map fun id => b.backOf id t).sum := by
  induction ids generalizing b with
  | nil => exact ⟨fun _ => rfl, rfl, fun _ => rfl⟩
  | cons id rest ih =>
    obtain ⟨hnotin, hrest⟩ := List.nodup_cons.mp hnodup
    obtain ⟨htouched, hbalance⟩ := close_frame b id "EXPIRED"
    obtain ⟨hget, hnext, hback⟩ := ih (b.close id "EXPIRED") hrest
    refine ⟨fun id' => ?_, hnext.trans htouched.next, fun t => ?_⟩
    · have hid : (b.closed (id :: rest)).contracts.get? id' = _ := hget id'
      rw [hid, htouched.get]
      by_cases heq : id' = id
      · simp [heq]
      · simp [heq]
    · have hid : (b.closed (id :: rest)).balance t = _ := hback t
      have hsame : (rest.map fun id' => (b.close id "EXPIRED").backOf id' t)
          = rest.map fun id' => b.backOf id' t := by
        refine List.map_congr_left fun id' hmem => ?_
        have hne : id' ≠ id := fun heq => hnotin (heq ▸ hmem)
        rw [backOf, htouched.get, if_neg hne, backOf]
      rw [hid, hsame, hbalance, List.map_cons, List.sum_cons, Nat.add_assoc]

/-- What the contracts that run out by `now` give back to a pilot. -/
def expiring (b : Board) (now : ℕ) (t : Trader) : ℕ :=
  Table.total (fun _ c => if c.expires ≤ now ∧ c.issuer = some t then c.unpaid else 0) b.contracts

theorem mem_expired (hs : b.Sound) {now id : ℕ} :
    id ∈ b.expired now ↔ ∃ c, b.contracts.get? id = some c ∧ c.expires ≤ now := by
  simp only [expired, List.mem_map, List.mem_filter, Table.mem_values_iff, decide_eq_true_eq]
  constructor
  · rintro ⟨c, ⟨⟨key, hget⟩, hle⟩, rfl⟩
    rw [(hs.contract key c hget).id_eq]
    exact ⟨c, hget, hle⟩
  · rintro ⟨c, hget, hle⟩
    exact ⟨c, ⟨⟨id, hget⟩, hle⟩, (hs.contract id c hget).id_eq⟩

theorem expired_eq (hs : b.Sound) (now : ℕ) :
    b.expired now = (b.contracts.entries.filter fun e => e.2.expires ≤ now).map Prod.fst := by
  simp only [expired, Table.values, List.filter_map, List.map_map]
  refine List.map_congr_left fun e he => ?_
  exact (hs.contract e.1 e.2 (Table.mem_entries_iff.mp (List.mem_filter.mp he).1)).id_eq

theorem expired_nodup (hs : b.Sound) (now : ℕ) : (b.expired now).Nodup := by
  rw [expired_eq hs]
  have hsub : ((b.contracts.entries.filter fun e => e.2.expires ≤ now).map Prod.fst).Sublist
      b.contracts.keys := List.filter_sublist.map Prod.fst
  exact hsub.nodup b.contracts.keys_nodup

theorem sum_filter_map {α : Type*} (q : α → Bool) (f : α → ℕ) (l : List α) :
    ((l.filter q).map f).sum = (l.map fun a => if q a then f a else 0).sum := by
  induction l with
  | nil => rfl
  | cons a rest ih =>
    rw [List.map_cons, List.sum_cons, ← ih, List.filter_cons]
    split
    · rw [List.map_cons, List.sum_cons]
    · rw [Nat.zero_add]

theorem sum_backOf_expired (hs : b.Sound) (now : ℕ) (t : Trader) :
    ((b.expired now).map fun id => b.backOf id t).sum = b.expiring now t := by
  rw [expired_eq hs, List.map_map, sum_filter_map, expiring, Table.total]
  refine congrArg List.sum (List.map_congr_left fun e he => ?_)
  have hget := Table.mem_entries_iff.mp he
  simp only [Function.comp_apply, backOf, hget, Option.elim_some, decide_eq_true_eq]
  split
  · rename_i hle
    simp only [hle, true_and]
  · rename_i hle
    simp only [hle, false_and, if_false]

/-- A contract of the colony's nobody has begun. -/
structure Unbegun (c : Contract) : Prop where
  issuer : c.issuer = none
  holder : c.holder = none
  paid : c.paid = 0
  reward_le : c.reward ≤ u64Max
  delivered : ∀ item qty had, c.task = .supply item qty had → had = 0

/-- What the clock's step does to the contracts and to the credits owed. -/
structure Ticked (now : ℕ) (b b' : Board) : Prop where
  old : ∀ id < b.nextId, b'.contracts.get? id
    = (b.contracts.get? id).filter fun c => now < c.expires
  new : ∀ id c, b.nextId ≤ id → b'.contracts.get? id = some c → Unbegun c
  next : b.nextId ≤ b'.nextId
  back : ∀ t, b'.balance t = b.balance t + b.expiring now t

theorem ticked_post {now : ℕ} {b₀ : Board} (h : Ticked now b₀ b) (hpost : ColonyPost b now b') :
    Ticked now b₀ b' := by
  have hinsert (name : String) (task : Task) (reward secs : ℕ) (hle : reward ≤ u64Max)
      (htask : ∀ item qty had, task = .supply item qty had → had = 0) :
      Ticked now b₀ (b.postContract none name task reward now secs).1 := by
    refine ⟨fun id hlt => ?_, fun id c hge hget => ?_, h.next.trans (Nat.le_succ _), h.back⟩
    · simp only [postContract, Table.get?_insert, if_neg (hlt.trans_le h.next).ne]
      exact h.old id hlt
    · simp only [postContract, Table.get?_insert] at hget
      split at hget
      · rw [← Option.some.inj hget]
        exact ⟨rfl, rfl, rfl, hle, htask⟩
      · exact h.new id c hge hget
  cases hpost with
  | supply job =>
    refine hinsert _ _ _ _ ((Nat.div_le_self _ _).trans (min_le_right _ _)) fun _ _ _ h => ?_
    exact (Task.supply.inj h).2.2.symm
  | patrol =>
    refine hinsert _ _ _ _ (by decide) fun _ _ _ h => ?_
    cases h

theorem ticked (hs : b.Sound) (now : ℕ) (ex : Exchange) : Ticked now b (b.tick now ex).1 := by
  refine tick_posts (Q := Ticked now b) now ex (fun _ _ => ticked_post) ?_
  obtain ⟨hget, hnext, hback⟩ := closed_frame (b.expired now) b (expired_nodup hs now)
  refine ⟨fun id _ => ?_, fun id c hge hopen => ?_, hnext.ge, fun t => ?_⟩
  · rw [hget]
    cases hid : b.contracts.get? id with
    | none =>
      have hnot : id ∉ b.expired now := fun hmem => by
        obtain ⟨c, hc, -⟩ := (mem_expired hs).mp hmem
        rw [hid] at hc
        cases hc
      rw [if_neg hnot]
      rfl
    | some c =>
      by_cases hle : c.expires ≤ now
      · rw [if_pos ((mem_expired hs).mpr ⟨c, hid, hle⟩), Option.filter_some]
        simp [hle]
      · have hnot : id ∉ b.expired now := fun hmem => by
          obtain ⟨c', hc', hle'⟩ := (mem_expired hs).mp hmem
          rw [hid, Option.some.injEq] at hc'
          exact hle (hc' ▸ hle')
        rw [if_neg hnot, Option.filter_some]
        simp [not_le.mp hle]
  · rw [hget] at hopen
    split at hopen
    · cases hopen
    · exact absurd (hs.fresh id c hopen) hge.not_gt
  · rw [hback, sum_backOf_expired hs]

theorem ticked_step (p : Platform) (hs : b.Sound) (now : ℕ) (ex : Exchange) :
    Ticked now b (b.step p (.tick now ex)) := by
  rw [step]
  exact ticked hs now ex

end Board

end BeforeColony
