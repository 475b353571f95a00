import BeforeColony.Econ.Hangar

/-!
# The Charter Board

Contracts with their rewards in escrow, the colony's great works, standing, the charter
vote, and the Board's desk. Every change a pilot asks for either does all of it or is
refused with a sentence. The colony's payments are counted in `colonyPaid`.
-/

set_option autoImplicit false

namespace BeforeColony

open Lib Catalogue Hangar

def maxPosted : ℕ := 8
def colonySupply : ℕ := 4
def colonyPatrols : ℕ := 2
def supplySecs : ℕ := 2 * 3600
def supplyPct : ℕ := 135
def worksPct : ℕ := 120
def patrolBounty : ℕ := 1000
def patrolReward : ℕ := 1500
def patrolSecs : ℕ := 3600
def patrolStandsSecs : ℕ := 6 * 3600
def signaturesNeeded : ℕ := 3
def maxHours : ℕ := 72
def newsKept : ℕ := 16

inductive Work where
  | secondFoundry | militiaHangar | charterVote
  deriving DecidableEq, Repr

namespace Work

def all : List Work := [secondFoundry, militiaHangar, charterVote]

def index : Work → ℕ
  | secondFoundry => 0 | militiaHangar => 1 | charterVote => 2

theorem index_injective : Function.Injective index := by
  intro a b h
  cases a <;> cases b <;> first | rfl | cases h

instance : LinearOrder Work := LinearOrder.lift' index index_injective

def name : Work → String
  | secondFoundry => "A second foundry"
  | militiaHangar => "The militia's hangar"
  | charterVote => "The charter vote"

def needs : Work → List (Item × ℕ)
  | secondFoundry => [(steel, 12000), (tiAlloy, 6000), (electronics, 800), (components, 1500)]
  | militiaHangar =>
    [(steel, 15000), (tiAlloy, 4000), (components, 2000), (munitions, 3000),
      (propellantItem, 4000)]
  | charterVote => []

def era (_ : Work) : ℕ := 0

def finished : Work → String
  | secondFoundry => "THE SECOND FOUNDRY IS LIT · SIDERIUM AT HALF THE FEE, TWICE AS FAST · THE CHARTER BOARD THANKS ITS PILOTS"
  | militiaHangar => "THE MILITIA'S HANGAR IS OPEN · PATROLS ON THE CHARTER BOARD · THE COLONY PAYS FOR EVERY DRONE DOWNED ON CONTRACT"
  | charterVote => "THE CHARTER IS SIGNED · THE COLONY GOVERNS ITSELF · THE CALENDAR BEGINS: CY 1"

end Work

/-- The Almagest's aces: name and bounty. -/
def aces : List (String × ℕ) :=
  [("LYRA", 1500), ("SAGITTA", 1800), ("DELPHINUS", 2000), ("CYGNUS", 2200), ("AURIGA", 2500),
    ("PERSEUS", 2800), ("CENTAURUS", 3200), ("HERCULES", 3600), ("ORION", 4000)]

def ace (k : ℕ) : String × ℕ := aces.getD (k % aces.length) ("", 0)

inductive Task where
  | supply (item : Item) (qty delivered : ℕ)
  | patrol (bounty earned : ℕ)
  deriving DecidableEq, Repr

def Task.isPatrol : Task → Bool
  | patrol _ _ => true
  | supply _ _ _ => false

structure Contract where
  id : ℕ
  /-- Who posted it; `none` is the colony. -/
  issuer : Option Trader
  issuerName : String
  task : Task
  reward : ℕ
  paid : ℕ
  posted : ℕ
  expires : ℕ
  holder : Option Trader
  deriving DecidableEq, Repr

namespace Contract

def payFor (c : Contract) (delivered qty : ℕ) : ℕ := min (c.reward * delivered / max qty 1) u64Max

def unpaid (c : Contract) : ℕ := c.reward - c.paid

def label (c : Contract) : String := s!"CONTRACT #{c.id}"

end Contract

structure Progress where
  delivered : Table Item ℕ
  done : Option ℕ
  contributors : Table Trader ℕ

def Progress.empty : Progress := ⟨Table.empty, none, Table.empty⟩

structure Notice where
  seq : ℕ
  text : String
  deriving DecidableEq, Repr

structure Downed where
  by_ : String
  at_ : ℕ
  deriving DecidableEq, Repr

structure Board where
  contracts : Table ℕ Contract
  works : Table Work Progress
  signatures : List Trader
  era : ℕ
  standing : Table Trader ℕ
  names : Table Trader String
  accounts : Table Trader Account
  atDesk : Table Trader Account
  news : List Notice
  nextId : ℕ
  newsSeq : ℕ
  colonyPaid : ℕ
  wanted : Table ℕ Downed
  aces : Table Trader ℕ
  salvageTerms : Table Trader Unit

def supplyJobs : List (Item × ℕ) :=
  [(.ore .nickelIron, 4000), (.ore .titanium, 2000), (.ore .volatiles, 2000),
    (.ore .exotics, 300), (steel, 1500), (tiAlloy, 1000), (electronics, 200),
    (munitions, 1000), (components, 400)]

/-- What `qty` of `item` is worth at the colony's value, times `pct` percent. -/
def priced (item : Item) (qty pct : ℕ) : ℕ := min (worth item (value item) qty * pct) u64Max / 100

/-- A line on a sortie's sheet for the Board's pay. -/
def sheetLabel (what : String) (atDesk : Bool) : String :=
  if atDesk then s!"{what} · AT THE BOARD" else what

namespace Board

def new : Board where
  contracts := Table.empty
  works := Table.ofList (Work.all.map fun w => (w, Progress.empty))
  signatures := []
  era := 0
  standing := Table.empty
  names := Table.empty
  accounts := Table.empty
  atDesk := Table.empty
  news := []
  nextId := 1
  newsSeq := 0
  colonyPaid := 0
  wanted := Table.empty
  aces := Table.empty
  salvageTerms := Table.empty

def progress (b : Board) (work : Work) : Progress := b.works.getD work Progress.empty

def standingOf (b : Board) (trader : Trader) : ℕ := b.standing.getD trader 0

def done (b : Board) (work : Work) : Bool := (b.progress work).done.isSome

def voteOpen (b : Board) : Bool :=
  ((Work.all.filter fun w => w ≠ .charterVote && w.era = b.era).all b.done)
    && !b.done .charterVote

def patrols (b : Board) : Bool := b.done .militiaHangar

def announce (b : Board) (text : String) : Board :=
  let news := b.news ++ [⟨b.newsSeq + 1, text⟩]
  { b with
    newsSeq := b.newsSeq + 1
    news := if newsKept < news.length then news.tail else news }

def rename (b : Board) (trader : Trader) (name : String) : Board :=
  if name ≠ "" ∧ b.names.get? trader ≠ some name then
    { b with names := b.names.insert trader name }
  else b

def hasSalvageTerms (b : Board) (trader : Trader) : Bool := b.salvageTerms.contains trader

/-- How a pilot takes an ace's bounty from now on: pay, or salvage. -/
def setTerms (b : Board) (trader : Trader) (salvage : Bool) : Board × Done :=
  if salvage then
    if b.standingOf trader = 0 ∧ ¬ b.hasSalvageTerms trader then
      (b, .error "the board signs an ace's wreck over only to pilots of standing: deliver to the colony's contracts or its works first")
    else
      ({ b with salvageTerms := b.salvageTerms.insert trader () },
        .ok "TERMS: AN ACE'S WRECK FOR ITS BOUNTY · THE TUGS BRING IT HOME")
  else
    ({ b with salvageTerms := b.salvageTerms.erase trader }, .ok "TERMS: AN ACE'S BOUNTY, PAID")

def aceOut (b : Board) (k : ℕ) : Board :=
  b.announce s!"THE ALMAGEST'S {(ace k).1} IS OUT AMONG THE DRONES · {thousands (ace k).2} CR ON IT"

def aceDowned (p : Platform) (b : Board) (k : ℕ) (trader : Trader) (name : String) (now : ℕ) :
    Board × Bool :=
  let b := b.rename trader name
  let b := { b with
    wanted := b.wanted.insert k ⟨name, now⟩
    aces := b.aces.update trader 0 (· + 1) }
  let b := b.announce s!"THE ALMAGEST'S {(ace k).1} DOWNED BY {p.toUppercase name}"
  (b, b.hasSalvageTerms trader)

def owe (b : Board) (trader : Trader) (f : Account → Account) : Board :=
  { b with accounts := b.accounts.update trader Account.empty f }

def deskOwes (b : Board) (trader : Trader) (f : Account → Account) : Board :=
  { b with atDesk := b.atDesk.update trader Account.empty f }

def colonyPays (b : Board) (trader : Trader) (credits : ℕ) : Board :=
  { b with
    colonyPaid := b.colonyPaid + credits
    standing := b.standing.update trader 0 (· + credits) }

def payAce (b : Board) (h : Hangar) (k : ℕ) (trader : Trader) (atDesk : Bool) :
    Board × Hangar × String :=
  let (name, bounty) := ace k
  let b := b.colonyPays trader bounty
  let h := h.boardPaid (sheetLabel s!"ACE {name}" atDesk) bounty
  if ¬ atDesk then
    (b, { h with credits := h.credits + bounty },
      s!"{name} DOWNED · THE CHARTER BOARD PAYS {thousands bounty} CR")
  else
    (b.deskOwes trader fun a =>
        (a.addCredits bounty).note s!"{name}'S BOUNTY: {thousands bounty} CR",
      h, s!"{name} DOWNED · ITS {thousands bounty} CR BOUNTY WAITS FOR YOU AT THE CHARTER BOARD'S DESK")

/-- The beam rifle a flight certificate earns, once a hangar: one from the colony's desk, or
its worth in credits. -/
def certify (b : Board) (h : Hangar) (trader : Trader) (ex : Exchange) :
    Board × Hangar × Exchange × Option String :=
  if h.certified then (b, h, ex, none)
  else
    let h := { h with certified := true }
    let rifle := Item.weapon .beamRifle
    let (ex, n) := ex.colonyIssue rifle 1
    if n = 1 then
      (b.deskOwes trader fun a => (a.addGoods rifle 1).note
          "FROM THE CHARTER BOARD, FOR YOUR FLIGHT CERTIFICATE: A BEAM RIFLE, TO YOUR STORES",
        h, ex,
        some "THE CHARTER BOARD HAS YOUR FLIGHT CERTIFICATE · A BEAM RIFLE WAITS FOR YOU AT ITS DESK, ON CHARTER SQUARE")
    else
      let v := value rifle
      let b := { b with colonyPaid := b.colonyPaid + v }
      (b.deskOwes trader fun a => (a.addCredits v).note
          s!"FROM THE CHARTER BOARD, FOR YOUR FLIGHT CERTIFICATE: {thousands v} CR",
        h, ex,
        some s!"THE CHARTER BOARD HAS YOUR FLIGHT CERTIFICATE · A BEAM RIFLE'S WORTH, {thousands v} CR, WAITS FOR YOU AT ITS DESK, ON CHARTER SQUARE")

/-- Hands a pilot what they are owed, with its notes. -/
def collect (b : Board) (h : Hangar) (trader : Trader) : Board × Hangar × List String :=
  match b.accounts.get? trader with
  | none => (b, h, [])
  | some a => ({ b with accounts := b.accounts.erase trader }, h.receive a, a.notes)

def collectAtDesk (b : Board) (h : Hangar) (trader : Trader) : Board × Hangar × List String :=
  match b.atDesk.get? trader with
  | none => (b, h, [])
  | some a => ({ b with atDesk := b.atDesk.erase trader }, h.receive a, a.notes)

def postContract (b : Board) (issuer : Option Trader) (issuerName : String) (task : Task)
    (reward now secs : ℕ) : Board × ℕ :=
  let id := b.nextId
  ({ b with
      nextId := b.nextId + 1
      contracts := b.contracts.insert id
        { id, issuer, issuerName, task, reward, paid := 0, posted := now, expires := now + secs
          holder := none } },
    id)

def closeText (c : Contract) (why : String) : String :=
  if 0 < c.unpaid then s!"{c.label} {why} · {thousands c.unpaid} CR BACK FROM ESCROW"
  else s!"{c.label} {why}"

/-- A pilot issuer gets back what their contract hasn't paid. -/
def giveBack (b : Board) (c : Contract) (why : String) : Board :=
  match c.issuer with
  | none => b
  | some issuer => b.owe issuer fun a => (a.addCredits c.unpaid).note (closeText c why)

/-- A patrol's holder hears that its time ran out. -/
def tellHolder (b : Board) (c : Contract) (why : String) : Board :=
  match c.holder with
  | none => b
  | some holder =>
    if why = "EXPIRED" then b.owe holder fun a => a.note s!"{c.label} (PATROL) RAN OUT OF TIME"
    else b

def close (b : Board) (id : ℕ) (why : String) : Board :=
  match b.contracts.get? id with
  | none => b
  | some c =>
    (({ b with contracts := b.contracts.erase id }).giveBack c why).tellHolder c why

/-- The colony's open contracts of one kind. -/
def openCount (b : Board) (patrol : Bool) : ℕ :=
  b.contracts.values.countP fun c => c.issuer.isNone && c.task.isPatrol == patrol

/-- What the colony's supply contracts ask for. -/
def asked (b : Board) : List Item :=
  b.contracts.values.filterMap fun c =>
    match c.task with
    | .supply item _ _ => if c.issuer.isNone then some item else none
    | .patrol _ _ => none

/-- The share the colony's desk has of what it wants of an item. -/
def short (ex : Exchange) (item : Item) : ℚ :=
  let target : ℚ := (desk item).elim 1 fun d => d.target
  (ex.colonyStock item).getD target / max target 1

/-- The job the colony is shortest of, among those it isn't asking for. -/
def nextJob (b : Board) (ex : Exchange) : Option (Item × ℕ) :=
  (supplyJobs.filter fun job => job.1 ∉ b.asked).foldl
    (fun best job =>
      match best with
      | none => some job
      | some x =>
        if short ex job.1 < short ex x.1 ∨ short ex job.1 = short ex x.1 ∧ job.1 < x.1 then some job
        else some x) none

/-- Posts supply contracts until the colony has `colonySupply` open or nothing to ask for; each
round posts one, so `colonySupply` rounds do. -/
def postSupply (ex : Exchange) (now : ℕ) : ℕ → Board → Board × Bool
  | 0, b => (b, false)
  | rounds + 1, b =>
    if b.openCount false < colonySupply then
      match b.nextJob ex with
      | none => (b, false)
      | some (item, qty) =>
        let task := Task.supply item qty 0
        let (b, _) := b.postContract none "THE COLONY" task (priced item qty supplyPct) now supplySecs
        ((postSupply ex now rounds b).1, true)
    else (b, false)

def postPatrols (now : ℕ) : ℕ → Board → Board × Bool
  | 0, b => (b, false)
  | rounds + 1, b =>
    if b.openCount true < colonyPatrols then
      let (b, _) :=
        b.postContract none "THE MILITIA" (.patrol patrolBounty 0) patrolReward now patrolStandsSecs
      ((postPatrols now rounds b).1, true)
    else (b, false)

/-- The clock at `now`: contracts expire, and the colony posts what it needs. -/
def tick (b : Board) (now : ℕ) (ex : Exchange) : Board × Bool :=
  let expired := (b.contracts.values.filter fun c => c.expires ≤ now).map Contract.id
  let b := expired.foldl (fun b id => b.close id "EXPIRED") b
  let (b, supplied) := postSupply ex now colonySupply b
  let (b, patrolled) := if b.patrols then postPatrols now colonyPatrols b else (b, false)
  (b, !expired.isEmpty || supplied || patrolled)

def postRefusal (b : Board) (h : Hangar) (trader : Trader) (item : Item) (qty reward hours : ℕ) :
    Option String :=
  if ¬ item.valid then some "no such item"
  else if qty = 0 ∨ maxQty < qty then some "that's not a quantity"
  else if reward = 0 then some "a contract has to pay something"
  else if hours = 0 ∨ maxHours < hours then some s!"a contract stands from 1 to {maxHours} hours"
  else if maxPosted ≤ b.contracts.values.countP fun c => c.issuer = some trader then
    some s!"you have {maxPosted} contracts posted already"
  else if h.credits < reward then
    some s!"that needs {thousands reward} cr, and you have {thousands h.credits}"
  else none

/-- A pilot posts a supply contract, its reward into escrow from their hangar. -/
def post (p : Platform) (b : Board) (h : Hangar) (trader : Trader) (name : String) (item : Item)
    (qty reward hours now : ℕ) : Board × Hangar × Done :=
  match b.postRefusal h trader item qty reward hours with
  | some why => (b, h, .error why)
  | none =>
    let h := { h with credits := h.credits - reward }
    let b := b.rename trader name
    let (b, id) :=
      b.postContract (some trader) name (.supply item qty 0) reward now (hours * 3600)
    (b, h, .ok s!"CONTRACT #{id} POSTED: {item.amount qty} {p.toUppercase item.name} FOR {thousands reward} CR (IN ESCROW)")

/-- The issuer takes their contract down. -/
def withdraw (b : Board) (h : Hangar) (trader : Trader) (id : ℕ) : Board × Hangar × Done :=
  match b.contracts.get? id with
  | none => (b, h, .error "no such contract")
  | some c =>
    if c.issuer ≠ some trader then (b, h, .error "that isn't your contract")
    else
      let (b, h, notes) := (b.close id "WITHDRAWN").collect h trader
      (b, h, .ok (" · ".intercalate notes))

def noneToDeliver (item : Item) : String :=
  match item with
  | .part _ _ => s!"you have no new {item.name} to deliver"
  | _ => s!"you have no {item.name} to deliver"

def deliveredTo (c : Contract) (item : Item) (wanted delivered n pay : ℕ) : Contract :=
  { c with paid := c.paid + pay, task := .supply item wanted (delivered + n) }

/-- Where delivered goods go: to the colony's desk, or to the pilot who asked for them. -/
def passOn (p : Platform) (b : Board) (ex : Exchange) (id : ℕ) (c : Contract) (trader : Trader)
    (name : String) (item : Item) (n pay : ℕ) : Board × Exchange :=
  match c.issuer with
  | none => (b.colonyPays trader pay, ex.colonyReceive item n)
  | some issuer =>
    (b.owe issuer fun a => (a.addGoods item n).note
      s!"CONTRACT #{id}: {p.toUppercase name} DELIVERED {item.amount n} {p.toUppercase item.name}",
      ex)

def retire (b : Board) (id : ℕ) (c : Contract) : Board :=
  let b :=
    match c.issuer with
    | none => b
    | some issuer => b.owe issuer fun a => a.note s!"CONTRACT #{id} FILLED"
  { b with contracts := b.contracts.erase id }

/-- Delivers up to `qty` toward a supply contract, paid pro rata. -/
def deliver (p : Platform) (b : Board) (h : Hangar) (ex : Exchange) (trader : Trader)
    (name : String) (id qty now : ℕ) : Board × Hangar × Exchange × Done :=
  match b.contracts.get? id with
  | none => (b, h, ex, .error "no such contract")
  | some c =>
    match c.task with
    | .patrol _ _ => (b, h, ex, .error "that's a patrol: take it, and fly it")
    | .supply item wanted delivered =>
      if c.issuer = some trader then (b, h, ex, .error "that's your own contract")
      else if c.expires ≤ now then (b, h, ex, .error "that contract has expired")
      else
        let n := min (min qty (wanted - delivered)) (h.stores.get item)
        if n = 0 then (b, h, ex, .error (noneToDeliver item))
        else
          match h.stores.take item n with
          | none => (b, h, ex, .error "the stores couldn't release that")
          | some stores =>
            let pay := c.payFor (delivered + n) wanted - c.payFor delivered wanted
            let h := { h with stores, credits := h.credits + pay }
            let b := { b with
              contracts := b.contracts.insert id (deliveredTo c item wanted delivered n pay) }
            let (b, ex) := passOn p (b.rename trader name) ex id c trader name item n pay
            let filled := delivered + n = wanted
            let b := if filled then b.retire id c else b
            let tail := if filled then s!" · CONTRACT #{id} FILLED" else ""
            (b, h, ex, .ok s!"DELIVERED {item.amount n} {p.toUppercase item.name} · PAID {thousands pay} CR{tail}")

def take (b : Board) (trader : Trader) (name : String) (id now : ℕ) : Board × Done :=
  if b.contracts.values.any fun c => c.holder = some trader then
    (b, .error "you're flying a patrol already")
  else
    match b.contracts.get? id with
    | none => (b, .error "no such contract")
    | some c =>
      match c.task with
      | .supply _ _ _ => (b, .error "there's nothing to take: deliver it")
      | .patrol bounty _ =>
        if c.holder.isSome then (b, .error "another pilot is flying that patrol")
        else
          let c := { c with holder := some trader, expires := now + patrolSecs }
          ((({ b with contracts := b.contracts.insert id c }).rename trader name),
            .ok s!"PATROL #{id} TAKEN · DOWN DRONES FOR {thousands bounty} CR OF BOUNTIES WITHIN THE HOUR")

/-- A patrol with nothing earned towards it. -/
def unearned : Task → Task
  | .patrol bounty _ => .patrol bounty 0
  | task => task

def dropPatrol (b : Board) (trader : Trader) (id now : ℕ) : Board × Done :=
  match b.contracts.get? id with
  | none => (b, .error "no such contract")
  | some c =>
    if c.holder ≠ some trader then (b, .error "that isn't your patrol")
    else
      let c := { c with
        holder := none, task := unearned c.task, expires := now + patrolStandsSecs }
      ({ b with contracts := b.contracts.insert id c }, .ok s!"PATROL #{id} GIVEN UP")

/-- A sortie's bounties count toward the patrol its pilot holds, which pays once it is flown. -/
def bounties (p : Platform) (b : Board) (h : Hangar) (trader : Trader) (bounty now : ℕ)
    (atDesk : Bool) : Board × Hangar × List String :=
  if bounty = 0 then (b, h, [])
  else
    match b.contracts.entries.find? fun e => e.2.holder = some trader ∧ now < e.2.expires with
    | none => (b, h, [])
    | some (key, c) =>
      match c.task with
      | .supply _ _ _ => (b, h, [])
      | .patrol target earned =>
        let earned := min (earned + bounty) target
        let b := { b with
          contracts := b.contracts.insert key { c with task := .patrol target earned } }
        if earned < target then
          (b, h, [s!"PATROL #{c.id}: {thousands earned} OF {thousands target} CR"])
        else
          let who := p.toUppercase c.issuerName
          let n := thousands c.reward
          let b := ({ b with contracts := b.contracts.erase c.id }).colonyPays trader c.reward
          let h := h.boardPaid (sheetLabel s!"PATROL #{c.id}" atDesk) c.reward
          if ¬ atDesk then
            (b.owe trader fun a => a.addCredits c.reward, h,
              [s!"PATROL #{c.id} FLOWN · {who} PAYS {n} CR"])
          else
            (b.deskOwes trader fun a =>
                (a.addCredits c.reward).note s!"PATROL #{c.id}: {who}'S {n} CR",
              h, [s!"PATROL #{c.id} FLOWN · {who}'S {n} CR WAITS FOR YOU AT THE CHARTER BOARD'S DESK"])

def contributed (pr : Progress) (trader : Trader) (item : Item) (n pay : ℕ) : Progress :=
  { pr with
    delivered := pr.delivered.update item 0 (· + n)
    contributors := pr.contributors.update trader 0 (· + pay) }

def finish (b : Board) (work : Work) (now : ℕ) : Board :=
  let b := { b with works := b.works.update work Progress.empty fun pr => { pr with done := some now } }
  let b := b.announce work.finished
  if b.voteOpen then
    b.announce "THE CHARTER VOTE IS OPEN · PILOTS OF STANDING, SIGN AT THE CHARTER BOARD"
  else b

/-- Delivers up to `qty` of an item toward a great work, paid by the colony. -/
def contribute (p : Platform) (b : Board) (h : Hangar) (trader : Trader) (name : String)
    (work : Work) (item : Item) (qty now : ℕ) : Board × Hangar × Done :=
  if work.era ≠ b.era ∨ b.done work then (b, h, .error s!"{work.name} is finished")
  else
    match work.needs.find? fun e => e.1 = item with
    | none => (b, h, .error s!"{work.name} doesn't need {item.name}")
    | some (_, need) =>
      let have_ := (b.progress work).delivered.getD item 0
      let n := min (min qty (need - have_)) (h.stores.get item)
      if n = 0 then
        (b, h, .error (if need ≤ have_ then s!"{work.name} has all the {item.name} it needs"
          else s!"you have no {item.name} to deliver"))
      else
        match h.stores.take item n with
        | none => (b, h, .error "the stores couldn't release that")
        | some stores =>
          let pay := priced item n worksPct
          let h := { h with stores, credits := h.credits + pay }
          let b := (b.rename trader name).colonyPays trader pay
          let pr := contributed (b.progress work) trader item n pay
          let b := { b with works := b.works.insert work pr }
          let complete := work.needs.all fun e => e.2 ≤ pr.delivered.getD e.1 0
          let text := s!"{p.toUppercase work.name}: DELIVERED {item.amount n} {p.toUppercase item.name} · PAID {thousands pay} CR"
          if complete then (b.finish work now, h, .ok (text ++ " · FINISHED"))
          else (b, h, .ok text)

def sign (b : Board) (trader : Trader) (name : String) (now : ℕ) : Board × Done :=
  if b.done .charterVote then (b, .error "the charter is signed")
  else if ¬ b.voteOpen then
    (b, .error "the vote opens once the colony's great works are finished")
  else if b.standingOf trader = 0 then
    (b, .error "only pilots of standing sign: deliver to the colony's contracts or works first")
  else if trader ∈ b.signatures then (b, .error "you've signed already")
  else
    let b := b.rename trader name
    let b := { b with signatures := b.signatures ++ [trader] }
    let n := b.signatures.length
    if n < signaturesNeeded then (b, .ok s!"YOU SIGNED THE CHARTER · {n} OF {signaturesNeeded}")
    else
      let b := { b with
        works := b.works.update .charterVote Progress.empty fun pr => { pr with done := some now }
        era := 1 }
      (b.announce Work.charterVote.finished, .ok "YOU SIGNED THE CHARTER · IT IS ADOPTED")

end Board

end BeforeColony
