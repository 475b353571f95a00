import BeforeColony.Econ.Hangar

/-!
# The register of homes

Who holds which flat or house, what its panel holds to pay the rent with, its lock, its furniture
and what that holds. A flat is rented, its rent spent from its panel by the hour, and lapses when
that runs dry; a home bought and left a month is sold back. What either held waits for its holder
in their bay. The city itself, its rents and where furniture fits, is a parameter.
-/

set_option autoImplicit false

namespace BeforeColony

open Lib Hangar

/-- A subtraction of unsigned numbers: there is no result below zero. -/
def checkedSub (a b : ℕ) : Option ℕ := if b ≤ a then some (a - b) else none

theorem checkedSub_of_le {a b : ℕ} (h : b ≤ a) : checkedSub a b = some (a - b) := if_pos h

def hourS : ℕ := 3600

def graceS : ℕ := 24 * hourS

/-- A home bought and left unvisited this long is sold back. -/
def abandonedS : ℕ := 30 * 24 * hourS

def sellBackPct : ℕ := 80

def maxHeld : ℕ := 2

def furnitureBackPct : ℕ := 50

def maxPieces : ℕ := 64

/-- Wrong codes: the shock's step, how long until the streak is forgiven, how many in a row shut
the keypad, and for how long. -/
def shockStepHp : ℕ := 5
def shockResetS : ℕ := 10
def lockoutTries : ℕ := 8
def lockoutS : ℕ := 15 * 60

def crewCap : ℕ := 10
def guestCap : ℕ := 8

def maxWeeks : ℕ := 8

def knocksKept : ℕ := 32

def codeMax : ℕ := 9999

inductive Furniture where
  | bed | sofa | armchair | table | chair | kitchen | wardrobe | chest | safe | lamp | screen
  | plant | rug | suitModel
  deriving DecidableEq, Repr

namespace Furniture

def all : List Furniture :=
  [bed, sofa, armchair, table, chair, kitchen, wardrobe, chest, safe, lamp, screen, plant, rug,
    suitModel]

def slug : Furniture → String
  | bed => "bed" | sofa => "sofa" | armchair => "armchair" | table => "table"
  | chair => "chair" | kitchen => "kitchen" | wardrobe => "wardrobe" | chest => "chest"
  | safe => "safe" | lamp => "lamp" | screen => "screen" | plant => "plant" | rug => "rug"
  | suitModel => "suit_model"

def name : Furniture → String
  | bed => "a bed" | sofa => "a sofa" | armchair => "an armchair" | table => "a table"
  | chair => "a chair" | kitchen => "a kitchen line" | wardrobe => "a wardrobe"
  | chest => "a chest" | safe => "a safe" | lamp => "a lamp" | screen => "a screen"
  | plant => "a plant" | rug => "a rug" | suitModel => "a model of your suit"

def price : Furniture → ℕ
  | bed => 900 | sofa => 700 | armchair => 300 | table => 350 | chair => 80 | kitchen => 1200
  | wardrobe => 450 | chest => 250 | safe => 2500 | lamp => 120 | screen => 600 | plant => 60
  | rug => 200 | suitModel => 1500

def holds : Furniture → ℕ
  | chest => 12
  | safe => 6
  | _ => 0

def ofSlug (slug : String) : Option Furniture := all.find? fun f => f.slug = slug

def back (f : Furniture) : ℕ := f.price * furnitureBackPct / 100

end Furniture

/-- A home, by its id: whether it is a house or a flat on its building's top storey. -/
structure Home where
  id : ℕ
  house : Bool
  top : Bool
  deriving DecidableEq, Repr

def Home.bought (h : Home) : Bool := h.house || h.top

inductive Tenure where
  /-- Rented: what its panel holds, until when it's been charged, since when it's been unpaid. -/
  | lease (bank chargedTo : ℕ) (unpaidSince : Option ℕ)
  | deed (paid seen : ℕ)
  deriving DecidableEq, Repr

def Tenure.bank : Tenure → ℕ
  | lease bank _ _ => bank
  | deed _ _ => 0

def Tenure.upTo : Tenure → ℕ
  | .lease _ chargedTo _ => chargedTo
  | .deed _ seen => seen

def Tenure.holdAt (now : ℕ) : Tenure → Tenure
  | .lease bank chargedTo unpaidSince => .lease bank (max chargedTo now) unpaidSince
  | .deed paid seen => .deed paid (max seen now)

structure Lock where
  code : Option ℕ
  guestCode : Option ℕ
  locked : Bool
  crew : List Trader
  guests : List Trader
  misses : ℕ
  lastMiss : ℕ
  shutUntil : ℕ
  deriving DecidableEq, Repr

namespace Lock

def key (holder : Trader) : Lock := ⟨none, none, true, [holder], [], 0, 0, 0⟩

def isCrew (l : Lock) (who : Trader) : Bool := who ∈ l.crew

def passes (l : Lock) (who : Trader) : Bool := !l.locked || l.isCrew who || who ∈ l.guests

end Lock

structure Piece where
  id : ℕ
  kind : Furniture
  s : ℕ
  x : ℕ
  turn : ℕ
  storey : ℕ
  holds : List (Item × ℕ)
  deriving DecidableEq, Repr

structure Asleep where
  piece : ℕ
  who : Trader
  name : String
  deriving DecidableEq, Repr

structure Held where
  holder : Trader
  name : String
  tenure : Tenure
  lock : Lock
  isOpen : Bool
  since : ℕ
  pieces : List Piece
  nextPiece : ℕ
  asleep : List Asleep
  deriving DecidableEq, Repr

/-- The city: its homes, what each rents and sells for, what an hour's rent comes to with so many
on its crew, and whether a piece fits where it's put, among the others but the one being moved. -/
structure City where
  home : ℕ → Option Home
  rent : Home → ℕ
  price : Home → ℕ
  hourly : Home → ℕ → ℕ
  address : Home → String
  placed : ℕ → Held → Piece → Option ℕ → Except String Unit

def City.sellBack (c : City) (h : Home) : ℕ := c.price h * sellBackPct / 100

inductive Entered where
  | crew
  | guest
  | wrong (shock : ℕ) (shut : Bool)
  | shut
  deriving DecidableEq, Repr

structure Knock where
  seq : ℕ
  home : ℕ
  name : String
  deriving DecidableEq, Repr

/-- The register, with what the colony has taken and paid. -/
structure Homes where
  held : Table ℕ Held
  accounts : Table Trader Account
  knocks : List Knock
  knockSeq : ℕ
  rentTaken : ℕ
  soldFor : ℕ
  paidBack : ℕ
  furnitureSold : ℕ
  furnitureBack : ℕ

namespace Homes

/-- What a request leaves, if no subtraction on the way went below zero. -/
abbrev Outcome := Option (Homes × Hangar × Done)

def new : Homes := ⟨Table.empty, Table.empty, [], 0, 0, 0, 0, 0, 0⟩

def of (r : Homes) (who : Trader) : List ℕ :=
  (r.held.entries.filter fun e => e.2.holder = who).map Prod.fst

/-- Whether `who` may go in: nobody holds it, its door's open, or its lock lets them by. -/
def mayEnter (r : Homes) (id : ℕ) (who : Trader) : Bool :=
  (r.held.get? id).all fun h => h.isOpen || h.lock.passes who

def heldBy (r : Homes) (id : ℕ) (who : Trader) : Except String Held :=
  match r.held.get? id with
  | some h => if h.holder = who then .ok h else .error "that home isn't yours"
  | none => .error "nobody holds that home"

def crewOf (r : Homes) (id : ℕ) (who : Trader) : Except String Held :=
  match r.held.get? id with
  | some h => if h.lock.isCrew who then .ok h else .error "you're not on its panel's crew"
  | none => .error "nobody holds that home"

def canTake (r : Homes) (home : Home) (who : Trader) : Except String Unit :=
  if who.isEmpty || who.startsWith "guest-" then
    .error "a home needs a pilot's record: sign in with a wallet"
  else if r.held.contains home.id then .error "someone holds that home already"
  else if maxHeld ≤ (r.of who).length then .error s!"you hold {maxHeld} homes already"
  else .ok ()

def newlyHeld (who : Trader) (name : String) (tenure : Tenure) (now : ℕ) : Held :=
  ⟨who, name, tenure, Lock.key who, false, now, [], 0, []⟩

def rent (c : City) (r : Homes) (home : Home) (who : Trader) (name : String) (weeks : ℕ)
    (hangar : Hangar) (now : ℕ) : Outcome :=
  if home.bought then some (r, hangar, .error "that home is bought, not rented")
  else
    match r.canTake home who with
    | .error why => some (r, hangar, .error why)
    | .ok () =>
      let weeks := max 1 (min weeks maxWeeks)
      let cost := c.rent home * weeks
      if hangar.credits < cost then
        some (r, hangar, .error s!"{weeks} weeks' rent is {thousands cost} cr")
      else do
        let credits ← checkedSub hangar.credits cost
        let held := newlyHeld who name (.lease cost now none) now
        some ({ r with held := r.held.insert home.id held }, { hangar with credits },
          .ok s!"{c.address home} IS YOURS · {weeks} WEEKS' RENT ON ITS PANEL · {thousands cost} CR")

def buy (c : City) (r : Homes) (home : Home) (who : Trader) (name : String) (hangar : Hangar)
    (now : ℕ) : Outcome :=
  if ¬ home.bought then some (r, hangar, .error "that home is rented, not bought")
  else
    match r.canTake home who with
    | .error why => some (r, hangar, .error why)
    | .ok () =>
      let cost := c.price home
      if hangar.credits < cost then some (r, hangar, .error s!"it's {thousands cost} cr")
      else do
        let credits ← checkedSub hangar.credits cost
        let held := newlyHeld who name (.deed cost now) now
        some ({ r with soldFor := r.soldFor + cost, held := r.held.insert home.id held },
          { hangar with credits }, .ok s!"{c.address home} IS YOURS · BOUGHT FOR {thousands cost} CR")

/-- A home's furniture sold back, and what its chests and safes held. -/
def clearedOut (r : Homes) (h : Held) : Homes × ℕ × List (Item × ℕ) :=
  let back := (h.pieces.map fun p => p.kind.back).sum
  ({ r with furnitureBack := r.furnitureBack + back }, back, h.pieces.flatMap Piece.holds)

def putAway (s : Stores) (goods : List (Item × ℕ)) : Stores :=
  goods.foldl (fun s e => s.add e.1 e.2) s

/-- Gives a home up: a lease's rent is handed back, a deed sold back to the colony. -/
def giveUp (c : City) (r : Homes) (id : ℕ) (who : Trader) (hangar : Hangar) : Outcome :=
  match r.heldBy id who with
  | .error why => some (r, hangar, .error why)
  | .ok held =>
    let place := (c.home id).elim "IT" c.address
    let r := { r with held := r.held.erase id }
    let (r, cr, goods) := r.clearedOut held
    let hangar := { hangar with
      credits := hangar.credits + cr
      stores := putAway hangar.stores goods }
    match held.tenure with
    | .lease bank _ _ =>
      some (r, { hangar with credits := hangar.credits + bank },
        .ok s!"{place} GIVEN UP · {thousands bank} CR OF RENT BACK")
    | .deed _ _ =>
      let back := (c.home id).elim 0 c.sellBack
      some ({ r with paidBack := r.paidBack + back },
        { hangar with credits := hangar.credits + back },
        .ok s!"{place} SOLD BACK TO THE COLONY · {thousands back} CR")

def remember (list : List Trader) (who : Trader) (cap : ℕ) : List Trader × Bool :=
  if who ∈ list then (list, true)
  else if cap ≤ list.length then (list, false)
  else (list ++ [who], true)

def setHeld (r : Homes) (id : ℕ) (h : Held) : Homes := { r with held := r.held.insert id h }

def enterCode (r : Homes) (id : ℕ) (who : Trader) (code now : ℕ) : Homes × Except String Entered :=
  if codeMax < code then (r, .error "a code is four digits")
  else
    match r.held.get? id with
    | none => (r, .error "nobody holds that home")
    | some h =>
      let l := h.lock
      if now < l.shutUntil then (r, .ok .shut)
      else
        -- The shutter ran out: a fresh ladder of misses.
        let l := if l.shutUntil ≠ 0 then { l with shutUntil := 0, misses := 0 } else l
        let put (l : Lock) := r.setHeld id { h with lock := l }
        if some code = l.code then
          let (crew, remembered) := remember l.crew who crewCap
          let l := { l with crew }
          if ¬ remembered then (put l, .error "its lock remembers as many as it can")
          else (put { l with misses := 0 }, .ok .crew)
        else if some code = l.guestCode then
          -- Crew who enter the guest code stay crew.
          let (guests, remembered) :=
            if l.isCrew who then (l.guests, true) else remember l.guests who guestCap
          let l := { l with guests }
          if ¬ remembered then (put l, .error "its lock remembers as many as it can")
          else (put { l with misses := 0 }, .ok .guest)
        else
          let step := if shockResetS < now - l.lastMiss then 1 else l.misses + 1
          let misses := min (l.misses + 1) 255
          let shut := decide (lockoutTries ≤ misses)
          let l := { l with
            misses
            lastMiss := now
            shutUntil := if shut then now + lockoutS else l.shutUntil }
          (put l, .ok (.wrong (min (shockStepHp * step) 65535) shut))

def setCode (r : Homes) (id : ℕ) (who : Trader) (guest : Bool) (code : Option ℕ) : Homes × Done :=
  if code.any (codeMax < ·) then (r, .error "a code is four digits")
  else
    match r.crewOf id who with
    | .error why => (r, .error why)
    | .ok h =>
      if guest then
        (r.setHeld id { h with lock := { h.lock with guestCode := code, guests := [] } },
          .ok (if code.isSome then "THE GUEST CODE IS SET · ITS GUESTS FORGOTTEN"
            else "NO GUEST CODE NOW · ITS GUESTS FORGOTTEN"))
      else
        match code with
        | none => (r, .error "the main code can't be cleared, only changed")
        | some code =>
          let lock := { h.lock with
            code := some code
            guestCode := none
            locked := true
            guests := []
            crew := (remember [h.holder] who crewCap).1
            misses := 0
            shutUntil := 0 }
          (r.setHeld id { h with lock, asleep := h.asleep.filter fun a => lock.isCrew a.who },
            .ok "THE CODE IS SET · ITS LISTS CLEARED · LOCKED")

def setLocked (r : Homes) (id : ℕ) (who : Trader) (locked : Bool) : Homes × Done :=
  match r.crewOf id who with
  | .error why => (r, .error why)
  | .ok h =>
    (r.setHeld id { h with lock := { h.lock with locked } },
      .ok (if locked then "LOCKED" else "UNLOCKED · ANYONE CAN COME IN"))

def door (r : Homes) (id : ℕ) (who : Trader) (isOpen : Bool) : Homes × Done :=
  match r.held.get? id with
  | none => (r, .error "nobody holds that home")
  | some h =>
    if ¬ h.lock.passes who then (r, .error "it's locked")
    else (r.setHeld id { h with isOpen }, .ok (if isOpen then "OPEN" else "SHUT"))

def leaveCrew (r : Homes) (id : ℕ) (who : Trader) : Homes × Done :=
  match r.held.get? id with
  | none => (r, .error "nobody holds that home")
  | some h =>
    if h.holder = who then (r, .error "its holder is always on its crew")
    else
      (r.setHeld id { h with
        lock := { h.lock with
          crew := h.lock.crew.filter (· ≠ who)
          guests := h.lock.guests.filter (· ≠ who) }
        asleep := h.asleep.filter fun a => a.who ≠ who }, .ok "OFF ITS CREW")

def clearCrew (r : Homes) (id : ℕ) (who : Trader) : Homes × Done :=
  match r.crewOf id who with
  | .error why => (r, .error why)
  | .ok h =>
    let lock := { h.lock with crew := h.lock.crew.filter (fun c => c = h.holder ∨ c = who), guests := [] }
    (r.setHeld id { h with lock, asleep := h.asleep.filter fun a => lock.isCrew a.who },
      .ok "ITS CREW IS CLEARED")

def feed (r : Homes) (id credits : ℕ) (hangar : Hangar) : Outcome :=
  match r.held.get? id with
  | none => some (r, hangar, .error "nobody holds that home")
  | some h =>
    match h.tenure with
    | .deed _ _ => some (r, hangar, .error "a home bought has no rent")
    | .lease bank chargedTo unpaidSince =>
      if credits = 0 ∨ hangar.credits < credits then
        some (r, hangar, .error "you haven't the credits")
      else do
        let left ← checkedSub hangar.credits credits
        let bank := bank + credits
        some (r.setHeld id { h with tenure := .lease bank chargedTo unpaidSince },
          { hangar with credits := left },
          .ok s!"{thousands credits} CR ON ITS PANEL · {thousands bank} CR IN ALL")

def withdraw (r : Homes) (id : ℕ) (who : Trader) (credits : ℕ) (hangar : Hangar) : Outcome :=
  match r.crewOf id who with
  | .error why => some (r, hangar, .error why)
  | .ok h =>
    match h.tenure with
    | .deed _ _ => some (r, hangar, .error "a home bought has no rent")
    | .lease bank chargedTo unpaidSince =>
      if credits = 0 ∨ bank < credits then
        some (r, hangar, .error s!"its panel holds {thousands bank} cr")
      else do
        let bank ← checkedSub bank credits
        some (r.setHeld id { h with tenure := .lease bank chargedTo unpaidSince },
          { hangar with credits := hangar.credits + credits },
          .ok s!"{thousands credits} CR OFF ITS PANEL")

def knock (r : Homes) (id : ℕ) (name : String) : Homes × Done :=
  if ¬ r.held.contains id then (r, .error "nobody's home: nobody holds it")
  else
    let seq := r.knockSeq + 1
    let knocks := r.knocks ++ [⟨seq, id, name⟩]
    ({ r with
      knockSeq := seq
      knocks := if knocksKept < knocks.length then knocks.tail else knocks }, .ok "YOU KNOCK")

/-- The holder of a home is in it: a bought home isn't abandoned. -/
def visited (r : Homes) (id : ℕ) (who : Trader) (now : ℕ) : Homes :=
  match r.held.get? id with
  | none => r
  | some h =>
    if h.holder ≠ who then r
    else
      match h.tenure with
      | .lease _ _ _ => r
      | .deed paid _ => r.setHeld id { h with tenure := .deed paid now }

/-- The register with the colony's inside closed: nothing is spent, lapses or is sold back. And
whether anything changed. -/
def hold (r : Homes) (now : ℕ) : Homes × Bool :=
  ({ r with held := r.held.mapVal fun _ h => { h with tenure := h.tenure.holdAt now } },
    r.held.values.any fun h => h.tenure.upTo < now)

/-- The register as it is being charged, the homes that are gone, and whether anything changed. -/
structure Charged where
  reg : Homes
  gone : List (ℕ × String)
  changed : Bool

/-- Charges a lease its rent by the hour from its panel, and finds what has lapsed or been left. -/
def charge (c : City) (now : ℕ) (t : Charged) (id : ℕ) : Option Charged :=
  match t.reg.held.get? id, c.home id with
  | some h, some home =>
    match h.tenure with
    | .lease bank chargedTo unpaidSince =>
      let hours := (now - chargedTo) / hourS
      if hours = 0 then some t
      else do
        let per := max (c.hourly home h.lock.crew.length) 1
        let due := per * hours
        let paid := min due bank
        let bank ← checkedSub bank paid
        -- Unpaid from the hour its panel ran dry.
        let since := unpaidSince.getD (chargedTo + paid / per * hourS)
        let unpaid := decide (paid < due)
        let reg := t.reg.setHeld id { h with
          tenure := .lease bank (chargedTo + hours * hourS) (if unpaid then some since else none) }
        let gone := if unpaid ∧ graceS ≤ now - since
          then [(id, s!"{c.address home} LAPSED: ITS RENT WENT UNPAID")] else []
        some ⟨{ reg with rentTaken := reg.rentTaken + paid }, t.gone ++ gone, true⟩
    | .deed _ seen =>
      let gone := if abandonedS ≤ now - seen
        then [(id, s!"{c.address home} SOLD BACK: NOBODY HAD BEEN IN IT FOR A MONTH")] else []
      some { t with gone := t.gone ++ gone }
  | _, _ => some t

/-- A home gone: what it held waits for its holder. -/
def lapse (c : City) (r : Homes) (gone : ℕ × String) : Homes :=
  match r.held.get? gone.1 with
  | none => r
  | some h =>
    let r := { r with held := r.held.erase gone.1 }
    let back := match h.tenure with
      | .lease bank _ _ => bank
      | .deed _ _ => (c.home gone.1).elim 0 c.sellBack
    let paidBack := match h.tenure with
      | .lease _ _ _ => 0
      | .deed _ _ => back
    let (r, cr, goods) := { r with paidBack := r.paidBack + paidBack }.clearedOut h
    let a := (r.accounts.getD h.holder Account.empty).addCredits (back + cr)
    let a := (goods.foldl (fun a e => a.addGoods e.1 e.2) a).note gone.2
    { r with accounts := r.accounts.insert h.holder a }

/-- The register now: every lease charged, then whatever has lapsed or been left is gone. And
whether anything changed. -/
def tick (c : City) (r : Homes) (now : ℕ) : Option (Homes × Bool) := do
  let t ← r.held.keys.foldlM (charge c now) ⟨r, [], false⟩
  some (t.gone.foldl (lapse c) t.reg, t.changed || !t.gone.isEmpty)

/-- Buys a piece of furniture and puts it down where it fits. -/
def furnish (c : City) (r : Homes) (id : ℕ) (who : Trader) (kind : Furniture)
    (s x turn storey : ℕ) (hangar : Hangar) : Outcome :=
  match r.crewOf id who with
  | .error why => some (r, hangar, .error why)
  | .ok h =>
    if maxPieces ≤ h.pieces.length then
      some (r, hangar, .error s!"a home holds {maxPieces} pieces at most")
    else
      let piece : Piece := ⟨h.nextPiece, kind, s, x, turn % 4, storey, []⟩
      match c.placed id h piece none with
      | .error why => some (r, hangar, .error why)
      | .ok () =>
        if hangar.credits < kind.price then
          some (r, hangar, .error s!"{kind.name} is {thousands kind.price} cr")
        else do
          let credits ← checkedSub hangar.credits kind.price
          let r := r.setHeld id { h with
            nextPiece := (h.nextPiece + 1) % 2 ^ 16
            pieces := h.pieces ++ [piece] }
          some ({ r with furnitureSold := r.furnitureSold + kind.price }, { hangar with credits },
            .ok s!"{kind.name.toUpper} DELIVERED AND PUT DOWN · {thousands kind.price} CR")

def movePiece (c : City) (r : Homes) (id : ℕ) (who : Trader) (piece s x turn storey : ℕ) :
    Homes × Done :=
  match r.crewOf id who with
  | .error why => (r, .error why)
  | .ok h =>
    match h.pieces.findIdx? (fun p => p.id = piece) with
    | none => (r, .error "no such piece")
    | some i =>
      match h.pieces[i]? with
      | none => (r, .error "no such piece")
      | some p =>
        let moved := { p with s, x, turn := turn % 4, storey }
        match c.placed id h moved (some piece) with
        | .error why => (r, .error why)
        | .ok () => (r.setHeld id { h with pieces := h.pieces.set i moved }, .ok "MOVED")

/-- `who` is back, asleep nowhere: the home and the bed they wake in, if it's still theirs to. -/
def wake (r : Homes) (who : Trader) : Homes × Option (ℕ × Piece) :=
  match r.held.entries.find? fun e => e.2.asleep.any fun a => a.who = who with
  | none => (r, none)
  | some (id, h) =>
    match h.asleep.find? fun a => a.who = who with
    | none => (r, none)
    | some a =>
      let bed := if h.lock.isCrew who then h.pieces.find? fun p => p.id = a.piece else none
      (r.setHeld id { h with asleep := h.asleep.eraseP fun a => a.who = who },
        bed.map fun p => (id, p))

/-- Logs out at home, in the free bed nearest where they are. -/
def sleep (r : Homes) (id : ℕ) (who : Trader) (name : String) (far : Piece → ℚ) :
    Homes × Option ℕ :=
  let (r, _) := r.wake who
  match r.held.get? id with
  | none => (r, none)
  | some h =>
    if ¬ h.lock.isCrew who then (r, none)
    else
      let free := h.pieces.filter fun p =>
        p.kind = .bed && !h.asleep.any fun a => a.piece = p.id
      let nearer (best : Option Piece) (p : Piece) : Option Piece :=
        match best with
        | none => some p
        | some b => if far p < far b then some p else some b
      match free.foldl nearer none with
      | none => (r, none)
      | some bed =>
        (r.setHeld id { h with asleep := h.asleep ++ [⟨bed.id, who, name⟩] }, some bed.id)

def sellPiece (r : Homes) (id : ℕ) (who : Trader) (piece : ℕ) (hangar : Hangar) : Outcome :=
  match r.crewOf id who with
  | .error why => some (r, hangar, .error why)
  | .ok h =>
    match h.pieces.find? fun p => p.id = piece with
    | none => some (r, hangar, .error "no such piece")
    | some p =>
      if ¬ p.holds.isEmpty then some (r, hangar, .error "empty it first")
      else if h.asleep.any fun a => a.piece = piece then
        some (r, hangar, .error "someone's asleep in it")
      else
        let back := p.kind.back
        let r := r.setHeld id { h with pieces := h.pieces.eraseP fun p => p.id = piece }
        some ({ r with furnitureBack := r.furnitureBack + back },
          { hangar with credits := hangar.credits + back },
          .ok s!"{p.kind.name.toUpper} SOLD BACK · {thousands back} CR")

/-- What a piece holds with more of an item put away: on the first entry of its kind. -/
def holdMore (item : Item) (qty : ℕ) : List (Item × ℕ) → List (Item × ℕ)
  | [] => [(item, qty)]
  | e :: rest => if e.1 = item then (e.1, e.2 + qty) :: rest else e :: holdMore item qty rest

/-- What it holds with some taken out of the first entry that has so much. -/
def holdLess (item : Item) (qty : ℕ) : List (Item × ℕ) → Option (List (Item × ℕ))
  | [] => some []
  | e :: rest =>
    if e.1 = item ∧ qty ≤ e.2 then do
      let left ← checkedSub e.2 qty
      some (if left = 0 then rest else (e.1, left) :: rest)
    else do
      let rest ← holdLess item qty rest
      some (e :: rest)

def setPiece (pieces : List Piece) (piece : ℕ) (holds : List (Item × ℕ)) : List Piece :=
  match pieces with
  | [] => []
  | p :: rest => if p.id = piece then { p with holds } :: rest else p :: setPiece rest piece holds

def isPart : Item → Bool
  | .part _ _ => true
  | _ => false

/-- Puts goods from the bay's stores into a chest or a safe. -/
def stash (r : Homes) (id : ℕ) (who : Trader) (piece : ℕ) (item : Item) (qty : ℕ)
    (hangar : Hangar) : Outcome :=
  if isPart item ∨ ¬ item.valid ∨ qty = 0 then some (r, hangar, .error "that stays in the bay")
  else
    match r.crewOf id who with
    | .error why => some (r, hangar, .error why)
    | .ok h =>
      match h.pieces.find? fun p => p.id = piece with
      | none => some (r, hangar, .error "no such piece")
      | some p =>
        let holds := p.kind.holds
        if holds = 0 then some (r, hangar, .error "that holds nothing")
        else if ¬ p.holds.any (fun e => e.1 = item) ∧ holds ≤ p.holds.length then
          some (r, hangar, .error s!"it holds {holds} kinds of thing at most")
        else
          match hangar.stores.take item qty with
          | none => some (r, hangar, .error "you haven't that much in your bay")
          | some stores =>
            let pieces := setPiece h.pieces piece (holdMore item qty p.holds)
            some (r.setHeld id { h with pieces }, { hangar with stores },
              .ok s!"{item.amount qty} PUT AWAY")

def unstash (r : Homes) (id : ℕ) (who : Trader) (piece : ℕ) (item : Item) (qty : ℕ)
    (hangar : Hangar) : Outcome :=
  match r.crewOf id who with
  | .error why => some (r, hangar, .error why)
  | .ok h =>
    match h.pieces.find? fun p => p.id = piece with
    | none => some (r, hangar, .error "no such piece")
    | some p =>
      if ¬ p.holds.any (fun e => e.1 = item && qty ≤ e.2 && 0 < qty) then
        some (r, hangar, .error "it doesn't hold that much")
      else do
        let holds ← holdLess item qty p.holds
        some (r.setHeld id { h with pieces := setPiece h.pieces piece holds },
          { hangar with stores := hangar.stores.add item qty },
          .ok s!"{item.amount qty} TAKEN BACK TO YOUR BAY")

/-- What's waiting for `who`, into their hangar, with the news of it. -/
def collect (r : Homes) (hangar : Hangar) (who : Trader) : Homes × Hangar × List String :=
  match r.accounts.get? who with
  | none => (r, hangar, [])
  | some a =>
    ({ r with accounts := r.accounts.erase who }, hangar.receive a,
      a.notes ++ if 0 < a.credits then
        [s!"{thousands a.credits} CR FROM THE COLONY'S REGISTER OF HOMES"] else [])

/-- Credits the register holds: the rent on every panel, and what's waiting in accounts. -/
def holding (r : Homes) : ℕ :=
  (r.held.values.map fun h => h.tenure.bank).sum + (r.accounts.values.map Account.credits).sum

end Homes

inductive HomeRequest where
  | rent (home weeks : ℕ)
  | buy (home : ℕ)
  | giveUp (home : ℕ)
  | enterCode (home code : ℕ)
  | door (home : ℕ) (isOpen : Bool)
  | knock (home : ℕ)
  | setCode (home : ℕ) (guest : Bool) (code : Option ℕ)
  | lock (home : ℕ) (locked : Bool)
  | leaveCrew (home : ℕ)
  | clearCrew (home : ℕ)
  | feed (home credits : ℕ)
  | takeRent (home credits : ℕ)
  | furnish (home : ℕ) (furniture : String) (s x turn storey : ℕ)
  | movePiece (home piece s x turn storey : ℕ)
  | sellPiece (home piece : ℕ)
  | stash (home piece : ℕ) (item : Item) (qty : ℕ)
  | unstash (home piece : ℕ) (item : Item) (qty : ℕ)

def HomeRequest.home : HomeRequest → ℕ
  | .rent home _ | .buy home | .giveUp home | .enterCode home _ | .door home _ | .knock home
  | .setCode home _ _ | .lock home _ | .leaveCrew home | .clearCrew home | .feed home _
  | .takeRent home _ | .furnish home _ _ _ _ _ | .movePiece home _ _ _ _ _ | .sellPiece home _
  | .stash home _ _ _ | .unstash home _ _ _ => home

namespace Homes

def enteredText (addr : String) : Except String Entered → Done
  | .ok .crew => .ok s!"{addr} · THE CODE IS RIGHT · ON ITS CREW"
  | .ok .guest => .ok s!"{addr} · THE GUEST CODE · ITS DOOR WORKS FOR YOU"
  | .ok (.wrong shock false) => .error s!"wrong code: the keypad shocks you ({shock})"
  | .ok (.wrong _ true) => .error "wrong code: the keypad shuts for 15 minutes"
  | .ok .shut => .error "the keypad is shut"
  | .error why => .error why

def serve (c : City) (req : HomeRequest) (hangar : Hangar) (r : Homes) (trader : Trader)
    (name : String) (now : ℕ) : Outcome :=
  match c.home req.home with
  | none => some (r, hangar, .error "there's no home there")
  | some h =>
    let addr := c.address h
    let inPlace (o : Homes × Done) : Outcome := some (o.1, hangar, o.2)
    match req with
    | .rent _ weeks => r.rent c h trader name weeks hangar now
    | .buy _ => r.buy c h trader name hangar now
    | .giveUp id => r.giveUp c id trader hangar
    | .enterCode id code =>
      let (r, entered) := r.enterCode id trader code now
      inPlace (r, enteredText addr entered)
    | .door id isOpen =>
      let (r, done) := r.door id trader isOpen
      inPlace (r, done.map fun s => s!"{addr} · {s}")
    | .knock id => inPlace (r.knock id name)
    | .setCode id guest code => inPlace (r.setCode id trader guest code)
    | .lock id locked => inPlace (r.setLocked id trader locked)
    | .leaveCrew id => inPlace (r.leaveCrew id trader)
    | .clearCrew id => inPlace (r.clearCrew id trader)
    | .feed id credits => r.feed id credits hangar
    | .takeRent id credits => r.withdraw id trader credits hangar
    | .furnish id furniture s x turn storey =>
      match Furniture.ofSlug furniture with
      | some kind => r.furnish c id trader kind s x turn storey hangar
      | none => inPlace (r, .error "there's no such furniture")
    | .movePiece id piece s x turn storey => inPlace (r.movePiece c id trader piece s x turn storey)
    | .sellPiece id piece => r.sellPiece id trader piece hangar
    | .stash id piece item qty => r.stash id trader piece item qty hangar
    | .unstash id piece item qty => r.unstash id trader piece item qty hangar

end Homes

end BeforeColony
