import BeforeColony.Econ.Bay
import BeforeColony.Econ.Body
import BeforeColony.Econ.Charter
import BeforeColony.Econ.Homes

/-!
# The hangar on the wire

What a pilot asks over the control stream, and who does it: the hangar and the exchange, the
Charter Board, or the register of homes. The rest is the server's.
-/

set_option autoImplicit false

namespace BeforeColony.Wire

open Hangar

/-- What the gantry readies for a pilot to board. -/
inductive Trainer where
  | board
  | bay
  | line (line : FrameId)

inductive Request where
  | craft (item : Item) (batches : ℕ)
  | cancelJob (station : Station) (index : ℕ)
  | fit (item : Item)
  | strip (slot : Slot)
  | dismantle
  | repair (part : Option Part)
  | overhaul (part : Option Part)
  | scrap (item : Item)
  | fuel (grade : Grade)
  | order (item : Item) (side : Side) (price qty : ℕ) (rest : Bool)
  | cancelOrder (id : ℕ)
  | watch (item : Option Item)
  | launch
  | launchInside
  | dock
  | enterCity (strip : ℕ)
  | leaveCity
  | enterBase
  | leaveBase
  | boardTrainer
  | trainer (build : Trainer)
  | aceTerms (salvage : Bool)
  | eat (dish : Dish)
  | post (item : Item) (qty reward hours : ℕ)
  | withdraw (id : ℕ)
  | deliver (id qty : ℕ)
  | takePatrol (id : ℕ)
  | dropPatrol (id : ℕ)
  | contribute (work : Work) (item : Item) (qty : ℕ)
  | sign
  | watchBoard (on : Bool)
  | useKit (kit : Kit)
  | eject (destruct : Bool)
  /-- Something for the colony's radio. -/
  | say (text : String)
  | home (req : HomeRequest)

/-- The hangar with what a request left in its till and its stores. -/
def withHangar (h : PilotHangar) (g : Hangar) : PilotHangar := { h with toHangar := g }

/-- Does what a request asks of the hangar and the exchange; nothing, if it's someone else's. -/
def apply (p : Platform) (req : Request) (h : PilotHangar) (ex : Exchange) (trader : Trader)
    (now : ℕ) (rules : Rules) : Option (PilotHangar × Exchange × Done) :=
  let inBay (o : PilotHangar × Done) := some (o.1, ex, o.2)
  match req with
  | .craft item batches => inBay (h.craft item batches now rules)
  | .cancelJob station index => inBay (h.cancelJob station index now)
  | .fit item => inBay (h.fit item)
  | .strip slot => inBay (h.strip slot)
  | .dismantle => inBay h.dismantle
  | .repair part => inBay (h.repair part)
  | .overhaul part => inBay (h.overhaul part)
  | .scrap item => inBay (h.scrap item)
  | .fuel grade => inBay (h.fuel grade)
  | .order item side price qty rest =>
    let (g, ex, done) := h.toHangar.trade p ex trader item side price qty rest
    some (withHangar h g, ex, done)
  | .cancelOrder id =>
    match ex.cancel trader id with
    | (ex, true) =>
      let (g, ex, _) := h.toHangar.collect ex trader
      some (withHangar h g, ex, .ok s!"ORDER #{id} CANCELLED")
    | (ex, false) => some (h, ex, .error "no such order")
  | _ => none

/-- Does what a request asks of the register of homes; nothing, if it isn't the register's. -/
def applyHomes (c : City) (req : Request) (h : PilotHangar) (homes : Homes) (trader : Trader)
    (name : String) (now : ℕ) : Option (Option (PilotHangar × Homes × Done)) :=
  match req with
  | .home req =>
    some ((homes.serve c req h.toHangar trader name now).map fun o =>
      (withHangar h o.2.1, o.1, o.2.2))
  | _ => none

def applyCharter (p : Platform) (req : Request) (h : PilotHangar) (b : Board) (ex : Exchange)
    (trader : Trader) (name : String) (now : ℕ) :
    Option (PilotHangar × Board × Exchange × Done) :=
  let atBoard (o : Board × Hangar × Done) := some (withHangar h o.2.1, o.1, ex, o.2.2)
  let noted (o : Board × Done) := some (h, o.1, ex, o.2)
  match req with
  | .post item qty reward hours =>
    atBoard (b.post p h.toHangar trader name item qty reward hours now)
  | .withdraw id => atBoard (b.withdraw h.toHangar trader id)
  | .deliver id qty =>
    let (b, g, ex, done) := b.deliver p h.toHangar ex trader name id qty now
    some (withHangar h g, b, ex, done)
  | .takePatrol id => noted (b.take trader name id now)
  | .dropPatrol id => noted (b.dropPatrol trader id now)
  | .contribute work item qty =>
    atBoard (b.contribute p h.toHangar trader name work item qty now)
  | .sign => noted (b.sign trader name now)
  | .aceTerms salvage => noted (b.setTerms trader salvage)
  | _ => none

end BeforeColony.Wire
