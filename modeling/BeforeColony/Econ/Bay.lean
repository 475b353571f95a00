import BeforeColony.Econ.Shelf
import BeforeColony.Econ.Suit

/-!
# A pilot's bay

The hangar with the suit in its bay (or out on a sortie) and its stations' queues: fitting
and stripping, repairs, fuel, the launch, and what comes home. Each operation changes the
hangar and says how it went, in the source's words.
-/

set_option autoImplicit false

namespace BeforeColony

open Catalogue

inductive Bay where
  | empty
  | docked (suit : Suit)
  /-- Out in the sector, as it launched. -/
  | out (suit : Suit)

structure PilotHangar extends Hangar where
  bay : Bay
  works : Works
  /-- When a suit was last advanced, unix seconds. -/
  reissuedAt : Option ℕ

structure Rules where
  craftSpeed : ℚ
  foundryFeePct : ℕ
  foundrySpeed : ℚ

inductive ChunkKind where
  | ore (ore : ℕ)
  | limb (frame : FrameId) (part : Part)
  /-- What is left of a destroyed suit, with a bit for each part still on it. -/
  | hulk (frame : FrameId) (parts : ℕ)
  deriving DecidableEq, Repr

structure ChunkDesc where
  kind : ChunkKind
  massKg : ℕ
  deriving DecidableEq, Repr

/-- A suit come home, with what it brought: its hold, what it towed, and its bounties. -/
structure Haul extends Homecoming where
  cargoKg : Ore → ℕ
  held : Option ChunkDesc
  bounty : ℕ

def reissueEverySecs : ℕ := 30 * 60

def rack : ℕ := 3

def salvagedLimb : ℕ := 15
def salvagedHulk : ℕ := 40
def maxBatches : ℕ := 500

/-- The suit a new pilot has: second-hand, with no beam rifle and half a tank. -/
def wornArgo : Suit :=
  let suit := Suit.complete .argo
  let parts : Part → Option ℕ
    | .head => some 70 | .torso => some 60 | .armL => some 55 | .armR => some 65
    | .legs => some 60 | .backpack => some 70
  { suit with
    parts
    mounts := Function.update suit.mounts 0 false
    ammo := Function.update suit.ammo 0 0
    propellant := suit.tank / 2
    faults := suit.faults.set .radiators Faults.damaged }

namespace PilotHangar

abbrev Done := Hangar.Done

def starter : PilotHangar where
  credits := 2000
  stores := ((Stores.empty.add propellantItem 600).add munitions 100).add steel 200
  certified := false
  sortiePay := []
  bay := .docked wornArgo
  works := Works.empty
  reissuedAt := none

/-- Advances a worn suit to a pilot who has nothing to build one on and less than a torso's
worth, at most every half hour. -/
def reissue (h : PilotHangar) (now : ℕ) : PilotHangar × Option String :=
  match h.bay with
  | .empty =>
    if h.stores.parts.any fun u => u.part = .torso then (h, none)
    else if h.reissuedAt.any fun last => now < last + reissueEverySecs then (h, none)
    else
      let goods := (h.stores.stock.entries.map fun e => worth e.1 (value e.1) e.2).sum
      let parts := (h.stores.parts.map fun u => value u.item).sum
      if value (.part .argo .torso) ≤ h.credits + goods + parts then (h, none)
      else
        ({ h with bay := .docked wornArgo, reissuedAt := some now },
          some s!"THE CHARTER BOARD ADVANCES YOU A WORN {(frameName .argo).toUpper}")
  | _ => (h, none)

def suit (h : PilotHangar) : Except String Suit :=
  match h.bay with
  | .docked suit => .ok suit
  | .out _ => .error "your suit is out in the sector"
  | .empty => .error "there's no suit in the bay"

def dock (h : PilotHangar) (suit : Suit) : PilotHangar := { h with bay := .docked suit }

def store (h : PilotHangar) (stores : Stores) : PilotHangar :=
  { h with toHangar := { h.toHangar with stores } }

/-- Runs the stations' clocks to `now`, delivering what they finished. -/
def settle (h : PilotHangar) (now : ℕ) : PilotHangar :=
  let (works, made) := h.works.settle now
  { (h.store (h.stores.addGoods made)) with works }

def craft (h : PilotHangar) (item : Item) (batches now : ℕ) (rules : Rules) :
    PilotHangar × Done :=
  match recipe item with
  | none => (h, .error s!"{item.name} can't be made")
  | some r =>
    if batches = 0 ∨ maxBatches < batches then (h, .error "that's not a number of batches")
    else
      let h := h.settle now
      let station := match r.station with | .fabricator => "fabricator" | .foundry => "foundry"
      let fee := r.fee * batches * rules.foundryFeePct / 100
      if (h.works.queue r.station).isFull then
        (h, .error s!"the {station} has {maxJobs} jobs queued already")
      else if h.credits < fee then (h, .error s!"the foundry wants {fee} cr for that")
      else
        match h.stores.takeAll r.inputs batches with
        | none =>
          let short := (r.inputs.filter fun e => ! h.stores.has e.1 (e.2 * batches)).map fun e =>
            s!"{e.1.amount (e.2 * batches - h.stores.get e.1)} {e.1.name}"
          (h, .error ("short of " ++ ", ".intercalate short))
        | some stores =>
          let speed := rules.craftSpeed * if r.station = .foundry then rules.foundrySpeed else 1
          let secs := max (Catalogue.round (r.secs / max speed (1 / 1000))) 1
          let queue := (h.works.queue r.station).push item batches secs now rules.foundryFeePct
          ({ h with
              credits := h.credits - fee
              stores
              works := h.works.setQueue r.station queue },
            .ok s!"QUEUED {batches} × {item.name.toUpper}")

def cancelJob (h : PilotHangar) (station : Station) (index now : ℕ) : PilotHangar × Done :=
  let h := h.settle now
  let (queue, given) := (h.works.queue station).cancel index now
  let h := { h with works := h.works.setQueue station queue }
  match given with
  | none => (h, .error "no such job")
  | some (refund, fee) =>
    ({ h with credits := h.credits + fee, stores := h.stores.addGoods refund },
      .ok "JOB CANCELLED")

def noSlotText (item : Item) (line : FrameId) : String :=
  match item with
  | .part other _ =>
    if other ≠ line then s!"{frameName other} parts don't fit a {frameName line}"
    else s!"there's no free place for a {item.name}"
  | .weapon _ => s!"there's no free place for a {item.name}"
  | .module k =>
    s!"there's no free place for a {item.name} (it goes on the {partName k.part}, one to a suit)"
  | _ => s!"{item.name} isn't something you fit"

def insideText (faults : Faults) : String := if faults.isEmpty then "" else s!" · {faults.display}"

def fitPart (h : PilotHangar) (suit : Suit) (item : Item) (part : Part) : PilotHangar × Done :=
  match h.stores.takeBestPart suit.line part with
  | none => (h, .error s!"no {item.name} in the stores")
  | some (u, stores) =>
    ((h.store stores).dock (suit.attach part u),
      .ok s!"FITTED {item.name.toUpper} ({u.condition}%){(insideText u.faults).toUpper}")

/-- Fits `item` from the stores onto the suit in the bay; a torso into an empty bay builds a
new suit on it. -/
def fit (h : PilotHangar) (item : Item) : PilotHangar × Done :=
  match h.bay with
  | .empty =>
    match item with
    | .part line .torso =>
      match h.stores.takeBestPart line .torso with
      | none => (h, .error s!"no {item.name} in the stores")
      | some (u, stores) =>
        ((h.store stores).dock (.on u), .ok s!"A NEW {item.name.toUpper} STANDS IN THE BAY")
    | _ => (h, .error "fit a torso first: it's the cockpit and the reactor")
  | .out _ => (h, .error "your suit is out in the sector")
  | .docked suit =>
    match suit.slotFor item with
    | none => (h, .error (noSlotText item suit.line))
    | some (.part part) => h.fitPart suit item part
    | some (.module i) =>
      match h.stores.take item 1 with
      | none => (h, .error s!"no {item.name} in the stores")
      | some stores =>
        match item with
        | .module kind =>
          ((h.store stores).dock (suit.equip i kind), .ok s!"FITTED {item.name.toUpper}")
        | _ => (h.store stores, .error "that isn't equipment")
    | some (.mount m) =>
      match h.stores.take item 1 with
      | none => (h, .error s!"no {item.name} in the stores")
      | some stores =>
        ((h.store stores).dock (suit.arm m), .ok s!"FITTED {item.name.toUpper}")

/-- Takes the weapon off mount `m`, unloading its rounds. -/
def unmount (h : PilotHangar) (m : Fin 3) : PilotHangar × String :=
  match h.bay with
  | .docked suit =>
    match suit.weaponOn m with
    | none => (h, "")
    | some w =>
      let full := suit.fullLoad m
      let stores :=
        if 0 < full then h.stores.add munitions (suit.ammo m * munitionsPerLoad w / full)
        else h.stores
      ((h.store (stores.add (.weapon w) 1)).dock (suit.disarm m),
        s!"{(Item.weapon w).name.toUpper} OFF")
  | _ => (h, "")

def stripPart (h : PilotHangar) (suit : Suit) (part : Part) : PilotHangar × Done :=
  match suit.parts part with
  | none => (h, .error s!"there's no {partName part} fitted")
  | some condition =>
    let off := suit.detach part
    let (h, notes) := off.loose.foldl
      (fun st m => let (h, note) := st.1.unmount m; (h, st.2 ++ [note]))
      (h.dock off, [s!"{(partName part).toUpper} OFF"])
    let gear := suit.gearOn part
    let stores := gear.foldl (fun s kind => s.add (.module kind) 1) h.stores
    let notes := notes ++ gear.map fun kind => s!"{kind.name.toUpper} OFF"
    (h.store (stores.addPart ⟨suit.line, part, condition, suit.faults.ofPart part⟩),
      .ok (" · ".intercalate notes))

def stripTorso (h : PilotHangar) (suit : Suit) : PilotHangar × Done :=
  if 1 < suit.fitted.length ∨ (List.finRange 3).any suit.mounts then
    (h, .error "strip everything else first")
  else if (List.finRange 5).any fun i => (suit.modules i).isSome then
    (h, .error "strip everything else first")
  else
    let condition := (suit.parts .torso).getD 1
    let stores := h.stores.addPart ⟨suit.line, .torso, condition, suit.faults.ofPart .torso⟩
    ({ (h.store (stores.add suit.grade.item suit.propellant)) with bay := .empty },
      .ok "THE BAY IS EMPTY")

/-- Takes what is in `slot` off the suit into the stores. -/
def stripOff (h : PilotHangar) (slot : Slot) : PilotHangar × Done :=
  match h.suit with
  | .error why => (h, .error why)
  | .ok suit =>
    match slot with
    | .part .torso => h.stripTorso suit
    | .part part => h.stripPart suit part
    | .module m =>
      match (List.finRange 5).find? fun i => i.val = m && (suit.modules i).isSome with
      | none => (h, .error "there's no equipment on that mount")
      | some i =>
        match suit.modules i with
        | none => (h, .error "there's no equipment on that mount")
        | some kind =>
          ((h.store (h.stores.add (.module kind) 1)).dock (suit.unequip i),
            .ok s!"{kind.name.toUpper} OFF")
    | .mount m =>
      match (List.finRange 3).find? fun n => n.val = m && suit.mounts n with
      | none => (h, .error "there's no weapon on that mount")
      | some n =>
        let (h, note) := h.unmount n
        (h, .ok note)

/-- Pumps what the suit's tank no longer holds back to the stores, and says how much. -/
def settleTank (h : PilotHangar) : PilotHangar × ℕ :=
  match h.bay with
  | .docked suit =>
    let excess := suit.propellant - suit.tank
    ((h.store (h.stores.add suit.grade.item excess)).dock
      { suit with propellant := suit.propellant - excess }, excess)
  | _ => (h, 0)

/-- Takes what is in `slot` off the suit, and what its tank no longer holds out of it. -/
def strip (h : PilotHangar) (slot : Slot) : PilotHangar × Done :=
  match h.stripOff slot with
  | (h, .error why) => (h, .error why)
  | (h, .ok done) =>
    match h.settleTank with
    | (h, 0) => (h, .ok done)
    | (h, kg) => (h, .ok s!"{done} · {kg} KG PROPELLANT BACK TO THE STORES")

/-- What dismantling takes off before the torso, in order. -/
def dismantleSlots : List Slot :=
  (List.range 3).map .mount ++ (List.range 5).map .module
    ++ (Part.all.filter fun p => p ≠ .torso).map .part

def dismantle (h : PilotHangar) : PilotHangar × Done :=
  match h.suit with
  | .error why => (h, .error why)
  | .ok _ => (dismantleSlots.foldl (fun h slot => (h.strip slot).1) h).strip (.part .torso)

def furthest (afford : ℕ → Bool) (worn : ℕ) : ℕ → ℕ
  | 0 => 0
  | n + 1 => if worn < n + 1 && ! afford (n + 1) then furthest afford worn n else n + 1

/-- Repairs one part of the suit as far as the stores allow: what was mended, and whether
something was short. -/
def repairPart (suit : Suit) (st : PilotHangar × List String × Bool) (part : Part) :
    PilotHangar × List String × Bool :=
  let (h, fixed, short) := st
  match suit.parts part with
  | none => st
  | some worn =>
    let afford := fun n => h.stores.hasAll (repairCost suit.line part worn n) 1
    let mended := furthest afford worn 100
    let short := short || mended < 100
    match h.suit with
    | .error _ => st
    | .ok now =>
      if worn < mended then
        let stores := (h.stores.takeAll (repairCost suit.line part worn mended) 1).getD h.stores
        ((h.store stores).dock
            { now with parts := Function.update now.parts part (some mended) },
          fixed ++ [s!"{(partName part).toUpper} {worn}→{mended}%"], short)
      else (h, fixed, short)

def repair (h : PilotHangar) (part : Option Part) : PilotHangar × Done :=
  match h.suit with
  | .error why => (h, .error why)
  | .ok suit =>
    let parts := match part with
      | some p => [p]
      | none => suit.fitted.map Prod.fst
    let (h, fixed, short) := parts.foldl (repairPart suit) (h, [], false)
    if fixed.isEmpty then
      (h, .error (if short then "not enough in the stores to repair that"
        else "nothing needs repairing"))
    else (h, .ok ("REPAIRED " ++ " · ".intercalate fixed))

/-- Pays for one system's restoring, and restores it if the stores allow. -/
def restore (cost : List (Item × ℕ)) (mend : Suit → Suit) (what : String)
    (st : PilotHangar × List String × Bool) : PilotHangar × List String × Bool :=
  let (h, fixed, short) := st
  match h.stores.takeAll cost 1, h.suit with
  | some stores, .ok suit => ((h.store stores).dock (mend suit), fixed ++ [what], short)
  | _, _ => (h, fixed, true)

def overhaulOne (suit : Suit) (part : Option Part) (st : PilotHangar × List String × Bool)
    (e : System × ℕ) : PilotHangar × List String × Bool :=
  if (part.any fun p => p ≠ e.1.part) || ! suit.isFitted e.1.part then st
  else
    restore (overhaulCost suit.line e.2)
      (fun s => { s with
        faults := s.faults.set e.1 Faults.ok
        wear := s.wear.reset e.1 suit.line })
      e.1.name.toUpper st

def serviceOne (suit : Suit) (part : Option Part) (st : PilotHangar × List String × Bool)
    (e : System × ℚ) : PilotHangar × List String × Bool :=
  if e.2 < Wear.serviceFrom || ! suit.isFitted e.1.part || (part.any fun p => p ≠ e.1.part)
      || suit.faults.levelOf e.1 ≠ Faults.ok then st
  else
    restore (serviceCost suit.line) (fun s => { s with wear := s.wear.reset e.1 suit.line })
      s!"{e.1.name.toUpper} (SERVICED)" st

/-- Restores the damaged and failed systems inside a part, or every part, as far as the stores
allow, then services what is worn. -/
def overhaul (h : PilotHangar) (part : Option Part) : PilotHangar × Done :=
  match h.suit with
  | .error why => (h, .error why)
  | .ok suit =>
    let st := suit.faults.toList.foldl (overhaulOne suit part) (h, [], false)
    let (h, fixed, short) := (suit.wear.systems suit.line).foldl (serviceOne suit part) st
    if fixed.isEmpty then
      (h, .error (if short then
          "not enough in the stores to overhaul that (machined components, electronics)"
        else "nothing inside needs overhauling"))
    else (h, .ok ("OVERHAULED " ++ " · ".intercalate fixed))

def scrapOff (h : PilotHangar) (stores : Stores) (item : Item) (condition : ℕ) :
    PilotHangar × Done :=
  let back := scrapYield item condition
  let what := back.map fun e => s!"{e.1.amount e.2} {e.1.name}"
  (h.store (stores.addGoods back),
    .ok (s!"SCRAPPED {item.name.toUpper}: " ++ ", ".intercalate what))

/-- Melts down one `item` from the stores, a part the worst there is. -/
def scrap (h : PilotHangar) (item : Item) : PilotHangar × Done :=
  match item with
  | .part line part =>
    match h.stores.takeWorstPart line part with
    | none => (h, .error s!"no {item.name} in the stores")
    | some (u, stores) => h.scrapOff stores item u.condition
  | .weapon _ | .module _ =>
    match h.stores.take item 1 with
    | none => (h, .error s!"{item.name} can't be scrapped")
    | some stores => h.scrapOff stores item 100
  | _ => (h, .error s!"{item.name} can't be scrapped")

/-- Fuels the suit in the bay with propellant of `grade`: what it has of another grade is
pumped back first. -/
def fuel (h : PilotHangar) (grade : Grade) : PilotHangar × Done :=
  match h.bay with
  | .docked suit =>
    let pumped := if suit.grade ≠ grade then suit.propellant else 0
    let stores := h.stores.add suit.grade.item pumped
    let suit := { suit with propellant := suit.propellant - pumped, grade }
    let (got, stores) := stores.takeUpTo grade.item (suit.tank - suit.propellant)
    let suit := { suit with propellant := suit.propellant + got }
    let back := if pumped = 0 then "" else s!" · {pumped} KG PUMPED BACK TO THE STORES"
    ((h.store stores).dock suit,
      .ok s!"TANK {suit.propellant} / {suit.tank} KG {grade.name.toUpper}{back}")
  | _ => (h, .error "there's no suit in the bay to fuel")

def reload (st : Suit × Stores) (m : Fin 3) : Suit × Stores :=
  let (suit, stores) := st
  match suit.weaponOn m with
  | none => st
  | some w =>
    let full := suit.fullLoad m
    if ! suit.mounts m || full = 0 then st
    else
      let need := full - min (suit.ammo m) full
      let kg := (need * munitionsPerLoad w + (full - 1)) / full
      let stock := stores.get munitions
      let (kg, rounds) :=
        if kg ≤ stock then (kg, need) else (stock, stock * full / munitionsPerLoad w)
      ({ suit with ammo := Function.update suit.ammo m (min (suit.ammo m + rounds) full) },
        (stores.take munitions kg).getD stores)

def rackUp (st : Suit × Stores) (kit : Kit) : Suit × Stores :=
  let (n, stores) := st.2.takeUpTo (.kit kit) rack
  ({ st.1 with kits := Function.update st.1.kits kit n }, stores)

def launch (h : PilotHangar) : PilotHangar × Except String Suit :=
  match h.bay with
  | .out _ => (h, .error "your suit is already out")
  | .empty => (h, .error "there's no suit in the bay: build one")
  | .docked suit =>
    let (got, stores) := h.stores.takeUpTo suit.grade.item (suit.tank - suit.propellant)
    let suit := { suit with propellant := suit.propellant + got }
    if suit.propellant = 0 then
      let which := match suit.grade with
        | .standard => ""
        | g => g.name.toLower ++ " "
      (h.store stores, .error s!"the tank is dry and there's no {which}propellant in the stores")
    else
      let (suit, stores) := (List.finRange 3).foldl reload (suit, stores)
      let (suit, stores) := Kit.all.foldl rackUp (suit, stores)
      ({ h with stores, sortiePay := [], bay := .out suit }, .ok suit)

/-- Scrap from a suit of `line`: a Lodestar's goes with the exotics, anyone else's with the
titanium. -/
def scrapMetal (h : PilotHangar) (line : FrameId) (kg : ℕ) : PilotHangar × String :=
  let ore : Ore := if isLodestar line then .exotics else .titanium
  (h.store (h.stores.add (.ore ore) kg), s!"{(Item.ore ore).amount kg} {ore.name} (SCRAP)")

def salvagePart (h : PilotHangar) (line : FrameId) (part : Part) (condition level : ℕ) :
    PilotHangar × String :=
  (h.store (h.stores.addPart ⟨line, part, condition, Faults.all part level⟩),
    s!"SALVAGED {(Item.part line part).name.toUpper} ({condition}%)")

def salvageHulkPart (frame : FrameId) (parts : ℕ) (st : PilotHangar × List String)
    (part : Part) : PilotHangar × List String :=
  if ¬ parts.testBit part.index then st
  else
    let (h, note) :=
      if isLine (lineOf frame) && part ≠ .torso then
        st.1.salvagePart (lineOf frame) part salvagedHulk Faults.damaged
      else st.1.scrapMetal (lineOf frame) (partMassKg frame part)
    (h, st.2 ++ [note])

/-- What something towed home becomes: ore, a worn part of a line pilots build, or scrap. -/
def salvage (h : PilotHangar) (desc : ChunkDesc) : PilotHangar × List String :=
  match desc.kind with
  | .ore ore =>
    match Ore.all[ore]? with
    | none => (h, [])
    | some o =>
      (h.store (h.stores.add (.ore o) desc.massKg),
        [s!"{(Item.ore o).amount desc.massKg} {o.name}"])
  | .limb frame part =>
    let (h, note) :=
      if isLine (lineOf frame) then h.salvagePart (lineOf frame) part salvagedLimb Faults.failed
      else h.scrapMetal (lineOf frame) desc.massKg
    (h, [note])
  | .hulk frame parts => Part.all.foldl (salvageHulkPart frame parts) (h, [])

/-- The tugs brought the pilot's wreck home, its torso as a part if it was not doomed. -/
def towed (h : PilotHangar) (wreck : Option ChunkDesc) (torso : Bool) :
    PilotHangar × List String :=
  match wreck with
  | none => (h, ["THE TUGS FOUND NOTHING OF YOUR WRECK TO BRING HOME"])
  | some desc =>
    let found := "THE TUGS BROUGHT YOUR WRECK HOME"
    match desc.kind with
    | .hulk frame parts =>
      if torso && parts.testBit Part.torso.index then
        let (h, notes) :=
          if isLine (lineOf frame) then
            let (h, note) := h.salvagePart (lineOf frame) .torso salvagedHulk Faults.damaged
            (h, [note])
          else (h, [])
        let rest := { desc with kind := .hulk frame (parts &&& (255 ^^^ 1 <<< Part.torso.index)) }
        let (h, more) := h.salvage rest
        (h, found :: notes ++ more)
      else
        let (h, notes) := h.salvage desc
        (h, found :: notes)
    | _ =>
      let (h, notes) := h.salvage desc
      (h, found :: notes)

def shelveKits (s : Stores) (kits : Kit → ℕ) : Stores :=
  Kit.all.foldl (fun s kit => s.add (.kit kit) (kits kit)) s

/-- The suit was out when the sector lost track of it: brought in as it launched. -/
def recover (h : PilotHangar) : PilotHangar × Bool :=
  match h.bay with
  | .out suit =>
    ((h.store (shelveKits h.stores suit.kits)).dock { suit with kits := fun _ => 0 }, true)
  | _ => (h, false)

def flown (h : PilotHangar) (frame : FrameId) : Suit :=
  match h.bay with
  | .out suit | .docked suit => suit
  | .empty => Suit.complete (lineOf frame)

def homeSuit (h : PilotHangar) (home : Homecoming) : Suit × List System :=
  let suit := (h.flown home.frame).cameHome home
  let (wear, faults, worn) :=
    (suit.wear.add home.usage).wearOut suit.faults suit.line suit.isFitted
  ({ suit with wear, faults, kits := fun _ => 0 }, worn)

def unload (cargoKg : Ore → ℕ) (st : PilotHangar × List String) (ore : Ore) :
    PilotHangar × List String :=
  if 0 < cargoKg ore then
    (st.1.store (st.1.stores.add (.ore ore) (cargoKg ore)),
      st.2 ++ [s!"{(Item.ore ore).amount (cargoKg ore)} {ore.name}"])
  else st

/-- The suit came home: what is left of it stands in the bay again, its hold and whatever it
towed go to the stores, and its bounties are paid. -/
def cameHome (h : PilotHangar) (home : Haul) : PilotHangar × String :=
  let (suit, worn) := h.homeSuit home.toHomecoming
  let h := (h.store (shelveKits h.stores fun kit => home.kits kit)).dock suit
  let (h, notes) := Ore.all.foldl (unload home.cargoKg) (h, ["DOCKED"])
  let (h, towed) := match home.held with
    | some desc => h.salvage desc
    | none => (h, [])
  let bounty := if 0 < home.bounty then [s!"BOUNTY {home.bounty} CR"] else []
  let wornNotes := worn.map fun sys => s!"{sys.name.toUpper} WORN: OVERHAUL IT"
  ({ h with credits := h.credits + home.bounty, sortiePay := [] },
    " · ".intercalate (notes ++ towed ++ bounty ++ wornNotes))

/-- The suit was destroyed: the bay stays empty, and the bounties it earned are paid. -/
def lost (h : PilotHangar) (bounty : ℕ) : PilotHangar × String :=
  ({ h with credits := h.credits + bounty, sortiePay := [], bay := .empty },
    if 0 < bounty then s!"SUIT LOST · BOUNTY {bounty} CR" else "SUIT LOST")

end PilotHangar

end BeforeColony
