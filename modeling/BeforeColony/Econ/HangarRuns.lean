import BeforeColony.Econ.NeatSteps
import BeforeColony.Econ.Whole

/-!
# What can happen to a pilot's hangar

What a pilot asks on the wire, whatever the exchange, the Board and the register hold by then; the
sorties and the tugs; and what the others owe. A hangar keeps its shape over any run of these.
-/

set_option autoImplicit false

namespace BeforeColony

open Lib Wire

inductive HangarAct where
  | starter
  | ask (p : Platform) (req : Wire.Request) (ex : Exchange) (trader : Trader) (now : ℕ) (rules : Rules)
  | askBoard (p : Platform) (req : Wire.Request) (b : Board) (ex : Exchange) (trader : Trader)
    (name : String) (now : ℕ)
  | askHomes (c : City) (req : Wire.Request) (homes : Homes) (trader : Trader) (name : String) (now : ℕ)
  | settle (now : ℕ)
  | launch
  | cameHome (home : Haul)
  | lost (bounty : ℕ)
  | towed (wreck : Option ChunkDesc) (torso : Bool)
  | towedAce (wreck : ChunkDesc)
  | recover
  | reissue (now : ℕ)
  /-- What the exchange, the Board or the register owed the pilot. -/
  | receive (a : Account)
  | till (credits : ℕ) (certified : Bool) (sortiePay : List Line)

namespace PilotHangar

/-- A session's, before its pilot's is found. -/
def empty : PilotHangar := { Hangar.empty with bay := .empty, works := Works.empty, reissuedAt := none }

def act (h : PilotHangar) : HangarAct → PilotHangar
  | .starter => starter
  | .ask p req ex trader now rules => (apply p req h ex trader now rules).elim h Prod.fst
  | .askBoard p req b ex trader name now =>
    (applyCharter p req h b ex trader name now).elim h Prod.fst
  | .askHomes c req homes trader name now =>
    ((applyHomes c req h homes trader name now).bind id).elim h Prod.fst
  | .settle now => h.settle now
  | .launch => h.launch.1
  | .cameHome home => (h.cameHome home).1
  | .lost bounty => (h.lost bounty).1
  | .towed wreck torso => (h.towed wreck torso).1
  | .towedAce wreck => (h.salvage wreck).1
  | .recover => h.recover.1
  | .reissue now => (h.reissue now).1
  | .receive a => withHangar h (h.toHangar.receive a)
  | .till credits certified sortiePay => { h with credits, certified, sortiePay }

namespace Neat

variable {h : PilotHangar}

theorem apply (hn : h.Neat) (p : Platform) (req : Wire.Request) (ex : Exchange) (trader : Trader)
    (now : ℕ) (rules : Rules) {o : PilotHangar × Exchange × Done}
    (ho : apply p req h ex trader now rules = some o) : o.1.Neat := by
  unfold Wire.apply at ho
  cases req with
  | craft item batches =>
    cases ho
    exact hn.craft item batches now rules
  | cancelJob station index =>
    cases ho
    exact hn.cancelJob station index now
  | fit item =>
    cases ho
    exact hn.fit item
  | strip slot =>
    cases ho
    exact hn.strip slot
  | dismantle =>
    cases ho
    exact hn.dismantle
  | repair part =>
    cases ho
    exact hn.repair part
  | overhaul part =>
    cases ho
    exact hn.overhaul part
  | scrap item =>
    cases ho
    exact hn.scrap item
  | fuel grade =>
    cases ho
    exact hn.fuel grade
  | order item side price qty rest =>
    cases ho
    exact hn.withHangar ((h.toHangar.whole_trade p ex trader item side price qty rest).neat hn.stores)
  | cancelOrder id =>
    dsimp only at ho
    split at ho
    · cases ho
      exact hn.withHangar (Hangar.neat_receive hn.stores _)
    · cases ho
      exact hn
  | _ => cases ho

theorem applyCharter (hn : h.Neat) (p : Platform) (req : Wire.Request) (b : Board) (ex : Exchange)
    (trader : Trader) (name : String) (now : ℕ) {o : PilotHangar × Board × Exchange × Done}
    (ho : applyCharter p req h b ex trader name now = some o) : o.1.Neat := by
  unfold Wire.applyCharter at ho
  cases req with
  | post item qty reward hours =>
    cases ho
    exact hn.withHangar ((Board.whole_post p b _ trader name item qty reward hours now).neat hn.stores)
  | withdraw id =>
    cases ho
    exact hn.withHangar ((Board.whole_withdraw b _ trader id).neat hn.stores)
  | deliver id qty =>
    cases ho
    exact hn.withHangar ((Board.whole_deliver p b _ ex trader name id qty now).neat hn.stores)
  | contribute work item qty =>
    cases ho
    exact hn.withHangar ((Board.whole_contribute p b _ trader name work item qty now).neat hn.stores)
  | takePatrol id =>
    cases ho
    exact hn
  | dropPatrol id =>
    cases ho
    exact hn
  | sign =>
    cases ho
    exact hn
  | aceTerms salvage =>
    cases ho
    exact hn
  | _ => cases ho

theorem applyHomes (hn : h.Neat) (c : City) (req : Wire.Request) (homes : Homes) (trader : Trader)
    (name : String) (now : ℕ) {o : PilotHangar × Homes × Done}
    (ho : applyHomes c req h homes trader name now = some (some o)) : o.1.Neat := by
  unfold Wire.applyHomes at ho
  cases req with
  | home req =>
    obtain ⟨o', hserve, rfl⟩ := Option.map_eq_some_iff.mp (Option.some.inj ho)
    exact hn.withHangar ((Homes.whole_serve hserve).neat hn.stores)
  | _ => cases ho

theorem act (hn : h.Neat) (a : HangarAct) : (h.act a).Neat := by
  cases a with
  | starter => exact neat_starter
  | ask p req ex trader now rules =>
    show ((Wire.apply p req h ex trader now rules).elim h Prod.fst).Neat
    cases ho : Wire.apply p req h ex trader now rules with
    | none => exact hn
    | some o => exact hn.apply p req ex trader now rules ho
  | askBoard p req b ex trader name now =>
    show ((Wire.applyCharter p req h b ex trader name now).elim h Prod.fst).Neat
    cases ho : Wire.applyCharter p req h b ex trader name now with
    | none => exact hn
    | some o => exact hn.applyCharter p req b ex trader name now ho
  | askHomes c req homes trader name now =>
    show (((Wire.applyHomes c req h homes trader name now).bind id).elim h Prod.fst).Neat
    cases ho : Wire.applyHomes c req h homes trader name now with
    | none => exact hn
    | some o =>
      cases o with
      | none => exact hn
      | some o => exact hn.applyHomes c req homes trader name now ho
  | settle now => exact hn.settle now
  | launch => exact hn.launch
  | cameHome home => exact hn.cameHome home
  | lost bounty => exact ⟨hn.stores, hn.works, trivial⟩
  | towed wreck torso => exact hn.towed wreck torso
  | towedAce wreck => exact hn.salvage wreck
  | recover => exact hn.recover
  | reissue now => exact hn.reissue now
  | receive a => exact hn.withHangar (Hangar.neat_receive hn.stores a)
  | till credits certified sortiePay => exact ⟨hn.stores, hn.works, hn.bay⟩

end Neat

/-- Whatever has happened to it, a hangar keeps its shape. -/
theorem neat_run (acts : List HangarAct) : (acts.foldl act empty).Neat :=
  Neat.foldl (fun _ a hn => hn.act a) acts ⟨Stores.neat_empty, Works.known_empty, trivial⟩

end PilotHangar

end BeforeColony
