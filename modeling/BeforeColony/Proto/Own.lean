import BeforeColony.Proto.Reading

/-!
# The pilot's own state, and their Orrery

What a snapshot says of the receiving pilot's suit, and what the Orrery shows them. Positions,
speeds, rotations and fractions are the codes they travel as, `f32`s their bits.
-/

set_option autoImplicit false

namespace BeforeColony

def cargoKinds : ℕ := 4
def noChunk : ℕ := 2 ^ chunkBits - 1

def orreryHypotheses : ℕ := 7
def orreryThreats : ℕ := 2
def pBits : ℕ := 7

def footingBits : ℕ := 2
def coverBits : ℕ := 2
def doomBits : ℕ := 5
def impactBits : ℕ := 3
def staggerBits : ℕ := 5
def stanceBits : ℕ := 8
def systemsBits : ℕ := 24
def modulesBits : ℕ := 20
def gradeBits : ℕ := 2
def statusTickBits : ℕ := 7
def lockProgressBits : ℕ := 4
def kitsBits : ℕ := 8
def stimBits : ℕ := 12
def fedBits : ℕ := 3
def fedMax : ℕ := 4
def extraMassBits : ℕ := 18
def cargoBits : ℕ := 13
def creditBits : ℕ := 24
def armsTimerBits : ℕ := 5
def armsWaitBits : ℕ := 6
def salvoBits : ℕ := 3
def salvoGapBits : ℕ := 2

namespace Footing

def free : ℕ := 0
def grounded : ℕ := 1
def aloft : ℕ := 2

end Footing

/-- The weapons: the strike's phase and timer, and each slot's waits and salvo. -/
structure OwnArms where
  phase : ℕ := 0
  timer : ℕ := 0
  slot : ℕ := 0
  firedAgo : ℕ := 7
  wait : Fin 4 → ℕ := fun _ => 63
  salvo : Fin 2 → ℕ := fun _ => 0
  salvoGap : Fin 2 → ℕ := fun _ => 0
  deriving DecidableEq

structure OwnBurst where
  left : ℕ := 0
  cooldown : ℕ := 0
  dir : Fin 3 → ℤ := fun _ => 0
  held : Bool := false
  deriving DecidableEq

/-- The body the suit is on, and how it stands there. -/
structure OwnSurface where
  footing : ℕ
  body : BodyRef
  stanceQ : ℕ
  deriving DecidableEq

structure OwnState where
  slot : ℕ := 0
  generation : ℕ := 0
  frame : FrameId := .argo
  alive : Bool := false
  pos : Fin 3 → ℕ := fun _ => 0
  vel : Fin 3 → ℕ := fun _ => 0
  rot : Quat := ⟨3, fun _ => 32768⟩
  angVel : Fin 3 → ℕ := fun _ => 32768
  propellant : ℕ := 0
  gStrain : ℕ := 0
  heat : ℕ := 0
  energy : ℕ := 0
  ammo : Fin 2 → ℕ := fun _ => 0
  weaponReady : ℕ := 0
  charge : ℕ := 0
  parts : Fin Part.count → ℕ := fun _ => 255
  orreryStrain : ℕ := 0
  orreryMode : ℕ := 0
  flags : ℕ := 0
  systems : ℕ := 0
  modules : ℕ := 0
  grade : ℕ := 0
  scram : ℕ := 0
  concussed : ℕ := 0
  repairing : ℕ := 15
  repairLeft : ℕ := 0
  respawnIn : ℕ := 0
  kits : ℕ := 0
  stim : ℕ := 0
  fed : ℕ := 0
  extraMassKg : ℤ := 0
  cargoKg : Fin cargoKinds → ℕ := fun _ => 0
  credits : ℕ := 0
  held : ℕ := noChunk
  lockTarget : ℕ := noSlot
  lockProgress : ℕ := 0
  specialTimer : ℕ := 0
  specialCharge : ℕ := 0
  arms : OwnArms := {}
  burst : OwnBurst := {}
  surface : Option OwnSurface := none
  cover : ℕ := 0
  doom : ℕ := 0
  impact : ℕ := 0
  stagger : ℕ := 0
  targetImpact : ℕ := 0
  deriving DecidableEq

/-- A threat's predicted futures: each manoeuvre's probability. -/
structure OrreryThreat where
  slot : ℕ := 0
  probs : Fin orreryHypotheses → ℕ := fun _ => 0
  deriving DecidableEq

structure OrreryInfo where
  sourceJev : Bool
  adviceAge : ℕ
  threatCount : ℕ
  threats : Fin orreryThreats → OrreryThreat
  recTarget : ℕ
  recTargetP : ℕ
  recManeuver : ℕ
  recManeuverP : ℕ
  threatLevel : ℕ
  threatConfidence : ℕ
  flanked : ℕ
  hasSolution : Bool
  solution : Fin 2 → ℕ
  hitP : ℕ
  deriving DecidableEq

namespace OwnArms

def readSalvo : Read (ℕ × ℕ) := do
  let salvo ← readBits salvoBits
  let gap ← readBits salvoGapBits
  return (salvo, gap)

def read : Read OwnArms := do
  let phase ← readBits 2
  let timer ← readBits armsTimerBits
  let slot ← readBits 2
  let firedAgo ← readBits 3
  let wait ← readArray (readBits armsWaitBits) 4
  let salvos ← readArray readSalvo 2
  return {
    phase, timer, slot, firedAgo, wait
    salvo := fun k => (salvos k).1
    salvoGap := fun k => (salvos k).2 }

/-- Timers and counts in their bits. -/
structure InRange (a : OwnArms) : Prop where
  phase : a.phase < 2 ^ 2
  timer : a.timer < 2 ^ armsTimerBits
  slot : a.slot < 2 ^ 2
  firedAgo : a.firedAgo < 2 ^ 3
  wait : ∀ k, a.wait k < 2 ^ armsWaitBits
  salvo : ∀ k, a.salvo k < 2 ^ salvoBits
  salvoGap : ∀ k, a.salvoGap k < 2 ^ salvoGapBits

theorem inRange_idle : InRange {} := by
  constructor <;> decide

theorem safe_salvo : Safe readSalvo fun s => s.1 < 2 ^ salvoBits ∧ s.2 < 2 ^ salvoGapBits :=
  .bind (.bits (by decide)) fun _ hsalvo => (Safe.bits (by decide)).map fun _ hgap => ⟨hsalvo, hgap⟩

theorem safe_read : Safe read InRange := by
  refine .bind (.bits (by decide)) fun phase hphase => ?_
  refine .bind (.bits (by decide)) fun timer htimer => ?_
  refine .bind (.bits (by decide)) fun slot hslot => ?_
  refine .bind (.bits (by decide)) fun firedAgo hago => ?_
  refine .bind ((Safe.bits (by decide)).array 4) fun wait hwait => ?_
  refine (safe_salvo.array 2).map fun salvos hsalvos => ?_
  exact ⟨hphase, htimer, hslot, hago, hwait, fun k => (hsalvos k).1, fun k => (hsalvos k).2⟩

end OwnArms

namespace OwnBurst

def axis : ℕ → Option ℤ
  | 0 => some (-1)
  | 1 => some 0
  | 2 => some 1
  | _ => none

def readAxis : Read ℤ := do
  let code ← readBits 2
  orInvalid (axis code)

def read : Read OwnBurst := do
  let left ← readBits 4
  let cooldown ← readBits 6
  let dir ← readArray readAxis 3
  let held ← readBool
  return { left, cooldown, dir, held }

structure InRange (b : OwnBurst) : Prop where
  left : b.left < 2 ^ 4
  cooldown : b.cooldown < 2 ^ 6
  dir : ∀ k, -1 ≤ b.dir k ∧ b.dir k ≤ 1

theorem inRange_idle : InRange {} := by
  constructor <;> decide

theorem safe_axis : Safe readAxis fun d => -1 ≤ d ∧ d ≤ 1 := by
  refine .bind (.bits (by decide)) fun code hcode => ?_
  refine (Safe.orInvalid _).mono fun d hd => ?_
  unfold axis at hd
  split at hd <;> cases hd <;> decide

theorem safe_read : Safe read InRange := by
  refine .bind (.bits (by decide)) fun left hleft => ?_
  refine .bind (.bits (by decide)) fun cooldown hcooldown => ?_
  refine .bind (safe_axis.array 3) fun dir hdir => ?_
  exact Safe.bool.map fun held _ => ⟨hleft, hcooldown, hdir⟩

end OwnBurst

/-- A suit on its feet on a body, or in the air in its grip. -/
structure OwnSurface.InRange (on : OwnSurface) : Prop where
  footing : on.footing = Footing.grounded ∨ on.footing = Footing.aloft
  body : on.body.InRange
  stanceQ : on.stanceQ < 2 ^ stanceBits

namespace OwnState

def readFlight : Read OwnState := do
  let slot ← readBits slotBits
  let generation ← readBits 2
  let code ← readBits FrameId.bits
  let frame ← orInvalid (FrameId.fromBits code)
  let alive ← readBool
  let pos ← readVec 32
  let vel ← readVec 32
  let rot ← readQuat 16
  let angVel ← readVec 16
  let propellant ← readBits 32
  let gStrain ← readBits 32
  let heat ← readBits 10
  let energy ← readBits 10
  return {
    slot, generation, frame, alive, pos, vel, rot, angVel, propellant, gStrain, heat, energy }

def readFitness (o : OwnState) : Read OwnState := do
  let ammo ← readArray (readBits 10) 2
  let weaponReady ← readBits 4
  let charge ← readBits 6
  let parts ← readArray (readBits 8) Part.count
  let orreryStrain ← readBits 8
  let orreryMode ← readBits 2
  let flags ← readBits 16
  let systems ← readBits systemsBits
  let modules ← readBits modulesBits
  let grade ← readBits gradeBits
  let scram ← readBits statusTickBits
  let concussed ← readBits statusTickBits
  let repairing ← readBits 4
  let repairLeft ← readBits statusTickBits
  let respawnIn ← readBits 8
  let kits ← readBits kitsBits
  let stim ← readBits stimBits
  let fed ← readBits fedBits
  if fedMax < fed then invalid
  else return { o with
    ammo, weaponReady, charge, parts, orreryStrain, orreryMode, flags, systems, modules, grade,
    scram, concussed, repairing, repairLeft, respawnIn, kits, stim, fed }

def readHold (o : OwnState) : Read OwnState := do
  let extraMassKg ← readI32 extraMassBits
  let cargoKg ← readArray (readBits cargoBits) cargoKinds
  let credits ← readBits creditBits
  let held ← readBits chunkBits
  let lockTarget ← readBits slotBits
  let lockProgress ← readBits lockProgressBits
  let specialTimer ← readBits 8
  let specialCharge ← readBits 8
  let arms ← OwnArms.read
  let burst ← OwnBurst.read
  return { o with
    extraMassKg, cargoKg, credits, held, lockTarget, lockProgress, specialTimer, specialCharge,
    arms, burst }

def readSurface (code : ℕ) : Read (Option OwnSurface) :=
  if code = Footing.free then return none
  else if code = Footing.grounded ∨ code = Footing.aloft then do
    let body ← BodyRef.read
    let stanceQ ← readBits 8
    return some { footing := code, body, stanceQ }
  else invalid

def readStanding (o : OwnState) : Read OwnState := do
  let code ← readBits footingBits
  let cover ← readBits coverBits
  let doom ← readBits doomBits
  let impact ← readBits impactBits
  let stagger ← readBits staggerBits
  let targetImpact ← readBits impactBits
  let surface ← readSurface code
  return { o with cover, doom, impact, stagger, targetImpact, surface }

/-- Reads the state, after its presence bit. -/
def read : Read OwnState := do
  let o ← readFlight
  let o ← readFitness o
  let o ← readHold o
  readStanding o

/-- Every code in its bits, the fed condition one there is, the rest in theirs. -/
structure InRange (o : OwnState) : Prop where
  slot : o.slot < 2 ^ slotBits
  generation : o.generation < 2 ^ 2
  pos : ∀ k, o.pos k < 2 ^ 32
  vel : ∀ k, o.vel k < 2 ^ 32
  rotLargest : o.rot.largest < 2 ^ 2
  rot : ∀ k, o.rot.codes k < 2 ^ 16
  angVel : ∀ k, o.angVel k < 2 ^ 16
  propellant : o.propellant < 2 ^ 32
  gStrain : o.gStrain < 2 ^ 32
  heat : o.heat < 2 ^ 10
  energy : o.energy < 2 ^ 10
  ammo : ∀ k, o.ammo k < 2 ^ 10
  weaponReady : o.weaponReady < 2 ^ 4
  charge : o.charge < 2 ^ 6
  parts : ∀ k, o.parts k < 2 ^ 8
  orreryStrain : o.orreryStrain < 2 ^ 8
  orreryMode : o.orreryMode < 2 ^ 2
  flags : o.flags < 2 ^ 16
  systems : o.systems < 2 ^ systemsBits
  modules : o.modules < 2 ^ modulesBits
  grade : o.grade < 2 ^ gradeBits
  scram : o.scram < 2 ^ statusTickBits
  concussed : o.concussed < 2 ^ statusTickBits
  repairing : o.repairing < 2 ^ 4
  repairLeft : o.repairLeft < 2 ^ statusTickBits
  respawnIn : o.respawnIn < 2 ^ 8
  kits : o.kits < 2 ^ kitsBits
  stim : o.stim < 2 ^ stimBits
  fed : o.fed ≤ fedMax
  extraMassKg : -2 ^ (extraMassBits - 1) ≤ o.extraMassKg ∧ o.extraMassKg < 2 ^ (extraMassBits - 1)
  cargoKg : ∀ k, o.cargoKg k < 2 ^ cargoBits
  credits : o.credits < 2 ^ creditBits
  held : o.held < 2 ^ chunkBits
  lockTarget : o.lockTarget < 2 ^ slotBits
  lockProgress : o.lockProgress < 2 ^ lockProgressBits
  specialTimer : o.specialTimer < 2 ^ 8
  specialCharge : o.specialCharge < 2 ^ 8
  arms : o.arms.InRange
  burst : o.burst.InRange
  surface : ∀ on, o.surface = some on → on.InRange
  cover : o.cover < 2 ^ coverBits
  doom : o.doom < 2 ^ doomBits
  impact : o.impact < 2 ^ impactBits
  stagger : o.stagger < 2 ^ staggerBits
  targetImpact : o.targetImpact < 2 ^ impactBits

variable {o : OwnState}

theorem inRange_idle : InRange {} := by
  constructor
  case arms => exact OwnArms.inRange_idle
  case burst => exact OwnBurst.inRange_idle
  case surface =>
    intro on hon
    cases hon
  all_goals decide

theorem safe_flight : Safe readFlight InRange := by
  refine .bind (.bits (by decide)) fun slot hslot => ?_
  refine .bind (.bits (by decide)) fun generation hgeneration => ?_
  refine .bind (.bits (by decide)) fun code hcode => ?_
  refine .bind (.orInvalid _) fun frame hframe => ?_
  refine .bind .bool fun alive _ => ?_
  refine .bind (safe_vec (by decide)) fun pos hpos => ?_
  refine .bind (safe_vec (by decide)) fun vel hvel => ?_
  refine .bind (safe_quat (by decide)) fun rot hrot => ?_
  refine .bind (safe_vec (by decide)) fun angVel hang => ?_
  refine .bind (.bits (by decide)) fun propellant hpropellant => ?_
  refine .bind (.bits (by decide)) fun gStrain hstrain => ?_
  refine .bind (.bits (by decide)) fun heat hheat => ?_
  refine (Safe.bits (by decide)).map fun energy henergy => ?_
  exact { inRange_idle with
    slot := hslot, generation := hgeneration, pos := hpos, vel := hvel, rotLargest := hrot.1
    rot := hrot.2, angVel := hang, propellant := hpropellant, gStrain := hstrain, heat := hheat
    energy := henergy }

theorem safe_fitness (ho : o.InRange) : Safe (readFitness o) InRange := by
  refine .bind ((Safe.bits (by decide)).array 2) fun ammo hammo => ?_
  refine .bind (.bits (by decide)) fun weaponReady hready => ?_
  refine .bind (.bits (by decide)) fun charge hcharge => ?_
  refine .bind ((Safe.bits (by decide)).array _) fun parts hparts => ?_
  refine .bind (.bits (by decide)) fun orreryStrain hstrain => ?_
  refine .bind (.bits (by decide)) fun orreryMode hmode => ?_
  refine .bind (.bits (by decide)) fun flags hflags => ?_
  refine .bind (.bits (by decide)) fun systems hsystems => ?_
  refine .bind (.bits (by decide)) fun modules hmodules => ?_
  refine .bind (.bits (by decide)) fun grade hgrade => ?_
  refine .bind (.bits (by decide)) fun scram hscram => ?_
  refine .bind (.bits (by decide)) fun concussed hconcussed => ?_
  refine .bind (.bits (by decide)) fun repairing hrepairing => ?_
  refine .bind (.bits (by decide)) fun repairLeft hleft => ?_
  refine .bind (.bits (by decide)) fun respawnIn hrespawn => ?_
  refine .bind (.bits (by decide)) fun kits hkits => ?_
  refine .bind (.bits (by decide)) fun stim hstim => ?_
  refine .bind (.bits (by decide)) fun fed hfed => ?_
  split
  · exact .invalid
  · rename_i hok
    exact .pure { ho with
      ammo := hammo, weaponReady := hready, charge := hcharge, parts := hparts
      orreryStrain := hstrain, orreryMode := hmode, flags := hflags, systems := hsystems
      modules := hmodules, grade := hgrade, scram := hscram, concussed := hconcussed
      repairing := hrepairing, repairLeft := hleft, respawnIn := hrespawn, kits := hkits
      stim := hstim, fed := not_lt.mp hok }

theorem safe_hold (ho : o.InRange) : Safe (readHold o) InRange := by
  refine .bind (.i32 (by decide) (by decide)) fun extraMassKg hmass => ?_
  refine .bind ((Safe.bits (by decide)).array _) fun cargoKg hcargo => ?_
  refine .bind (.bits (by decide)) fun credits hcredits => ?_
  refine .bind (.bits (by decide)) fun held hheld => ?_
  refine .bind (.bits (by decide)) fun lockTarget htarget => ?_
  refine .bind (.bits (by decide)) fun lockProgress hprogress => ?_
  refine .bind (.bits (by decide)) fun specialTimer htimer => ?_
  refine .bind (.bits (by decide)) fun specialCharge hcharge => ?_
  refine .bind OwnArms.safe_read fun arms harms => ?_
  refine OwnBurst.safe_read.map fun burst hburst => ?_
  exact { ho with
    extraMassKg := hmass, cargoKg := hcargo, credits := hcredits, held := hheld
    lockTarget := htarget, lockProgress := hprogress, specialTimer := htimer
    specialCharge := hcharge, arms := harms, burst := hburst }

theorem safe_surface (code : ℕ) :
    Safe (readSurface code) fun surface => ∀ on, surface = some on → on.InRange := by
  unfold readSurface
  split
  · exact .pure nofun
  · split
    · rename_i hcode
      refine .bind BodyRef.safe_read fun body hbody => ?_
      refine (Safe.bits (by decide)).map fun stanceQ hstance => ?_
      rintro on ⟨⟩
      exact ⟨hcode, hbody, hstance⟩
    · exact .invalid

theorem safe_standing (ho : o.InRange) : Safe (readStanding o) InRange := by
  refine .bind (.bits (by decide)) fun code _ => ?_
  refine .bind (.bits (by decide)) fun cover hcover => ?_
  refine .bind (.bits (by decide)) fun doom hdoom => ?_
  refine .bind (.bits (by decide)) fun impact himpact => ?_
  refine .bind (.bits (by decide)) fun stagger hstagger => ?_
  refine .bind (.bits (by decide)) fun targetImpact htarget => ?_
  refine (safe_surface code).map fun surface hsurface => ?_
  exact { ho with
    cover := hcover, doom := hdoom, impact := himpact, stagger := hstagger
    targetImpact := htarget, surface := hsurface }

theorem safe_read : Safe read InRange :=
  safe_flight.bind fun _ ho => (safe_fitness ho).bind fun _ ho =>
    (safe_hold ho).bind fun _ ho => safe_standing ho

end OwnState

namespace OrreryInfo

def readThreat : Read OrreryThreat := do
  let slot ← readBits slotBits
  let probs ← readArray (readBits pBits) orreryHypotheses
  return { slot, probs }

/-- Reads the state, after its presence bit. -/
def read : Read OrreryInfo := do
  let sourceJev ← readBool
  let adviceAge ← readBits 4
  let count ← readBits 2
  let threatCount := min count orreryThreats
  let threats ← readArray readThreat threatCount
  let recTarget ← readBits slotBits
  let recTargetP ← readBits pBits
  let recManeuver ← readBits 3
  let recManeuverP ← readBits pBits
  let threatLevel ← readBits 2
  let threatConfidence ← readBits pBits
  let flanked ← readBits pBits
  let hasSolution ← readBool
  let solution ← readDir 12
  let hitP ← readBits pBits
  return {
    sourceJev, adviceAge, threatCount, recTarget, recTargetP, recManeuver, recManeuverP
    threatLevel, threatConfidence, flanked, hasSolution, solution, hitP
    threats := fun k => if h : k < threatCount then threats ⟨k, h⟩ else {} }

/-- No more threats than there is room for, and every code in its bits. -/
structure InRange (z : OrreryInfo) : Prop where
  adviceAge : z.adviceAge < 2 ^ 4
  threatCount : z.threatCount ≤ orreryThreats
  slots : ∀ k, (z.threats k).slot < 2 ^ slotBits
  probs : ∀ k i, (z.threats k).probs i < 2 ^ pBits
  recTarget : z.recTarget < 2 ^ slotBits
  recTargetP : z.recTargetP < 2 ^ pBits
  recManeuver : z.recManeuver < 2 ^ 3
  recManeuverP : z.recManeuverP < 2 ^ pBits
  threatLevel : z.threatLevel < 2 ^ 2
  threatConfidence : z.threatConfidence < 2 ^ pBits
  flanked : z.flanked < 2 ^ pBits
  solution : ∀ k, z.solution k < 2 ^ 12
  hitP : z.hitP < 2 ^ pBits

theorem safe_threat :
    Safe readThreat fun t => t.slot < 2 ^ slotBits ∧ ∀ i, t.probs i < 2 ^ pBits :=
  .bind (.bits (by decide)) fun _ hslot =>
    ((Safe.bits (by decide)).array _).map fun _ hprobs => ⟨hslot, hprobs⟩

theorem safe_read : Safe read InRange := by
  refine .bind .bool fun sourceJev _ => ?_
  refine .bind (.bits (by decide)) fun adviceAge hage => ?_
  refine .bind (.bits (by decide)) fun count _ => ?_
  refine .bind (safe_threat.array _) fun threats hthreats => ?_
  refine .bind (.bits (by decide)) fun recTarget htarget => ?_
  refine .bind (.bits (by decide)) fun recTargetP htargetP => ?_
  refine .bind (.bits (by decide)) fun recManeuver hman => ?_
  refine .bind (.bits (by decide)) fun recManeuverP hmanP => ?_
  refine .bind (.bits (by decide)) fun threatLevel hlevel => ?_
  refine .bind (.bits (by decide)) fun threatConfidence hconf => ?_
  refine .bind (.bits (by decide)) fun flanked hflanked => ?_
  refine .bind .bool fun hasSolution _ => ?_
  refine .bind (safe_dir (by decide)) fun solution hsolution => ?_
  refine (Safe.bits (by decide)).map fun hitP hhit => ?_
  refine ⟨hage, Nat.min_le_right _ _, fun k => ?_, fun k i => ?_, htarget, htargetP, hman, hmanP,
    hlevel, hconf, hflanked, hsolution, hhit⟩
  · dsimp only
    split
    · exact (hthreats _).1
    · decide
  · dsimp only
    split
    · exact (hthreats _).2 i
    · exact Nat.two_pow_pos _

end OrreryInfo

end BeforeColony
