import Mathlib.Data.Fin.Tuple.Take
import BeforeColony.Proto.Commands
import BeforeColony.Proto.ObjectCodec
import BeforeColony.Proto.SnapshotRuns

/-!
# A snapshot's fixed part and its missiles as they are written

The header, the pilot's own state and their Orrery come before a snapshot's lists. Each is written
field by field, a number too large for its bits as the largest there is; what is in range is read
back as it was, the own state's clamps kept to (`OwnState.Sendable`).
-/

set_option autoImplicit false

namespace BeforeColony

open Lib

/-- A number no larger than the largest that is sent. -/
theorem Reads.upTo {v m n : ℕ} (h : v ≤ m) (hm : m < 2 ^ n) :
    Reads (readBits n) (Field.bits ⟨min v m, n⟩) v := by
  rw [Nat.min_eq_left h]
  exact Reads.field (h.trans_lt hm)

theorem Reads.masked {v n : ℕ} (h : v < 2 ^ n) :
    Reads (readBits n) (Field.bits ⟨v % 2 ^ n, n⟩) v := by
  rw [Nat.mod_eq_of_lt h]
  exact Reads.field h

theorem reads_array {α : Type} {rd : Read α} {n : ℕ} {g : α → Field} {xs : Fin n → α}
    (h : ∀ k, Reads rd (g (xs k)).bits (xs k)) :
    Reads (readArray rd n) (Field.all (Field.array g xs)) xs := by
  rw [Field.all_array]
  exact Reads.array h

namespace SnapshotHeader

def fields (h : SnapshotHeader) : List Field :=
  [⟨packetSnapshot, packetKindBits⟩, ⟨h.tick, 32⟩, ⟨h.seq, 16⟩, ⟨h.stream, 8⟩, ⟨h.ackInputTick, 32⟩,
    .i32 h.inputHealth 8, ⟨h.timeEchoMs, 16⟩, ⟨h.echoHoldMs, 8⟩, ⟨h.tidiPct, 8⟩, ⟨h.flags, 8⟩]

theorem reads {h : SnapshotHeader} (hr : h.InRange) : Reads read (Field.all h.fields) h := by
  obtain ⟨hlow, hhigh⟩ := hr.inputHealth
  refine Reads.whole ((Reads.field (v := packetSnapshot) (by decide)).bind ?_)
  rw [if_neg (by decide)]
  apply (Reads.field hr.tick).bind
  apply (Reads.field hr.seq).bind
  apply (Reads.field hr.stream).bind
  apply (Reads.field hr.ackInputTick).bind
  apply (Reads.i32 (by decide) (by decide) hlow hhigh).bind
  apply (Reads.field hr.timeEchoMs).bind
  apply (Reads.field hr.echoHoldMs).bind
  apply (Reads.field hr.tidiPct).bind
  exact (Reads.field hr.flags).bind (Reads.pure _)

end SnapshotHeader

namespace OwnArms

def armsMaxTimer : ℕ := 2 ^ armsTimerBits - 1
def armsMaxSalvo : ℕ := 2 ^ salvoBits - 1
def armsMaxSalvoGap : ℕ := 2 ^ salvoGapBits - 1
def longAgo : ℕ := 7
def never : ℕ := 63

def salvoFields (s : ℕ × ℕ) : List Field :=
  [⟨min s.1 armsMaxSalvo, salvoBits⟩, ⟨min s.2 armsMaxSalvoGap, salvoGapBits⟩]

def fields (a : OwnArms) : List Field :=
  [⟨a.phase % 4, 2⟩, ⟨min a.timer armsMaxTimer, armsTimerBits⟩, ⟨a.slot % 4, 2⟩,
    ⟨min a.firedAgo longAgo, 3⟩] ++
    Field.array (fun c => ⟨min c never, armsWaitBits⟩) a.wait ++
    (List.ofFn fun k => (a.salvo k, a.salvoGap k)).flatMap salvoFields

theorem reads {a : OwnArms} (h : a.InRange) : Reads read (Field.all a.fields) a := by
  have hwait : Reads (readArray (readBits armsWaitBits) 4)
      (Field.all (Field.array (fun c => ⟨min c never, armsWaitBits⟩) a.wait)) a.wait :=
    reads_array fun k => Reads.upTo (Nat.le_sub_one_of_lt (h.wait k)) (by decide)
  have hsalvo : ∀ k, Reads readSalvo (Field.all (salvoFields (a.salvo k, a.salvoGap k)))
      (a.salvo k, a.salvoGap k) := by
    intro k
    apply (Reads.upTo (Nat.le_sub_one_of_lt (h.salvo k)) (by decide)).bind
    exact (Reads.upTo (Nat.le_sub_one_of_lt (h.salvoGap k)) (by decide)).bind (Reads.pure _)
  have hsalvos : Reads (readArray readSalvo 2)
      (Field.all ((List.ofFn fun k => (a.salvo k, a.salvoGap k)).flatMap salvoFields))
      fun k => (a.salvo k, a.salvoGap k) := by
    rw [Field.all, List.flatMap_assoc]
    exact Reads.array hsalvo
  simp only [fields, List.cons_append, List.nil_append, Field.all_cons, Field.all_append]
  apply (Reads.masked h.phase).bind
  apply (Reads.upTo (Nat.le_sub_one_of_lt h.timer) (by decide)).bind
  apply (Reads.masked h.slot).bind
  apply (Reads.upTo (Nat.le_sub_one_of_lt h.firedAgo) (by decide)).bind
  exact hwait.bind (hsalvos.map rfl)

end OwnArms

namespace OwnBurst

def burstMaxLeft : ℕ := 15
def burstMaxCooldown : ℕ := 63

/-- A burst's direction on one axis goes as its sign and one. -/
def axisField (d : ℤ) : Field := ⟨(d.sign + 1).toNat, 2⟩

def fields (b : OwnBurst) : List Field :=
  [⟨min b.left burstMaxLeft, 4⟩, ⟨min b.cooldown burstMaxCooldown, 6⟩] ++
    Field.array axisField b.dir ++ [.flag b.held]

theorem reads_axis {d : ℤ} (h : -1 ≤ d ∧ d ≤ 1) : Reads readAxis (axisField d).bits d := by
  obtain rfl | rfl | rfl : d = -1 ∨ d = 0 ∨ d = 1 := by omega
  · exact (Reads.field (v := 0) (by decide)).map rfl
  · exact (Reads.field (v := 1) (by decide)).map rfl
  · exact (Reads.field (v := 2) (by decide)).map rfl

theorem reads {b : OwnBurst} (h : b.InRange) : Reads read (Field.all b.fields) b := by
  have hdir : Reads (readArray readAxis 3) (Field.all (Field.array axisField b.dir)) b.dir :=
    reads_array fun k => reads_axis (h.dir k)
  simp only [fields, List.cons_append, List.nil_append, Field.all_cons, Field.all_append]
  apply (Reads.upTo (Nat.le_sub_one_of_lt h.left) (by decide)).bind
  apply (Reads.upTo (Nat.le_sub_one_of_lt h.cooldown) (by decide)).bind
  exact hdir.bind ((Reads.bool b.held).bind (Reads.pure _))

end OwnBurst

namespace OwnState

def impactMax : ℕ := 6
def targetStaggered : ℕ := 7
def hidden : ℕ := 3

def massReach : ℤ := 2 ^ (extraMassBits - 1) - 1

def flightFields (o : OwnState) : List Field :=
  [⟨o.slot, slotBits⟩, ⟨o.generation % 4, 2⟩, ⟨o.frame.index, FrameId.bits⟩, .flag o.alive] ++
    vecFields 32 o.pos ++ vecFields 32 o.vel ++ quatFields 16 o.rot ++ vecFields 16 o.angVel ++
    [⟨o.propellant, 32⟩, ⟨o.gStrain, 32⟩, ⟨o.heat, 10⟩, ⟨o.energy, 10⟩]

def fitnessFields (o : OwnState) : List Field :=
  Field.array (fun c => ⟨min c 1023, 10⟩) o.ammo ++
    [⟨o.weaponReady % 16, 4⟩, ⟨o.charge, 6⟩] ++ Field.array (⟨·, 8⟩) o.parts ++
    [⟨o.orreryStrain, 8⟩, ⟨o.orreryMode % 4, 2⟩, ⟨o.flags, 16⟩,
      ⟨o.systems % 2 ^ systemsBits, systemsBits⟩, ⟨o.modules % 2 ^ modulesBits, modulesBits⟩,
      ⟨o.grade % 2 ^ gradeBits, gradeBits⟩, ⟨min o.scram (2 ^ statusTickBits - 1), statusTickBits⟩,
      ⟨min o.concussed (2 ^ statusTickBits - 1), statusTickBits⟩, ⟨min o.repairing 15, 4⟩,
      ⟨min o.repairLeft (2 ^ statusTickBits - 1), statusTickBits⟩, ⟨o.respawnIn, 8⟩,
      ⟨o.kits, kitsBits⟩, ⟨min o.stim (2 ^ stimBits - 1), stimBits⟩, ⟨o.fed % 2 ^ fedBits, fedBits⟩]

def holdFields (o : OwnState) : List Field :=
  .i32 (max (-massReach) (min o.extraMassKg massReach)) extraMassBits ::
    Field.array (fun c => ⟨min c (2 ^ cargoBits - 1), cargoBits⟩) o.cargoKg ++
    [⟨min o.credits (2 ^ creditBits - 1), creditBits⟩, ⟨min o.held noChunk, chunkBits⟩,
      ⟨min o.lockTarget noSlot, slotBits⟩, ⟨min o.lockProgress 15, lockProgressBits⟩,
      ⟨o.specialTimer, 8⟩, ⟨o.specialCharge, 8⟩] ++
    o.arms.fields ++ o.burst.fields

/-- A suit on a body is on its feet or in the air. -/
def footingCode (o : OwnState) : ℕ :=
  o.surface.elim Footing.free fun on => max Footing.grounded (min on.footing Footing.aloft)

def standingFields (o : OwnState) : List Field :=
  [⟨o.footingCode, footingBits⟩, ⟨min o.cover hidden, coverBits⟩,
    ⟨min o.doom (2 ^ doomBits - 1), doomBits⟩, ⟨min o.impact impactMax, impactBits⟩,
    ⟨min o.stagger (2 ^ staggerBits - 1), staggerBits⟩,
    ⟨min o.targetImpact targetStaggered, impactBits⟩] ++
    o.surface.elim [] fun on => on.body.fields ++ [⟨on.stanceQ, stanceBits⟩]

def fields (o : OwnState) : List Field :=
  o.flightFields ++ o.fitnessFields ++ o.holdFields ++ o.standingFields

/-- A state no clamp of the writer's changes. -/
structure Sendable (o : OwnState) : Prop where
  inRange : o.InRange
  mass : -massReach ≤ o.extraMassKg ∧ o.extraMassKg ≤ massReach
  impact : o.impact ≤ impactMax

variable {o : OwnState}

theorem reads_flight (h : o.InRange) : Reads readFlight (Field.all o.flightFields)
    { slot := o.slot, generation := o.generation, frame := o.frame, alive := o.alive, pos := o.pos
      vel := o.vel, rot := o.rot, angVel := o.angVel, propellant := o.propellant
      gStrain := o.gStrain, heat := o.heat, energy := o.energy } := by
  simp only [flightFields, List.cons_append, List.nil_append, List.append_assoc, Field.all_cons,
    Field.all_append]
  apply (Reads.field h.slot).bind
  apply (Reads.masked h.generation).bind
  apply (Reads.field (Nat.lt_of_lt_of_le (FrameId.index_lt o.frame) (by decide))).bind
  rw [FrameId.fromBits_index]
  apply (Reads.pure o.frame).bind
  apply (Reads.bool o.alive).bind
  apply (reads_vecFields h.pos).bind
  apply (reads_vecFields h.vel).bind
  apply (reads_quatFields h.rotLargest h.rot).bind
  apply (reads_vecFields h.angVel).bind
  apply (Reads.field h.propellant).bind
  apply (Reads.field h.gStrain).bind
  apply (Reads.field h.heat).bind
  exact (Reads.field h.energy).bind (Reads.pure _)

theorem reads_fitness (h : o.InRange) (o' : OwnState) :
    Reads (readFitness o') (Field.all o.fitnessFields)
      { o' with
        ammo := o.ammo, weaponReady := o.weaponReady, charge := o.charge, parts := o.parts
        orreryStrain := o.orreryStrain, orreryMode := o.orreryMode, flags := o.flags
        systems := o.systems, modules := o.modules, grade := o.grade, scram := o.scram
        concussed := o.concussed, repairing := o.repairing, repairLeft := o.repairLeft
        respawnIn := o.respawnIn, kits := o.kits, stim := o.stim, fed := o.fed } := by
  have hammo : Reads (readArray (readBits 10) 2)
      (Field.all (Field.array (fun c => ⟨min c 1023, 10⟩) o.ammo)) o.ammo :=
    reads_array fun k => Reads.upTo (Nat.le_sub_one_of_lt (h.ammo k)) (by decide)
  have hparts : Reads (readArray (readBits 8) Part.count)
      (Field.all (Field.array (⟨·, 8⟩) o.parts)) o.parts :=
    reads_array fun k => Reads.field (h.parts k)
  have hfed : o.fed < 2 ^ fedBits := h.fed.trans_lt (by decide)
  simp only [fitnessFields, List.cons_append, List.nil_append, List.append_assoc, Field.all_cons,
    Field.all_append]
  apply hammo.bind
  apply (Reads.masked h.weaponReady).bind
  apply (Reads.field h.charge).bind
  apply hparts.bind
  apply (Reads.field h.orreryStrain).bind
  apply (Reads.masked h.orreryMode).bind
  apply (Reads.field h.flags).bind
  apply (Reads.masked h.systems).bind
  apply (Reads.masked h.modules).bind
  apply (Reads.masked h.grade).bind
  apply (Reads.upTo (Nat.le_sub_one_of_lt h.scram) (by decide)).bind
  apply (Reads.upTo (Nat.le_sub_one_of_lt h.concussed) (by decide)).bind
  apply (Reads.upTo (Nat.le_sub_one_of_lt h.repairing) (by decide)).bind
  apply (Reads.upTo (Nat.le_sub_one_of_lt h.repairLeft) (by decide)).bind
  apply (Reads.field h.respawnIn).bind
  apply (Reads.field h.kits).bind
  apply (Reads.upTo (Nat.le_sub_one_of_lt h.stim) (by decide)).bind
  refine (Reads.masked hfed).bind ?_
  rw [if_neg (not_lt.mpr h.fed)]
  exact Reads.pure _

theorem reads_hold (h : o.Sendable) (o' : OwnState) :
    Reads (readHold o') (Field.all o.holdFields)
      { o' with
        extraMassKg := o.extraMassKg, cargoKg := o.cargoKg, credits := o.credits, held := o.held
        lockTarget := o.lockTarget, lockProgress := o.lockProgress, specialTimer := o.specialTimer
        specialCharge := o.specialCharge, arms := o.arms, burst := o.burst } := by
  have hr := h.inRange
  have hmass : max (-massReach) (min o.extraMassKg massReach) = o.extraMassKg := by
    rw [min_eq_left h.mass.2, max_eq_right h.mass.1]
  have hcargo : Reads (readArray (readBits cargoBits) cargoKinds)
      (Field.all (Field.array (fun c => ⟨min c (2 ^ cargoBits - 1), cargoBits⟩) o.cargoKg))
      o.cargoKg :=
    reads_array fun k => Reads.upTo (Nat.le_sub_one_of_lt (hr.cargoKg k)) (by decide)
  simp only [holdFields, hmass, List.cons_append, List.nil_append, List.append_assoc,
    Field.all_cons, Field.all_append]
  apply (Reads.i32 (by decide) (by decide) hr.extraMassKg.1 hr.extraMassKg.2).bind
  apply hcargo.bind
  apply (Reads.upTo (Nat.le_sub_one_of_lt hr.credits) (by decide)).bind
  apply (Reads.upTo (Nat.le_sub_one_of_lt hr.held) (by decide)).bind
  apply (Reads.upTo (Nat.le_sub_one_of_lt hr.lockTarget) (by decide)).bind
  apply (Reads.upTo (Nat.le_sub_one_of_lt hr.lockProgress) (by decide)).bind
  apply (Reads.field hr.specialTimer).bind
  apply (Reads.field hr.specialCharge).bind
  apply (OwnArms.reads hr.arms).bind
  exact (OwnBurst.reads hr.burst).map rfl

theorem reads_surface (h : o.InRange) : o.footingCode < 2 ^ footingBits ∧
    Reads (readSurface o.footingCode)
      (Field.all (o.surface.elim [] fun on => on.body.fields ++ [⟨on.stanceQ, stanceBits⟩]))
      o.surface := by
  have hrange := h.surface
  unfold footingCode
  cases hon : o.surface with
  | none =>
    constructor
    · decide
    · exact Reads.pure none
  | some on =>
    obtain ⟨hfooting, hbody, hstance⟩ := hrange on hon
    have hcode : max Footing.grounded (min on.footing Footing.aloft) = on.footing := by
      rcases hfooting with hfooting | hfooting
      · rw [hfooting]; rfl
      · rw [hfooting]; rfl
    have hread : Reads (readSurface on.footing)
        (Field.all (on.body.fields ++ [⟨on.stanceQ, stanceBits⟩])) (some on) := by
      unfold readSurface
      rw [if_neg (by rcases hfooting with hfooting | hfooting <;> rw [hfooting] <;> decide),
        if_pos hfooting, Field.all_append]
      exact (BodyRef.reads hbody).bind ((Reads.field hstance).map rfl)
    simp only [Option.elim_some, hcode]
    constructor
    · rcases hfooting with hfooting | hfooting <;> rw [hfooting] <;> decide
    · exact hread

theorem reads_standing (h : o.Sendable) (o' : OwnState) :
    Reads (readStanding o') (Field.all o.standingFields)
      { o' with
        cover := o.cover, doom := o.doom, impact := o.impact, stagger := o.stagger
        targetImpact := o.targetImpact, surface := o.surface } := by
  have hr := h.inRange
  obtain ⟨hcode, hsurface⟩ := reads_surface hr
  simp only [standingFields, List.cons_append, List.nil_append, Field.all_cons]
  apply (Reads.field hcode).bind
  apply (Reads.upTo (Nat.le_sub_one_of_lt hr.cover) (by decide)).bind
  apply (Reads.upTo (Nat.le_sub_one_of_lt hr.doom) (by decide)).bind
  apply (Reads.upTo h.impact (by decide)).bind
  apply (Reads.upTo (Nat.le_sub_one_of_lt hr.stagger) (by decide)).bind
  apply (Reads.upTo (Nat.le_sub_one_of_lt hr.targetImpact) (by decide)).bind
  exact hsurface.map rfl

theorem reads (h : o.Sendable) : Reads read (Field.all o.fields) o := by
  simp only [fields, Field.all_append, List.append_assoc]
  apply (reads_flight h.inRange).bind
  apply (reads_fitness h.inRange _).bind
  apply (reads_hold h _).bind
  exact reads_standing h _

end OwnState

namespace OrreryInfo

def threatFields (t : OrreryThreat) : List Field :=
  ⟨t.slot, slotBits⟩ :: Field.array (⟨·, pBits⟩) t.probs

/-- The state after its presence bit: as many threats as there are, two at most. -/
def fields (z : OrreryInfo) : List Field :=
  [.flag z.sourceJev, ⟨min z.adviceAge 15, 4⟩, ⟨min z.threatCount orreryThreats, 2⟩] ++
    ((List.ofFn z.threats).take (min z.threatCount orreryThreats)).flatMap threatFields ++
    [⟨z.recTarget, slotBits⟩, ⟨z.recTargetP, pBits⟩, ⟨min z.recManeuver 7, 3⟩,
      ⟨z.recManeuverP, pBits⟩, ⟨min z.threatLevel 3, 2⟩, ⟨z.threatConfidence, pBits⟩,
      ⟨z.flanked, pBits⟩, .flag z.hasSolution] ++
    dirFields 12 z.solution ++ [⟨z.hitP, pBits⟩]

/-- In range, and nothing kept for the threats there aren't. -/
structure Sendable (z : OrreryInfo) : Prop where
  inRange : z.InRange
  blank : ∀ k : Fin orreryThreats, z.threatCount ≤ k → z.threats k = {}

variable {z : OrreryInfo}

theorem reads_threat {t : OrreryThreat} (hslot : t.slot < 2 ^ slotBits)
    (hprobs : ∀ i, t.probs i < 2 ^ pBits) : Reads readThreat (Field.all (threatFields t)) t := by
  have hall : Reads (readArray (readBits pBits) orreryHypotheses)
      (Field.all (Field.array (⟨·, pBits⟩) t.probs)) t.probs :=
    reads_array fun i => Reads.field (hprobs i)
  simp only [threatFields, Field.all_cons]
  apply (Reads.field hslot).bind
  exact hall.map rfl

variable {n : ℕ}

theorem reads_threats (h : z.InRange) (hn : n ≤ orreryThreats) (hcount : n = z.threatCount) :
    Reads (readArray readThreat n)
      (Field.all (((List.ofFn z.threats).take z.threatCount).flatMap threatFields))
      fun k => z.threats (k.castLE hn) := by
  have htake : (List.ofFn z.threats).take n = List.ofFn fun k : Fin n => z.threats (k.castLE hn) :=
    (Fin.ofFn_take_eq_take_ofFn hn z.threats).symm
  rw [← hcount, htake, Field.all, List.flatMap_assoc]
  exact Reads.array fun k => reads_threat (h.slots _) (h.probs _)

/-- Nothing is lost with the threats that aren't sent. -/
theorem Sendable.kept (h : z.Sendable) (hn : n ≤ orreryThreats) (hcount : n = z.threatCount) :
    { z with
      threatCount := n
      threats := fun k => if hk : (k : ℕ) < n then z.threats (Fin.castLE hn ⟨k, hk⟩) else {} }
      = z := by
  subst hcount
  have hthreats : (fun k : Fin orreryThreats => if hk : (k : ℕ) < z.threatCount then
      z.threats (Fin.castLE hn ⟨k, hk⟩) else {}) = z.threats := by
    funext k
    split
    · rfl
    · rename_i hk
      exact (h.blank k (not_lt.mp hk)).symm
  rw [hthreats]

theorem reads (h : z.Sendable) : Reads read (Field.all z.fields) z := by
  have hr := h.inRange
  have hcount := Nat.min_eq_left hr.threatCount
  simp only [fields, hcount, List.cons_append, List.nil_append, List.append_assoc, Field.all_cons,
    Field.all_append]
  apply (Reads.bool z.sourceJev).bind
  apply (Reads.upTo (Nat.le_sub_one_of_lt hr.adviceAge) (by decide)).bind
  apply (Reads.field (hr.threatCount.trans_lt (by decide))).bind
  apply (reads_threats hr (Nat.min_le_right _ _) hcount).bind
  apply (Reads.field hr.recTarget).bind
  apply (Reads.field hr.recTargetP).bind
  apply (Reads.upTo (Nat.le_sub_one_of_lt hr.recManeuver) (by decide)).bind
  apply (Reads.field hr.recManeuverP).bind
  apply (Reads.upTo (Nat.le_sub_one_of_lt hr.threatLevel) (by decide)).bind
  apply (Reads.field hr.threatConfidence).bind
  apply (Reads.field hr.flanked).bind
  apply (Reads.bool z.hasSolution).bind
  apply (reads_dirFields hr.solution).bind
  exact (Reads.field hr.hitP).map (congrArg Pure.pure (h.kept (Nat.min_le_right _ _) hcount))

end OrreryInfo

namespace MissileState

def fields (m : MissileState) : List Field :=
  [⟨m.id, missileBits⟩, ⟨m.generation % 4, 2⟩, ⟨m.kind.index, WeaponKind.bits⟩, .flag m.guided,
    .flag m.targetsYou, .flag m.friendly] ++ vecFields posBits m.pos ++ vecFields missileVelBits m.vel

def write (m : MissileState) (w : BitWriter) : BitWriter := w.put m.fields

def missileRecordBits : ℕ := missileBits + 2 + WeaponKind.bits + 3 + 3 * posBits + 3 * missileVelBits

theorem widths_fields (m : MissileState) : Field.widths m.fields = missileRecordBits := by
  simp only [fields, List.cons_append, List.nil_append, Field.widths_cons, Field.widths_append,
    widths_vecFields, Field.flag]
  rfl

theorem reads {m : MissileState} (h : m.InRange) : Reads read (Field.all m.fields) m := by
  simp only [fields, List.cons_append, List.nil_append, Field.all_cons, Field.all_append]
  apply (Reads.field h.id).bind
  apply (Reads.masked h.generation).bind
  apply (Reads.field (WeaponKind.index_lt m.kind)).bind
  rw [WeaponKind.fromBits_index]
  apply (Reads.pure m.kind).bind
  apply (Reads.bool m.guided).bind
  apply (Reads.bool m.targetsYou).bind
  apply (Reads.bool m.friendly).bind
  exact (reads_vecFields h.pos).bind ((reads_vecFields h.vel).map rfl)

end MissileState

end BeforeColony
