import BeforeColony.Proto.Input

/-!
# Lag compensation

A shot is flown through the world as its pilot saw it, a blade meets the others as they were, and a
client draws its shot from its suit as it saw it. How far back each goes is from the command's view
tick, a word of sixteenths: a tick of 2²⁸ or more is no longer one (`fire_rewind`).
-/

set_option autoImplicit false

namespace BeforeColony

/-- Lag compensation goes back no further than this. -/
def maxRewindTicks : ℕ := 8

def q4 (t : ℕ) : ℕ := t * 16 % 2 ^ 32

/-- The world as a pilot saw it: how many ticks back, how far into the next tick, and the tick gone
back to. -/
structure Rewind where
  ticks : ℕ
  /-- In 1/16 ticks. -/
  frac : ℕ
  tick : ℕ

/-- A strike under way: how far behind the pilot's view was when it began, in 1/16 ticks. -/
structure Strike where
  lagQ4 : ℕ

namespace Sim

/-- The view tick a shot is flown from on tick `t`: a view older than the oldest there may be counts
as exactly that old. -/
def viewQ4 (cmd : InputCmd) (t : ℕ) : ℕ := max cmd.viewTickQ4 (q4 (t - maxRewindTicks))

def fire (pilot : PilotKind) (cmd : InputCmd) (t : ℕ) : Rewind :=
  let ticks := if pilot = .drone then 0 else t - viewQ4 cmd t / 16
  let frac := if 0 < ticks then viewQ4 cmd t % 16 else 0
  { ticks, frac, tick := ticksBack t ticks }

def startStrike (cmd : InputCmd) (t : ℕ) : Strike := ⟨q4 t - cmd.viewTickQ4⟩

/-- How far back a blade meets the others, on tick `t` of its strike. -/
def meleeSweep (pilot : PilotKind) (st : Strike) (t : ℕ) : Rewind :=
  let ticks := if pilot = .drone then 0 else min (st.lagQ4 / 16) maxRewindTicks
  { ticks, frac := 0, tick := ticksBack t ticks }

end Sim

/-- Where a client saw its suit when it gave a command. -/
def Predictor.asSeen (cmd : InputCmd) : Rewind :=
  let viewQ4 := max cmd.viewTickQ4 (q4 (cmd.tick - maxRewindTicks))
  let ticks := cmd.tick - viewQ4 / 16
  { ticks, frac := if ticks = 0 then 0 else viewQ4 % 16, tick := ticksBack cmd.tick ticks }

/-! ## A command as decoded -/

namespace InputCmd

/-- A command's view tick is as many sixteenths as a byte holds before its own, or from the first. -/
def Viewed (c : InputCmd) : Prop :=
  c.tick < 2 ^ 32 ∧ ∃ delta < 2 ^ viewDeltaBits, c.viewTickQ4 = q4 c.tick - delta

theorem safe_viewed {tick : ℕ} (htick : tick < 2 ^ 32) : Safe (readBody tick) Viewed := by
  refine .bind (.bits (by decide)) fun delta hdelta => ?_
  refine .bind (safe_dir (by decide)).any fun aim _ => ?_
  refine .bind ((Safe.i32 (by decide) (by decide)).array 3).any fun thrust _ => ?_
  refine .bind (Safe.i32 (by decide) (by decide)).any fun roll _ => ?_
  refine .bind (Safe.bits (by decide)).any fun buttons _ => ?_
  refine .bind (Safe.bits (by decide)).any fun lockTarget _ => ?_
  refine .bind (Safe.bits (by decide)).any fun shotSeq _ => ?_
  refine .bind (safe_if LockOn.safe_read).any fun lockon _ => ?_
  refine .bind (safe_if (.bits (by decide))).any fun converge _ => ?_
  exact (safe_if FootAct.safe_read).any.map fun act _ => ⟨htick, delta, hdelta, rfl⟩

end InputCmd

namespace InputPacket

theorem safe_cmds_viewed {newest : ℕ} (hnewest : newest < 2 ^ 32) (n i : ℕ) :
    Safe (readCmds newest n i) fun cmds => cmds.length = n ∧ ∀ c ∈ cmds, c.Viewed := by
  induction n generalizing i with
  | zero => exact .pure ⟨rfl, nofun⟩
  | succ n ih =>
    refine .bind (InputCmd.safe_viewed (ticksBack_lt hnewest)) fun cmd hcmd => ?_
    refine (ih (i + 1)).map fun rest hrest => ⟨congrArg (· + 1) hrest.1, fun c hc => ?_⟩
    rcases List.mem_cons.mp hc with rfl | hrestc
    · exact hcmd
    · exact hrest.2 c hrestc

theorem safe_viewed : Safe read fun p => ∀ k : Fin maxCmds, k < p.count → (p.cmds k).Viewed := by
  refine .whole (.bind (Safe.bits (by decide)).any fun kind _ => ?_)
  split
  · exact .fail nofun
  · refine .bind (Safe.bits (by decide)).any fun ackStream _ => ?_
    refine .bind (Safe.bits (by decide)).any fun ackSeq _ => ?_
    refine .bind (Safe.bits (by decide)).any fun ackBits _ => ?_
    refine .bind (Safe.bits (by decide)).any fun clientTimeMs _ => ?_
    refine .bind (Safe.bits (by decide)).any fun fewer _ => ?_
    refine .bind (.bits (by decide)) fun newest hnewest => ?_
    refine (safe_cmds_viewed hnewest (fewer + 1) 0).map fun cmds hcmds k hk => ?_
    have hlt : k.val < cmds.length := hcmds.1 ▸ hk
    dsimp only
    rw [List.getElem?_eq_getElem hlt]
    exact hcmds.2 _ (List.getElem_mem hlt)

theorem viewed_of_decode {bytes : List UInt8} {p : InputPacket} (h : decode bytes = .ok p)
    {k : Fin maxCmds} (hk : k < p.count) : (p.cmds k).Viewed :=
  safe_viewed.ok (Prod.ext h rfl) k hk

end InputPacket

/-! ## How far back -/

/-- No further back than lag compensation goes, to a tick that has been. -/
def Rewind.Within (w : Rewind) (t : ℕ) : Prop := w.ticks ≤ maxRewindTicks ∧ w.tick ≤ t

/-- What lag compensation keeps to for a command, on its tick and on those of a strike begun by it. -/
structure Compensated (pilot : PilotKind) (c : InputCmd) : Prop where
  view : c.viewTickQ4 ≤ c.tick * 16 ∧ Sim.viewQ4 c c.tick ≤ c.tick * 16
  shot : (Sim.fire pilot c c.tick).Within c.tick
  blade : ∀ t, c.tick ≤ t → t < 2 ^ 32 →
    (Sim.meleeSweep pilot (Sim.startStrike c c.tick) t).Within t
  seen : (Predictor.asSeen c).Within c.tick
  shot_seen : Sim.fire pilot c c.tick = Predictor.asSeen c

theorem q4_le (t : ℕ) : q4 t ≤ t * 16 := Nat.mod_le _ _

theorem q4_eq {t : ℕ} (h : t < 2 ^ 28) : q4 t = t * 16 := Nat.mod_eq_of_lt (by omega)

theorem ticksBack_le {t n : ℕ} (h : n ≤ t) : ticksBack t n ≤ t := by
  rw [ticksBack, if_pos h]
  exact Nat.sub_le t n

variable {pilot : PilotKind} {c : InputCmd}

theorem Sim.strike_within {t : ℕ} (ht : c.tick ≤ t) :
    (Sim.meleeSweep pilot (Sim.startStrike c c.tick) t).Within t := by
  have hlag : (Sim.startStrike c c.tick).lagQ4 / 16 ≤ c.tick := by
    have := q4_le c.tick
    simp only [Sim.startStrike]
    omega
  have hticks : (Sim.meleeSweep pilot (Sim.startStrike c c.tick) t).ticks
      ≤ min ((Sim.startStrike c c.tick).lagQ4 / 16) maxRewindTicks := by
    simp only [Sim.meleeSweep]
    split
    · exact Nat.zero_le _
    · exact le_rfl
  exact ⟨hticks.trans (min_le_right _ _),
    ticksBack_le ((hticks.trans (min_le_left _ _)).trans (hlag.trans ht))⟩

namespace InputCmd.Viewed

theorem view_le (h : c.Viewed) : c.viewTickQ4 ≤ q4 c.tick := by
  obtain ⟨-, delta, -, hview⟩ := h
  rw [hview]
  exact Nat.sub_le _ _

/-- A shot's view tick is its command's, or the oldest there may be. -/
theorem fire_view_le (h : c.Viewed) : Sim.viewQ4 c c.tick ≤ c.tick * 16 := by
  have holdest : q4 (c.tick - maxRewindTicks) ≤ c.tick * 16 :=
    (q4_le _).trans (Nat.mul_le_mul_right 16 (Nat.sub_le _ _))
  exact max_le (h.view_le.trans (q4_le _)) holdest

/-- How far back a client sees its suit: within bounds until the oldest view tick there may be no
longer fits its word. -/
theorem asSeen_ticks_le_iff (h : c.Viewed) :
    (Predictor.asSeen c).ticks ≤ maxRewindTicks ↔ c.tick < 2 ^ 28 + maxRewindTicks := by
  obtain ⟨htick, delta, hdelta, hview⟩ := h
  simp only [Predictor.asSeen, hview, q4, maxRewindTicks]
  omega

theorem asSeen_within_iff (h : c.Viewed) :
    (Predictor.asSeen c).Within c.tick ↔ c.tick < 2 ^ 28 + maxRewindTicks := by
  refine ⟨fun hw => h.asSeen_ticks_le_iff.mp hw.1, fun hlt => ⟨h.asSeen_ticks_le_iff.mpr hlt, ?_⟩⟩
  exact ticksBack_le (Nat.sub_le _ _)

/-- A blade goes back by whole ticks, those its client's view is behind and no part of one more. -/
theorem strike_eq_asSeen_iff (h : c.Viewed) (hpilot : pilot ≠ .drone) :
    (Sim.meleeSweep pilot (Sim.startStrike c c.tick) c.tick).ticks = (Predictor.asSeen c).ticks
      ↔ c.tick < 2 ^ 28 ∧ (16 ∣ c.viewTickQ4 ∨ c.viewTickQ4 + 16 * maxRewindTicks ≤ 16 * c.tick) := by
  obtain ⟨htick, delta, hdelta, hview⟩ := h
  simp only [Sim.meleeSweep, Sim.startStrike, Predictor.asSeen, if_neg hpilot]
  rcases Nat.lt_or_ge c.tick (2 ^ 28) with hlow | hhigh
  · have hoff : c.viewTickQ4 ≤ c.tick * 16 := by
      rw [hview, q4_eq hlow]
      exact Nat.sub_le _ _
    rw [q4_eq hlow, q4_eq ((Nat.sub_le _ _).trans_lt hlow)]
    clear hview htick hdelta
    simp only [maxRewindTicks]
    omega
  · rw [hview]
    simp only [q4, maxRewindTicks]
    omega

end InputCmd.Viewed

theorem fire_eq_asSeen (hpilot : pilot ≠ .drone) : Sim.fire pilot c c.tick = Predictor.asSeen c := by
  simp only [Sim.fire, Sim.viewQ4, Predictor.asSeen, if_neg hpilot, Nat.pos_iff_ne_zero, ite_not]

/-- Lag compensation is bounded for a client's command, and its shot is the one its client sees, just
until view ticks outgrow their word; a blade goes back as its client's view does where that is whole
ticks behind, or too far. -/
theorem lag_compensation {bytes : List UInt8} {p : InputPacket} (hp : InputPacket.decode bytes = .ok p)
    {k : Fin maxCmds} (hk : k < p.count) (pilot : PilotKind) (hpilot : pilot ≠ .drone) :
    (Compensated pilot (p.cmds k) ↔ (p.cmds k).tick < 2 ^ 28 + maxRewindTicks)
      ∧ ((Sim.meleeSweep pilot (Sim.startStrike (p.cmds k) (p.cmds k).tick) (p.cmds k).tick).ticks
          = (Predictor.asSeen (p.cmds k)).ticks
        ↔ (p.cmds k).tick < 2 ^ 28 ∧ (16 ∣ (p.cmds k).viewTickQ4
          ∨ (p.cmds k).viewTickQ4 + 16 * maxRewindTicks ≤ 16 * (p.cmds k).tick)) := by
  have h := InputPacket.viewed_of_decode hp hk
  refine ⟨⟨fun hc => h.asSeen_within_iff.mp hc.seen, fun hlt => ?_⟩, h.strike_eq_asSeen_iff hpilot⟩
  have hseen := h.asSeen_within_iff.mpr hlt
  exact {
    view := ⟨h.view_le.trans (q4_le _), h.fire_view_le⟩
    shot := fire_eq_asSeen hpilot ▸ hseen
    blade := fun t ht _ => Sim.strike_within ht
    seen := hseen
    shot_seen := fire_eq_asSeen hpilot }

/-! ## Two commands -/

theorem maxCmds_pos : 0 < maxCmds := by decide

namespace InputPacket

def newestCmd (p : InputPacket) : InputCmd := p.cmds ⟨0, maxCmds_pos⟩

def ticks (p : InputPacket) : ℕ × ℕ × ℕ := (p.count, p.newestCmd.tick, p.newestCmd.viewTickQ4)

def idle (lo hi delta : UInt8) : List UInt8 :=
  [1, 0, 0, 0, 0, 0, 0, 0, 0, 0, lo, 0, 0, hi, delta, 0, 32, 0, 32, 0, 0, 0, 0, 0, 192, 255, 0, 0]

theorem exists_of_ticks (bytes : List UInt8) (n : ℕ × ℕ × ℕ)
    (h : (decode bytes).toOption.map ticks = some n) : ∃ p, decode bytes = .ok p ∧ p.ticks = n := by
  cases hp : decode bytes with
  | error e =>
    rw [hp] at h
    cases h
  | ok p =>
    rw [hp] at h
    exact ⟨p, rfl, Option.some.inj h⟩

end InputPacket

/-- On tick 100, its view two and a half ticks behind: lag compensation holds, and a blade doesn't go
back as its client's view does. -/
theorem lag_compensation_hundred : ∃ p, InputPacket.decode (InputPacket.idle 25 0 10) = .ok p
    ∧ Compensated .human p.newestCmd
    ∧ (Sim.meleeSweep .human (Sim.startStrike p.newestCmd p.newestCmd.tick) p.newestCmd.tick).ticks
      ≠ (Predictor.asSeen p.newestCmd).ticks := by
  obtain ⟨p, hp, hticks⟩ := InputPacket.exists_of_ticks (InputPacket.idle 25 0 10) (1, 100, 1560)
    (by decide +kernel)
  obtain ⟨hcount, hrest⟩ := Prod.mk.inj hticks
  obtain ⟨htick, hview⟩ := Prod.mk.inj hrest
  have hk : ((⟨0, maxCmds_pos⟩ : Fin maxCmds) : ℕ) < p.count := hcount ▸ Nat.one_pos
  obtain ⟨hbounded, hblade⟩ := lag_compensation hp hk .human (by decide)
  change Compensated .human p.newestCmd ↔ p.newestCmd.tick < 2 ^ 28 + maxRewindTicks at hbounded
  have hearly : p.newestCmd.tick < 2 ^ 28 + maxRewindTicks := by
    rw [htick, maxRewindTicks]
    omega
  refine ⟨p, hp, hbounded.mpr hearly, fun heq => ?_⟩
  have hwhole := (hblade.mp heq).2
  change 16 ∣ p.newestCmd.viewTickQ4
    ∨ p.newestCmd.viewTickQ4 + 16 * maxRewindTicks ≤ 16 * p.newestCmd.tick at hwhole
  rw [htick, hview] at hwhole
  exact absurd hwhole (by decide)

/-- On tick 2²⁸ + 8, its view where the world is, a shot goes back for months. -/
theorem shot_goes_back_for_months : ¬ ∀ (bytes : List UInt8) (p : InputPacket),
    InputPacket.decode bytes = .ok p → ∀ k : Fin maxCmds, k < p.count →
      ∀ pilot : PilotKind, pilot ≠ .drone → Compensated pilot (p.cmds k) := by
  intro h
  obtain ⟨p, hp, hticks⟩ := InputPacket.exists_of_ticks (InputPacket.idle 2 4 0) (1, 2 ^ 28 + 8, 128)
    (by decide +kernel)
  obtain ⟨hcount, hrest⟩ := Prod.mk.inj hticks
  obtain ⟨htick, hview⟩ := Prod.mk.inj hrest
  have hk : ((⟨0, maxCmds_pos⟩ : Fin maxCmds) : ℕ) < p.count := hcount ▸ Nat.one_pos
  have hseen := (h _ p hp _ hk .human (by decide)).seen.1
  change p.newestCmd.tick - max p.newestCmd.viewTickQ4 (q4 (p.newestCmd.tick - maxRewindTicks)) / 16
    ≤ maxRewindTicks at hseen
  rw [htick, hview] at hseen
  exact absurd hseen (by decide)

end BeforeColony
