import Mathlib.Data.Rat.Defs
import BeforeColony.Proto.Input

/-!
# Stand-ins

What is flown for a tick whose command never came: the last one again without firing, then hands
off. What a stand-in does of a command's controls depends on them and on how many ticks are missing
alone (`controls_standIn`), and hands off stays hands off (`Controls.HandsOff.standIn`).
-/

set_option autoImplicit false

namespace BeforeColony

namespace Buttons

def firePrimary : BitVec 16 := 1 <<< 0
def fireSecondary : BitVec 16 := 1 <<< 1
def melee : BitVec 16 := 1 <<< 2
def flightAssist : BitVec 16 := 1 <<< 5
def orrery : BitVec 16 := 1 <<< 6
def grab : BitVec 16 := 1 <<< 8
def mode : BitVec 16 := 1 <<< 12
def special : BitVec 16 := 1 <<< 13
def grip : BitVec 16 := 1 <<< 14

def fireMask : BitVec 16 := firePrimary ||| fireSecondary ||| melee ||| special

def states : BitVec 16 := flightAssist ||| orrery ||| grab ||| mode ||| grip

end Buttons

open Buttons

/-- Ticks a command is repeated for before hands off. -/
def neutralAfter : ℕ := 8

def lockonKeep : ℕ := 30

/-- A command as it is flown: an `InputCmd` with its aim as a direction. -/
structure Cmd where
  tick : ℕ := 0
  /-- In 1/16 ticks. -/
  viewTickQ4 : ℕ := 0
  aim : Fin 3 → ℚ := ![0, 0, 1]
  thrust : Fin 3 → ℤ := fun _ => 0
  roll : ℤ := 0
  buttons : BitVec 16 := 0
  lockTarget : ℕ := noSlot
  shotSeq : ℕ := 0
  lockon : Option LockOn := none
  converge : ℕ := 0
  act : Option FootAct := none
  deriving DecidableEq

namespace Cmd

/-- Hands off: the aim and the states given, and nothing else. -/
def neutral (tick : ℕ) (aim : Fin 3 → ℚ) (keep : BitVec 16) : Cmd :=
  { tick, viewTickQ4 := tick * 16, aim, buttons := keep &&& states }

/-- What is flown for `tick` when its command never came, `missing` ticks after `last`: `last` again
without firing, on the same view delay, then hands off, locked on for a while still. -/
def standIn (last : Cmd) (tick missing : ℕ) : Cmd :=
  if neutralAfter < missing then
    { neutral tick last.aim last.buttons with
      lockon := if missing ≤ neutralAfter + lockonKeep then last.lockon else none }
  else
    { last with
      tick
      viewTickQ4 := tick * 16 - (last.tick * 16 - last.viewTickQ4)
      buttons := last.buttons &&& ~~~fireMask
      act := none }

/-- However long the silence, a stand-in keeps the states: the grips, flight assist, the Orrery and
the frame's mode. -/
theorem standIn_states (last : Cmd) (tick missing : ℕ) :
    (standIn last tick missing).buttons &&& states = last.buttons &&& states := by
  have hself (x y : BitVec 16) : x &&& y &&& y = x &&& y := by
    rw [BitVec.and_assoc, BitVec.and_self]
  unfold standIn
  split
  · exact hself _ _
  · have hclear : ~~~fireMask &&& states = states := by decide
    change last.buttons &&& ~~~fireMask &&& states = _
    rw [BitVec.and_assoc, hclear]

theorem standIn_grip (last : Cmd) (tick missing : ℕ) :
    (standIn last tick missing).buttons &&& grip = last.buttons &&& grip := by
  have hstate : states &&& grip = grip := by decide
  have hkept := congrArg (· &&& grip) (standIn_states last tick missing)
  simpa only [BitVec.and_assoc, hstate] using hkept

theorem standIn_held (last : Cmd) (tick : ℕ) {missing : ℕ} (h : missing ≤ neutralAfter) :
    (standIn last tick missing).buttons &&& ~~~fireMask = last.buttons &&& ~~~fireMask := by
  rw [standIn, if_neg (not_lt.mpr h)]
  change last.buttons &&& ~~~fireMask &&& ~~~fireMask = _
  rw [BitVec.and_assoc, BitVec.and_self]

end Cmd

structure Controls where
  aim : Fin 3 → ℚ
  thrust : Fin 3 → ℤ
  roll : ℤ
  buttons : BitVec 16
  lockon : Option LockOn
  deriving DecidableEq

def Cmd.controls (c : Cmd) : Controls := ⟨c.aim, c.thrust, c.roll, c.buttons, c.lockon⟩

namespace Controls

def handsOff (aim : Fin 3 → ℚ) (keep : BitVec 16) : Controls :=
  ⟨aim, fun _ => 0, 0, keep &&& states, none⟩

/-- The controls so many ticks after the command they are of, with none in between. -/
def after (c : Controls) (missing : ℕ) : Controls :=
  if missing = 0 then c
  else if neutralAfter < missing then
    { handsOff c.aim c.buttons with
      lockon := if missing ≤ neutralAfter + lockonKeep then c.lockon else none }
  else { c with buttons := c.buttons &&& ~~~fireMask }

def HandsOff (c : Controls) : Prop := ∃ aim keep, c = handsOff aim keep

theorem states_and_states (b : BitVec 16) : b &&& states &&& states = b &&& states := by
  rw [BitVec.and_assoc, BitVec.and_self]

theorem states_and_not_fireMask (b : BitVec 16) : b &&& states &&& ~~~fireMask = b &&& states := by
  have hstates : states &&& ~~~fireMask = states := by decide
  rw [BitVec.and_assoc, hstates]

theorem HandsOff.after {c : Controls} (h : c.HandsOff) (missing : ℕ) : c.after missing = c := by
  obtain ⟨aim, keep, rfl⟩ := h
  unfold Controls.after
  split
  · rfl
  · split
    · simp only [handsOff, states_and_states, ite_self]
    · simp only [handsOff, states_and_not_fireMask]

end Controls

namespace Cmd

@[simp] theorem controls_neutral (tick : ℕ) (aim : Fin 3 → ℚ) (keep : BitVec 16) :
    (neutral tick aim keep).controls = .handsOff aim keep := rfl

@[simp] theorem tick_standIn (last : Cmd) (tick missing : ℕ) :
    (standIn last tick missing).tick = tick := by
  unfold standIn
  split <;> rfl

theorem controls_standIn (last : Cmd) (tick : ℕ) {missing : ℕ} (h : 0 < missing) :
    (standIn last tick missing).controls = last.controls.after missing := by
  unfold standIn Controls.after
  rw [if_neg h.ne']
  split <;> rfl

end Cmd

end BeforeColony
