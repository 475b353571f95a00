import BeforeColony.Lib.Ring
import BeforeColony.Proto.StandIn

/-!
# A seat's commands

A pilot's commands come in a little early, more than once, into a buffer the sector takes each from
in its tick. For a tick whose command isn't there the sector stands in with the last one it took,
and before the first with what it left the suit with when it seated it.
-/

set_option autoImplicit false

namespace BeforeColony

open Buttons

/-! ### What is flown for a tick -/

structure LastBy (sent : List Cmd) (t : ℕ) (c : Cmd) : Prop where
  mem : c ∈ sent
  le : c.tick ≤ t
  last : ∀ c' ∈ sent, c'.tick ≤ t → c'.tick ≤ c.tick

def Distinct (sent : List Cmd) : Prop := ∀ c ∈ sent, ∀ c' ∈ sent, c.tick = c'.tick → c = c'

/-- What is to be flown for tick `t`: the last command's controls, as they are so many ticks after
it; before any, what the suit was left with. -/
def Flown (sent : List Cmd) (left : Controls) (t : ℕ) (x : Controls) : Prop :=
  (∃ c, LastBy sent t c ∧ x = c.controls.after (t - c.tick))
    ∨ (∀ c ∈ sent, t < c.tick) ∧ x = left

variable {sent : List Cmd} {left x y : Controls} {t : ℕ} {c : Cmd}

theorem LastBy.unique {c' : Cmd} (hd : Distinct sent) (h : LastBy sent t c) (h' : LastBy sent t c') :
    c = c' :=
  hd c h.mem c' h'.mem (Nat.le_antisymm (h'.last c h.mem h.le) (h.last c' h'.mem h'.le))

theorem LastBy.cons {c' : Cmd} (h : LastBy sent t c) (hc' : t < c'.tick) :
    LastBy (c' :: sent) t c where
  mem := List.mem_cons_of_mem c' h.mem
  le := h.le
  last := by
    intro q hq hle
    cases List.mem_cons.mp hq with
    | inl heq =>
      subst heq
      omega
    | inr hmem => exact h.last q hmem hle

theorem Flown.unique (hd : Distinct sent) (h : Flown sent left t x) (h' : Flown sent left t y) :
    x = y := by
  cases h with
  | inl h =>
    obtain ⟨c, hc, rfl⟩ := h
    cases h' with
    | inl h' =>
      obtain ⟨c', hc', rfl⟩ := h'
      rw [hc.unique hd hc']
    | inr h' => exact absurd hc.le (Nat.not_le.mpr (h'.1 c hc.mem))
  | inr h =>
    cases h' with
    | inl h' =>
      obtain ⟨c, hc, -⟩ := h'
      exact absurd hc.le (Nat.not_le.mpr (h.1 c hc.mem))
    | inr h' => rw [h.2, h'.2]

theorem Flown.cons (h : Flown sent left t x) (hc : t < c.tick) : Flown (c :: sent) left t x := by
  cases h with
  | inl h =>
    obtain ⟨q, hq, hx⟩ := h
    exact .inl ⟨q, hq.cons hc, hx⟩
  | inr h => exact .inr ⟨List.forall_mem_cons.mpr ⟨hc, h.1⟩, h.2⟩

theorem Flown.of_mem (hc : c ∈ sent) : Flown sent left c.tick c.controls := by
  refine .inl ⟨c, ⟨hc, le_rfl, fun _ _ h => h⟩, ?_⟩
  rw [Nat.sub_self]
  rfl

/-! ### The buffer -/

def jitterSlots : ℕ := 64

/-- Commands waiting for their tick. A slot whose valid bit is clear holds none. -/
structure JitterBuffer where
  cmds : Lib.Ring (Option Cmd) jitterSlots
  /-- Newest command tick received. -/
  newest : ℕ

namespace JitterBuffer

def clear : JitterBuffer := ⟨⟨fun _ => none⟩, 0⟩

/-- Whether a command is for a tick still to run, and not absurdly far off. -/
def Timely (cmd : Cmd) (next : ℕ) : Prop := next ≤ cmd.tick ∧ cmd.tick < next + (jitterSlots - 2)

instance (cmd : Cmd) (next : ℕ) : Decidable (Timely cmd next) :=
  inferInstanceAs (Decidable (_ ∧ _))

/-- Stores a command unless it is for a tick already simulated or absurdly far in the future. -/
def insert (b : JitterBuffer) (cmd : Cmd) (next : ℕ) : JitterBuffer × Bool :=
  if Timely cmd next then (⟨b.cmds.set cmd.tick (some cmd), max b.newest cmd.tick⟩, true)
  else (b, false)

/-- Removes and returns the command for `tick`, if it arrived. -/
def take (b : JitterBuffer) (tick : ℕ) : JitterBuffer × Option Cmd :=
  match b.cmds.get tick with
  | some cmd => if cmd.tick = tick then ({ b with cmds := b.cmds.set tick none }, some cmd) else (b, none)
  | none => (b, none)

end JitterBuffer

/-! ### The sector's side -/

inductive Seating where
  /-- Handed out at its faction's spawn point. -/
  | space
  /-- Launched in its bay's cradle. -/
  | cradle
  /-- Launched at the Blast Hall's gantry. -/
  | gantry
  /-- Launched into the colony, by the inner gate. -/
  | gate
  | wokeOn
  | wokeFree
  deriving DecidableEq, Repr

/-- The command the suit is left with, faced along `aim` at tick `t`. -/
def Seating.input (s : Seating) (aim : Fin 3 → ℚ) (t : ℕ) : Cmd :=
  match s with
  | .space => { tick := t, viewTickQ4 := t * 16, aim }
  | .cradle => { aim, buttons := flightAssist ||| grip }
  | .gantry => { aim, buttons := flightAssist ||| grip }
  | .gate => { aim, buttons := flightAssist }
  | .wokeOn => .neutral t aim grip
  | .wokeFree => .neutral t aim 0

def Seating.keep : Seating → BitVec 16
  | .space => 0
  | .cradle => flightAssist ||| grip
  | .gantry => flightAssist ||| grip
  | .gate => flightAssist
  | .wokeOn => grip
  | .wokeFree => 0

structure Laws where
  colony : Bool
  bay : Bool

def bayCleared : BitVec 16 := fireMask ||| mode

def Laws.clear (l : Laws) (buttons : BitVec 16) : BitVec 16 :=
  let buttons := if l.colony then buttons &&& ~~~fireMask else buttons
  if l.bay then buttons &&& ~~~bayCleared else buttons

/-- A pilot's seat, as far as its commands go, with the tick the sector runs next. -/
structure InputSeat where
  next : ℕ
  jitter : JitterBuffer
  /-- The last command taken, and the ticks missed since. -/
  lastCmd : Cmd
  missing : ℕ
  /-- The tick of the last command taken. -/
  lastReal : Option ℕ
  /-- What the sim flies the suit on. -/
  input : Cmd

namespace InputSeat

def seat (s : Seating) (aim : Fin 3 → ℚ) (t : ℕ) : InputSeat where
  next := t + 1
  jitter := .clear
  lastCmd := {}
  missing := 0
  lastReal := none
  input := s.input aim t

def drainInput (p : InputSeat) (cmd : Cmd) : InputSeat :=
  { p with jitter := (p.jitter.insert cmd p.next).1 }

/-- The command for the next tick: its own, or a stand-in. Before the pilot is first heard from, the
last command is the one the sector left the suit with. -/
def applyInputs (p : InputSeat) : InputSeat × Cmd :=
  match p.jitter.take p.next with
  | (jitter, some cmd) =>
    ({ p with jitter, missing := 0, lastReal := some p.next, lastCmd := cmd }, cmd)
  | (jitter, none) =>
    let last := if p.lastReal = none then p.input else p.lastCmd
    ({ p with jitter, missing := p.missing + 1 }, last.standIn p.next (p.missing + 1))

/-- A tick: the command goes to the sim, and the laws clear what they don't let through. -/
def step (p : InputSeat) (l : Laws) : InputSeat × Cmd :=
  let (p, cmd) := p.applyInputs
  ({ p with next := p.next + 1, input := { cmd with buttons := l.clear cmd.buttons } }, cmd)

end InputSeat

/-! ### The sector stands in as it should -/

theorem Seating.controls_input (s : Seating) (aim : Fin 3 → ℚ) (t : ℕ) :
    (s.input aim t).controls = .handsOff aim s.keep := by
  cases s <;> rfl

theorem Laws.clear_keep (l : Laws) (s : Seating) : l.clear (s.keep &&& states) = s.keep &&& states := by
  obtain ⟨colony, bay⟩ := l
  cases s <;> cases colony <;> cases bay <;> decide

theorem Laws.controls_clear (l : Laws) (s : Seating) {c : Cmd} {aim : Fin 3 → ℚ}
    (h : c.controls = .handsOff aim s.keep) :
    ({ c with buttons := l.clear c.buttons } : Cmd).controls = .handsOff aim s.keep := by
  have hbuttons : c.buttons = s.keep &&& states := congrArg Controls.buttons h
  have hclear : l.clear c.buttons = c.buttons := by
    rw [hbuttons]
    exact l.clear_keep s
  rw [hclear]
  exact h

namespace JitterBuffer

variable {b : JitterBuffer} {next : ℕ}

/-- What waits in the buffer was sent, is in the slot of its tick, and is no further off than the
buffer takes. -/
def Holds (b : JitterBuffer) (sent : List Cmd) (next : ℕ) : Prop :=
  ∀ k c, b.cmds.slot k = some c →
    c ∈ sent ∧ c.tick % jitterSlots = k ∧ c.tick < next + (jitterSlots - 2)

theorem holds_clear (sent : List Cmd) (next : ℕ) : Holds .clear sent next := by
  intro k c hc
  cases hc

theorem Holds.insert (h : b.Holds sent next) (hc : c ∈ sent) : (b.insert c next).1.Holds sent next := by
  unfold JitterBuffer.insert
  split
  · rename_i htimely
    intro k q hq
    simp only [Lib.Ring.set, Function.update_apply] at hq
    split at hq
    · rename_i hk
      cases hq
      exact ⟨hc, hk.symm, htimely.2⟩
    · exact h k q hq
  · exact h

theorem Holds.take (h : b.Holds sent next) (t : ℕ) : (b.take t).1.Holds sent (next + 1) := by
  have hlater : b.Holds sent (next + 1) := fun k q hq =>
    ⟨(h k q hq).1, (h k q hq).2.1, by have := (h k q hq).2.2; omega⟩
  unfold JitterBuffer.take
  split
  · split
    · intro k q hq
      simp only [Lib.Ring.set, Function.update_apply] at hq
      split at hq
      · cases hq
      · exact hlater k q hq
    · exact hlater
  · exact hlater

theorem Holds.cons (h : b.Holds sent next) (c : Cmd) : b.Holds (c :: sent) next := by
  intro k q hq
  obtain ⟨hmem, hslot⟩ := h k q hq
  exact ⟨List.mem_cons_of_mem c hmem, hslot⟩

def Waits (b : JitterBuffer) (next : ℕ) (c : Cmd) : Prop := next ≤ c.tick → b.cmds.get c.tick = some c

theorem waits_insert (b : JitterBuffer) (c : Cmd) (ht : Timely c next) :
    (b.insert c next).1.Waits next c := by
  intro _
  unfold JitterBuffer.insert
  rw [if_pos ht]
  exact Lib.Ring.get_set_self _ _ _

theorem Waits.insert (hd : Distinct sent) (hb : b.Holds sent next) {q : Cmd} (hc : c ∈ sent)
    (hwaits : b.Waits next q) : (b.insert c next).1.Waits next q := by
  intro hle
  have hq := hwaits hle
  obtain ⟨hmem, -, hnear⟩ := hb _ _ hq
  unfold JitterBuffer.insert
  split
  · rename_i ht
    show (b.cmds.set c.tick (some c)).get q.tick = some q
    rw [Lib.Ring.get_set]
    split
    · rename_i hslot
      have htick : q.tick = c.tick := by
        have hc_le := ht.1
        have hc_lt := ht.2
        unfold jitterSlots at *
        omega
      rw [hd q hmem c hc htick]
    · exact hq
  · exact hq

theorem Waits.take (hb : b.Holds sent next) {q : Cmd} (hwaits : b.Waits next q) :
    (b.take next).1.Waits (next + 1) q := by
  intro hlt
  have hq := hwaits (by omega)
  obtain ⟨-, -, hnear⟩ := hb _ _ hq
  unfold JitterBuffer.take
  split
  · split
    · show (b.cmds.set next none).get q.tick = some q
      rw [Lib.Ring.get_set, if_neg]
      · exact hq
      · unfold jitterSlots at *
        omega
    · exact hq
  · exact hq

theorem take_some (hb : b.Holds sent next) {t : ℕ} (h : (b.take t).2 = some c) :
    c ∈ sent ∧ c.tick = t := by
  unfold JitterBuffer.take at h
  split at h
  · rename_i q hq
    split at h
    · rename_i htick
      cases h
      exact ⟨(hb _ _ hq).1, htick⟩
    · cases h
  · cases h

theorem take_of_waits (h : b.Waits next c) (hc : c.tick = next) : (b.take next).2 = some c := by
  have hget := h hc.ge
  rw [hc] at hget
  unfold JitterBuffer.take
  rw [hget]
  dsimp only
  rw [if_pos hc]

end JitterBuffer

namespace InputSeat

variable {p : InputSeat} {s : Seating} {aim : Fin 3 → ℚ} {reached : List Cmd}

/-- A seat whose pilot has sent `sent`, of which `reached` came in before their ticks. -/
structure Sound (sent reached : List Cmd) (s : Seating) (aim : Fin 3 → ℚ) (p : InputSeat) : Prop where
  distinct : Distinct sent
  holds : p.jitter.Holds sent p.next
  waits : ∀ c ∈ reached, p.jitter.Waits p.next c
  unheard : p.lastReal = none →
    (∀ c ∈ sent, p.next ≤ c.tick) ∧ p.input.controls = .handsOff aim s.keep
  repeats : p.lastReal ≠ none →
    LastBy sent (p.next - 1) p.lastCmd ∧ p.lastCmd.tick + p.missing + 1 = p.next

theorem sound_seat (s : Seating) (aim : Fin 3 → ℚ) (t : ℕ) : Sound [] [] s aim (seat s aim t) where
  distinct := by
    intro c hc
    cases hc
  holds := JitterBuffer.holds_clear _ _
  waits := by
    intro c hc
    cases hc
  unheard _ := ⟨fun c hc => absurd hc List.not_mem_nil, s.controls_input aim t⟩
  repeats h := absurd rfl h

theorem Sound.send (h : Sound sent reached s aim p) (hnext : p.next ≤ c.tick)
    (hlater : ∀ q ∈ sent, q.tick < c.tick) : Sound (c :: sent) reached s aim p where
  distinct := by
    intro q hq q' hq' htick
    cases List.mem_cons.mp hq with
    | inl heq =>
      cases List.mem_cons.mp hq' with
      | inl heq' => rw [heq, heq']
      | inr hmem' =>
        have hlt := hlater q' hmem'
        rw [← heq] at hlt
        omega
    | inr hmem =>
      cases List.mem_cons.mp hq' with
      | inl heq' =>
        have hlt := hlater q hmem
        rw [← heq'] at hlt
        omega
      | inr hmem' => exact h.distinct q hmem q' hmem' htick
  holds := h.holds.cons c
  waits := h.waits
  unheard hreal := by
    obtain ⟨hsent, hinput⟩ := h.unheard hreal
    exact ⟨List.forall_mem_cons.mpr ⟨hnext, hsent⟩, hinput⟩
  repeats hreal := by
    obtain ⟨hlast, hmissing⟩ := h.repeats hreal
    refine ⟨hlast.cons ?_, hmissing⟩
    omega

theorem Sound.drainInput (h : Sound sent reached s aim p) (hc : c ∈ sent) :
    Sound sent (if JitterBuffer.Timely c p.next then c :: reached else reached) s aim
      (p.drainInput c) where
  distinct := h.distinct
  holds := h.holds.insert hc
  waits := by
    have hothers : ∀ q ∈ reached, (p.drainInput c).jitter.Waits p.next q :=
      fun q hq => (h.waits q hq).insert h.distinct h.holds hc
    split
    · rename_i ht
      exact List.forall_mem_cons.mpr ⟨JitterBuffer.waits_insert _ c ht, hothers⟩
    · exact hothers
  unheard := h.unheard
  repeats := h.repeats

/-- What a tick can come to: the tick's own command is taken, or one is stood in for it. -/
theorem step_cases (p : InputSeat) (l : Laws) :
    (∃ cmd, (p.jitter.take p.next).2 = some cmd ∧ p.step l = ({ p with
        next := p.next + 1
        jitter := (p.jitter.take p.next).1
        missing := 0
        lastReal := some p.next
        lastCmd := cmd
        input := { cmd with buttons := l.clear cmd.buttons } }, cmd))
      ∨ ∃ cmd, (p.jitter.take p.next).2 = none
        ∧ cmd = (if p.lastReal = none then p.input else p.lastCmd).standIn p.next (p.missing + 1)
        ∧ p.step l = ({ p with
          next := p.next + 1
          jitter := (p.jitter.take p.next).1
          missing := p.missing + 1
          input := { cmd with buttons := l.clear cmd.buttons } }, cmd) := by
  unfold step applyInputs
  generalize p.jitter.take p.next = r
  obtain ⟨jitter, cmd⟩ := r
  cases cmd with
  | some cmd => exact .inl ⟨cmd, rfl, rfl⟩
  | none => exact .inr ⟨_, rfl, rfl, rfl⟩

theorem next_step (p : InputSeat) (l : Laws) : (p.step l).1.next = p.next + 1 := by
  cases p.step_cases l with
  | inl htaken =>
    obtain ⟨cmd, -, hstep⟩ := htaken
    rw [hstep]
  | inr hmissed =>
    obtain ⟨cmd, -, -, hstep⟩ := hmissed
    rw [hstep]

/-- The sector flies each tick on its command, or on what it is to stand in with. -/
theorem Sound.step (h : Sound sent reached s aim p)
    (hdue : ∀ c ∈ sent, c.tick = p.next → c ∈ reached) (l : Laws) :
    Sound sent reached s aim (p.step l).1
      ∧ Flown sent (.handsOff aim s.keep) p.next (p.step l).2.controls := by
  have hholds := h.holds.take p.next
  have hwaits : ∀ c ∈ reached, (p.jitter.take p.next).1.Waits (p.next + 1) c :=
    fun c hc => (h.waits c hc).take h.holds
  cases p.step_cases l with
  | inl htaken =>
    obtain ⟨cmd, htake, hstep⟩ := htaken
    obtain ⟨hmem, htick⟩ := JitterBuffer.take_some h.holds htake
    rw [hstep]
    refine ⟨⟨h.distinct, hholds, hwaits, fun hreal => absurd hreal (Option.some_ne_none _),
      fun _ => ?_⟩, ?_⟩
    · refine ⟨⟨hmem, htick.le, fun c _ hc => ?_⟩, ?_⟩
      · exact hc.trans htick.ge
      · dsimp only
        omega
    · rw [← htick]
      exact .of_mem hmem
  | inr hmissed =>
    obtain ⟨cmd, htake, hcmd, hstep⟩ := hmissed
    have hnone : ∀ c ∈ sent, c.tick ≠ p.next := by
      intro c hc htick
      have hsome := JitterBuffer.take_of_waits (h.waits c (hdue c hc htick)) htick
      rw [htake] at hsome
      cases hsome
    have hcontrols : cmd.controls
        = (if p.lastReal = none then p.input else p.lastCmd).controls.after (p.missing + 1) := by
      rw [hcmd]
      exact Cmd.controls_standIn _ _ (Nat.succ_pos _)
    rw [hstep]
    by_cases hreal : p.lastReal = none
    · obtain ⟨hsent, hinput⟩ := h.unheard hreal
      rw [if_pos hreal, hinput, Controls.HandsOff.after ⟨aim, s.keep, rfl⟩] at hcontrols
      have hlater : ∀ c ∈ sent, p.next < c.tick :=
        fun c hc => lt_of_le_of_ne (hsent c hc) (hnone c hc).symm
      refine ⟨⟨h.distinct, hholds, hwaits, fun _ => ⟨hlater, ?_⟩, fun hne => absurd hreal hne⟩, ?_⟩
      · exact l.controls_clear s hcontrols
      · exact .inr ⟨hlater, hcontrols⟩
    · obtain ⟨hlast, hmissing⟩ := h.repeats hreal
      rw [if_neg hreal] at hcontrols
      have hstill : LastBy sent p.next p.lastCmd := by
        refine ⟨hlast.mem, hlast.le.trans (Nat.sub_le _ _), fun c hc hle => ?_⟩
        have hne := hnone c hc
        exact hlast.last c hc (by omega)
      refine ⟨⟨h.distinct, hholds, hwaits, fun hnot => absurd hnot hreal, fun _ => ⟨hstill, ?_⟩⟩, ?_⟩
      · dsimp only
        omega
      · refine .inl ⟨p.lastCmd, hstill, ?_⟩
        rw [hcontrols]
        congr 1
        omega

end InputSeat

end BeforeColony
