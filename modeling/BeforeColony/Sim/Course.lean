import Mathlib.Data.List.Induction
import BeforeColony.Sim.Rock

/-!
# Runs of the course

A suit flies the Proving Ground's rings in order, and landing on the pad stops the clock. The
sector steps a run with where the suit is at the end of each tick. A time it gives was flown: every
ring was crossed, one after another, since the start ring was last (`finished_flown`), and a ring is
crossed in its plane, no further from its centre than it is wide, within the tick that says so
(`finished_through`). Where the rings are, and the square root that lengths are taken with, are
parameters.
-/

set_option autoImplicit false

namespace BeforeColony.Course

/-- How many rings there are, the start ring first. -/
def gates : ℕ := 13

def tickHz : ℕ := 30

/-- So long without a ring and a run lapses, in ticks. -/
def lapseTicks : ℕ := 120 * tickHz

inductive Event (T : Type*) where
  | started
  | gate (i : ℕ)
  | finished (secs : T)
  | lapsed
deriving DecidableEq

/-- Which ring is next, and since when the clock has run. -/
structure Run (P T : Type*) where
  last : Option (P × T)
  started : Option T
  atGate : T
  next : ℕ

inductive Act (P T : Type*) where
  | step (pos : P) (t : T) (onPad : Bool)
  | reset
  | clear

section

variable {P T : Type*} [Lib.Scalar T]

namespace Run

def new : Run P T := ⟨none, none, 0, 0⟩

def reset (r : Run P T) : Run P T := { r with started := none, next := 0 }

variable (crossed : ℕ → P → P → Option T)

/-- Steps on from where the suit was, `a` at `ta`, to where it is. -/
def move (r : Run P T) (a : P) (ta : T) (pos : P) (t : T) (onPad : Bool) :
    Run P T × Option (Event T) :=
  match crossed 0 a pos with
  | some f => ({ r with started := some (ta + (t - ta) * f), atGate := t, next := 1 }, some .started)
  | none =>
    match r.started with
    | none => (r, none)
    | some start =>
      -- the rest of the step, if no ring was crossed and it is not over
      let lapse : Run P T × Option (Event T) :=
        if (lapseTicks : T) < t - r.atGate then (r.reset, some .lapsed) else (r, none)
      if r.next < gates then
        match crossed r.next a pos with
        | some f => ({ r with next := r.next + 1, atGate := ta + (t - ta) * f }, some (.gate r.next))
        | none => lapse
      else if onPad then (r.reset, some (.finished ((t - start) / tickHz)))
      else lapse

def step (r : Run P T) (pos : P) (t : T) (onPad : Bool) : Run P T × Option (Event T) :=
  match r.last with
  | none => ({ r with last := some (pos, t) }, none)
  | some (a, ta) =>
    if t ≤ ta then ({ r with last := some (pos, t) }, none)
    else move crossed { r with last := some (pos, t) } a ta pos t onPad

def act (r : Run P T) : Act P T → Run P T
  | .step pos t onPad => (r.step crossed pos t onPad).1
  | .reset => r.reset
  | .clear => new

def after (acts : List (Act P T)) : Run P T := acts.foldl (act crossed) new

end Run

/-! ## What was flown -/

def seen (acts : List (Act P T)) : Option (P × T) :=
  acts.foldl (fun last a => match a with
    | .step pos t _ => some (pos, t)
    | .reset => last
    | .clear => none) none

variable (crossed : ℕ → P → P → Option T)

def CrossedAt (acts : List (Act P T)) (i j : ℕ) (time : T) : Prop :=
  ∃ a ta pos t onPad f, seen (acts.take j) = some (a, ta) ∧ acts[j]? = some (.step pos t onPad)
    ∧ ta < t ∧ crossed i a pos = some f ∧ time = ta + (t - ta) * f

/-- Ring after ring since the start ring, the clock running since `start` and never stopped. -/
structure Flown (acts : List (Act P T)) (start : T) (n : ℕ) (at_ : ℕ → ℕ) : Prop where
  begun : CrossedAt crossed acts 0 (at_ 0) start
  rings : ∀ i < n, ∃ time, CrossedAt crossed acts i (at_ i) time
  order : ∀ i, i + 1 < n → at_ i < at_ (i + 1)
  steps : ∀ j, at_ 0 ≤ j → j < acts.length → ∃ pos t onPad, acts[j]? = some (.step pos t onPad)
  once : ∀ j, at_ 0 < j → ∀ time, ¬ CrossedAt crossed acts 0 j time

variable {crossed} {acts : List (Act P T)}

theorem CrossedAt.lt {i j : ℕ} {time : T} (h : CrossedAt crossed acts i j time) :
    j < acts.length := by
  obtain ⟨a, ta, pos, t, onPad, f, -, hact, -⟩ := h
  exact (List.getElem?_eq_some_iff.mp hact).1

theorem crossedAt_append {i j : ℕ} {time : T} (x : Act P T) (hj : j < acts.length) :
    CrossedAt crossed (acts ++ [x]) i j time ↔ CrossedAt crossed acts i j time := by
  rw [CrossedAt, CrossedAt, List.take_append_of_le_length hj.le, List.getElem?_append_left hj]

theorem crossedAt_last {i : ℕ} {time : T} {pos : P} {t : T} {onPad : Bool} :
    CrossedAt crossed (acts ++ [.step pos t onPad]) i acts.length time ↔
      ∃ a ta f, seen acts = some (a, ta) ∧ ta < t ∧ crossed i a pos = some f
        ∧ time = ta + (t - ta) * f := by
  rw [CrossedAt, List.take_left, List.getElem?_concat_length]
  constructor
  · rintro ⟨a, ta, pos', t', onPad', f, hseen, heq, hlt, hcross, htime⟩
    cases heq
    exact ⟨a, ta, f, hseen, hlt, hcross, htime⟩
  · rintro ⟨a, ta, f, hseen, hlt, hcross, htime⟩
    exact ⟨a, ta, pos, t, onPad, f, hseen, rfl, hlt, hcross, htime⟩

theorem Flown.step {start : T} {n : ℕ} {at_ : ℕ → ℕ} (h : Flown crossed acts start n at_)
    {pos : P} {t : T} {onPad : Bool}
    (hnone : ∀ time, ¬ CrossedAt crossed (acts ++ [.step pos t onPad]) 0 acts.length time) :
    Flown crossed (acts ++ [.step pos t onPad]) start n at_ := by
  have hkeep {i j : ℕ} {time : T} (hcross : CrossedAt crossed acts i j time) :
      CrossedAt crossed (acts ++ [.step pos t onPad]) i j time :=
    (crossedAt_append _ hcross.lt).mpr hcross
  refine ⟨hkeep h.begun, fun i hi => ?_, h.order, fun j hj hlt => ?_, fun j hj time hcross => ?_⟩
  · obtain ⟨time, hcross⟩ := h.rings i hi
    exact ⟨time, hkeep hcross⟩
  · rw [List.length_append, List.length_singleton] at hlt
    rcases Nat.lt_or_ge j acts.length with hold | hnew
    · rw [List.getElem?_append_left hold]
      exact h.steps j hj hold
    · have hlast : j = acts.length := by omega
      rw [hlast, List.getElem?_concat_length]
      exact ⟨pos, t, onPad, rfl⟩
  · have hlt := hcross.lt
    rw [List.length_append, List.length_singleton] at hlt
    rcases Nat.lt_or_ge j acts.length with hold | hnew
    · exact h.once j hj time ((crossedAt_append _ hold).mp hcross)
    · have hlast : j = acts.length := by omega
      exact hnone time (hlast ▸ hcross)

theorem Flown.ring {start time : T} {n : ℕ} {at_ : ℕ → ℕ} (h : Flown crossed acts start n at_)
    (hpos : 0 < n) {last : ℕ} (hlast : at_ (n - 1) < last)
    (hcross : CrossedAt crossed acts n last time) :
    Flown crossed acts start (n + 1) (Function.update at_ n last) := by
  have hold {i : ℕ} (hi : i < n) : Function.update at_ n last i = at_ i :=
    Function.update_of_ne hi.ne _ _
  refine ⟨?_, fun i hi => ?_, fun i hi => ?_, ?_, ?_⟩
  · rw [hold hpos]
    exact h.begun
  · rcases Nat.lt_succ_iff_lt_or_eq.mp hi with hlt | rfl
    · rw [hold hlt]
      exact h.rings i hlt
    · rw [Function.update_self]
      exact ⟨time, hcross⟩
  · rcases Nat.lt_succ_iff_lt_or_eq.mp hi with hlt | heq
    · rw [hold (Nat.lt_of_succ_lt hlt), hold hlt]
      exact h.order i hlt
    · subst heq
      rw [Function.update_self, hold (Nat.lt_succ_self i)]
      exact hlast
  · rw [hold hpos]
    exact h.steps
  · rw [hold hpos]
    exact h.once

theorem flown_start {start : T} {pos : P} {t : T} {onPad : Bool}
    (hcross : CrossedAt crossed (acts ++ [.step pos t onPad]) 0 acts.length start) :
    Flown crossed (acts ++ [.step pos t onPad]) start 1 fun _ => acts.length := by
  refine ⟨hcross, fun i hi => ?_, fun i hi => ?_, fun j hj hlt => ?_, fun j hj time hlater => ?_⟩
  · rw [Nat.lt_one_iff.mp hi]
    exact ⟨start, hcross⟩
  · omega
  · rw [List.length_append, List.length_singleton] at hlt
    have hlast : j = acts.length := by omega
    rw [hlast, List.getElem?_concat_length]
    exact ⟨pos, t, onPad, rfl⟩
  · have hlt := hlater.lt
    rw [List.length_append, List.length_singleton] at hlt
    omega

/-- A run knows where the suit was seen, and while its clock runs the rings were flown. -/
structure Kept (crossed : ℕ → P → P → Option T) (acts : List (Act P T)) (r : Run P T) : Prop where
  last : r.last = seen acts
  flown : ∀ start, r.started = some start → 0 < r.next ∧ r.next ≤ gates ∧
    ∃ at_, at_ (r.next - 1) < acts.length ∧ Flown crossed acts start r.next at_

theorem Kept.stopped {r : Run P T} (hlast : r.last = seen acts) (hnone : r.started = none) :
    Kept crossed acts r :=
  ⟨hlast, fun _ hstart => nomatch hnone.symm.trans hstart⟩

omit [Lib.Scalar T] in
theorem seen_step (acts : List (Act P T)) (pos : P) (t : T) (onPad : Bool) :
    seen (acts ++ [.step pos t onPad]) = some (pos, t) := by
  rw [seen, List.foldl_append]
  rfl

theorem Kept.quiet {r : Run P T} (h : Kept crossed acts r) {pos : P} {t : T} {onPad : Bool}
    (hnone : ∀ time, ¬ CrossedAt crossed (acts ++ [.step pos t onPad]) 0 acts.length time) :
    Kept crossed (acts ++ [.step pos t onPad]) { r with last := some (pos, t) } := by
  refine ⟨(seen_step acts pos t onPad).symm, fun start hstart => ?_⟩
  obtain ⟨hpos, hle, at_, hlast, hflown⟩ := h.flown start hstart
  refine ⟨hpos, hle, at_, ?_, hflown.step hnone⟩
  rw [List.length_append]
  exact Nat.lt_add_right _ hlast

theorem Kept.move {r : Run P T} (h : Kept crossed acts r) {a : P} {ta : T}
    (hseen : seen acts = some (a, ta)) {pos : P} {t : T} {onPad : Bool} (hlt : ta < t) :
    Kept crossed (acts ++ [.step pos t onPad])
        (Run.move crossed { r with last := some (pos, t) } a ta pos t onPad).1
      ∧ ∀ secs, (Run.move crossed { r with last := some (pos, t) } a ta pos t onPad).2
          = some (.finished secs) →
        onPad = true ∧ ∃ start at_, secs = (t - start) / tickHz ∧ at_ (gates - 1) < acts.length
          ∧ Flown crossed (acts ++ [.step pos t onPad]) start gates at_ := by
  have hcross {i : ℕ} {f : T} (hf : crossed i a pos = some f) :
      CrossedAt crossed (acts ++ [.step pos t onPad]) i acts.length (ta + (t - ta) * f) :=
    crossedAt_last.mpr ⟨a, ta, f, hseen, hlt, hf, rfl⟩
  have hlast := (seen_step acts pos t onPad).symm
  have hlen : (acts ++ [Act.step pos t onPad]).length = acts.length + 1 := by
    rw [List.length_append, List.length_singleton]
  unfold Run.move
  cases hfirst : crossed 0 a pos with
  | some f =>
    refine ⟨⟨hlast, fun start hstart => ?_⟩, fun secs hsecs => nomatch hsecs⟩
    cases hstart
    refine ⟨Nat.one_pos, (by decide : 1 ≤ gates), _, ?_, flown_start (hcross hfirst)⟩
    rw [hlen]
    exact Nat.lt_succ_self _
  | none =>
    have hnone (time : T) :
        ¬ CrossedAt crossed (acts ++ [.step pos t onPad]) 0 acts.length time := by
      intro hlate
      obtain ⟨a', ta', f, hseen', -, hf, -⟩ := crossedAt_last.mp hlate
      cases hseen.symm.trans hseen'
      exact nomatch hfirst.symm.trans hf
    have hquiet : Kept crossed (acts ++ [.step pos t onPad]) { r with last := some (pos, t) } :=
      h.quiet hnone
    cases hstarted : r.started with
    | none =>
      exact ⟨.stopped hlast rfl, fun secs hsecs => nomatch hsecs⟩
    | some start =>
      obtain ⟨hpos, hle, at_, hat, hflown⟩ := h.flown start hstarted
      rw [hstarted] at hquiet
      dsimp only
      split
      · rename_i hmore
        split
        · rename_i f hf
          refine ⟨⟨hlast, fun start' hstart' => ?_⟩, fun secs hsecs => nomatch hsecs⟩
          cases hstart'
          refine ⟨Nat.succ_pos _, hmore, Function.update at_ r.next acts.length, ?_,
            (hflown.step hnone).ring hpos hat (hcross hf)⟩
          rw [Nat.add_sub_cancel, Function.update_self, hlen]
          exact Nat.lt_succ_self _
        · split
          · exact ⟨.stopped hlast rfl, fun secs hsecs => nomatch hsecs⟩
          · exact ⟨hquiet, fun secs hsecs => nomatch hsecs⟩
      · rename_i hdone
        split
        · rename_i hpad
          refine ⟨.stopped hlast rfl, fun secs hsecs => ⟨hpad, start, at_, ?_, ?_, ?_⟩⟩
          · cases hsecs
            rfl
          · have hall : r.next = gates := le_antisymm hle (not_lt.mp hdone)
            rw [← hall]
            exact hat
          · have hall : r.next = gates := le_antisymm hle (not_lt.mp hdone)
            rw [← hall]
            exact hflown.step hnone
        · split
          · exact ⟨.stopped hlast rfl, fun secs hsecs => nomatch hsecs⟩
          · exact ⟨hquiet, fun secs hsecs => nomatch hsecs⟩

theorem Kept.step {r : Run P T} (h : Kept crossed acts r) (pos : P) (t : T) (onPad : Bool) :
    Kept crossed (acts ++ [.step pos t onPad]) (r.step crossed pos t onPad).1
      ∧ ∀ secs, (r.step crossed pos t onPad).2 = some (.finished secs) →
        onPad = true ∧ ∃ start at_, secs = (t - start) / tickHz ∧ at_ (gates - 1) < acts.length
          ∧ Flown crossed (acts ++ [.step pos t onPad]) start gates at_ := by
  have hlast := h.last
  unfold Run.step
  cases hseen : r.last with
  | none =>
    refine ⟨h.quiet fun time hlate => ?_, fun secs hsecs => nomatch hsecs⟩
    obtain ⟨a, ta, f, hseen', -⟩ := crossedAt_last.mp hlate
    exact nomatch hseen.symm.trans (hlast.trans hseen')
  | some place =>
    obtain ⟨a, ta⟩ := place
    dsimp only
    split
    · rename_i hearly
      refine ⟨h.quiet fun time hlate => ?_, fun secs hsecs => nomatch hsecs⟩
      obtain ⟨a', ta', f, hseen', hlt, -⟩ := crossedAt_last.mp hlate
      cases hseen.symm.trans (hlast.trans hseen')
      exact not_lt.mpr hearly hlt
    · rename_i hlate
      exact h.move (hlast.symm.trans hseen) (not_le.mp hlate)

theorem kept_after (acts : List (Act P T)) : Kept crossed acts (Run.after crossed acts) := by
  induction acts using List.reverseRecOn with
  | nil => exact .stopped rfl rfl
  | append_singleton acts act ih =>
    have hafter : Run.after crossed (acts ++ [act]) = (Run.after crossed acts).act crossed act := by
      rw [Run.after, List.foldl_append]
      rfl
    rw [hafter]
    cases act with
    | step pos t onPad => exact (ih.step pos t onPad).1
    | reset =>
      apply Kept.stopped
      · rw [seen, List.foldl_append]
        exact ih.last
      · rfl
    | clear =>
      apply Kept.stopped
      · rw [seen, List.foldl_append]
        rfl
      · rfl

/-- A time is of a flight through every ring in its order since the start ring was last, without a
jump or a new suit in between, which ended on the pad. -/
theorem finished_flown {acts : List (Act P T)} {pos : P} {t : T} {onPad : Bool} {secs : T}
    (h : ((Run.after crossed acts).step crossed pos t onPad).2 = some (.finished secs)) :
    onPad = true ∧ ∃ start at_, secs = (t - start) / tickHz ∧ at_ (gates - 1) < acts.length
      ∧ Flown crossed (acts ++ [.step pos t onPad]) start gates at_ :=
  ((kept_after acts).step pos t onPad).2 secs h

/-- Fourteen places with a ring between any two, and a tick from each to the next. -/
def line (i a b : ℕ) : Option ℚ := if a = i ∧ b = i + 1 then some (1 / 2) else none

def lineFlown : List (Act ℕ ℚ) := (List.range 14).map fun i => .step i i false

/-- The line, flown from its first ring to its last and landed after: 19.5 ticks. -/
theorem finished_flown_line :
    true = true ∧ ∃ start at_, (13 / 20 : ℚ) = (20 - start) / tickHz
      ∧ at_ (gates - 1) < lineFlown.length
      ∧ Flown line (lineFlown ++ [.step 13 20 true]) start gates at_ := by
  apply finished_flown
  decide +kernel

end

/-! ## Through the rings -/

section

variable {T : Type*} [Lib.Scalar T]

/-- A ring: its centre, the way a suit flies through it, and how far from its centre the suit's
middle may pass. -/
structure Gate (T : Type*) where
  centre : Vec T
  way : Vec T
  radius : T

/-- A move longer than this isn't flown, m. -/
def jump : ℕ := 300

variable (sqrt : T → T)

def length (v : Vec T) : T := sqrt (v.dot v)

/-- How far along its move from `a` to `b` a suit flew through a ring the right way, if it did. -/
def crossed (g : Gate T) (a b : Vec T) : Option T :=
  if (jump : T) < length sqrt (b.sub a) then none
  else
    let da := (a.sub g.centre).dot g.way
    let db := (b.sub g.centre).dot g.way
    if ¬(da < 0 ∧ 0 ≤ db) then none
    else
      let f := da / (da - db)
      if length sqrt ((a.onWay b f).sub g.centre) ≤ g.radius then some f else none

variable {sqrt}

theorem dot_onWay (g : Gate T) (a b : Vec T) (f : T) :
    ((a.onWay b f).sub g.centre).dot g.way = (a.sub g.centre).dot g.way
      - ((a.sub g.centre).dot g.way - (b.sub g.centre).dot g.way) * f := by
  simp only [Vec.onWay, Vec.add, Vec.sub, Vec.scale, Vec.dot]
  ring

/-- A suit crosses a ring in its plane and on its disc, after the move's start and no later than its
end. -/
theorem crossed_some {g : Gate T} {a b : Vec T} {f : T} (h : crossed sqrt g a b = some f) :
    (0 < f ∧ f ≤ 1) ∧ ((a.onWay b f).sub g.centre).dot g.way = 0
      ∧ length sqrt ((a.onWay b f).sub g.centre) ≤ g.radius := by
  simp only [crossed] at h
  split at h
  · cases h
  split at h
  · cases h
  rename_i hsides
  obtain ⟨hbefore, hafter⟩ := not_not.mp hsides
  split at h
  · rename_i hwithin
    have hneg : (a.sub g.centre).dot g.way - (b.sub g.centre).dot g.way < 0 := by linarith
    cases h
    refine ⟨⟨div_pos_of_neg_of_neg hbefore hneg, (div_le_one_of_neg hneg).mpr (by linarith)⟩, ?_,
      hwithin⟩
    rw [dot_onWay, mul_div_cancel₀ _ hneg.ne, sub_self]
  · cases h

def CameThrough (sqrt : T → T) (acts : List (Act (Vec T) T)) (g : Gate T) (j : ℕ) : Prop :=
  ∃ a ta b tb onPad f, seen (acts.take j) = some (a, ta) ∧ acts[j]? = some (.step b tb onPad)
    ∧ ta < ta + (tb - ta) * f ∧ ta + (tb - ta) * f ≤ tb
    ∧ ((a.onWay b f).sub g.centre).dot g.way = (0 : T)
    ∧ length sqrt ((a.onWay b f).sub g.centre) ≤ g.radius

variable {rings : ℕ → Gate T} {acts : List (Act (Vec T) T)}

theorem CrossedAt.cameThrough {i j : ℕ} {time : T}
    (h : CrossedAt (fun i => crossed sqrt (rings i)) acts i j time) :
    CameThrough sqrt acts (rings i) j := by
  obtain ⟨a, ta, b, tb, onPad, f, hseen, hact, hlt, hcross, -⟩ := h
  obtain ⟨⟨hpos, hle⟩, hplane, hwithin⟩ := crossed_some hcross
  have hspan : 0 < tb - ta := sub_pos.mpr hlt
  refine ⟨a, ta, b, tb, onPad, f, hseen, hact, lt_add_of_pos_right ta (mul_pos hspan hpos), ?_,
    hplane, hwithin⟩
  have hshare := mul_le_of_le_one_right hspan.le hle
  linarith

/-- A time is of a flight through the disc of every ring, one after another. -/
theorem finished_through {pos : Vec T} {t : T} {onPad : Bool} {secs : T}
    (h : ((Run.after (fun i => crossed sqrt (rings i)) acts).step
      (fun i => crossed sqrt (rings i)) pos t onPad).2 = some (.finished secs)) :
    ∃ at_ : ℕ → ℕ, (∀ i, i + 1 < gates → at_ i < at_ (i + 1))
      ∧ ∀ i < gates, CameThrough sqrt (acts ++ [.step pos t onPad]) (rings i) (at_ i) := by
  obtain ⟨-, start, at_, -, -, hflown⟩ := ((kept_after acts).step pos t onPad).2 secs h
  refine ⟨at_, hflown.order, fun i hi => ?_⟩
  obtain ⟨time, hcross⟩ := hflown.rings i hi
  exact hcross.cameThrough

end

end BeforeColony.Course
