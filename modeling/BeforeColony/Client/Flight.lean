import BeforeColony.Lib.Run
import BeforeColony.Client.Predict

/-!
# The prediction flies the server's commands

A pilot's client and their seat: commands are sent, come in before their ticks, and are flown by the
sim; the client flies them ahead, and again from each snapshot. What both fly for a tick is what
`Flown` says, except where the prediction

* flies on what it takes the suit to have been left with before its first command, and it was left
  with something else, as a launched suit is: with flight assist;
* replays more ticks than it keeps commands for;
* was set back by a snapshot of its wreck, and skips over commands it sent.
-/

set_option autoImplicit false

namespace BeforeColony

open Buttons InputHistory

/-- A seat, its pilot's client, and what they have done. -/
structure Flight where
  seat : InputSeat
  history : InputHistory
  predictor : Predictor
  sent : List Cmd
  /-- Sent, and come in before their ticks. -/
  reached : List Cmd
  /-- What the sector gave the sim, by tick. -/
  given : List (ℕ × Cmd)
  /-- What the prediction flew, in advance or again. -/
  flown : List Cmd
  /-- The newest snapshot's tick, and what it said of the suit. -/
  heard : ℕ
  seen : Option OwnSeen

inductive FlightOp where
  /-- The client sends a command, and flies it ahead. -/
  | send (cmd : Cmd)
  /-- A command comes in to the sector. -/
  | arrive (cmd : Cmd)
  | run (laws : Laws)
  | snapshot (tick : ℕ) (own : OwnSeen)

namespace Flight

def seated (s : Seating) (aim : Fin 3 → ℚ) (t : ℕ) : Flight where
  seat := .seat s aim t
  history := .empty
  predictor := .new
  sent := []
  reached := []
  given := []
  flown := []
  heard := 0
  seen := none

def step (f : Flight) : FlightOp → Flight
  | .send cmd =>
    let history := f.history.push cmd
    let r := f.predictor.advance cmd history
    { f with history, predictor := r.1, sent := cmd :: f.sent, flown := r.2 ++ f.flown }
  | .arrive cmd =>
    { f with
      seat := f.seat.drainInput cmd
      reached := if JitterBuffer.Timely cmd f.seat.next then cmd :: f.reached else f.reached }
  | .run laws =>
    let r := f.seat.step laws
    { f with seat := r.1, given := (f.seat.next, r.2) :: f.given }
  | .snapshot tick own =>
    let r := f.predictor.reconcile tick own f.history
    { f with predictor := r.1, flown := r.2 ++ f.flown, heard := tick, seen := some own }

/-- Commands are sent in order, no more than the longest gap apart, and each comes in before its
tick; snapshots are of ticks the sector has run, and none is taken after a newer one. -/
def InTime (f : Flight) : FlightOp → Prop
  | .send cmd => f.seat.next ≤ cmd.tick ∧ (∀ q ∈ f.sent, q.tick < cmd.tick)
      ∧ (f.sent = [] ∨ ∃ q ∈ f.sent, cmd.tick ≤ q.tick + maxGap)
  | .arrive cmd => cmd ∈ f.sent
  | .run _ => ∀ q ∈ f.sent, q.tick = f.seat.next → q ∈ f.reached
  | .snapshot tick _ => f.heard ≤ tick ∧ tick < f.seat.next

instance (f : Flight) (op : FlightOp) : Decidable (f.InTime op) :=
  match op with
  | .send _ => inferInstanceAs (Decidable (_ ∧ _ ∧ _))
  | .arrive _ => inferInstanceAs (Decidable (_ ∈ _))
  | .run _ => inferInstanceAs (Decidable (∀ q ∈ f.sent, _))
  | .snapshot _ _ => inferInstanceAs (Decidable (_ ∧ _))

/-- The commands a replay from tick `t` flies, the last before it among them, are all held. -/
def AllHeld (sent : List Cmd) (t : ℕ) : Prop :=
  ∀ c ∈ sent, (∀ q ∈ sent, c.tick < q.tick → t < q.tick) → StillHeld sent c

/-- What the prediction flies for a tick is what the sector gives the sim for it. -/
def Agrees (f : Flight) : Prop :=
  ∀ c ∈ f.flown, ∀ p ∈ f.given, p.1 = c.tick → c.controls = p.2.controls

/-- The suit is as the sector left it when it seated it: facing as it did, and gripping a body or off
any. A suit launched is left in flight assist besides, which nothing the client sees is taken for. -/
def AsLeft (s : Seating) (aim : Fin 3 → ℚ) (own : OwnSeen) : Prop :=
  own.ahead = aim ∧ s.keep = if own.free then 0 else grip

/-- Where the prediction flies a gap before its first command, the suit is as the sector left it; it
keeps what it replays; and it skips over no command it sent. -/
def Keeps (s : Seating) (aim : Fin 3 → ℚ) (f : Flight) : FlightOp → Prop
  | .send cmd => f.predictor.initialized = true → f.predictor.tick + 1 < cmd.tick →
      cmd.tick ≤ f.predictor.tick + maxGap →
      (∀ q ∈ f.sent, q.tick ≤ f.predictor.tick)
        ∧ (f.sent = [] → ∀ own, f.seen = some own → AsLeft s aim own)
  | .snapshot tick own => own.alive = true → tick < f.predictor.tick →
      AllHeld f.sent tick ∧ ((∀ q ∈ f.sent, tick + 1 < q.tick) → AsLeft s aim own)
  | _ => True

end Flight

/-! ### What the prediction flies -/

namespace Predictor

variable {h : InputHistory} {sent : List Cmd} {left : Controls} {last : Cmd} {t : ℕ}

def Repeats (sent : List Cmd) (left : Controls) (t : ℕ) (last : Cmd) : Prop :=
  last.tick < t ∧ (LastBy sent (t - 1) last
    ∨ (∀ q ∈ sent, t ≤ q.tick) ∧ ((∀ q ∈ sent, q.tick ≠ t) → last.controls = left))

theorem Repeats.standIn (hleft : left.HandsOff) (hr : Repeats sent left t last)
    (hnone : ∀ q ∈ sent, q.tick ≠ t) :
    Flown sent left t (last.standIn t (t - last.tick)).controls ∧ Repeats sent left (t + 1) last := by
  obtain ⟨hlt, hlast⟩ := hr
  rw [Cmd.controls_standIn _ _ (Nat.sub_pos_of_lt hlt)]
  cases hlast with
  | inl hlast =>
    have hstill : LastBy sent t last := by
      refine ⟨hlast.mem, hlt.le, fun q hq hle => ?_⟩
      have hne := hnone q hq
      exact hlast.last q hq (by omega)
    exact ⟨.inl ⟨last, hstill, rfl⟩, hlt.trans (Nat.lt_succ_self t), .inl hstill⟩
  | inr hnever =>
    obtain ⟨hlater, heq⟩ := hnever
    have hafter : ∀ q ∈ sent, t < q.tick := fun q hq =>
      lt_of_le_of_ne (hlater q hq) (hnone q hq).symm
    rw [heq hnone, hleft.after]
    exact ⟨.inr ⟨hafter, rfl⟩, hlt.trans (Nat.lt_succ_self t), .inr ⟨hafter, fun _ => heq hnone⟩⟩

theorem replay_flown (hh : InputHistory.Sound sent h) (hleft : left.HandsOff) (n : ℕ)
    (hheld : ∀ q ∈ sent, t ≤ q.tick → StillHeld sent q) (hr : Repeats sent left t last) :
    ∀ c ∈ replay h n t last, t ≤ c.tick ∧ c.tick < t + n ∧ Flown sent left c.tick c.controls := by
  induction n generalizing t last with
  | zero =>
    intro c hc
    cases hc
  | succ n ih =>
    have hheld' : ∀ q ∈ sent, t + 1 ≤ q.tick → StillHeld sent q := fun q hq hle => hheld q hq (by omega)
    have hgo {l : Cmd} (hl : Repeats sent left (t + 1) l) : ∀ c ∈ replay h n (t + 1) l,
        t ≤ c.tick ∧ c.tick < t + (n + 1) ∧ Flown sent left c.tick c.controls := by
      intro c hc
      obtain ⟨hfrom, hto, hflown⟩ := ih hheld' hl c hc
      exact ⟨by omega, by omega, hflown⟩
    cases hget : h.get t with
    | some cmd =>
      obtain ⟨hmem, htick⟩ := hh.get_some hget
      rw [replay, hget]
      refine List.forall_mem_cons.mpr ⟨⟨htick.ge, by omega, .of_mem hmem⟩, hgo ?_⟩
      exact ⟨by omega, .inl ⟨hmem, htick.le, fun _ _ hle => hle.trans htick.ge⟩⟩
    | none =>
      have hnone : ∀ q ∈ sent, q.tick ≠ t := by
        intro q hq htick
        have hsome := hh.get_held hq (hheld q hq htick.ge)
        rw [htick, hget] at hsome
        cases hsome
      obtain ⟨hflown, hnext⟩ := hr.standIn hleft hnone
      have htick : (last.standIn t (t - last.tick)).tick = t := Cmd.tick_standIn _ _ _
      rw [replay, hget]
      refine List.forall_mem_cons.mpr ⟨⟨htick.ge, by omega, ?_⟩, hgo hnext⟩
      rw [htick]
      exact hflown

theorem gap_flown (hleft : left.HandsOff) {t' : ℕ} (hnone : ∀ q ∈ sent, q.tick < t ∨ t' ≤ q.tick)
    (hr : Repeats sent left t last) :
    ∀ c ∈ gap last t t', t ≤ c.tick ∧ c.tick < t' ∧ Flown sent left c.tick c.controls := by
  intro c hc
  obtain ⟨k, hk, rfl⟩ := List.mem_map.mp hc
  rw [List.mem_range'_1] at hk
  rw [Cmd.tick_standIn]
  refine ⟨hk.1, by omega, ?_⟩
  have hreach (m : ℕ) (hm : t + m < t') : Repeats sent left (t + m) last := by
    induction m with
    | zero => exact hr
    | succ m ih =>
      refine ((ih (by omega)).standIn hleft fun q hq => ?_).2
      have hout := hnone q hq
      omega
  obtain ⟨m, rfl⟩ := Nat.exists_eq_add_of_le hk.1
  refine ((hreach m (by omega)).standIn hleft fun q hq => ?_).1
  have hout := hnone q hq
  omega

end Predictor

theorem exists_lastBy {l : List Cmd} {t : ℕ} {q : Cmd} (hq : q ∈ l) (ht : q.tick ≤ t) :
    ∃ c, LastBy l t c := by
  induction l generalizing q with
  | nil => cases hq
  | cons a rest ih =>
    by_cases hrest : ∃ q ∈ rest, q.tick ≤ t
    · obtain ⟨q', hq', ht'⟩ := hrest
      obtain ⟨c, hc⟩ := ih hq' ht'
      by_cases ha : a.tick ≤ t ∧ c.tick < a.tick
      · refine ⟨a, List.mem_cons_self, ha.1, List.forall_mem_cons.mpr ⟨fun _ => le_rfl, ?_⟩⟩
        intro q hq hle
        exact (hc.last q hq hle).trans ha.2.le
      · refine ⟨c, List.mem_cons_of_mem a hc.mem, hc.le, List.forall_mem_cons.mpr ⟨?_, hc.last⟩⟩
        intro hle
        omega
    · simp only [not_exists, not_and, not_le] at hrest
      cases List.mem_cons.mp hq with
      | inl heq =>
        subst heq
        refine ⟨q, List.mem_cons_self, ht, List.forall_mem_cons.mpr ⟨fun _ => le_rfl, ?_⟩⟩
        intro q' hq' hle
        exact absurd hle (Nat.not_le.mpr (hrest q' hq'))
      | inr hmem => exact absurd ht (Nat.not_le.mpr (hrest q hmem))

namespace Flight

variable {f : Flight} {s : Seating} {aim : Fin 3 → ℚ}

def left (s : Seating) (aim : Fin 3 → ℚ) : Controls := .handsOff aim s.keep

theorem handsOff_left (s : Seating) (aim : Fin 3 → ℚ) : (left s aim).HandsOff := ⟨aim, s.keep, rfl⟩

theorem AsLeft.controls {own : OwnSeen} (h : AsLeft s aim own) (t : ℕ) :
    (Predictor.unheardOf own t).controls = left s aim := by
  obtain ⟨hahead, hkeep⟩ := h
  unfold Predictor.unheardOf left
  rw [Cmd.controls_neutral, hahead, hkeep]

/-- A tick the sector has run, or one the client has sent a command for or after. -/
def Settled (f : Flight) (t : ℕ) : Prop := t < f.seat.next ∨ ∃ q ∈ f.sent, t ≤ q.tick

/-- Both sides know what was sent, and have flown what is to be. -/
structure Sound (s : Seating) (aim : Fin 3 → ℚ) (f : Flight) : Prop where
  seat : InputSeat.Sound f.sent f.reached s aim f.seat
  history : InputHistory.Sound f.sent f.history
  unheard : f.predictor.unheard.tick ≤ f.predictor.tick
  seen : f.predictor.initialized = true →
    ∃ own t, f.seen = some own ∧ f.predictor.unheard = Predictor.unheardOf own t
  heard : f.heard < f.seat.next
  tick : f.predictor.tick ≤ f.heard ∨ ∃ q ∈ f.sent, f.predictor.tick ≤ q.tick
  given : ∀ p ∈ f.given, p.1 < f.seat.next ∧ Flown f.sent (left s aim) p.1 p.2.controls
  flown : ∀ c ∈ f.flown, f.Settled c.tick ∧ Flown f.sent (left s aim) c.tick c.controls

theorem Sound.settled (h : Sound s aim f) {t : ℕ} (ht : t ≤ f.predictor.tick) : f.Settled t := by
  cases h.tick with
  | inl hle =>
    have hheard := h.heard
    exact .inl (by omega)
  | inr hsent =>
    obtain ⟨q, hq, hle⟩ := hsent
    exact .inr ⟨q, hq, ht.trans hle⟩

theorem sound_seated (s : Seating) (aim : Fin 3 → ℚ) (t : ℕ) : Sound s aim (seated s aim t) where
  seat := InputSeat.sound_seat s aim t
  history := InputHistory.sound_empty
  unheard := le_rfl
  seen h := by cases h
  heard := Nat.succ_pos t
  tick := .inl le_rfl
  given := by
    intro p hp
    cases hp
  flown := by
    intro c hc
    cases hc

theorem Settled.lt {t : ℕ} {cmd : Cmd} (h : f.Settled t) (hnext : f.seat.next ≤ cmd.tick)
    (hlater : ∀ q ∈ f.sent, q.tick < cmd.tick) : t < cmd.tick := by
  cases h with
  | inl hlt => omega
  | inr hsent =>
    obtain ⟨q, hq, hle⟩ := hsent
    have hlt := hlater q hq
    omega

theorem Sound.arrive (h : Sound s aim f) {cmd : Cmd} (hc : cmd ∈ f.sent) :
    Sound s aim (f.step (.arrive cmd)) where
  seat := h.seat.drainInput hc
  history := h.history
  unheard := h.unheard
  seen := h.seen
  heard := h.heard
  tick := h.tick
  given := h.given
  flown := h.flown

theorem Sound.run (h : Sound s aim f) (hdue : ∀ q ∈ f.sent, q.tick = f.seat.next → q ∈ f.reached)
    (laws : Laws) : Sound s aim (f.step (.run laws)) := by
  obtain ⟨hseat, hflown⟩ := h.seat.step hdue laws
  have hnext : (f.seat.step laws).1.next = f.seat.next + 1 := InputSeat.next_step _ _
  refine ⟨hseat, h.history, h.unheard, h.seen, ?_, h.tick, ?_, fun c hc => ?_⟩
  · show f.heard < (f.seat.step laws).1.next
    have hheard := h.heard
    omega
  · refine List.forall_mem_cons.mpr ⟨⟨?_, hflown⟩, fun p hp => ⟨?_, (h.given p hp).2⟩⟩
    · show f.seat.next < (f.seat.step laws).1.next
      omega
    · show p.1 < (f.seat.step laws).1.next
      have hlt := (h.given p hp).1
      omega
  · refine ⟨?_, (h.flown c hc).2⟩
    cases (h.flown c hc).1 with
    | inl hlt =>
      refine .inl ?_
      show c.tick < (f.seat.step laws).1.next
      omega
    | inr hsent => exact .inr hsent

/-- What a command flown ahead is flown with, the gap before it first. -/
theorem Sound.advance (h : Sound s aim f) {cmd : Cmd} (htime : f.InTime (.send cmd))
    (hkeeps : f.Keeps s aim (.send cmd)) :
    ∀ c ∈ (f.predictor.advance cmd (f.history.push cmd)).2,
      c.tick ≤ cmd.tick ∧ Flown (cmd :: f.sent) (left s aim) c.tick c.controls := by
  obtain ⟨hnext, hlater, hgap⟩ := htime
  have hself : cmd.tick ≤ cmd.tick ∧ Flown (cmd :: f.sent) (left s aim) cmd.tick cmd.controls :=
    ⟨le_rfl, .of_mem List.mem_cons_self⟩
  unfold Predictor.advance
  split
  · intro c hc
    cases hc
  · rename_i hready
    simp only [Bool.or_eq_true, Bool.not_eq_true', decide_eq_true_eq, not_or,
      Bool.not_eq_false, not_le] at hready
    obtain ⟨hinit, hahead⟩ := hready
    dsimp only
    refine List.forall_mem_append.mpr ⟨?_, List.forall_mem_singleton.mpr hself⟩
    split
    · rename_i hnear
      by_cases hskips : f.predictor.tick + 1 < cmd.tick
      · obtain ⟨hbehind, hleft⟩ := hkeeps hinit hskips (by omega)
        have hnone : ∀ q ∈ cmd :: f.sent, q.tick < f.predictor.tick + 1 ∨ cmd.tick ≤ q.tick := by
          refine List.forall_mem_cons.mpr ⟨.inr le_rfl, fun q hq => .inl ?_⟩
          have hle := hbehind q hq
          omega
        have hhistory := h.history.push hlater
        have hrepeats : Predictor.Repeats (cmd :: f.sent) (left s aim) (f.predictor.tick + 1)
            (((f.history.push cmd).lastAtOrBefore f.predictor.tick).getD f.predictor.unheard) := by
          cases hgap with
          | inl hfirst =>
            -- Nothing was sent before: the suit flies on what it was left with.
            have hnever : ∀ q ∈ cmd :: f.sent, f.predictor.tick < q.tick := by
              rw [hfirst]
              exact List.forall_mem_singleton.mpr hahead
            rw [hhistory.lastAtOrBefore_eq_none hnever, Option.getD_none]
            have hunheard := h.unheard
            obtain ⟨own, t, hseen, hown⟩ := h.seen hinit
            refine ⟨by omega, .inr ⟨hnever, fun _ => ?_⟩⟩
            rw [hown]
            exact (hleft hfirst own hseen).controls t
          | inr hlast =>
            obtain ⟨q, hq, hclose⟩ := hlast
            obtain ⟨c, hc⟩ := exists_lastBy hq (hbehind q hq)
            have hqc := hc.last q hq (hbehind q hq)
            have hheld : InputHistory.StillHeld (cmd :: f.sent) c := by
              unfold maxGap at hclose
              refine List.forall_mem_cons.mpr ⟨?_, fun q' hq' => ?_⟩
              · unfold historyTicks
                omega
              · have hle := hc.last q' hq' (hbehind q' hq')
                unfold historyTicks
                omega
            have hfound := hhistory.lastAtOrBefore_eq_some (hc.cons hahead) hheld (by
              unfold maxGap at hclose
              unfold historyTicks
              omega)
            rw [hfound, Option.getD_some]
            have hle := hc.le
            exact ⟨by omega, .inl (hc.cons hahead)⟩
        intro c hc
        obtain ⟨-, hbefore, hflown⟩ :=
          Predictor.gap_flown (handsOff_left s aim) hnone hrepeats c hc
        exact ⟨hbefore.le, hflown⟩
      · intro c hc
        obtain ⟨k, hk, -⟩ := List.mem_map.mp hc
        rw [List.mem_range'_1] at hk
        omega
    · intro c hc
      cases hc

theorem Sound.send (h : Sound s aim f) {cmd : Cmd} (htime : f.InTime (.send cmd))
    (hkeeps : f.Keeps s aim (.send cmd)) : Sound s aim (f.step (.send cmd)) := by
  have hadvance := h.advance htime hkeeps
  obtain ⟨hnext, hlater, -⟩ := htime
  have hstep : (f.step (.send cmd)).predictor = (f.predictor.advance cmd (f.history.push cmd)).1 := rfl
  have hpredictor : (f.predictor.advance cmd (f.history.push cmd)).1 = f.predictor
      ∨ f.predictor.tick < cmd.tick
        ∧ (f.predictor.advance cmd (f.history.push cmd)).1 = { f.predictor with tick := cmd.tick } := by
    unfold Predictor.advance
    split
    · exact .inl rfl
    · rename_i hready
      simp only [Bool.or_eq_true, decide_eq_true_eq, not_or, not_le] at hready
      exact .inr ⟨hready.2, rfl⟩
  refine ⟨h.seat.send hnext hlater, h.history.push hlater, ?_, ?_, h.heard, ?_, ?_, ?_⟩
  · have hunheard := h.unheard
    rw [hstep]
    cases hpredictor with
    | inl heq => rw [heq]; exact hunheard
    | inr hmoved =>
      rw [hmoved.2]
      exact hunheard.trans hmoved.1.le
  · rw [hstep]
    cases hpredictor with
    | inl heq => rw [heq]; exact h.seen
    | inr hmoved => rw [hmoved.2]; exact h.seen
  · rw [hstep]
    cases hpredictor with
    | inl heq =>
      rw [heq]
      cases h.tick with
      | inl hle => exact .inl hle
      | inr hsent =>
        obtain ⟨q, hq, hle⟩ := hsent
        exact .inr ⟨q, List.mem_cons_of_mem cmd hq, hle⟩
    | inr hmoved =>
      rw [hmoved.2]
      exact .inr ⟨cmd, List.mem_cons_self, le_rfl⟩
  · intro p hp
    obtain ⟨hlt, hflown⟩ := h.given p hp
    exact ⟨hlt, hflown.cons (by omega)⟩
  · refine List.forall_mem_append.mpr ⟨fun c hc => ?_, fun c hc => ?_⟩
    · obtain ⟨hle, hflown⟩ := hadvance c hc
      exact ⟨.inr ⟨cmd, List.mem_cons_self, hle⟩, hflown⟩
    · obtain ⟨hsettled, hflown⟩ := h.flown c hc
      refine ⟨?_, hflown.cons (hsettled.lt hnext hlater)⟩
      cases hsettled with
      | inl hlt => exact .inl hlt
      | inr hsent =>
        obtain ⟨q, hq, hle⟩ := hsent
        exact .inr ⟨q, List.mem_cons_of_mem cmd hq, hle⟩

theorem Sound.reconcile (h : Sound s aim f) {t : ℕ} {own : OwnSeen}
    (htime : f.InTime (.snapshot t own)) (hkeeps : f.Keeps s aim (.snapshot t own)) :
    ∀ c ∈ (f.predictor.reconcile t own f.history).2,
      c.tick ≤ f.predictor.tick ∧ Flown f.sent (left s aim) c.tick c.controls := by
  unfold Predictor.reconcile
  dsimp only
  split
  · intro c hc
    cases hc
  · rename_i halive
    have halive' : own.alive = true := by simpa using halive
    by_cases hbehind : t < f.predictor.tick
    · obtain ⟨hheld, hleft⟩ := hkeeps halive' hbehind
      have hafter : ∀ q ∈ f.sent, t + 1 ≤ q.tick → InputHistory.StillHeld f.sent q := fun q hq hle =>
        hheld q hq fun q' _ hlt => by omega
      have hrepeats : Predictor.Repeats f.sent (left s aim) (t + 1)
          ((f.history.lastAtOrBefore t).getD (Predictor.unheardOf own t)) := by
        by_cases hbefore : ∃ q ∈ f.sent, q.tick ≤ t
        · obtain ⟨q, hq, hle⟩ := hbefore
          obtain ⟨c, hc⟩ := exists_lastBy hq hle
          have hc_held : InputHistory.StillHeld f.sent c := by
            refine hheld c hc.mem fun q' hq' hlt => ?_
            by_contra hnot
            have hlast := hc.last q' hq' (by omega)
            omega
          -- Something was sent for a tick past the snapshot's, and that is not far off.
          have hnear : t < c.tick + historyTicks := by
            cases h.tick with
            | inl hle => exact absurd hbehind (Nat.not_lt.mpr (hle.trans htime.1))
            | inr hsent =>
              obtain ⟨q', hq', hle'⟩ := hsent
              have hlt := hc_held q' hq'
              omega
          rw [h.history.lastAtOrBefore_eq_some hc hc_held hnear, Option.getD_some]
          have hle := hc.le
          exact ⟨by omega, .inl hc⟩
        · simp only [not_exists, not_and, not_le] at hbefore
          rw [h.history.lastAtOrBefore_eq_none hbefore, Option.getD_none]
          refine ⟨Nat.lt_succ_self t, .inr ⟨hbefore, fun hnot => (hleft fun q hq => ?_).controls t⟩⟩
          have hlt := hbefore q hq
          have hne := hnot q hq
          omega
      intro c hc
      obtain ⟨-, hto, hflown⟩ :=
        Predictor.replay_flown h.history (handsOff_left s aim) _ hafter hrepeats c hc
      rw [Nat.max_eq_left hbehind.le] at hto
      exact ⟨by omega, hflown⟩
    · rw [Nat.max_eq_right (Nat.not_lt.mp hbehind), Nat.sub_self]
      intro c hc
      cases hc

theorem Sound.snapshot (h : Sound s aim f) {t : ℕ} {own : OwnSeen}
    (htime : f.InTime (.snapshot t own)) (hkeeps : f.Keeps s aim (.snapshot t own)) :
    Sound s aim (f.step (.snapshot t own)) := by
  have hreplay := h.reconcile htime hkeeps
  have hpredictor : (f.step (.snapshot t own)).predictor = (f.predictor.reconcile t own f.history).1 :=
    rfl
  have htick : (f.predictor.reconcile t own f.history).1.tick = t
      ∨ (f.predictor.reconcile t own f.history).1.tick = max f.predictor.tick t := by
    unfold Predictor.reconcile
    dsimp only
    split
    · exact .inl rfl
    · exact .inr rfl
  have hunheard : (f.predictor.reconcile t own f.history).1.unheard = Predictor.unheardOf own t := by
    unfold Predictor.reconcile
    dsimp only
    split <;> rfl
  refine ⟨h.seat, h.history, ?_, fun _ => ⟨own, t, rfl, hunheard⟩, htime.2, ?_, h.given, ?_⟩
  · rw [hpredictor, hunheard]
    show t ≤ _
    omega
  · rw [hpredictor]
    show _ ≤ t ∨ ∃ q ∈ f.sent, _
    cases h.tick with
    | inl hle =>
      have horder := htime.1
      exact .inl (by omega)
    | inr hsent =>
      obtain ⟨q, hq, hle⟩ := hsent
      by_cases hpast : (f.predictor.reconcile t own f.history).1.tick ≤ t
      · exact .inl hpast
      · exact .inr ⟨q, hq, by omega⟩
  · refine List.forall_mem_append.mpr ⟨fun c hc => ?_, h.flown⟩
    obtain ⟨hle, hflown⟩ := hreplay c hc
    exact ⟨h.settled hle, hflown⟩

theorem Sound.step (h : Sound s aim f) {op : FlightOp} (htime : f.InTime op)
    (hkeeps : f.Keeps s aim op) : Sound s aim (f.step op) := by
  cases op with
  | send cmd => exact h.send htime hkeeps
  | arrive cmd => exact h.arrive htime
  | run laws => exact h.run htime laws
  | snapshot t own => exact h.snapshot htime hkeeps

/-- As long as the prediction keeps what it replays, takes the suit to have been left with what it
was, and skips over none of its own commands, it flies each tick as the server does. -/
theorem prediction_flies_server_commands (s : Seating) (aim : Fin 3 → ℚ) (t : ℕ)
    (ops : List FlightOp)
    (hops : Lib.Run.Along step (fun f op => f.InTime op ∧ f.Keeps s aim op)
      (seated s aim t) ops) :
    (ops.foldl step (seated s aim t)).Agrees := by
  have hsound := Lib.Run.invariant (I := Sound s aim) (fun f op h hop => h.step hop.1 hop.2)
    (sound_seated s aim t) hops
  intro c hc p hp htick
  have hflown := (hsound.flown c hc).2
  rw [← htick] at hflown
  exact hflown.unique hsound.seat.distinct (hsound.given p hp).2

def firstCmd : Cmd := { tick := 3, buttons := flightAssist }

def firstTicks (own : OwnSeen) : List FlightOp :=
  [.run ⟨false, false⟩, .snapshot 1 own, .send firstCmd, .arrive firstCmd, .run ⟨false, false⟩,
    .run ⟨false, false⟩]

theorem prediction_flies_server_commands_woken :
    Lib.Run.Along step (fun f op => f.InTime op ∧ f.Keeps .wokeFree ![0, 0, 1] op)
        (seated .wokeFree ![0, 0, 1] 0) (firstTicks ⟨true, true, ![0, 0, 1]⟩)
      ∧ ((firstTicks ⟨true, true, ![0, 0, 1]⟩).foldl step (seated .wokeFree ![0, 0, 1] 0)).Agrees := by
  have hops : Lib.Run.Along step (fun f op => f.InTime op ∧ f.Keeps .wokeFree ![0, 0, 1] op)
      (seated .wokeFree ![0, 0, 1] 0) (firstTicks ⟨true, true, ![0, 0, 1]⟩) := by
    refine ⟨⟨by decide, trivial⟩, ⟨by decide, fun _ hlt => absurd hlt (by decide)⟩,
      ⟨by decide, fun _ _ _ => ⟨by decide, fun _ own hown => ?_⟩⟩, ⟨by decide, trivial⟩,
      ⟨by decide, trivial⟩, ⟨by decide, trivial⟩, trivial⟩
    cases hown
    exact ⟨rfl, by decide⟩
  exact ⟨hops, prediction_flies_server_commands _ _ _ _ hops⟩

/-- A suit launched into the colony is held there by flight assist until its pilot is first heard
from; the prediction flies the ticks before their first command without. -/
theorem launched_at_gate_flies_without_assist :
    Lib.Run.Along step InTime (seated .gate ![0, 0, 1] 0) (firstTicks ⟨true, true, ![0, 0, 1]⟩)
      ∧ ¬ ((firstTicks ⟨true, true, ![0, 0, 1]⟩).foldl step (seated .gate ![0, 0, 1] 0)).Agrees := by
  refine ⟨⟨by decide, by decide, by decide, by decide, by decide, by decide, trivial⟩, ?_⟩
  intro hagrees
  have hat : ∃ c ∈ ((firstTicks ⟨true, true, ![0, 0, 1]⟩).foldl step
      (seated .gate ![0, 0, 1] 0)).flown, ∃ p ∈ ((firstTicks ⟨true, true, ![0, 0, 1]⟩).foldl step
      (seated .gate ![0, 0, 1] 0)).given, p.1 = c.tick ∧ c.controls.buttons ≠ p.2.controls.buttons := by
    decide
  obtain ⟨c, hc, p, hp, htick, hne⟩ := hat
  exact hne (congrArg Controls.buttons (hagrees c hc p hp htick))

end Flight

end BeforeColony
