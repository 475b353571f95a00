import BeforeColony.Sector.Inputs

/-!
# The prediction's commands

The client keeps the commands it sent, and flies its prediction of the suit on them: each as it is
sent, and again from every snapshot. Through a gap it flies the stand-ins the server flies, and
before its first command what it takes the server to have left the suit with.
-/

set_option autoImplicit false

namespace BeforeColony

open Buttons

def historyTicks : ℕ := 128

/-- The longest gap the prediction flies through as it goes. -/
def maxGap : ℕ := 32

/-- The commands sent, each in its tick's slot. -/
structure InputHistory where
  cmds : Lib.Ring (Option Cmd) historyTicks
  newest : ℕ

namespace InputHistory

def empty : InputHistory := ⟨⟨fun _ => none⟩, 0⟩

def push (h : InputHistory) (cmd : Cmd) : InputHistory :=
  ⟨h.cmds.set cmd.tick (some cmd), max h.newest cmd.tick⟩

def get (h : InputHistory) (tick : ℕ) : Option Cmd := (h.cmds.get tick).filter fun c => c.tick = tick

/-- The newest command for `tick` or before it that is still held. -/
def lastAtOrBefore (h : InputHistory) (tick : ℕ) : Option Cmd :=
  (List.range (min historyTicks (tick + 1))).findSome? fun back => h.get (tick - back)

end InputHistory

/-- What a snapshot says of the own suit that its commands are replayed by. -/
structure OwnSeen where
  alive : Bool
  free : Bool
  ahead : Fin 3 → ℚ

/-- What of the prediction says which commands are flown. -/
structure Predictor where
  tick : ℕ
  initialized : Bool
  /-- Stood in with before the first command. -/
  unheard : Cmd

namespace Predictor

def new : Predictor := ⟨0, false, {}⟩

def gap (last : Cmd) (t t' : ℕ) : List Cmd :=
  (List.range' t (t' - t)).map fun k => last.standIn k (k - last.tick)

/-- Steps the prediction with a command already in the history. Ticks skipped since the last one
are flown on the server's stand-ins first. -/
def advance (p : Predictor) (cmd : Cmd) (h : InputHistory) : Predictor × List Cmd :=
  if ! p.initialized || cmd.tick ≤ p.tick then (p, [])
  else
    let skipped :=
      if cmd.tick - p.tick ≤ maxGap then
        gap ((h.lastAtOrBefore p.tick).getD p.unheard) (p.tick + 1) cmd.tick
      else []
    ({ p with tick := cmd.tick }, skipped ++ [cmd])

/-- `n` ticks from `t` on, replayed after `last`. -/
def replay (h : InputHistory) : ℕ → ℕ → Cmd → List Cmd
  | 0, _, _ => []
  | n + 1, t, last =>
    match h.get t with
    | some cmd => cmd :: replay h n (t + 1) cmd
    | none => last.standIn t (t - last.tick) :: replay h n (t + 1) last

/-- What the server is taken to have left the suit with: on a body, its grip. -/
def unheardOf (own : OwnSeen) (serverTick : ℕ) : Cmd :=
  .neutral serverTick own.ahead (if own.free then 0 else grip)

def reconcile (p : Predictor) (serverTick : ℕ) (own : OwnSeen) (h : InputHistory) :
    Predictor × List Cmd :=
  let unheard := unheardOf own serverTick
  let last := (h.lastAtOrBefore serverTick).getD unheard
  if ! own.alive then (⟨serverTick, true, unheard⟩, [])
  else
    let target := max p.tick serverTick
    (⟨target, true, unheard⟩, replay h (target - serverTick) (serverTick + 1) last)

end Predictor

/-! ### What the history holds -/

namespace InputHistory

variable {h : InputHistory} {sent : List Cmd} {c : Cmd} {t : ℕ}

def StillHeld (sent : List Cmd) (c : Cmd) : Prop := ∀ q ∈ sent, q.tick < c.tick + historyTicks

structure Sound (sent : List Cmd) (h : InputHistory) : Prop where
  mem : ∀ k c, h.cmds.slot k = some c → c ∈ sent
  held : ∀ c ∈ sent, StillHeld sent c → h.cmds.get c.tick = some c

theorem sound_empty : Sound [] empty where
  mem := by
    intro k c hc
    cases hc
  held := by
    intro c hc
    cases hc

theorem Sound.push (h' : Sound sent h) (hlater : ∀ q ∈ sent, q.tick < c.tick) :
    Sound (c :: sent) (h.push c) where
  mem := by
    intro k q hq
    simp only [InputHistory.push, Lib.Ring.set, Function.update_apply] at hq
    split at hq
    · cases hq
      exact List.mem_cons_self
    · exact List.mem_cons_of_mem c (h'.mem k q hq)
  held := by
    intro q hq hheld
    cases List.mem_cons.mp hq with
    | inl heq =>
      rw [heq]
      exact Lib.Ring.get_set_self _ _ _
    | inr hmem =>
      have hnear := hheld c List.mem_cons_self
      show (h.cmds.set c.tick (some c)).get q.tick = some q
      rw [Lib.Ring.get_set_of_lt (hlater q hmem) hnear]
      exact h'.held q hmem fun q' hq' => hheld q' (List.mem_cons_of_mem c hq')

theorem Sound.get_some (h' : Sound sent h) (hget : h.get t = some c) : c ∈ sent ∧ c.tick = t := by
  unfold InputHistory.get at hget
  rw [Option.filter_eq_some_iff] at hget
  exact ⟨h'.mem _ _ hget.1, of_decide_eq_true hget.2⟩

theorem Sound.get_held (h' : Sound sent h) (hc : c ∈ sent) (hheld : StillHeld sent c) :
    h.get c.tick = some c := by
  unfold InputHistory.get
  rw [h'.held c hc hheld]
  simp

theorem findSome?_range {α : Type*} {f : ℕ → Option α} {a : α} {k n : ℕ} (hk : f k = some a)
    (hfirst : ∀ i < k, f i = none) (hkn : k < n) : (List.range n).findSome? f = some a := by
  obtain ⟨m, rfl⟩ := Nat.exists_eq_add_of_lt hkn
  rw [show k + m + 1 = k + (m + 1) by omega, List.range_add, List.findSome?_append,
    List.findSome?_eq_none_iff.mpr fun i hi => hfirst i (List.mem_range.mp hi), Option.none_or,
    List.range_succ_eq_map]
  simp [hk]

/-- The last command for a tick or before it is found while it is held, and near enough. -/
theorem Sound.lastAtOrBefore_eq_some (h' : Sound sent h) (hc : LastBy sent t c) (hheld : StillHeld sent c)
    (hnear : t < c.tick + historyTicks) : h.lastAtOrBefore t = some c := by
  have hle := hc.le
  refine findSome?_range (k := t - c.tick) ?_ (fun i hi => ?_) ?_
  · rw [Nat.sub_sub_self hle]
    exact h'.get_held hc.mem hheld
  · cases hget : h.get (t - i) with
    | none => rfl
    | some q =>
      obtain ⟨hq, htick⟩ := h'.get_some hget
      have hlast := hc.last q hq (by omega)
      omega
  · omega

theorem Sound.lastAtOrBefore_eq_none (h' : Sound sent h) (hnone : ∀ q ∈ sent, t < q.tick) :
    h.lastAtOrBefore t = none := by
  refine List.findSome?_eq_none_iff.mpr fun i _ => ?_
  cases hget : h.get (t - i) with
  | none => rfl
  | some q =>
    obtain ⟨hq, htick⟩ := h'.get_some hget
    have hlt := hnone q hq
    omega

end InputHistory

end BeforeColony
