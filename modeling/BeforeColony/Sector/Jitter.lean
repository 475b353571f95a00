import BeforeColony.Sector.Inputs

/-!
# The jitter buffer's slots

The buffer as its slots and its word of valid bits. A slot whose bit is clear keeps its stale
command, so what a buffer holds is its `view`, the sector's ring (`view_insert`, `view_take`). An
`Account` keeps a box for every tick beside the slots: the buffer gives what is in a tick's box, for
as long as no command has come in with a next tick past it (`own_command_once`).
-/

set_option autoImplicit false

namespace BeforeColony

namespace Words

structure JitterBuffer where
  cmds : Fin jitterSlots → Cmd
  valid : BitVec jitterSlots
  /-- Newest command tick received. -/
  newest : ℕ

def slotOf (tick : ℕ) : Fin jitterSlots := ⟨tick % jitterSlots, Nat.mod_lt _ (by decide)⟩

def bit (k : Fin jitterSlots) : BitVec jitterSlots := BitVec.ofNat jitterSlots 1 <<< k.val

/-- A command for a tick already simulated, or absurdly far in the future. The sum is a `u32`. -/
def Rejects (cmd : Cmd) (next : ℕ) : Prop :=
  cmd.tick < next ∨ (next + (jitterSlots - 2)) % 2 ^ 32 ≤ cmd.tick

instance (cmd : Cmd) (next : ℕ) : Decidable (Rejects cmd next) :=
  inferInstanceAs (Decidable (_ ∨ _))

namespace JitterBuffer

def empty : JitterBuffer := ⟨fun _ => {}, 0, 0⟩

def clear (b : JitterBuffer) : JitterBuffer := { b with valid := 0, newest := 0 }

/-- Stores a command unless it is rejected. -/
def insert (b : JitterBuffer) (cmd : Cmd) (next : ℕ) : JitterBuffer × Bool :=
  if Rejects cmd next then (b, false)
  else
    let k := slotOf cmd.tick
    ({ cmds := Function.update b.cmds k cmd
       valid := b.valid ||| bit k
       newest := max b.newest cmd.tick }, true)

/-- Removes and returns the command for `tick`, if it arrived. -/
def take (b : JitterBuffer) (tick : ℕ) : JitterBuffer × Option Cmd :=
  let k := slotOf tick
  if b.valid &&& bit k ≠ 0 ∧ (b.cmds k).tick = tick then
    ({ b with valid := b.valid &&& ~~~bit k }, some (b.cmds k))
  else (b, none)

end JitterBuffer

/-! ### What the slots hold -/

section Bits

variable {x : BitVec jitterSlots} {j k : Fin jitterSlots}

theorem getLsbD_bit : (bit k).getLsbD j = decide (j = k) := by
  unfold bit
  rw [← BitVec.twoPow_eq, BitVec.getLsbD_twoPow, decide_eq_true k.isLt, Bool.true_and]
  simp only [Fin.ext_iff, eq_comm]

theorem and_bit_ne_zero : x &&& bit k ≠ 0 ↔ x.getLsbD k = true := by
  constructor
  · intro hne
    by_contra hclear
    apply hne
    unfold bit
    rw [← BitVec.twoPow_eq, BitVec.and_twoPow, if_neg hclear]
    rfl
  · intro hset hzero
    have hbit : (x &&& bit k).getLsbD k = true := by
      rw [BitVec.getLsbD_and, hset, getLsbD_bit, decide_eq_true rfl]
      rfl
    rw [hzero] at hbit
    cases BitVec.getLsbD_zero.symm.trans hbit

theorem getLsbD_or_bit : (x ||| bit k).getLsbD j = if j = k then true else x.getLsbD j := by
  rw [BitVec.getLsbD_or, getLsbD_bit]
  split
  · rename_i hjk
    rw [decide_eq_true hjk, Bool.or_true]
  · rename_i hjk
    rw [decide_eq_false hjk, Bool.or_false]

theorem getLsbD_and_not_bit : (x &&& ~~~bit k).getLsbD j = if j = k then false else x.getLsbD j := by
  rw [BitVec.getLsbD_and, BitVec.getLsbD_not, getLsbD_bit, decide_eq_true j.isLt, Bool.true_and]
  split
  · rename_i hjk
    rw [decide_eq_true hjk]
    exact Bool.and_false _
  · rename_i hjk
    rw [decide_eq_false hjk]
    exact Bool.and_true _

end Bits

namespace JitterBuffer

variable {b : JitterBuffer} {cmd : Cmd} {next : ℕ}

/-- What slot `k` holds: its command, if its bit is set. -/
def held (b : JitterBuffer) (k : Fin jitterSlots) : Option Cmd :=
  if b.valid.getLsbD k then some (b.cmds k) else none

theorem held_clear (b : JitterBuffer) : b.clear.held = fun _ => none := by
  funext k
  unfold held clear
  rw [if_neg]
  exact Bool.eq_false_iff.mp BitVec.getLsbD_zero

theorem held_insert (h : ¬ Rejects cmd next) :
    (b.insert cmd next).1.held = Function.update b.held (slotOf cmd.tick) (some cmd) := by
  unfold insert
  rw [if_neg h]
  funext k
  unfold held
  rw [Function.update_apply]
  dsimp only
  rw [getLsbD_or_bit, Function.update_apply]
  split
  · rfl
  · rfl

/-- A slot's command is given when it is for the tick asked for. -/
theorem take_snd (b : JitterBuffer) (tick : ℕ) :
    (b.take tick).2 = (b.held (slotOf tick)).filter (·.tick = tick) := by
  unfold take held
  by_cases hset : b.valid.getLsbD (slotOf tick) = true
  · have hbit := and_bit_ne_zero.mpr hset
    rw [if_pos hset, Option.filter_some]
    by_cases htick : (b.cmds (slotOf tick)).tick = tick
    · rw [if_pos (decide_eq_true htick)]
      exact congrArg Prod.snd (if_pos ⟨hbit, htick⟩)
    · rw [if_neg fun h => htick (of_decide_eq_true h)]
      exact congrArg Prod.snd (if_neg fun h => htick h.2)
  · rw [if_neg hset]
    exact congrArg Prod.snd (if_neg fun h => hset (and_bit_ne_zero.mp h.1))

theorem held_take (b : JitterBuffer) (tick : ℕ) :
    (b.take tick).1.held
      = if (b.take tick).2 = none then b.held
        else Function.update b.held (slotOf tick) none := by
  unfold take
  dsimp only
  split
  · rw [if_neg (Option.some_ne_none _)]
    funext k
    unfold held
    rw [Function.update_apply]
    dsimp only
    rw [getLsbD_and_not_bit]
    split
    · rfl
    · rfl
  · rw [if_pos rfl]

def ringOf (held : Fin jitterSlots → Option Cmd) : Lib.Ring (Option Cmd) jitterSlots :=
  ⟨fun k => if hk : k < jitterSlots then held ⟨k, hk⟩ else none⟩

theorem get_ringOf (held : Fin jitterSlots → Option Cmd) (tick : ℕ) :
    (ringOf held).get tick = held (slotOf tick) :=
  dif_pos _

theorem ringOf_update (held : Fin jitterSlots → Option Cmd) (tick : ℕ) (c : Option Cmd) :
    ringOf (Function.update held (slotOf tick) c) = (ringOf held).set tick c := by
  unfold ringOf Lib.Ring.set
  congr 1
  funext k
  rw [Function.update_apply]
  by_cases hk : k < jitterSlots
  · have hslot : (⟨k, hk⟩ : Fin jitterSlots) = slotOf tick ↔ k = tick % jitterSlots := Fin.ext_iff
    simp only [dif_pos hk, Function.update_apply, hslot]
  · have hne : k ≠ tick % jitterSlots := fun h => hk (h ▸ Nat.mod_lt _ (by decide))
    simp only [dif_neg hk, if_neg hne]

def view (b : JitterBuffer) : BeforeColony.JitterBuffer := ⟨ringOf b.held, b.newest⟩

theorem view_clear (b : JitterBuffer) : b.clear.view = .clear := by
  have hring : ringOf (fun _ => none) = ⟨fun _ => none⟩ := by
    unfold ringOf
    simp only [dite_eq_ite, ite_self]
  unfold view
  rw [held_clear, hring]
  rfl

theorem timely_of_not_rejects (h : ¬ Rejects cmd next) :
    BeforeColony.JitterBuffer.Timely cmd next := by
  obtain ⟨hnext, hnear⟩ := not_or.mp h
  exact ⟨Nat.not_lt.mp hnext, (Nat.not_le.mp hnear).trans_le (Nat.mod_le _ _)⟩

theorem rejects_iff (h : next + (jitterSlots - 2) < 2 ^ 32) :
    Rejects cmd next ↔ ¬ BeforeColony.JitterBuffer.Timely cmd next := by
  unfold Rejects BeforeColony.JitterBuffer.Timely
  rw [Nat.mod_eq_of_lt h]
  omega

theorem view_insert (h : ¬ Rejects cmd next) :
    (b.insert cmd next).1.view = (b.view.insert cmd next).1 := by
  have hnewest : (b.insert cmd next).1.newest = max b.newest cmd.tick := by
    unfold insert
    rw [if_neg h]
  unfold view BeforeColony.JitterBuffer.insert
  rw [if_pos (timely_of_not_rejects h), held_insert h, ringOf_update, hnewest]

/-- Short of the ticks' end the ring takes in what the slots do. -/
theorem view_insert_of_lt (b : JitterBuffer) (cmd : Cmd) (h : next + (jitterSlots - 2) < 2 ^ 32) :
    (b.insert cmd next).1.view = (b.view.insert cmd next).1
      ∧ (b.insert cmd next).2 = (b.view.insert cmd next).2 := by
  by_cases hrejects : Rejects cmd next
  · have htimely := (rejects_iff h).mp hrejects
    unfold insert BeforeColony.JitterBuffer.insert
    rw [if_pos hrejects, if_neg htimely]
    exact ⟨rfl, rfl⟩
  · refine ⟨view_insert hrejects, ?_⟩
    unfold insert BeforeColony.JitterBuffer.insert
    rw [if_neg hrejects, if_pos (timely_of_not_rejects hrejects)]

theorem view_take (b : JitterBuffer) (tick : ℕ) :
    (b.take tick).1.view = (b.view.take tick).1 ∧ (b.take tick).2 = (b.view.take tick).2 := by
  have hnewest : (b.take tick).1.newest = b.newest := by
    unfold take
    dsimp only
    split
    · rfl
    · rfl
  have hget : b.view.cmds.get tick = b.held (slotOf tick) := get_ringOf _ _
  have hview : (b.take tick).1.view = ⟨ringOf (b.take tick).1.held, b.newest⟩ := by
    rw [← hnewest]
    rfl
  rw [hview, held_take, take_snd]
  unfold BeforeColony.JitterBuffer.take
  rw [hget]
  cases b.held (slotOf tick) with
  | none => exact ⟨rfl, rfl⟩
  | some c =>
    dsimp only
    rw [Option.filter_some]
    by_cases htick : c.tick = tick
    · rw [if_pos (decide_eq_true htick), if_pos htick, if_neg (Option.some_ne_none c), ringOf_update]
      exact ⟨rfl, rfl⟩
    · rw [if_neg fun h => htick (of_decide_eq_true h), if_neg htick, if_pos rfl]
      exact ⟨rfl, rfl⟩

end JitterBuffer

end Words

/-! ### The ring against a box for every tick -/

namespace JitterBuffer

variable {b : JitterBuffer} {last : ℕ → Option Cmd} {c : Cmd} {next t : ℕ}

/-- What the ring holds is in its tick's slot, and is the last stored for that tick. -/
def Follows (last : ℕ → Option Cmd) (b : JitterBuffer) : Prop :=
  ∀ k c, b.cmds.slot k = some c → c.tick % jitterSlots = k ∧ last c.tick = some c

/-- The ring still holds what was stored for the ticks from `next` on, and nothing was stored for a
tick further off than it takes. -/
def Keeps (last : ℕ → Option Cmd) (b : JitterBuffer) (next : ℕ) : Prop :=
  ∀ t c, last t = some c →
    c.tick = t ∧ t < next + (jitterSlots - 2) ∧ (next ≤ t → b.cmds.get t = some c)

theorem follows_clear (last : ℕ → Option Cmd) : Follows last .clear := by
  intro k c hc
  cases hc

theorem keeps_clear (b : JitterBuffer) (next : ℕ) : Keeps (fun _ => none) b next := by
  intro t c hc
  cases hc

theorem Follows.insert (h : Follows last b) (ht : Timely c next) :
    Follows (Function.update last c.tick (some c)) (b.insert c next).1 := by
  intro k q hq
  unfold JitterBuffer.insert at hq
  rw [if_pos ht] at hq
  dsimp only [Lib.Ring.set] at hq
  rw [Function.update_apply] at hq
  split at hq
  · rename_i hk
    cases hq
    exact ⟨hk.symm, Function.update_self _ _ _⟩
  · rename_i hk
    obtain ⟨hslot, hlast⟩ := h k q hq
    have hne : q.tick ≠ c.tick := by
      intro htick
      rw [htick] at hslot
      exact hk hslot.symm
    exact ⟨hslot, by rw [Function.update_of_ne hne, hlast]⟩

theorem slot_take {k : ℕ} {q : Cmd} :
    (b.take t).1.cmds.slot k = some q ↔
      b.cmds.slot k = some q ∧ (k = t % jitterSlots → q.tick ≠ t) := by
  unfold JitterBuffer.take
  split
  · rename_i cmd hcmd
    have hslot : b.cmds.slot (t % jitterSlots) = some cmd := hcmd
    split
    · rename_i htick
      dsimp only [Lib.Ring.set]
      rw [Function.update_apply]
      split
      · rename_i hk
        subst hk
        rw [hslot]
        constructor
        · intro h
          cases h
        · rintro ⟨h, hne⟩
          cases h
          exact absurd htick (hne rfl)
      · rename_i hk
        exact ⟨fun h => ⟨h, fun hk' => absurd hk' hk⟩, And.left⟩
    · rename_i htick
      constructor
      · intro h
        refine ⟨h, fun hk => ?_⟩
        rw [hk, hslot] at h
        cases h
        exact htick
      · exact And.left
  · rename_i hnone
    have hslot : b.cmds.slot (t % jitterSlots) = none := hnone
    constructor
    · intro h
      refine ⟨h, fun hk => ?_⟩
      rw [hk, hslot] at h
      cases h
    · exact And.left

theorem Follows.take (h : Follows last b) (t : ℕ) :
    Follows (Function.update last t none) (b.take t).1 := by
  intro k q hq
  obtain ⟨hheld, hne⟩ := slot_take.mp hq
  obtain ⟨hslot, hlast⟩ := h k q hheld
  have htick : q.tick ≠ t := fun htick => hne (by rw [← hslot, htick]) htick
  exact ⟨hslot, by rw [Function.update_of_ne htick, hlast]⟩

theorem Keeps.later {next' : ℕ} (h : Keeps last b next) (hle : next ≤ next') :
    Keeps last b next' := by
  intro t c hc
  obtain ⟨htick, hnear, hget⟩ := h t c hc
  exact ⟨htick, by omega, fun ht => hget (hle.trans ht)⟩

/-- No two ticks the ring takes at once share a slot, so a command stored takes no other's. -/
theorem Keeps.insert (h : Keeps last b next) (ht : Timely c next) :
    Keeps (Function.update last c.tick (some c)) (b.insert c next).1 next := by
  obtain ⟨hnext, hnear⟩ := ht
  intro t q hq
  unfold JitterBuffer.insert
  rw [if_pos ⟨hnext, hnear⟩]
  dsimp only
  rw [Function.update_apply] at hq
  split at hq
  · rename_i htick
    cases hq
    exact ⟨htick.symm, htick ▸ hnear, fun _ => htick ▸ Lib.Ring.get_set_self _ _ _⟩
  · rename_i htick
    obtain ⟨hq_tick, hq_near, hget⟩ := h t q hq
    refine ⟨hq_tick, hq_near, fun hle => ?_⟩
    have hslot : t % jitterSlots ≠ c.tick % jitterSlots := by
      unfold jitterSlots at *
      omega
    rw [Lib.Ring.get_set, if_neg hslot]
    exact hget hle

theorem Keeps.take (h : Keeps last b next) (t : ℕ) :
    Keeps (Function.update last t none) (b.take t).1 next := by
  intro t' q hq
  rw [Function.update_apply] at hq
  split at hq
  · cases hq
  · rename_i hne
    obtain ⟨htick, hnear, hget⟩ := h t' q hq
    refine ⟨htick, hnear, fun hle => slot_take.mpr ⟨hget hle, fun _ => ?_⟩⟩
    rw [htick]
    exact hne

theorem take_snd_eq_some : (b.take t).2 = some c ↔ b.cmds.get t = some c ∧ c.tick = t := by
  unfold JitterBuffer.take
  cases b.cmds.get t with
  | none =>
    constructor
    · intro h
      cases h
    · rintro ⟨h, -⟩
      cases h
  | some cmd =>
    dsimp only
    split
    · rename_i htick
      constructor
      · intro h
        cases h
        exact ⟨rfl, htick⟩
      · exact And.left
    · rename_i htick
      constructor
      · intro h
        cases h
      · rintro ⟨h, hc⟩
        cases h
        exact absurd hc htick

theorem Follows.take_snd (h : Follows last b) (hc : (b.take t).2 = some c) :
    c.tick = t ∧ last t = some c := by
  obtain ⟨hget, htick⟩ := take_snd_eq_some.mp hc
  obtain ⟨-, hlast⟩ := h _ c hget
  rw [htick] at hlast
  exact ⟨htick, hlast⟩

/-- Asked for a tick still to come, the ring gives the last stored for it. -/
theorem Keeps.take_snd (h : Follows last b) (hkeeps : Keeps last b t) : (b.take t).2 = last t := by
  cases hlast : last t with
  | none =>
    cases htake : (b.take t).2 with
    | none => rfl
    | some c =>
      obtain ⟨-, hsome⟩ := h.take_snd htake
      rw [hlast] at hsome
      cases hsome
  | some c =>
    obtain ⟨htick, -, hget⟩ := hkeeps t c hlast
    exact take_snd_eq_some.mpr ⟨hget le_rfl, htick⟩

end JitterBuffer

/-! ### Runs of the buffer -/

namespace Words

inductive Call where
  | insert (cmd : Cmd) (next : ℕ)
  | take (tick : ℕ)

/-- A buffer, and for each tick the last command it accepted since it was last asked for the
tick's. -/
structure Account where
  buffer : JitterBuffer
  last : ℕ → Option Cmd

namespace Account

def step (a : Account) : Call → Account
  | .insert cmd next =>
    let (buffer, accepted) := a.buffer.insert cmd next
    { buffer, last := if accepted then Function.update a.last cmd.tick (some cmd) else a.last }
  | .take tick => { buffer := (a.buffer.take tick).1, last := Function.update a.last tick none }

def run (b : JitterBuffer) (calls : List Call) : Account :=
  calls.foldl step ⟨b.clear, fun _ => none⟩

variable {a : Account} {b : JitterBuffer} {cmd : Cmd} {next t : ℕ}

/-- What a command's coming in does: it is turned away, or the ring and the tick's box take it. -/
theorem step_insert (a : Account) (cmd : Cmd) (next : ℕ) :
    Rejects cmd next ∧ a.step (.insert cmd next) = a
      ∨ ¬ Rejects cmd next
        ∧ (a.step (.insert cmd next)).buffer.view = (a.buffer.view.insert cmd next).1
        ∧ (a.step (.insert cmd next)).last = Function.update a.last cmd.tick (some cmd) := by
  by_cases h : Rejects cmd next
  · refine .inl ⟨h, ?_⟩
    have hrejected : a.buffer.insert cmd next = (a.buffer, false) := if_pos h
    simp only [step, hrejected]
    rfl
  · refine .inr ⟨h, JitterBuffer.view_insert h, ?_⟩
    have haccepted : (a.buffer.insert cmd next).2 = true := by
      unfold JitterBuffer.insert
      rw [if_neg h]
    exact if_pos haccepted

def Follows (a : Account) : Prop := a.buffer.view.Follows a.last

def Keeps (a : Account) (next : ℕ) : Prop := a.buffer.view.Keeps a.last next

theorem Follows.step (h : a.Follows) (call : Call) : (a.step call).Follows := by
  cases call with
  | insert cmd next =>
    obtain ⟨-, hstep⟩ | ⟨haccepted, hview, hlast⟩ := a.step_insert cmd next
    · rw [hstep]
      exact h
    · unfold Follows
      rw [hview, hlast]
      exact BeforeColony.JitterBuffer.Follows.insert h (JitterBuffer.timely_of_not_rejects haccepted)
  | take t =>
    unfold Follows
    show ((a.buffer.take t).1.view).Follows _
    rw [(a.buffer.view_take t).1]
    exact BeforeColony.JitterBuffer.Follows.take h t

theorem Keeps.step_insert (h : a.Keeps next) (cmd : Cmd) {n : ℕ} (hle : next ≤ n) :
    (a.step (.insert cmd n)).Keeps n := by
  have hlater : a.Keeps n := BeforeColony.JitterBuffer.Keeps.later h hle
  obtain ⟨-, hstep⟩ | ⟨haccepted, hview, hlast⟩ := a.step_insert cmd n
  · rw [hstep]
    exact hlater
  · unfold Keeps
    rw [hview, hlast]
    exact BeforeColony.JitterBuffer.Keeps.insert hlater (JitterBuffer.timely_of_not_rejects haccepted)

theorem Keeps.step_take (h : a.Keeps next) (t : ℕ) : (a.step (.take t)).Keeps next := by
  unfold Keeps
  show ((a.buffer.take t).1.view).Keeps _ _
  rw [(a.buffer.view_take t).1]
  exact BeforeColony.JitterBuffer.Keeps.take h t

theorem follows_run (b : JitterBuffer) (calls : List Call) : (run b calls).Follows := by
  have hclear : Follows ⟨b.clear, fun _ => none⟩ := by
    unfold Follows
    rw [JitterBuffer.view_clear]
    exact BeforeColony.JitterBuffer.follows_clear _
  exact List.foldlRecOn calls step hclear fun _ h call _ => h.step call

/-- The next ticks the commands came in with. -/
def nexts (calls : List Call) : List ℕ :=
  calls.filterMap fun
    | .insert _ next => some next
    | .take _ => none

/-- Calls whose next ticks never go back leave the ring with all that is still to be asked for. -/
theorem Keeps.foldl {calls : List Call} (h : a.Keeps next) (hle : ∀ n ∈ nexts calls ++ [t], next ≤ n)
    (hnexts : (nexts calls ++ [t]).Pairwise (· ≤ ·)) : (calls.foldl step a).Keeps t := by
  induction calls generalizing a next with
  | nil =>
    have hlast : next ≤ t := hle t List.mem_cons_self
    exact BeforeColony.JitterBuffer.Keeps.later h hlast
  | cons call rest ih =>
    rw [List.foldl_cons]
    cases call with
    | insert cmd n =>
      obtain ⟨hfirst, hrest⟩ := List.pairwise_cons.mp hnexts
      exact ih (h.step_insert cmd (hle n List.mem_cons_self)) hfirst hrest
    | take t' => exact ih (h.step_take t') hle hnexts

/-- A tick that is asked for has its box empty until a command for it is accepted again. -/
theorem last_foldl {calls : List Call} (h : a.last t = none)
    (hcalls : ∀ cmd next, Call.insert cmd next ∈ calls → cmd.tick = t → Rejects cmd next) :
    (calls.foldl step a).last t = none := by
  induction calls generalizing a with
  | nil => exact h
  | cons call rest ih =>
    refine ih ?_ fun cmd next hmem => hcalls cmd next (List.mem_cons_of_mem _ hmem)
    cases call with
    | insert cmd next =>
      obtain ⟨-, hstep⟩ | ⟨haccepted, -, hlast⟩ := a.step_insert cmd next
      · rw [hstep]
        exact h
      · have hne : t ≠ cmd.tick := fun htick =>
          haccepted (hcalls cmd next List.mem_cons_self htick.symm)
        rw [hlast, Function.update_of_ne hne, h]
    | take t' =>
      show Function.update a.last t' none t = none
      rw [Function.update_apply, h, ite_self]

/-- The buffer gives what it accepted last for the tick asked for, until commands come in whose next
tick is past it; for any tick it gives that or nothing, and the same never again. -/
theorem own_command_once (b : JitterBuffer) (calls : List Call) (t : ℕ) :
    (∀ c, ((run b calls).buffer.take t).2 = some c → c.tick = t ∧ (run b calls).last t = some c)
      ∧ ((nexts calls ++ [t]).Pairwise (· ≤ ·) →
        ((run b calls).buffer.take t).2 = (run b calls).last t)
      ∧ ∀ later, (∀ cmd next, Call.insert cmd next ∈ later → cmd.tick = t → Rejects cmd next) →
        ((run b (calls ++ .take t :: later)).buffer.take t).2 = none := by
  have hfollows := follows_run b calls
  refine ⟨fun c hc => ?_, fun hnexts => ?_, fun later hlater => ?_⟩
  · rw [(JitterBuffer.view_take _ t).2] at hc
    exact BeforeColony.JitterBuffer.Follows.take_snd hfollows hc
  · have hstart : Keeps ⟨b.clear, fun _ => none⟩ 0 := BeforeColony.JitterBuffer.keeps_clear _ 0
    have hkeeps := hstart.foldl (fun n _ => Nat.zero_le n) hnexts
    rw [(JitterBuffer.view_take _ t).2]
    exact BeforeColony.JitterBuffer.Keeps.take_snd hfollows hkeeps
  · have hlast : (run b (calls ++ .take t :: later)).last t = none := by
      unfold run
      rw [List.foldl_append, List.foldl_cons]
      exact last_foldl (Function.update_self _ _ _) hlater
    cases htake : ((run b (calls ++ .take t :: later)).buffer.take t).2 with
    | none => rfl
    | some c =>
      rw [(JitterBuffer.view_take _ t).2] at htake
      obtain ⟨-, hsome⟩ :=
        BeforeColony.JitterBuffer.Follows.take_snd (follows_run b _) htake
      rw [hlast] at hsome
      cases hsome

/-- Two commands for one tick, one too late and one too far off; then, past the tick, the first of
them again and one a lap later, in its slot. -/
theorem own_command_once_laps :
    let first : Cmd := { tick := 5, shotSeq := 1 }
    let second : Cmd := { tick := 5, shotSeq := 2 }
    let lap : Cmd := { tick := 69 }
    let calls : List Call :=
      [.insert first 3, .insert { tick := 1 } 3, .insert { tick := 70 } 3, .insert second 4, .take 4]
    let later : List Call := [.insert first 6, .insert lap 8]
    ((run .empty calls).buffer.take 5).2 = some second
      ∧ second.tick = 5 ∧ (run .empty calls).last 5 = some second
      ∧ ((run .empty (calls ++ .take 5 :: later)).buffer.take 5).2 = none
      ∧ (run .empty (calls ++ .take 5 :: later)).buffer.held (slotOf 5) = some lap := by
  intro first second lap calls later
  obtain ⟨hown, hlast, honce⟩ := own_command_once .empty calls 5
  have htake : ((run .empty calls).buffer.take 5).2 = some second := (hlast (by decide)).trans rfl
  obtain ⟨htick, hsome⟩ := hown second htake
  refine ⟨htake, htick, hsome, honce later ?_, by decide⟩
  intro cmd next hmem htick
  have hcases : Call.insert cmd next = .insert first 6 ∨ Call.insert cmd next = .insert lap 8 := by
    simpa [later] using hmem
  cases hcases with
  | inl h =>
    cases h
    decide
  | inr h =>
    cases h
    cases htick

end Account

end Words

end BeforeColony
