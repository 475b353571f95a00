import BeforeColony.Proto.Snapshot

/-!
# Commands

A client's datagram: what it has of the server's, and its newest commands, newest first, their ticks
consecutive. Commands past the count it gives are idle ones.
-/

set_option autoImplicit false

namespace BeforeColony

open Lib

def buttonsBits : ℕ := 16
def aimBits : ℕ := 16
def lockonVelBits : ℕ := 14
def lockonUpBits : ℕ := 10
def viewDeltaBits : ℕ := 8
def maxCmds : ℕ := 4

/-- Flying locked on: what velocity is held relative to, and the fight's up. -/
structure LockOn where
  refVel : Fin 3 → ℤ
  up : Fin 2 → ℕ
  deriving DecidableEq

structure FootAct where
  kind : ℕ
  arg : ℕ
  deriving DecidableEq

structure InputCmd where
  tick : ℕ := 0
  /-- In 1/16 ticks. -/
  viewTickQ4 : ℕ := 0
  aim : Fin 2 → ℕ := fun _ => 32768
  thrust : Fin 3 → ℤ := fun _ => 0
  roll : ℤ := 0
  buttons : ℕ := 0
  lockTarget : ℕ := noSlot
  shotSeq : ℕ := 0
  lockon : Option LockOn := none
  converge : ℕ := 0
  act : Option FootAct := none
  deriving DecidableEq

structure InputPacket where
  ackStream : ℕ
  ackSeq : ℕ
  ackBits : ℕ
  clientTimeMs : ℕ
  count : ℕ
  cmds : Fin maxCmds → InputCmd

def readIf {α : Type} (rd : Read α) : Read (Option α) := do
  if ← readBool then
    let a ← rd
    return some a
  else return none

namespace LockOn

def read : Read LockOn := do
  let refVel ← readArray (readI32 lockonVelBits) 3
  let up ← readDir lockonUpBits
  return { refVel, up }

structure InRange (l : LockOn) : Prop where
  refVel : ∀ k, -2 ^ (lockonVelBits - 1) ≤ l.refVel k ∧ l.refVel k < 2 ^ (lockonVelBits - 1)
  up : ∀ k, l.up k < 2 ^ lockonUpBits

end LockOn

namespace FootAct

def read : Read FootAct := do
  let kind ← readBits 8
  let arg ← readBits 16
  return { kind, arg }

structure InRange (a : FootAct) : Prop where
  kind : a.kind < 2 ^ 8
  arg : a.arg < 2 ^ 16

end FootAct

namespace InputCmd

def readBody (tick : ℕ) : Read InputCmd := do
  let delta ← readBits viewDeltaBits
  let aim ← readDir aimBits
  let thrust ← readArray (readI32 8) 3
  let roll ← readI32 8
  let buttons ← readBits buttonsBits
  let lockTarget ← readBits slotBits
  let shotSeq ← readBits 8
  let lockon ← readIf LockOn.read
  let converge ← readIf (readBits 16)
  let act ← readIf FootAct.read
  return {
    tick, aim, thrust, roll, buttons, lockTarget, shotSeq, lockon, act
    viewTickQ4 := tick * 16 % 2 ^ 32 - delta
    converge := converge.getD 0 }

/-- Codes in their bits. -/
structure InRange (c : InputCmd) : Prop where
  tick : c.tick < 2 ^ 32
  viewTickQ4 : c.viewTickQ4 < 2 ^ 32
  aim : ∀ k, c.aim k < 2 ^ aimBits
  thrust : ∀ k, -2 ^ 7 ≤ c.thrust k ∧ c.thrust k < 2 ^ 7
  roll : -2 ^ 7 ≤ c.roll ∧ c.roll < 2 ^ 7
  buttons : c.buttons < 2 ^ buttonsBits
  lockTarget : c.lockTarget < 2 ^ slotBits
  shotSeq : c.shotSeq < 2 ^ 8
  lockon : ∀ l, c.lockon = some l → l.InRange
  converge : c.converge < 2 ^ 16
  act : ∀ a, c.act = some a → a.InRange

end InputCmd

namespace InputPacket

/-- Reads commands, from `i` ticks before the newest on. -/
def readCmds (newest : ℕ) : (n i : ℕ) → Read (List InputCmd)
  | 0, _ => return []
  | n + 1, i => do
    let cmd ← InputCmd.readBody (ticksBack newest i)
    let rest ← readCmds newest n (i + 1)
    return cmd :: rest

def read : Read InputPacket := whole do
  let kind ← readBits packetKindBits
  if kind ≠ packetInput then throw .wrongKind
  else
    let ackStream ← readBits 8
    let ackSeq ← readBits 16
    let ackBits ← readBits 32
    let clientTimeMs ← readBits 16
    let fewer ← readBits 2
    let newest ← readBits 32
    let cmds ← readCmds newest (fewer + 1) 0
    return {
      ackStream, ackSeq, ackBits, clientTimeMs
      count := fewer + 1
      cmds := fun k => cmds[k.val]?.getD {} }

def decode (bytes : List UInt8) : Except DecodeError InputPacket := (read (.ofBytes bytes)).1

/-- As many commands as there is room for, their ticks consecutive, and codes in their bits. -/
structure InRange (p : InputPacket) : Prop where
  ackStream : p.ackStream < 2 ^ 8
  ackSeq : p.ackSeq < 2 ^ 16
  ackBits : p.ackBits < 2 ^ 32
  clientTimeMs : p.clientTimeMs < 2 ^ 16
  count : 1 ≤ p.count ∧ p.count ≤ maxCmds
  cmds : ∀ k, (p.cmds k).InRange
  ticks : ∀ k : Fin maxCmds, k < p.count →
    (p.cmds k).tick = ticksBack (p.cmds ⟨0, by decide⟩).tick k

end InputPacket

/-! ## Whatever the bytes are -/

section

variable {α : Type} {P : α → Prop} {rd : Read α}

theorem safe_if (h : Safe rd P) : Safe (readIf rd) fun o => ∀ a, o = some a → P a := by
  refine .bind .bool fun there _ => ?_
  split
  · refine h.map fun a ha => ?_
    rintro _ ⟨⟩
    exact ha
  · exact .pure nofun

end

theorem LockOn.safe_read : Safe read InRange :=
  .bind ((Safe.i32 (by decide) (by decide)).array 3) fun _ hvel =>
    (safe_dir (by decide)).map fun _ hup => ⟨hvel, hup⟩

theorem FootAct.safe_read : Safe read InRange :=
  .bind (.bits (by decide)) fun _ hkind => (Safe.bits (by decide)).map fun _ harg => ⟨hkind, harg⟩

namespace InputCmd

theorem inRange_idle : InRange {} := by
  constructor
  case lockon =>
    intro l hl
    cases hl
  case act =>
    intro a ha
    cases ha
  all_goals decide

theorem safe_body {tick : ℕ} (htick : tick < 2 ^ 32) :
    Safe (readBody tick) fun c => c.InRange ∧ c.tick = tick := by
  refine .bind (.bits (by decide)) fun delta _ => ?_
  refine .bind (safe_dir (by decide)) fun aim haim => ?_
  refine .bind ((Safe.i32 (by decide) (by decide)).array 3) fun thrust hthrust => ?_
  refine .bind (.i32 (by decide) (by decide)) fun roll hroll => ?_
  refine .bind (.bits (by decide)) fun buttons hbuttons => ?_
  refine .bind (.bits (by decide)) fun lockTarget htarget => ?_
  refine .bind (.bits (by decide)) fun shotSeq hseq => ?_
  refine .bind (safe_if LockOn.safe_read) fun lockon hlockon => ?_
  refine .bind (safe_if (.bits (by decide))) fun converge hconverge => ?_
  refine (safe_if FootAct.safe_read).map fun act hact => ⟨?_, rfl⟩
  refine ⟨htick, ?_, haim, hthrust, hroll, hbuttons, htarget, hseq, hlockon, ?_, hact⟩
  · exact (Nat.sub_le _ _).trans_lt (Nat.mod_lt _ (by decide))
  · cases converge with
    | none => exact Nat.two_pow_pos 16
    | some range => exact hconverge range rfl

end InputCmd

namespace InputPacket

theorem safe_cmds {newest : ℕ} (hnewest : newest < 2 ^ 32) (n i : ℕ) :
    Safe (readCmds newest n i) fun cmds => cmds.length = n
      ∧ ∀ k c, cmds[k]? = some c → c.InRange ∧ c.tick = ticksBack newest (i + k) := by
  induction n generalizing i with
  | zero => exact .pure ⟨rfl, nofun⟩
  | succ n ih =>
    refine .bind (InputCmd.safe_body (ticksBack_lt hnewest)) fun cmd hcmd => ?_
    refine (ih (i + 1)).map fun rest hrest => ⟨congrArg (· + 1) hrest.1, ?_⟩
    intro k c hk
    cases k with
    | zero =>
      cases hk
      exact hcmd
    | succ k =>
      obtain ⟨hc, htick⟩ := hrest.2 k c hk
      exact ⟨hc, by rw [htick, Nat.add_assoc, Nat.add_comm 1 k]⟩

theorem safe_read : Safe read InRange := by
  refine .whole (.bind (.bits (by decide)) fun kind _ => ?_)
  split
  · exact .fail nofun
  · refine .bind (.bits (by decide)) fun ackStream hstream => ?_
    refine .bind (.bits (by decide)) fun ackSeq hseq => ?_
    refine .bind (.bits (by decide)) fun ackBits hbits => ?_
    refine .bind (.bits (by decide)) fun clientTimeMs htime => ?_
    refine .bind (.bits (by decide)) fun fewer hfewer => ?_
    refine .bind (.bits (by decide)) fun newest hnewest => ?_
    refine (safe_cmds hnewest (fewer + 1) 0).map fun cmds hcmds => ?_
    obtain ⟨hlength, hget⟩ := hcmds
    have hat (k : ℕ) (hk : k < fewer + 1) : ∃ c, cmds[k]? = some c ∧ c.InRange
        ∧ c.tick = ticksBack newest k := by
      have hlt : k < cmds.length := hlength ▸ hk
      obtain ⟨hc, htick⟩ := hget k cmds[k] (List.getElem?_eq_getElem hlt)
      rw [Nat.zero_add] at htick
      exact ⟨cmds[k], List.getElem?_eq_getElem hlt, hc, htick⟩
    refine ⟨hstream, hseq, hbits, htime, ⟨Nat.succ_pos fewer, hfewer⟩, fun k => ?_, fun k hk => ?_⟩
    · dsimp only
      cases hcmd : cmds[k.val]? with
      | none => exact InputCmd.inRange_idle
      | some c => exact (hget k c hcmd).1
    · obtain ⟨c, hc, -, htick⟩ := hat k hk
      obtain ⟨c₀, hc₀, -, htick₀⟩ := hat 0 (Nat.succ_pos fewer)
      have hzero : ticksBack newest 0 = newest := if_pos (Nat.zero_le newest)
      simp only [hc, hc₀, Option.getD_some, htick, htick₀, hzero]

end InputPacket

end BeforeColony
