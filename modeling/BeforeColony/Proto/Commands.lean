import BeforeColony.Proto.Layouts
import BeforeColony.Proto.Quant
import BeforeColony.Proto.StandIn

/-!
# Commands written and read

A client flies each command as the wire will have it, so the server flies the same one: what is
decoded of a packet is what was quantised, and quantising that changes nothing. Whatever a client
sends, its newest commands come back with their ticks and its acks.
-/

set_option autoImplicit false

namespace BeforeColony

open Lib
open Quant (Lengths quantizeCentered dequantizeCentered dirCode dirFromCode)

def lockonVelMax : ℚ := 2048

/-- The fields of what may be there, after a bit that says whether it is. -/
def ifFields {α : Type} (fields : α → List Field) (o : Option α) : List Field :=
  .flag o.isSome :: o.elim [] fields

def byteField (c : ℤ) : Field := ⟨BitString.unsigned 8 c, 8⟩

namespace LockOn

def fields (l : LockOn) : List Field :=
  Field.array (.i32 · lockonVelBits) l.refVel ++ dirFields lockonUpBits l.up

end LockOn

namespace FootAct

def fields (a : FootAct) : List Field := [⟨a.kind, 8⟩, ⟨a.arg, 16⟩]

end FootAct

namespace InputCmd

/-- How far behind its tick a command's view is, as far as can be said. -/
def delta (c : InputCmd) : ℕ := min (c.tick * 16 % 2 ^ 32 - c.viewTickQ4) (2 ^ viewDeltaBits - 1)

def bodyFields (c : InputCmd) : List Field :=
  ⟨c.delta, viewDeltaBits⟩ :: dirFields aimBits c.aim ++ Field.array byteField c.thrust
    ++ [byteField c.roll, ⟨c.buttons, buttonsBits⟩, ⟨min c.lockTarget noSlot, slotBits⟩,
      ⟨c.shotSeq, 8⟩]
    ++ ifFields LockOn.fields c.lockon
    ++ ifFields (fun range => [⟨range, 16⟩]) (if c.converge = 0 then none else some c.converge)
    ++ ifFields FootAct.fields c.act

/-- The command that is read of a command's fields. -/
def sent (c : InputCmd) : InputCmd :=
  { c with
    viewTickQ4 := c.tick * 16 % 2 ^ 32 - c.delta
    lockTarget := min c.lockTarget noSlot }

end InputCmd

namespace InputPacket

/-- The commands a packet says it has, one at least and as many as there is room for. -/
def countSent (p : InputPacket) : ℕ := max 1 (min p.count maxCmds)

def cmdsSent (p : InputPacket) : List InputCmd := (List.ofFn p.cmds).take p.countSent

def newest (p : InputPacket) : ℕ := (p.cmds ⟨0, by decide⟩).tick

def fields (p : InputPacket) : List Field :=
  [⟨packetInput, packetKindBits⟩, ⟨p.ackStream, 8⟩, ⟨p.ackSeq, 16⟩, ⟨p.ackBits, 32⟩,
    ⟨p.clientTimeMs, 16⟩, ⟨p.countSent - 1, 2⟩, ⟨p.newest, 32⟩]
    ++ p.cmdsSent.flatMap InputCmd.bodyFields

/-- The bytes of a packet written into a buffer, if it fits. -/
def encode (p : InputPacket) (buf : List UInt8) : Option (List UInt8) :=
  let w := (Words.BitWriter.new buf).put p.fields
  if w.overflow then none else some w.written

end InputPacket

/-! ## What is read of what was written -/

theorem reads_if {α : Type} {rd : Read α} {fields : α → List Field} {o : Option α}
    (h : ∀ a, o = some a → Reads rd (Field.all (fields a)) a) :
    Reads (readIf rd) (Field.all (ifFields fields o)) o := by
  refine (Reads.bool o.isSome).bind ?_
  cases o with
  | none => exact Reads.pure none
  | some a => exact (h a rfl).map rfl

theorem reads_byte {c : ℤ} (h : -2 ^ 7 ≤ c ∧ c < 2 ^ 7) : Reads (readI32 8) (byteField c).bits c := by
  refine (Reads.field (BitString.unsigned_lt 8 c)).map ?_
  rw [BitString.signed_unsigned (by decide) h.1 h.2]

theorem LockOn.reads {l : LockOn} (h : l.InRange) : Reads read (Field.all l.fields) l := by
  rw [fields, Field.all_append, Field.all_array]
  have hvel : Reads (readArray (readI32 lockonVelBits) 3)
      ((List.ofFn l.refVel).flatMap fun c => (Field.i32 c lockonVelBits).bits) l.refVel :=
    Reads.array fun k => Reads.i32 (by decide) (by decide) (h.refVel k).1 (h.refVel k).2
  exact hvel.bind ((reads_dirFields h.up).map rfl)

theorem FootAct.reads {a : FootAct} (h : a.InRange) : Reads read (Field.all a.fields) a :=
  (Reads.field h.kind).bind ((Reads.field h.arg).bind (Reads.pure _))

namespace InputCmd

/-- A command's numbers are of their types. -/
structure Typed (c : InputCmd) : Prop where
  aim : ∀ k, c.aim k < 2 ^ aimBits
  thrust : ∀ k, -2 ^ 7 ≤ c.thrust k ∧ c.thrust k < 2 ^ 7
  roll : -2 ^ 7 ≤ c.roll ∧ c.roll < 2 ^ 7
  buttons : c.buttons < 2 ^ buttonsBits
  shotSeq : c.shotSeq < 2 ^ 8
  lockon : ∀ l, c.lockon = some l → l.InRange
  converge : c.converge < 2 ^ 16
  act : ∀ a, c.act = some a → a.InRange

theorem reads_body {c : InputCmd} (h : c.Typed) :
    Reads (readBody c.tick) (Field.all c.bodyFields) c.sent := by
  have hdelta : c.delta < 2 ^ viewDeltaBits := (min_le_right _ _).trans_lt (by decide)
  have htarget : min c.lockTarget noSlot < 2 ^ slotBits := (min_le_right _ _).trans_lt (by decide)
  have hthrust : Reads (readArray (readI32 8) 3) (Field.all (Field.array byteField c.thrust))
      c.thrust := by
    rw [Field.all_array]
    exact Reads.array fun k => reads_byte (h.thrust k)
  have hconverge : Reads (readIf (readBits 16)) (Field.all (ifFields (fun range => [⟨range, 16⟩])
      (if c.converge = 0 then none else some c.converge)))
      (if c.converge = 0 then none else some c.converge) := by
    refine reads_if fun range hrange => ?_
    split at hrange
    · cases hrange
    · cases hrange
      simpa using Reads.field h.converge
  simp only [bodyFields, List.cons_append, List.nil_append, List.append_assoc, Field.all_cons,
    Field.all_append]
  refine (Reads.field hdelta).bind ((reads_dirFields h.aim).bind (hthrust.bind ?_))
  refine (reads_byte h.roll).bind ((Reads.field h.buttons).bind ((Reads.field htarget).bind ?_))
  refine (Reads.field h.shotSeq).bind ((reads_if fun l hl => LockOn.reads (h.lockon l hl)).bind ?_)
  refine hconverge.bind ((reads_if fun a ha => FootAct.reads (h.act a ha)).map ?_)
  have hrange : (if c.converge = 0 then none else some c.converge).getD 0 = c.converge := by
    split
    next hz => exact hz.symm
    next => rfl
  simp only [hrange]
  rfl

end InputCmd

section

variable {α : Type} {fields : α → List Field}

theorem width_le {f : Field} (h : f.width.ble 32 = true) : f.width ≤ 32 := Nat.le_of_ble_eq_true h

theorem narrow_if (h : ∀ a, Field.Narrow (fields a)) (o : Option α) :
    Field.Narrow (ifFields fields o) := by
  refine Field.Narrow.cons (width_le rfl) ?_
  cases o with
  | none => exact Field.narrow_nil
  | some a => exact h a

theorem widths_if {n : ℕ} (h : ∀ a, Field.widths (fields a) ≤ n) (o : Option α) :
    Field.widths (ifFields fields o) ≤ 1 + n := by
  rw [ifFields, Field.widths_cons]
  cases o with
  | none => exact Nat.add_le_add_left (Nat.zero_le n) 1
  | some a => exact Nat.add_le_add_left (h a) 1

end

namespace InputCmd

theorem narrow_body (c : InputCmd) : Field.Narrow c.bodyFields := by
  have hsingle (f : Field) (hf : f.width.ble 32 = true) : Field.Narrow [f] :=
    .cons (width_le hf) Field.narrow_nil
  refine Field.Narrow.append (.append (.append (.append (.append ?aim ?thrust) ?plain) ?lockon)
    ?converge) ?act
  case aim => exact .cons (width_le rfl) (Field.narrow_array _ fun _ => width_le rfl)
  case thrust => exact Field.narrow_array _ fun _ => width_le rfl
  case plain =>
    exact .cons (width_le rfl) (.cons (width_le rfl) (.cons (width_le rfl) (hsingle _ rfl)))
  case lockon =>
    refine narrow_if (fun l => ?_) _
    exact (Field.narrow_array _ fun _ => width_le rfl).append (Field.narrow_array _ fun _ => width_le rfl)
  case converge => exact narrow_if (fun range => hsingle _ rfl) _
  case act => exact narrow_if (fun a => .cons (width_le rfl) (hsingle _ rfl)) _

theorem widths_body (c : InputCmd) : Field.widths c.bodyFields ≤ 211 := by
  have hlockon : Field.widths (ifFields LockOn.fields c.lockon) ≤ 1 + 62 := by
    refine widths_if (fun l => ?_) _
    have hvel : Field.widths (Field.array (.i32 · lockonVelBits) l.refVel) = 3 * lockonVelBits :=
      Field.widths_array l.refVel fun _ => rfl
    rw [LockOn.fields, Field.widths_append, widths_dirFields, hvel]
    decide
  have hconverge : Field.widths (ifFields (fun range => [(⟨range, 16⟩ : Field)])
      (if c.converge = 0 then none else some c.converge)) ≤ 1 + 16 :=
    widths_if (fun _ => Nat.le_of_ble_eq_true rfl) _
  have hact : Field.widths (ifFields FootAct.fields c.act) ≤ 1 + 24 :=
    widths_if (fun _ => Nat.le_of_ble_eq_true rfl) _
  have hthrust : Field.widths (Field.array byteField c.thrust) = 3 * 8 :=
    Field.widths_array c.thrust fun _ => rfl
  simp only [bodyFields, Field.widths_append, Field.widths_cons, Field.widths_nil, widths_dirFields,
    hthrust, byteField, viewDeltaBits, aimBits, buttonsBits, slotBits]
  omega

end InputCmd

namespace InputPacket

/-- Commands one after the other, their ticks consecutive. -/
theorem reads_cmds {cmds : List InputCmd} {newest i : ℕ}
    (h : ∀ k c, cmds[k]? = some c → c.Typed ∧ c.tick = ticksBack newest (i + k)) :
    Reads (readCmds newest cmds.length i) (Field.all (cmds.flatMap InputCmd.bodyFields))
      (cmds.map InputCmd.sent) := by
  induction cmds generalizing i with
  | nil => exact Reads.pure _
  | cons c rest ih =>
    obtain ⟨htyped, htick⟩ := h 0 c rfl
    have hbody := InputCmd.reads_body htyped
    rw [htick, Nat.add_zero] at hbody
    rw [List.flatMap_cons, Field.all_append]
    refine hbody.bind ((ih fun k d hd => ?_).map rfl)
    obtain ⟨hd', htick'⟩ := h (k + 1) d hd
    exact ⟨hd', by rw [htick', Nat.add_assoc, Nat.add_comm 1 k]⟩

/-- A packet's numbers are of their types, and its commands' ticks consecutive. -/
structure Typed (p : InputPacket) : Prop where
  ackStream : p.ackStream < 2 ^ 8
  ackSeq : p.ackSeq < 2 ^ 16
  ackBits : p.ackBits < 2 ^ 32
  clientTimeMs : p.clientTimeMs < 2 ^ 16
  count : 1 ≤ p.count ∧ p.count ≤ maxCmds
  newest : p.newest < 2 ^ 32
  cmds : ∀ k : Fin maxCmds, k < p.count → (p.cmds k).Typed
  ticks : ∀ k : Fin maxCmds, k < p.count → (p.cmds k).tick = ticksBack p.newest k

/-- What is read of a packet: the commands it counts as they are sent, and idle ones. -/
def received (p : InputPacket) : InputPacket :=
  { p with cmds := fun k => if k < p.count then (p.cmds k).sent else {} }

variable {p : InputPacket}

theorem Typed.countSent (h : p.Typed) : p.countSent = p.count := by
  have hcount := h.count
  unfold InputPacket.countSent
  omega

theorem Typed.cmdsSent_getElem? (h : p.Typed) (k : ℕ) :
    p.cmdsSent[k]? = if hk : k < maxCmds then if k < p.count then some (p.cmds ⟨k, hk⟩) else none
      else none := by
  have hcount := h.count
  rw [cmdsSent, h.countSent, List.getElem?_take]
  split
  next hlt =>
    have hk : k < maxCmds := hlt.trans_le hcount.2
    rw [dif_pos hk, List.getElem?_ofFn, dif_pos hk]
  next hge =>
    split <;> rfl

theorem Typed.reads (h : p.Typed) : Reads read (Field.all p.fields) p.received := by
  have hcount := h.count
  have hlength : p.cmdsSent.length = p.countSent - 1 + 1 := by
    rw [cmdsSent, List.length_take, List.length_ofFn, h.countSent]
    omega
  have hcmds : Reads (readCmds p.newest p.cmdsSent.length 0)
      (Field.all (p.cmdsSent.flatMap InputCmd.bodyFields)) (p.cmdsSent.map InputCmd.sent) := by
    refine reads_cmds fun k c hk => ?_
    rw [h.cmdsSent_getElem?] at hk
    split at hk
    · split at hk
      next hlt =>
        cases hk
        exact ⟨h.cmds _ hlt, by rw [h.ticks _ hlt, Nat.zero_add]⟩
      next => cases hk
    · cases hk
  rw [hlength] at hcmds
  have hfewer : p.countSent - 1 < 2 ^ 2 := by
    rw [h.countSent]
    have hmax : maxCmds = 4 := rfl
    omega
  refine Reads.whole ?_
  simp only [fields, List.cons_append, List.nil_append, Field.all_cons]
  refine (Reads.field (v := packetInput) (by decide)).bind ?_
  rw [if_neg (not_not.mpr rfl)]
  refine (Reads.field h.ackStream).bind ((Reads.field h.ackSeq).bind ?_)
  refine (Reads.field h.ackBits).bind ((Reads.field h.clientTimeMs).bind ?_)
  refine (Reads.field hfewer).bind ((Reads.field h.newest).bind (hcmds.map ?_))
  have hreceived (k : Fin maxCmds) : (p.cmdsSent.map InputCmd.sent)[k.val]?.getD {}
      = if k < p.count then (p.cmds k).sent else {} := by
    rw [List.getElem?_map, h.cmdsSent_getElem?, dif_pos k.isLt]
    split <;> rfl
  have hsame : p.countSent - 1 + 1 = p.count := by
    rw [h.countSent]
    omega
  simp only [received, hreceived, hsame]

theorem narrow_fields (p : InputPacket) : Field.Narrow p.fields := by
  have hcmds : Field.Narrow (p.cmdsSent.flatMap InputCmd.bodyFields) := by
    intro f hf
    obtain ⟨c, -, hfc⟩ := List.mem_flatMap.mp hf
    exact c.narrow_body f hfc
  refine Field.Narrow.append ?_ hcmds
  intro f hf
  simp only [List.mem_cons, List.not_mem_nil, or_false] at hf
  rcases hf with rfl | rfl | rfl | rfl | rfl | rfl | rfl <;> exact width_le rfl

theorem widths_fields (p : InputPacket) : Field.widths p.fields ≤ 954 := by
  have hsum (cmds : List InputCmd) :
      Field.widths (cmds.flatMap InputCmd.bodyFields) ≤ 211 * cmds.length := by
    induction cmds with
    | nil => exact Nat.zero_le _
    | cons c rest ih =>
      have hbody := c.widths_body
      rw [List.flatMap_cons, Field.widths_append, List.length_cons]
      omega
  have hlength : p.cmdsSent.length ≤ 4 := by
    rw [cmdsSent, List.length_take, List.length_ofFn]
    exact min_le_right _ _
  have hcmds := hsum p.cmdsSent
  simp only [fields, Field.widths_append, Field.widths_cons, Field.widths_nil, packetKindBits]
  omega

/-- What is encoded decodes, and a buffer of 120 bytes is enough to encode it. -/
theorem Typed.decode_encode (h : p.Typed) (buf : List UInt8) :
    (∀ bytes, p.encode buf = some bytes → decode bytes = .ok p.received)
      ∧ (120 ≤ buf.length → (p.encode buf).isSome) := by
  have hstart : (Words.BitWriter.new buf).Sound := by
    rw [Words.BitWriter.new_eq]
    exact Words.BitWriter.sound_withLimit _ _
  obtain ⟨hsound, hview⟩ := hstart.put p.narrow_fields
  have hover : ((Words.BitWriter.new buf).put p.fields).overflow
      = decide (buf.length * 8 < Field.widths p.fields) := by
    have hput := BitWriter.put_overflow hstart.view_within p.fields
    rw [← hview] at hput
    rw [show ((Words.BitWriter.new buf).put p.fields).overflow
      = ((Words.BitWriter.new buf).put p.fields).view.overflow from rfl, hput]
    simp [Words.BitWriter.new, Words.BitWriter.view]
  constructor
  · intro bytes hbytes
    rw [encode] at hbytes
    split at hbytes
    · cases hbytes
    next hok =>
      cases hbytes
      rw [hover, decide_eq_true_eq, not_lt] at hok
      have hbits : ((Words.BitWriter.new buf).put p.fields).view.bits = Field.all p.fields := by
        rw [hview, BitWriter.put_eq ⟨rfl, by simpa [Words.BitWriter.new, Words.BitWriter.view] using hok⟩]
        simp [Words.BitWriter.new, Words.BitWriter.view, BitWriter.append]
      rw [decode, BitReader.ofBytes, hsound.zeros, hbits, h.reads]
  · intro hbuf
    have hwidths := p.widths_fields
    rw [encode, if_neg]
    · rfl
    · rw [hover, decide_eq_true_eq, not_lt]
      omega

end InputPacket

/-! ## Commands as the client has them -/

/-- Flying locked on, in metres per second. -/
structure LockFlight where
  refVel : Fin 3 → ℚ
  up : Fin 3 → ℚ
  deriving DecidableEq

/-- One tick of control in the client's own numbers. -/
structure Command where
  tick : ℕ := 0
  /-- In 1/16 ticks. -/
  viewTickQ4 : ℕ := 0
  aim : Fin 3 → ℚ := ![0, 0, 1]
  thrust : Fin 3 → ℤ := fun _ => 0
  roll : ℤ := 0
  buttons : ℕ := 0
  lockTarget : ℕ := noSlot
  shotSeq : ℕ := 0
  lockon : Option LockFlight := none
  converge : ℕ := 0
  act : Option FootAct := none
  deriving DecidableEq

/-- A client's datagram of commands, the newest first. -/
structure CommandPacket where
  ackStream : ℕ
  ackSeq : ℕ
  ackBits : ℕ
  clientTimeMs : ℕ
  count : ℕ
  cmds : Fin maxCmds → Command

/-- A direction after it went over the wire. -/
def quantizeDir (l : Lengths) (n : Fin 3 → ℚ) (bits : ℕ) : Fin 3 → ℚ :=
  dirFromCode l (dirCode n bits) bits

namespace LockFlight

def coded (k : LockFlight) : LockOn where
  refVel i := quantizeCentered (k.refVel i) lockonVelMax lockonVelBits
  up := dirCode k.up lockonUpBits

def ofCodes (l : Lengths) (c : LockOn) : LockFlight where
  refVel i := dequantizeCentered (c.refVel i) lockonVelMax lockonVelBits
  up := dirFromCode l c.up lockonUpBits

def quantized (l : Lengths) (k : LockFlight) : LockFlight where
  refVel i := dequantizeCentered (quantizeCentered (k.refVel i) lockonVelMax lockonVelBits)
    lockonVelMax lockonVelBits
  up := quantizeDir l k.up lockonUpBits

theorem coded_inRange (k : LockFlight) : k.coded.InRange :=
  ⟨fun _ => Quant.quantizeCentered_mem _ _ _, Quant.dirCode_lt _ _⟩

theorem quantized_quantized (l : Lengths) (k : LockFlight) :
    (k.quantized l).quantized l = k.quantized l := by
  have hvel (i : Fin 3) : quantizeCentered (dequantizeCentered (quantizeCentered (k.refVel i)
      lockonVelMax lockonVelBits) lockonVelMax lockonVelBits) lockonVelMax lockonVelBits
        = quantizeCentered (k.refVel i) lockonVelMax lockonVelBits :=
    Quant.quantizeCentered_dequantize (by decide) (by decide) (Quant.abs_quantizeCentered_le _ _ _)
  have hup := Quant.dirCode_settled l k.up (show 0 < lockonUpBits by decide)
  simp only [quantized, quantizeDir, hvel, hup]

end LockFlight

namespace Command

def delta (c : Command) : ℕ := min (c.tick * 16 % 2 ^ 32 - c.viewTickQ4) (2 ^ viewDeltaBits - 1)

/-- The same command after a round trip through the wire format. -/
def quantized (l : Lengths) (c : Command) : Command :=
  { c with
    aim := quantizeDir l c.aim aimBits
    viewTickQ4 := c.tick * 16 % 2 ^ 32 - c.delta
    lockTarget := min c.lockTarget noSlot
    buttons := c.buttons % 2 ^ buttonsBits
    lockon := c.lockon.map (LockFlight.quantized l) }

def coded (c : Command) : InputCmd where
  tick := c.tick
  viewTickQ4 := c.viewTickQ4
  aim := dirCode c.aim aimBits
  thrust := c.thrust
  roll := c.roll
  buttons := c.buttons
  lockTarget := c.lockTarget
  shotSeq := c.shotSeq
  lockon := c.lockon.map LockFlight.coded
  converge := c.converge
  act := c.act

def ofCodes (l : Lengths) (c : InputCmd) : Command where
  tick := c.tick
  viewTickQ4 := c.viewTickQ4
  aim := dirFromCode l c.aim aimBits
  thrust := c.thrust
  roll := c.roll
  buttons := c.buttons
  lockTarget := c.lockTarget
  shotSeq := c.shotSeq
  lockon := c.lockon.map (LockFlight.ofCodes l)
  converge := c.converge
  act := c.act

structure Typed (c : Command) : Prop where
  thrust : ∀ k, -2 ^ 7 ≤ c.thrust k ∧ c.thrust k < 2 ^ 7
  roll : -2 ^ 7 ≤ c.roll ∧ c.roll < 2 ^ 7
  buttons : c.buttons < 2 ^ buttonsBits
  shotSeq : c.shotSeq < 2 ^ 8
  converge : c.converge < 2 ^ 16
  act : ∀ a, c.act = some a → a.InRange

variable {c : Command}

theorem Typed.coded (h : c.Typed) : c.coded.Typed where
  aim := Quant.dirCode_lt _ _
  thrust := h.thrust
  roll := h.roll
  buttons := h.buttons
  shotSeq := h.shotSeq
  lockon := by
    intro k hk
    obtain ⟨lock, -, rfl⟩ := Option.map_eq_some_iff.mp hk
    exact lock.coded_inRange
  converge := h.converge
  act := h.act

/-- What is read of a command is the command quantised. -/
theorem ofCodes_sent (l : Lengths) (h : c.buttons < 2 ^ buttonsBits) :
    ofCodes l c.coded.sent = c.quantized l := by
  have hlock : (c.lockon.map LockFlight.coded).map (LockFlight.ofCodes l) = c.lockon.map (LockFlight.quantized l) := by
    rw [Option.map_map]
    rfl
  simp only [ofCodes, InputCmd.sent, InputCmd.delta, quantized, delta, coded, hlock,
    Nat.mod_eq_of_lt h]
  rfl

theorem quantized_quantized (l : Lengths) (c : Command) :
    (c.quantized l).quantized l = c.quantized l := by
  have haim := Quant.dirCode_settled l c.aim (show 0 < aimBits by decide)
  have hlock : (c.lockon.map (LockFlight.quantized l)).map (LockFlight.quantized l)
      = c.lockon.map (LockFlight.quantized l) := by
    rw [Option.map_map]
    exact congrArg (Option.map · c.lockon) (funext fun k => k.quantized_quantized l)
  have hdelta : (c.quantized l).delta = c.delta := by
    have hle : c.delta ≤ 2 ^ viewDeltaBits - 1 := min_le_right _ _
    have hback : c.delta ≤ c.tick * 16 % 2 ^ 32 := (min_le_left _ _).trans (Nat.sub_le _ _)
    rw [delta, quantized, Nat.sub_sub_self hback, min_eq_left hle]
  have hfields (d : Command) : d.quantized l = { d with
    aim := quantizeDir l d.aim aimBits
    viewTickQ4 := d.tick * 16 % 2 ^ 32 - d.delta
    lockTarget := min d.lockTarget noSlot
    buttons := d.buttons % 2 ^ buttonsBits
    lockon := d.lockon.map (LockFlight.quantized l) } := rfl
  rw [hfields (c.quantized l), hdelta]
  simp only [quantized, quantizeDir, haim, hlock, Nat.mod_mod, min_assoc, min_self]

end Command

namespace CommandPacket

def coded (p : CommandPacket) : InputPacket where
  ackStream := p.ackStream
  ackSeq := p.ackSeq
  ackBits := p.ackBits
  clientTimeMs := p.clientTimeMs
  count := p.count
  cmds k := (p.cmds k).coded

/-- A packet of what its codes stand for, idle commands past its count. -/
def ofCodes (l : Lengths) (p : InputPacket) : CommandPacket where
  ackStream := p.ackStream
  ackSeq := p.ackSeq
  ackBits := p.ackBits
  clientTimeMs := p.clientTimeMs
  count := p.count
  cmds k := if k < p.count then .ofCodes l (p.cmds k) else {}

def encode (p : CommandPacket) : List UInt8 → Option (List UInt8) := p.coded.encode

def decode (l : Lengths) (bytes : List UInt8) : Except DecodeError CommandPacket :=
  (InputPacket.decode bytes).map (ofCodes l)

def newest (p : CommandPacket) : ℕ := (p.cmds ⟨0, by decide⟩).tick

structure Typed (p : CommandPacket) : Prop where
  ackStream : p.ackStream < 2 ^ 8
  ackSeq : p.ackSeq < 2 ^ 16
  ackBits : p.ackBits < 2 ^ 32
  clientTimeMs : p.clientTimeMs < 2 ^ 16
  newest : p.newest < 2 ^ 32
  cmds : ∀ k : Fin maxCmds, k < p.count → (p.cmds k).Typed

/-- A run of commands as a client sends them: some, their ticks consecutive and each as it went over
the wire. -/
structure Run (l : Lengths) (p : CommandPacket) : Prop where
  count : 1 ≤ p.count ∧ p.count ≤ maxCmds
  ticks : ∀ k : Fin maxCmds, k < p.count → (p.cmds k).tick = ticksBack p.newest k
  quantized : ∀ k : Fin maxCmds, k < p.count → (p.cmds k).quantized l = p.cmds k

variable {l : Lengths} {p : CommandPacket}

theorem Typed.coded (h : p.Typed) (hrun : p.Run l) : p.coded.Typed where
  ackStream := h.ackStream
  ackSeq := h.ackSeq
  ackBits := h.ackBits
  clientTimeMs := h.clientTimeMs
  count := hrun.count
  newest := h.newest
  cmds k hk := (h.cmds k hk).coded
  ticks := hrun.ticks

theorem ofCodes_received (h : p.Typed) (hrun : p.Run l) : ofCodes l p.coded.received
    = { p with cmds := fun k => if k < p.count then p.cmds k else {} } := by
  have hcmds (k : Fin maxCmds) : (if k < p.count then
      Command.ofCodes l (if k < p.count then (p.cmds k).coded.sent else {}) else {})
        = if k < p.count then p.cmds k else {} := by
    split
    next hk => rw [Command.ofCodes_sent l (h.cmds k hk).buttons, hrun.quantized k hk]
    next => rfl
  exact congrArg (CommandPacket.mk p.ackStream p.ackSeq p.ackBits p.clientTimeMs p.count)
    (funext hcmds)

end CommandPacket

/-- A stand-in presses no trigger, nothing the command it stands in for didn't, and does nothing
once. -/
theorem Cmd.standIn_harmless (last : Cmd) (tick missing : ℕ) :
    (Cmd.standIn last tick missing).buttons &&& Buttons.fireMask = 0
      ∧ (Cmd.standIn last tick missing).buttons &&& ~~~last.buttons = 0
      ∧ (Cmd.standIn last tick missing).act = none := by
  have hoff (x y : BitVec 16) : x &&& ~~~y &&& y = 0#16 := by
    ext i hi
    simp
  have hold (x y : BitVec 16) : x &&& y &&& ~~~x = 0#16 := by
    ext i hi
    simp only [BitVec.getElem_and, BitVec.getElem_not, BitVec.getElem_zero]
    cases x[i] <;> simp
  unfold Cmd.standIn
  split
  · have hstates : Buttons.states &&& Buttons.fireMask = 0#16 := by decide
    refine ⟨?_, hold _ _, rfl⟩
    simp only [Cmd.neutral, BitVec.and_assoc, hstates]
    exact BitVec.and_zero
  · exact ⟨hoff _ _, hold _ _, rfl⟩

/-- A run of commands as they went over the wire is decoded as it was encoded, with its acks and its
ticks; a command that went over is as it was when it goes again; and what stands in for a command
fires nothing, starts nothing and does nothing. -/
theorem input_packets_round_trip {l : Lengths} {p : CommandPacket} (hp : p.Typed) (hrun : p.Run l)
    (buf : List UInt8) (c : Command) (last : Cmd) (tick missing : ℕ) :
    ((∀ bytes, p.encode buf = some bytes → CommandPacket.decode l bytes
          = .ok { p with cmds := fun k => if k < p.count then p.cmds k else {} })
        ∧ (120 ≤ buf.length → (p.encode buf).isSome))
      ∧ (c.quantized l).quantized l = c.quantized l
      ∧ (Cmd.standIn last tick missing).buttons &&& Buttons.fireMask = 0
      ∧ (Cmd.standIn last tick missing).buttons &&& ~~~last.buttons = 0
      ∧ (Cmd.standIn last tick missing).act = none := by
  obtain ⟨hdecode, hroom⟩ := (hp.coded hrun).decode_encode buf
  refine ⟨⟨?_, hroom⟩, c.quantized_quantized l, Cmd.standIn_harmless last tick missing⟩
  intro bytes hbytes
  rw [CommandPacket.decode, hdecode bytes hbytes, ← CommandPacket.ofCodes_received hp hrun]
  rfl

/-- Locked on, thrusting and firing straight down. -/
def dive (tick : ℕ) : Command :=
  { tick
    viewTickQ4 := tick * 16 - 40
    aim := ![0, 0, -1]
    thrust := fun _ => -127
    buttons := 1
    shotSeq := 7
    lockon := some ⟨fun _ => 0, ![0, 0, -1]⟩
    converge := 800 }

def dives : CommandPacket := ⟨69, 991, 5, 4242, 2, fun k => dive (1000 - k)⟩

theorem input_packets_round_trip_dives :
    ((∀ bytes, dives.encode (List.replicate 128 0) = some bytes → CommandPacket.decode .axial bytes
          = .ok { dives with cmds := fun k => if k < dives.count then dives.cmds k else {} })
        ∧ (120 ≤ (List.replicate 128 (0 : UInt8)).length →
          (dives.encode (List.replicate 128 0)).isSome))
      ∧ ((dive 1000).quantized .axial).quantized .axial = (dive 1000).quantized .axial
      ∧ (Cmd.standIn { buttons := 3 } 5 1).buttons &&& Buttons.fireMask = 0
      ∧ (Cmd.standIn { buttons := 3 } 5 1).buttons &&& ~~~(3 : BitVec 16) = 0
      ∧ (Cmd.standIn { buttons := 3 } 5 1).act = none := by
  have haim : quantizeDir .axial ![0, 0, -1] aimBits = ![0, 0, -1] :=
    funext (by decide +kernel)
  have hup : quantizeDir .axial ![0, 0, -1] lockonUpBits = ![0, 0, -1] :=
    funext (by decide +kernel)
  have hrest : dequantizeCentered (quantizeCentered 0 lockonVelMax lockonVelBits) lockonVelMax
      lockonVelBits = 0 := by decide +kernel
  have hlock : LockFlight.quantized .axial ⟨fun _ => 0, ![0, 0, -1]⟩ = ⟨fun _ => 0, ![0, 0, -1]⟩ := by
    simp only [LockFlight.quantized, hup, hrest]
  have hquantized (t : ℕ) (h : 40 ≤ t * 16) (ht : t * 16 < 2 ^ 32) :
      (dive t).quantized .axial = dive t := by
    have hdelta : (dive t).delta = 40 := by
      rw [Command.delta, dive, Nat.mod_eq_of_lt ht, Nat.sub_sub_self h]
      rfl
    rw [Command.quantized, hdelta]
    simp only [dive, haim, hlock, Nat.mod_eq_of_lt ht, Option.map_some]
    rfl
  have htyped (t : ℕ) : (dive t).Typed :=
    ⟨fun _ => (by decide : -2 ^ 7 ≤ (-127 : ℤ) ∧ (-127 : ℤ) < 2 ^ 7),
      (by decide : -2 ^ 7 ≤ (0 : ℤ) ∧ (0 : ℤ) < 2 ^ 7), (by decide : 1 < 2 ^ buttonsBits),
      (by decide : 7 < 2 ^ 8), (by decide : 800 < 2 ^ 16), by
        intro a ha
        cases ha⟩
  refine input_packets_round_trip (l := .axial) (p := dives)
    ⟨by decide, by decide, by decide, by decide, by decide, fun k _ => htyped _⟩
    ⟨by decide, ?_, ?_⟩ _ (dive 1000) { buttons := 3 } 5 1
  · decide
  · intro k hk
    have hlt : k.val < 2 := hk
    exact hquantized _ (by omega) (by omega)

end BeforeColony
