import BeforeColony.Lib.Bytes
import BeforeColony.Lib.Framing
import BeforeColony.Proto.Types

/-!
# The control stream

The reliable stream of a session: frames of a 16-bit length, a tag, and what the tag says. Most
carry a message of the handshake; a hangar frame carries JSON, and a pass frame a pass.
-/

set_option autoImplicit false

namespace BeforeColony

open Lib

def protocolVersion : UInt16 := 44

def maxName : ℕ := 16
/-- Largest control frame, its length included. -/
def maxFrame : ℕ := 256
def hangarTag : UInt8 := 11
def passTag : UInt8 := 13
def maxPass : ℕ := 1024
def nonceBytes : ℕ := 32
def tokenBytes : ℕ := 32
def maxDomain : ℕ := 64
def solanaKeyBytes : ℕ := 32

def helloResume : UInt8 := (1 : UInt8) <<< 1

abbrev Block (n : ℕ) := { l : List UInt8 // l.length = n }

def Block.zero (n : ℕ) : Block n := ⟨List.replicate n 0, List.length_replicate⟩

def isControl (c : Char) : Bool := c.toNat < 0x20 || (0x7F ≤ c.toNat && c.toNat < 0xA0)

@[ext] structure Name where
  text : List Char
  shown : ∀ c ∈ text, isControl c = false
  short : (Bytes.utf8 text).length ≤ maxName
  deriving DecidableEq

namespace Name

/-- The characters of a text that fit behind `len` bytes. -/
def fit : ℕ → List Char → List Char
  | _, [] => []
  | len, c :: rest =>
    let after := len + (String.utf8EncodeChar c).length
    if after > maxName then [] else c :: fit after rest

theorem fit_begins (len : ℕ) (text : List Char) : fit len text <+: text := by
  induction text generalizing len with
  | nil => exact List.prefix_rfl
  | cons c rest ih =>
    unfold fit
    dsimp only
    split
    · exact List.nil_prefix
    · exact (List.prefix_cons_inj c).mpr (ih _)

theorem length_utf8_cons (c : Char) (text : List Char) :
    (Bytes.utf8 (c :: text)).length
      = (String.utf8EncodeChar c).length + (Bytes.utf8 text).length := by
  rw [Bytes.utf8, List.flatMap_cons, List.length_append]
  rfl

theorem fit_short {len : ℕ} (h : len ≤ maxName) (text : List Char) :
    len + (Bytes.utf8 (fit len text)).length ≤ maxName := by
  induction text generalizing len with
  | nil => exact h
  | cons c rest ih =>
    unfold fit
    dsimp only
    split
    · exact h
    · rename_i hfits
      have hrest := ih (not_lt.mp hfits)
      rw [length_utf8_cons]
      omega

theorem fit_all {len : ℕ} {text : List Char} (h : len + (Bytes.utf8 text).length ≤ maxName) :
    fit len text = text := by
  induction text generalizing len with
  | nil => rfl
  | cons c rest ih =>
    rw [length_utf8_cons] at h
    unfold fit
    dsimp only
    rw [if_neg (by omega), ih (by omega)]

/-- Drops control characters, and what doesn't fit. -/
def new (s : List Char) : Name where
  text := fit 0 (s.filter fun c => !isControl c)
  shown c hc := by
    have hmem := (fit_begins _ _).subset hc
    simpa using (List.mem_filter.mp hmem).2
  short := by
    have hshort := fit_short (Nat.zero_le maxName) (s.filter fun c => !isControl c)
    omega

@[simp] theorem new_text (n : Name) : new n.text = n := by
  have hall : n.text.filter (fun c => !isControl c) = n.text := by
    refine List.filter_eq_self.mpr fun c hc => ?_
    rw [n.shown c hc]
    rfl
  have hfit : fit 0 n.text = n.text := fit_all (by rw [Nat.zero_add]; exact n.short)
  exact Name.ext ((congrArg (fit 0) hall).trans hfit)

end Name

inductive RejectReason where
  | versionMismatch | serverFull | badHello | frameNotAllowed | authFailed | authRequired
  | resumeExpired | authTimeout
  deriving DecidableEq

namespace RejectReason

def index : RejectReason → ℕ
  | versionMismatch => 1 | serverFull => 2 | badHello => 3 | frameNotAllowed => 4
  | authFailed => 5 | authRequired => 6 | resumeExpired => 7 | authTimeout => 8

def fromU8 : ℕ → RejectReason
  | 1 => versionMismatch
  | 2 => serverFull
  | 4 => frameNotAllowed
  | 5 => authFailed
  | 6 => authRequired
  | 7 => resumeExpired
  | 8 => authTimeout
  | _ => badHello

@[simp] theorem fromU8_index (r : RejectReason) : fromU8 r.index = r := by
  cases r <;> rfl

theorem index_lt (r : RejectReason) : r.index < 256 := by
  cases r <;> decide

end RejectReason

def isAsciiGraphic (b : UInt8) : Bool := 0x21 ≤ b && b ≤ 0x7E

/-- The server's name as pages see it: printable ASCII. -/
@[ext] structure Domain where
  bytes : List UInt8
  graphic : ∀ b ∈ bytes, isAsciiGraphic b = true
  short : bytes.length ≤ maxDomain
  deriving DecidableEq

namespace Domain

/-- Keeps printable ASCII, as much as fits. -/
def new (s : List UInt8) : Domain where
  bytes := (s.filter isAsciiGraphic).take maxDomain
  graphic b hb := (List.mem_filter.mp (List.mem_of_mem_take hb)).2
  short := by
    rw [List.length_take]
    exact min_le_left _ _

@[simp] theorem new_bytes (d : Domain) : new d.bytes = d := by
  have hall : d.bytes.filter isAsciiGraphic = d.bytes := List.filter_eq_self.mpr d.graphic
  exact Domain.ext ((congrArg (List.take maxDomain) hall).trans (List.take_of_length_le d.short))

end Domain

inductive ControlMsg where
  /-- First frame, from the client. `resume` is its token when the flags say it has one. -/
  | hello (version : UInt16) (pilot : PilotKind) (frame : FrameId) (faction : Faction)
    (name : Name) (flags : UInt8) (resume : Block tokenBytes)
  | welcome (version clientSlot : UInt16) (tick : UInt32) (tickHz sector : UInt8)
    (orreryAllowed : Bool) (maxDatagram : UInt16) (fieldSeed : UInt32) (fieldRocks : UInt16)
    (flags landmarks : UInt8) (faction : Faction)
  | reject (reason : RejectReason)
  | roster (slot : UInt16) (pilot : PilotKind) (name : Name) (flags : UInt8)
  | respawn (frame : FrameId)
  | bye (reason : UInt8)
  | challenge (nonce : Block nonceBytes) (issuedAt : UInt64) (domain : Domain)
  | auth (address : Block 20) (signature : Block 65)
  | authSolana (key : Block solanaKeyBytes) (signature : Block 64)
  | token (token : Block tokenBytes)
  | notice (code : UInt8) (name : Name)
  deriving DecidableEq

/-! ## Reading -/

abbrev Reader := StateT (List UInt8) (Except DecodeError)

namespace Reader

def take (n : ℕ) : Reader (Block n) := fun l =>
  if h : n ≤ l.length then
    .ok (⟨l.take n, by rw [List.length_take, min_eq_left h]⟩, l.drop n)
  else .error .truncated

/-- A little-endian word of so many bytes. -/
def word (n : ℕ) : Reader ℕ := do
  let b ← take n
  return Bytes.fromLeBytes b.val

def u8 : Reader UInt8 := return .ofNat (← word 1)

def u16 : Reader UInt16 := return .ofNat (← word 2)

def u32 : Reader UInt32 := return .ofNat (← word 4)

def u64 : Reader UInt64 := return .ofNat (← word 8)

def orInvalid {α : Type} : Option α → Reader α
  | some a => return a
  | none => throw .invalid

def name : Reader Name := do
  let len := (← u8).toNat
  if len > maxName then throw .invalid
  else
    let raw ← take len
    let s ← orInvalid (Bytes.ofUtf8? raw.val)
    return Name.new s

def frame : Reader FrameId := do
  orInvalid (FrameId.fromBits (← u8).toNat)

end Reader

namespace ControlMsg

open Reader

/-- Reads a message, its tag first. Of a Hello of another protocol only the version is read. -/
def read : Reader ControlMsg := do
  match (← u8).toNat with
  | 1 =>
    let version ← u16
    if version = protocolVersion then
      let pilot := PilotKind.fromBits (← u8).toNat
      let frame ← frame
      let faction := Faction.fromBits (← u8).toNat
      let name ← name
      let flags ← u8
      let resume ← if flags &&& helloResume ≠ 0 then take tokenBytes else pure (Block.zero _)
      return hello version pilot frame faction name flags resume
    else return hello version .human .argo .almagest (Name.new []) 0 (Block.zero _)
  | 2 =>
    let version ← u16
    let clientSlot ← u16
    let tick ← u32
    let tickHz ← u8
    let sector ← u8
    let orreryAllowed := (← u8) ≠ 0
    let maxDatagram ← u16
    let fieldSeed ← u32
    let fieldRocks ← u16
    let flags ← u8
    let landmarks ← u8
    let faction := Faction.fromBits (← u8).toNat
    return welcome version clientSlot tick tickHz sector orreryAllowed maxDatagram fieldSeed
      fieldRocks flags landmarks faction
  | 3 => return reject (RejectReason.fromU8 (← u8).toNat)
  | 4 =>
    let slot ← u16
    let pilot := PilotKind.fromBits (← u8).toNat
    let name ← name
    let flags ← u8
    return roster slot pilot name flags
  | 5 => return respawn (← frame)
  | 6 => return bye (← u8)
  | 7 =>
    let nonce ← take nonceBytes
    let issuedAt ← u64
    let len := (← u8).toNat
    if len > maxDomain then throw .invalid
    else
      let raw ← take len
      let _ ← orInvalid (Bytes.ofUtf8? raw.val)
      return challenge nonce issuedAt (Domain.new raw.val)
  | 8 =>
    let address ← take 20
    let signature ← take 65
    return auth address signature
  | 12 =>
    let key ← take solanaKeyBytes
    let signature ← take 64
    return authSolana key signature
  | 9 => return token (← take tokenBytes)
  | 10 =>
    let code ← u8
    let name ← name
    return notice code name
  | _ => throw .wrongKind

end ControlMsg

/-! ## Frames -/

/-- Decoding that takes slices of a buffer; `none` where one would be out of bounds. -/
abbrev Slicing := ExceptT DecodeError Option

namespace Slicing

def oob {α : Type} : Slicing α := ExceptT.mk none

def slice (buf : List UInt8) (i j : ℕ) : Slicing (List UInt8) :=
  if i ≤ j ∧ j ≤ buf.length then pure ((buf.take j).drop i) else oob

def get (buf : List UInt8) (i : ℕ) : Slicing UInt8 :=
  match buf[i]? with
  | some b => pure b
  | none => oob

/-- The length a frame says it has, behind the length itself. -/
def payload (buf : List UInt8) : Slicing ℕ := do
  let low ← get buf 0
  let high ← get buf 1
  return Bytes.fromLeBytes [low, high]

end Slicing

inductive Frame where
  | msg (m : ControlMsg)
  | hangar (body : List UInt8)
  | pass (body : List UInt8)
  deriving DecidableEq

/-- The first message of a buffer and how many bytes it took; none if more are needed. -/
def ControlMsg.decode (buf : List UInt8) : Slicing (Option (ControlMsg × ℕ)) := do
  if buf.length < 2 then return none
  else
    let payload ← Slicing.payload buf
    if payload = 0 ∨ payload + 2 > maxFrame then throw .invalid
    else if buf.length < payload + 2 then return none
    else
      let body ← Slicing.slice buf 2 (2 + payload)
      let msg ← liftM (read.run' body)
      return some (msg, payload + 2)

/-- The first frame of a buffer and how many bytes it took; none if more are needed. -/
def Frame.decode (buf : List UInt8) : Slicing (Option (Frame × ℕ)) := do
  if buf.length < 3 then return none
  else
    let tag ← Slicing.get buf 2
    if tag ≠ hangarTag ∧ tag ≠ passTag then
      let m ← ControlMsg.decode buf
      return m.map fun o => (.msg o.1, o.2)
    else
      let payload ← Slicing.payload buf
      if payload = 0 ∨ (tag = passTag ∧ payload > maxPass + 1) then throw .invalid
      else if buf.length < payload + 2 then return none
      else
        let body ← Slicing.slice buf 3 (payload + 2)
        return some (if tag = passTag then .pass body else .hangar body, payload + 2)

end BeforeColony
