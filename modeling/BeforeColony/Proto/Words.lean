import BeforeColony.Lib.Bytes
import BeforeColony.Proto.Bits

/-!
# Bits a word at a time

The writer and the reader over a byte buffer, which store and load whole words. Seen as the bits
written so far and the bits left to read, they are the plain ones, and a writer's bytes are its
bits with zeros up to the last byte's end.
-/

set_option autoImplicit false

namespace BeforeColony

open Lib Lib.BitString Lib.Bytes

/-! ## When fields don't fit -/

namespace BitWriter

variable {w : BitWriter}

theorem writeBits_overflowed (h : w.overflow = true) (value width : ℕ) :
    w.writeBits value width = w := by
  obtain ⟨bits, limit, overflow⟩ := w
  subst h
  simp [writeBits]

theorem put_overflowed (h : w.overflow = true) (fs : List Field) : w.put fs = w := by
  induction fs with
  | nil => rfl
  | cons f rest ih => rw [put, List.foldl_cons, writeBits_overflowed h, ← put, ih]

theorem writeBits_limit (w : BitWriter) (value width : ℕ) :
    (w.writeBits value width).limit = w.limit := by
  unfold writeBits
  split
  · rfl
  · split <;> rfl

theorem writeBits_cases (h : w.overflow = false) (value width : ℕ) :
    w.bits.length + width ≤ w.limit ∧
      w.writeBits value width = w.append (BitString.bits width value) ∨
    0 < width ∧ w.limit < w.bits.length + width ∧
      w.writeBits value width = { w with overflow := true } ∨
    width = 0 ∧ w.writeBits value width = w := by
  by_cases hz : width = 0
  · exact .inr (.inr ⟨hz, by rw [writeBits, if_pos hz]⟩)
  · by_cases hroom : w.limit < w.bits.length + width
    · refine .inr (.inl ⟨Nat.pos_of_ne_zero hz, hroom, ?_⟩)
      rw [writeBits, if_neg hz, if_pos (.inr hroom)]
    · exact .inl ⟨not_lt.mp hroom, writeBits_eq value ⟨h, not_lt.mp hroom⟩⟩

theorem put_overflow (h : w.bits.length ≤ w.limit) (fs : List Field) :
    (w.put fs).overflow = (w.overflow || decide (w.limit < w.bits.length + Field.widths fs)) := by
  induction fs generalizing w with
  | nil => simp [put, h]
  | cons f rest ih =>
    cases hover : w.overflow with
    | true => rw [put_overflowed hover, hover, Bool.true_or]
    | false =>
      rw [put, List.foldl_cons, ← put, Field.widths_cons, Bool.false_or]
      rcases writeBits_cases hover f.value f.width with ⟨hroom, heq⟩ | ⟨-, hroom, heq⟩ | ⟨hz, heq⟩
      · have hlen : (w.append f.bits).bits.length = w.bits.length + f.width := by simp [append]
        have hrest := ih (w := w.append f.bits) (hlen.trans_le hroom)
        rw [heq, ← Nat.add_assoc]
        rw [hlen, show (w.append f.bits).overflow = false from hover, Bool.false_or] at hrest
        exact hrest
      · rw [heq, put_overflowed rfl, eq_comm, decide_eq_true_eq]
        omega
      · rw [heq, ih h, hover, hz, Nat.zero_add, Bool.false_or]

end BitWriter

namespace Packer

structure Reached (p : Packer) (w : BitWriter) (m : ℕ) : Prop where
  few : p.n < 32
  limit : p.w.limit = w.limit
  within : p.w.bits.length ≤ w.limit
  upto : p.w.overflow = false → p.w.bits.length + p.n = w.bits.length + m
  past : p.w.overflow = true → w.overflow = true ∨ w.limit < w.bits.length + m
  sticky : w.overflow = true → p.w.overflow = true

variable {p : Packer} {w : BitWriter} {m : ℕ}

theorem reached_new (h : w.bits.length ≤ w.limit) : (new w).Reached w 0 :=
  ⟨by simp [new], rfl, h, fun _ => rfl, fun hover => .inl hover, fun hover => hover⟩

/-- A packer that lets go of a word of 32 bits. -/
theorem Reached.word {width : ℕ} (h : p.Reached w m) (hw : width ≤ 32) (hfull : 32 ≤ p.n + width)
    (word acc : ℕ) :
    (Packer.mk (p.w.writeBits word 32) acc (p.n + width - 32)).Reached w (m + width) := by
  have hfew := h.few
  have hless : p.n + width - 32 < 32 := by omega
  have hlimit := (BitWriter.writeBits_limit p.w word 32).trans h.limit
  cases hover : p.w.overflow with
  | true =>
    rw [BitWriter.writeBits_overflowed hover] at hlimit ⊢
    refine ⟨hless, hlimit, h.within, ?_, ?_, h.sticky⟩
    · intro hok
      cases hover.symm.trans hok
    · intro _
      exact (h.past hover).imp_right fun hpast => hpast.trans_le (by omega)
  | false =>
    have hat := h.upto hover
    have hroomy := h.limit
    rcases BitWriter.writeBits_cases hover word 32 with
      ⟨hroom, heq⟩ | ⟨-, hroom, heq⟩ | ⟨hzero, -⟩
    · rw [heq] at hlimit ⊢
      refine ⟨hless, hlimit, ?_, ?_, ?_, h.sticky⟩
      · simpa [BitWriter.append, h.limit] using hroom
      · intro _
        simp only [BitWriter.append, List.length_append, BitString.length_bits]
        omega
      · intro hpast
        cases hover.symm.trans hpast
    · rw [heq] at hlimit ⊢
      refine ⟨hless, hlimit, h.within, ?_, ?_, fun _ => rfl⟩
      · intro hok
        cases hok
      · intro _
        exact .inr (by omega)
    · cases hzero

theorem Reached.writeBits {width : ℕ} (h : p.Reached w m) (hw : width ≤ 32) (value : ℕ) :
    (p.writeBits value width).Reached w (m + width) := by
  unfold Packer.writeBits
  by_cases hz : width = 0
  · rw [if_pos hz, hz]
    exact h
  rw [if_neg hz]
  by_cases hfull : 32 ≤ p.n + width
  · simp only [if_pos hfull]
    exact h.word hw hfull _ _
  · simp only [if_neg hfull]
    refine ⟨not_le.mp hfull, h.limit, h.within, ?_, ?_, h.sticky⟩
    · intro hok
      have hat := h.upto hok
      simp only
      omega
    · intro hover
      exact (h.past hover).imp_right fun hpast => hpast.trans_le (by omega)

theorem Reached.put {fs : List Field} (h : p.Reached w m) (hw : Field.Narrow fs) :
    (p.put fs).Reached w (m + Field.widths fs) := by
  induction fs generalizing p m with
  | nil => simpa [Packer.put] using h
  | cons f rest ih =>
    have hone := h.writeBits (hw f List.mem_cons_self) f.value
    rw [Field.widths_cons, ← Nat.add_assoc]
    exact ih hone fun g hg => hw g (List.mem_cons_of_mem _ hg)

theorem Reached.finish (h : p.Reached w m) :
    p.finish.overflow = (w.overflow || decide (w.limit < w.bits.length + m)) := by
  rw [Packer.finish, eq_comm]
  cases hover : p.w.overflow with
  | true =>
    rw [BitWriter.writeBits_overflowed hover, hover, Bool.or_eq_true, decide_eq_true_iff]
    exact h.past hover
  | false =>
    have hat := h.upto hover
    have hwithin := h.within
    have hlimit := h.limit
    have hok : w.overflow = false := by
      by_contra hstuck
      rw [h.sticky (Bool.eq_true_of_not_eq_false hstuck)] at hover
      cases hover
    rw [hok, Bool.false_or]
    rcases BitWriter.writeBits_cases hover (p.acc % 2 ^ 32) p.n with
      ⟨hroom, heq⟩ | ⟨-, hroom, heq⟩ | ⟨hz, heq⟩
    · rw [heq, BitWriter.append, hover, decide_eq_false_iff_not]
      omega
    · rw [heq, decide_eq_true_eq]
      omega
    · rw [heq, hover, decide_eq_false_iff_not]
      omega

end Packer

theorem BitWriter.pack_overflow {w : BitWriter} {fs : List Field} (h : w.bits.length ≤ w.limit)
    (hw : Field.Narrow fs) : (w.pack fs).overflow = (w.put fs).overflow := by
  have hput := (Packer.reached_new h).put hw
  rw [Nat.zero_add] at hput
  rw [put_overflow h, pack, hput.finish]

/-- And unless they do, it comes to the same bits. -/
theorem BitWriter.pack_eq_put {w : BitWriter} {fs : List Field} (h : w.bits.length ≤ w.limit)
    (hw : Field.Narrow fs) (hok : (w.put fs).overflow = false) : w.pack fs = w.put fs := by
  rw [put_overflow h, Bool.or_eq_false_iff, decide_eq_false_iff_not, not_lt] at hok
  have hfits : w.Fits (Field.widths fs) := ⟨hok.1, hok.2⟩
  rw [pack_eq hfits hw, put_eq hfits]

namespace Words

theorem offset_eq (pos : ℕ) : pos &&& 7 = pos % 8 := Nat.and_two_pow_sub_one_eq_mod pos 3

theorem byte_eq (pos : ℕ) : pos >>> 3 = pos / 8 := Nat.shiftRight_eq_div_pow pos 3

/-! ## Writing -/

structure BitWriter where
  buf : List UInt8
  bitPos : ℕ
  limitBits : ℕ
  overflow : Bool
  deriving DecidableEq

namespace BitWriter

def new (buf : List UInt8) : BitWriter := ⟨buf, 0, buf.length * 8, false⟩

def withLimit (buf : List UInt8) (maxBytes : ℕ) : BitWriter :=
  ⟨buf, 0, min buf.length maxBytes * 8, false⟩

def writeBits (w : BitWriter) (value width : ℕ) : BitWriter :=
  if width = 0 then w
  else if w.overflow ∨ w.limitBits < w.bitPos + width then { w with overflow := true }
  else
    let byte := w.bitPos >>> 3
    let offset := w.bitPos &&& 7
    let used := if offset = 0 then 0 else (w.buf[byte]?.getD 0).toNat &&& (1 <<< offset - 1)
    let word := used ||| (value &&& (1 <<< width - 1)) <<< offset
    -- Eight bytes where the buffer has them, else the ones the field is in.
    let n := if byte + 8 ≤ w.buf.length then 8 else (offset + width + 7) / 8
    { w with buf := store w.buf byte (leBytes n word), bitPos := w.bitPos + width }

def put (w : BitWriter) (fs : List Field) : BitWriter :=
  fs.foldl (fun w f => w.writeBits f.value f.width) w

def bytesWritten (w : BitWriter) : ℕ := (w.bitPos + 7) / 8

def written (w : BitWriter) : List UInt8 := w.buf.take w.bytesWritten

/-- Back to an earlier position, with what's left of its byte cleared. -/
def rewind (w : BitWriter) (bitPos : ℕ) : BitWriter :=
  let offset := bitPos &&& 7
  let byte := bitPos >>> 3
  { w with
    bitPos
    buf := if offset = 0 then w.buf
      else w.buf.set byte (UInt8.ofNat ((w.buf[byte]?.getD 0).toNat &&& (1 <<< offset - 1))) }

def writeBit (w : BitWriter) (b : Bool) : BitWriter :=
  let low := (w.buf[w.bitPos / 8]?.getD 0).toNat % 2 ^ (w.bitPos % 8)
  { w with
    buf := w.buf.set (w.bitPos / 8) (UInt8.ofNat (low + b.toNat * 2 ^ (w.bitPos % 8)))
    bitPos := w.bitPos + 1 }

/-- A field that fits, one bit after the other, the lowest first. -/
def writeEachBit (w : BitWriter) (value width : ℕ) : BitWriter :=
  if w.overflow ∨ w.limitBits < w.bitPos + width then { w with overflow := true }
  else (BitString.bits width value).foldl writeBit w

def putEachBit (w : BitWriter) (fs : List Field) : BitWriter :=
  fs.foldl (fun w f => w.writeEachBit f.value f.width) w

/-- What is written, as bits. -/
def view (w : BitWriter) : BeforeColony.BitWriter :=
  ⟨(unpack w.buf).take w.bitPos, w.limitBits, w.overflow⟩

/-- The limit is in the buffer and the position before it, and zeros fill the last byte. -/
structure Sound (w : BitWriter) : Prop where
  room : w.limitBits ≤ w.buf.length * 8
  within : w.bitPos ≤ w.limitBits
  zeros : unpack w.written
    = w.view.bits ++ List.replicate (8 * w.bytesWritten - w.bitPos) false

variable {w : BitWriter}

theorem new_eq (buf : List UInt8) : new buf = withLimit buf buf.length := by
  simp [new, withLimit]

theorem sound_withLimit (buf : List UInt8) (maxBytes : ℕ) : (withLimit buf maxBytes).Sound := by
  refine ⟨?_, Nat.zero_le _, ?_⟩
  · simp [withLimit]
  · simp [withLimit, written, bytesWritten, view]

theorem Sound.length (h : w.Sound) : w.view.bits.length = w.bitPos := by
  have hroom := h.room
  have hwithin := h.within
  simp only [view, List.length_take, length_unpack]
  omega

theorem Sound.view_within (h : w.Sound) : w.view.bits.length ≤ w.view.limit := by
  rw [h.length]
  exact h.within

theorem Sound.overflowed (h : w.Sound) : ({ w with overflow := true } : BitWriter).Sound :=
  ⟨h.room, h.within, h.zeros⟩

/-- A field stored above the bits of its first byte is written, whatever the rest of its word. -/
theorem sound_stored {n : ℕ} (width v : ℕ) (buf : List UInt8)
    (hlimit : w.limitBits ≤ w.buf.length * 8) (hroom : w.bitPos + width ≤ w.limitBits)
    (hn : w.bitPos % 8 + width ≤ 8 * n) (hsome : 0 < n)
    (hin : w.bitPos / 8 + n ≤ w.buf.length)
    (hbuf : buf = store w.buf (w.bitPos / 8) (leBytes n
      ((w.buf[w.bitPos / 8]?.getD 0).toNat % 2 ^ (w.bitPos % 8)
        + v % 2 ^ width * 2 ^ (w.bitPos % 8)))) :
    let w' : BitWriter := { w with buf, bitPos := w.bitPos + width }
    w'.Sound ∧ w'.view = w.view.append (BitString.bits width v) := by
  have hbits := unpack_store_field v hn (by omega : w.bitPos / 8 < w.buf.length)
  rw [← hbuf] at hbits
  have hlen : ((unpack w.buf).take w.bitPos ++ BitString.bits width v).length
      = w.bitPos + width := by
    simp only [List.length_append, List.length_take, length_unpack, BitString.length_bits]
    omega
  have hsame : buf.length = w.buf.length := by
    rw [hbuf, length_store]
    rwa [length_leBytes]
  have hview : (unpack buf).take (w.bitPos + width)
      = (unpack w.buf).take w.bitPos ++ BitString.bits width v := by
    rw [hbits, List.append_assoc, List.take_left' hlen]
  refine ⟨⟨hsame ▸ hlimit, hroom, ?_⟩, ?_⟩
  · have hbytes : 8 * ((w.bitPos + width + 7) / 8)
        = w.bitPos + width + (8 * ((w.bitPos + width + 7) / 8) - (w.bitPos + width)) := by omega
    have hfew : 8 * ((w.bitPos + width + 7) / 8) - (w.bitPos + width)
        ≤ 8 * n - (w.bitPos % 8 + width) := by omega
    simp only [written, bytesWritten, view, unpack_take, hview]
    rw [hbits, List.append_assoc, hbytes, ← hlen, List.take_length_add_append, hlen, ← hbytes,
      List.take_append_of_le_length (by rwa [List.length_replicate]), List.take_replicate,
      Nat.min_eq_left hfew]
  · simp only [view, hview, BeforeColony.BitWriter.append]

/-- Storing keeps the lower bits and puts the field above them. -/
theorem merge_eq (byte value offset width : ℕ) :
    (if offset = 0 then 0 else byte &&& (1 <<< offset - 1))
        ||| (value &&& (1 <<< width - 1)) <<< offset
      = byte % 2 ^ offset + value % 2 ^ width * 2 ^ offset := by
  have hused : (if offset = 0 then 0 else byte &&& (1 <<< offset - 1)) = byte % 2 ^ offset := by
    split
    · rename_i hz
      rw [hz, Nat.pow_zero, Nat.mod_one]
    · rw [Nat.one_shiftLeft, Nat.and_two_pow_sub_one_eq_mod]
  rw [hused, Nat.one_shiftLeft, Nat.and_two_pow_sub_one_eq_mod, Nat.or_comm,
    ← Nat.shiftLeft_add_eq_or_of_lt (Nat.mod_lt byte (Nat.two_pow_pos offset)), Nat.shiftLeft_eq,
    Nat.add_comm]

theorem writeBits_full {width : ℕ} (value : ℕ) (hz : width ≠ 0)
    (h : w.overflow = true ∨ w.limitBits < w.bitPos + width) :
    w.writeBits value width = { w with overflow := true } := by
  rw [writeBits, if_neg hz, if_pos h]

theorem Sound.view_full {width : ℕ} (h : w.Sound) (value : ℕ) (hz : width ≠ 0)
    (hfull : w.overflow = true ∨ w.limitBits < w.bitPos + width) :
    w.view.writeBits value width = ({ w with overflow := true } : BitWriter).view := by
  unfold BeforeColony.BitWriter.writeBits
  rw [if_neg hz, h.length]
  exact if_pos hfull

/-- A field that fits is stored above its first byte's bits, with a word that is in the buffer. -/
theorem writeBits_stores {width : ℕ} (value : ℕ) (hz : width ≠ 0)
    (hlimit : w.limitBits ≤ w.buf.length * 8)
    (h : ¬ (w.overflow = true ∨ w.limitBits < w.bitPos + width)) (hw : width ≤ 32) :
    ∃ n, 0 < n ∧ w.bitPos % 8 + width ≤ 8 * n ∧ w.bitPos / 8 + n ≤ w.buf.length ∧
      w.writeBits value width = { w with
        buf := store w.buf (w.bitPos / 8) (leBytes n
          ((w.buf[w.bitPos / 8]?.getD 0).toNat % 2 ^ (w.bitPos % 8)
            + value % 2 ^ width * 2 ^ (w.bitPos % 8)))
        bitPos := w.bitPos + width } := by
  have hfits := not_lt.mp (not_or.mp h).2
  rw [writeBits, if_neg hz, if_neg h]
  simp only [offset_eq, byte_eq, merge_eq]
  by_cases hwhole : w.bitPos / 8 + 8 ≤ w.buf.length
  · refine ⟨8, by decide, by omega, hwhole, ?_⟩
    simp only [if_pos hwhole]
  · refine ⟨(w.bitPos % 8 + width + 7) / 8, by omega, by omega, by omega, ?_⟩
    simp only [if_neg hwhole]

/-- The writer of words writes what the plain one does. -/
theorem Sound.writeBits {width : ℕ} (h : w.Sound) (hw : width ≤ 32) (value : ℕ) :
    (w.writeBits value width).Sound
      ∧ (w.writeBits value width).view = w.view.writeBits value width := by
  by_cases hz : width = 0
  · rw [BitWriter.writeBits, if_pos hz, BeforeColony.BitWriter.writeBits, if_pos hz]
    exact ⟨h, rfl⟩
  by_cases hfull : w.overflow = true ∨ w.limitBits < w.bitPos + width
  · rw [writeBits_full value hz hfull, h.view_full value hz hfull]
    exact ⟨h.overflowed, rfl⟩
  · obtain ⟨n, hsome, hn, hin, heq⟩ := writeBits_stores value hz h.room hfull hw
    have hfits := not_lt.mp (not_or.mp hfull).2
    have hok := Bool.eq_false_of_not_eq_true (not_or.mp hfull).1
    rw [heq, BeforeColony.BitWriter.writeBits_eq value ⟨hok, h.length.symm ▸ hfits⟩]
    exact sound_stored width value _ h.room hfits hn hsome hin rfl

theorem Sound.put {fs : List Field} (h : w.Sound) (hfs : Field.Narrow fs) :
    (w.put fs).Sound ∧ (w.put fs).view = w.view.put fs := by
  induction fs generalizing w with
  | nil => exact ⟨h, rfl⟩
  | cons f rest ih =>
    obtain ⟨hsound, hview⟩ := h.writeBits (hfs f List.mem_cons_self) f.value
    obtain ⟨hrest, hlast⟩ := ih hsound fun g hg => hfs g (List.mem_cons_of_mem _ hg)
    refine ⟨hrest, hlast.trans ?_⟩
    rw [hview]
    rfl

theorem Sound.writeBit (h : w.Sound) (b : Bool) (hroom : w.bitPos + 1 ≤ w.limitBits) :
    (w.writeBit b).Sound ∧ (w.writeBit b).view = w.view.append [b] := by
  have hlimit := h.room
  have hbit : b.toNat % 2 ^ 1 = b.toNat := by cases b <;> rfl
  have hone : BitString.bits 1 b.toNat = [b] := by cases b <;> rfl
  have hlt : w.bitPos / 8 < w.buf.length := by omega
  rw [← hone]
  refine sound_stored (n := 1) 1 b.toNat _ hlimit hroom (by omega) Nat.one_pos hlt ?_
  rw [hbit, leBytes_succ, leBytes, List.range_zero, List.map_nil, store, List.length_singleton,
    List.set_eq_take_append_cons_drop, if_pos hlt, List.append_assoc, List.singleton_append]

theorem Sound.writeEach (h : w.Sound) {bs : List Bool}
    (hroom : w.bitPos + bs.length ≤ w.limitBits) :
    (bs.foldl BitWriter.writeBit w).Sound
      ∧ (bs.foldl BitWriter.writeBit w).view = w.view.append bs := by
  induction bs generalizing w with
  | nil => exact ⟨h, by rw [List.foldl_nil, BeforeColony.BitWriter.append_nil]⟩
  | cons b rest ih =>
    rw [List.length_cons] at hroom
    obtain ⟨hsound, hview⟩ := h.writeBit b (by omega)
    have hrest : (w.writeBit b).bitPos + rest.length ≤ (w.writeBit b).limitBits := by
      change w.bitPos + 1 + rest.length ≤ w.limitBits
      omega
    obtain ⟨hlast, heq⟩ := ih hsound hrest
    rw [hview, BeforeColony.BitWriter.append_append] at heq
    exact ⟨hlast, heq⟩

theorem Sound.writeEachBit (h : w.Sound) (value width : ℕ) :
    (w.writeEachBit value width).Sound
      ∧ (w.writeEachBit value width).view = w.view.writeBits value width := by
  unfold BitWriter.writeEachBit
  by_cases hfull : w.overflow = true ∨ w.limitBits < w.bitPos + width
  · rw [if_pos hfull]
    refine ⟨h.overflowed, ?_⟩
    by_cases hz : width = 0
    · have hover : w.overflow = true := by
        have hwithin := h.within
        exact hfull.resolve_right (by omega)
      rw [BeforeColony.BitWriter.writeBits_overflowed hover, view, view, ← hover]
    · rw [h.view_full value hz hfull]
  · have hfits := not_lt.mp (not_or.mp hfull).2
    have hok := Bool.eq_false_of_not_eq_true (not_or.mp hfull).1
    rw [if_neg hfull, BeforeColony.BitWriter.writeBits_eq value ⟨hok, h.length.symm ▸ hfits⟩]
    exact h.writeEach (by rwa [BitString.length_bits])

theorem Sound.putEachBit (h : w.Sound) (fs : List Field) :
    (w.putEachBit fs).Sound ∧ (w.putEachBit fs).view = w.view.put fs := by
  induction fs generalizing w with
  | nil => exact ⟨h, rfl⟩
  | cons f rest ih =>
    obtain ⟨hsound, hview⟩ := h.writeEachBit f.value f.width
    obtain ⟨hrest, hlast⟩ := ih hsound
    refine ⟨hrest, hlast.trans ?_⟩
    rw [hview]
    rfl

/-- Back at an earlier position a writer has what it had written up to there. -/
theorem Sound.rewind (h : w.Sound) {bitPos : ℕ} (hle : bitPos ≤ w.bitPos) :
    (w.rewind bitPos).Sound
      ∧ (w.rewind bitPos).view = { w.view with bits := w.view.bits.take bitPos } := by
  have hroom := h.room
  have hwithin := h.within
  have hview : w.view.bits.take bitPos = (unpack w.buf).take bitPos := by
    rw [view, List.take_take, Nat.min_eq_left hle]
  unfold BitWriter.rewind
  simp only [offset_eq, byte_eq]
  by_cases hz : bitPos % 8 = 0
  · simp only [if_pos hz]
    refine ⟨⟨hroom, hle.trans hwithin, ?_⟩, ?_⟩
    · have hwhole : 8 * ((bitPos + 7) / 8) = bitPos := by omega
      simp [written, bytesWritten, view, unpack_take, hwhole]
    · rw [hview, view, view]
  · simp only [if_neg hz]
    have hlt : bitPos / 8 < w.buf.length := by omega
    have hback := sound_stored (w := { w with bitPos }) (n := 1) 0 0
      (w.buf.set (bitPos / 8)
        (UInt8.ofNat ((w.buf[bitPos / 8]?.getD 0).toNat &&& (1 <<< (bitPos % 8) - 1))))
      hroom (hle.trans hwithin) (by simp only; omega) Nat.one_pos hlt ?_
    · refine ⟨hback.1, hback.2.trans ?_⟩
      rw [hview]
      exact BeforeColony.BitWriter.append_nil _
    · rw [Nat.zero_mod, Nat.zero_mul, Nat.add_zero, Nat.one_shiftLeft,
        Nat.and_two_pow_sub_one_eq_mod, leBytes_succ, leBytes, List.range_zero, List.map_nil, store,
        List.length_singleton, List.set_eq_take_append_cons_drop, if_pos hlt, List.append_assoc,
        List.singleton_append]

/-- Writers that have written the same bits have made the same bytes. -/
theorem Sound.same {w' : BitWriter} (h : w.Sound) (h' : w'.Sound) (heq : w.view = w'.view) :
    w.written = w'.written ∧ w.overflow = w'.overflow := by
  have hpos : w.bitPos = w'.bitPos := by rw [← h.length, ← h'.length, heq]
  refine ⟨unpack_injective ?_, congrArg BeforeColony.BitWriter.overflow heq⟩
  rw [h.zeros, h'.zeros, heq, bytesWritten, bytesWritten, hpos]

end BitWriter

/-- Packs fields into a word before they go to a writer. -/
structure Packer where
  w : BitWriter
  acc : ℕ
  n : ℕ

namespace Packer

def new (w : BitWriter) : Packer := ⟨w, 0, 0⟩

def finish (p : Packer) : BitWriter := p.w.writeBits (p.acc % 2 ^ 32) p.n

def writeBits (p : Packer) (value width : ℕ) : Packer :=
  if width = 0 then p
  else
    let acc := p.acc ||| (value &&& (1 <<< width - 1)) <<< p.n
    let n := p.n + width
    if 32 ≤ n then ⟨p.w.writeBits (acc % 2 ^ 32) 32, acc >>> 32, n - 32⟩
    else { p with acc, n }

def put (p : Packer) (fs : List Field) : Packer :=
  fs.foldl (fun p f => p.writeBits f.value f.width) p

/-- What it stands in front of, as bits. -/
def view (p : Packer) : BeforeColony.Packer := ⟨p.w.view, p.acc, p.n⟩

variable {p : Packer}

theorem view_writeBits {width : ℕ} (h : p.w.Sound) (value : ℕ) :
    (p.writeBits value width).w.Sound
      ∧ (p.writeBits value width).view = p.view.writeBits value width := by
  unfold Packer.writeBits BeforeColony.Packer.writeBits
  rw [Nat.one_shiftLeft, Nat.and_two_pow_sub_one_eq_mod]
  by_cases hz : width = 0
  · rw [if_pos hz, if_pos hz]
    exact ⟨h, rfl⟩
  simp only [if_neg hz]
  by_cases hfull : 32 ≤ p.n + width
  · obtain ⟨hsound, hview⟩ := h.writeBits (le_refl 32)
      ((p.acc ||| (value % 2 ^ width) <<< p.n) % 2 ^ 32)
    rw [if_pos hfull, if_pos (by exact hfull)]
    exact ⟨hsound, by rw [view, hview]; rfl⟩
  · rw [if_neg hfull, if_neg (by exact hfull)]
    exact ⟨h, rfl⟩

theorem view_put (h : p.w.Sound) (fs : List Field) :
    (p.put fs).w.Sound ∧ (p.put fs).view = p.view.put fs := by
  induction fs generalizing p with
  | nil => exact ⟨h, rfl⟩
  | cons f rest ih =>
    obtain ⟨hsound, hview⟩ := @view_writeBits _ f.width h f.value
    obtain ⟨hrest, hlast⟩ := ih hsound
    refine ⟨hrest, hlast.trans ?_⟩
    rw [hview]
    rfl

end Packer

namespace BitWriter

variable {w : BitWriter}

def pack (w : BitWriter) (fs : List Field) : BitWriter := ((Packer.new w).put fs).finish

theorem Sound.pack {fs : List Field} (h : w.Sound) (hfs : Field.Narrow fs) :
    (w.pack fs).Sound ∧ (w.pack fs).view = w.view.pack fs := by
  obtain ⟨hsound, hview⟩ := Packer.view_put (p := Packer.new w) h fs
  have hfew := ((Packer.reached_new h.view_within).put hfs).few
  have hpacked : (Packer.new w).view = BeforeColony.Packer.new w.view := rfl
  have hn : ((Packer.new w).put fs).n = ((BeforeColony.Packer.new w.view).put fs).n := by
    rw [← hpacked, ← hview]
    rfl
  have hlast := hsound.writeBits (hn.trans_le hfew.le) (((Packer.new w).put fs).acc % 2 ^ 32)
  refine ⟨hlast.1, hlast.2.trans ?_⟩
  rw [BeforeColony.BitWriter.pack, ← hpacked, ← hview]
  rfl

end BitWriter

/-! ## Reading -/

structure BitReader where
  buf : List UInt8
  bitPos : ℕ
  overflow : Bool
  deriving DecidableEq

namespace BitReader

def new (buf : List UInt8) : BitReader := ⟨buf, 0, false⟩

def readBits (r : BitReader) (width : ℕ) : ℕ × BitReader :=
  if width = 0 then (0, r)
  else if r.overflow ∨ r.buf.length * 8 < r.bitPos + width then (0, { r with overflow := true })
  else
    let byte := r.bitPos >>> 3
    let offset := r.bitPos &&& 7
    let src := (r.buf.drop byte).take (min (byte + 8) r.buf.length - byte)
    let word := src ++ List.replicate (8 - src.length) 0
    ((fromLeBytes word >>> offset &&& (1 <<< width - 1)) % 2 ^ 32,
      { r with bitPos := r.bitPos + width })

/-- Reads fields of these widths one after the other. -/
def get (r : BitReader) : List ℕ → List ℕ × BitReader
  | [] => ([], r)
  | width :: rest =>
    let (v, r) := r.readBits width
    let (vs, r) := r.get rest
    (v :: vs, r)

/-- What is left, as bits. -/
def view (r : BitReader) : BeforeColony.BitReader := ⟨(unpack r.buf).drop r.bitPos, r.overflow⟩

def Within (r : BitReader) : Prop := r.bitPos ≤ r.buf.length * 8

variable {r : BitReader}

theorem fromLeBytes_append_zeros (l : List UInt8) (n : ℕ) :
    fromLeBytes (l ++ List.replicate n 0) = value (unpack l) := by
  have hzeros : unpack (List.replicate n 0) = List.replicate (8 * n) false := by
    induction n with
    | zero => rfl
    | succ n ih =>
      rw [List.replicate_succ, unpack_cons, ih, Nat.mul_succ, Nat.add_comm, List.replicate_add]
      rfl
  rw [fromLeBytes_eq, unpack_append, value_append, hzeros, value_zeros, Nat.mul_zero, Nat.add_zero]

/-- The field is in the word of the eight bytes from its first. -/
theorem readBits_eq {width : ℕ} (hz : width ≠ 0) (hw : width ≤ 32)
    (h : ¬ (r.overflow = true ∨ r.buf.length * 8 < r.bitPos + width)) :
    r.readBits width = (value (((unpack r.buf).drop r.bitPos).take width),
      { r with bitPos := r.bitPos + width }) := by
  have hpos : 8 * (r.bitPos / 8) + r.bitPos % 8 = r.bitPos := Nat.div_add_mod _ _
  have hin := not_lt.mp (not_or.mp h).2
  have hword : width ≤ 8 * (min (r.bitPos / 8 + 8) r.buf.length - r.bitPos / 8) - r.bitPos % 8 := by
    omega
  have hsrc : ((unpack ((r.buf.drop (r.bitPos / 8)).take
        (min (r.bitPos / 8 + 8) r.buf.length - r.bitPos / 8))).drop (r.bitPos % 8)).take width
      = ((unpack r.buf).drop r.bitPos).take width := by
    rw [unpack_take, unpack_drop, List.drop_take, List.drop_drop, hpos, List.take_take,
      Nat.min_eq_left hword]
  have hlt : value (((unpack r.buf).drop r.bitPos).take width) < 2 ^ 32 := by
    refine (value_lt _).trans_le (Nat.pow_le_pow_right (by decide) ?_)
    rw [List.length_take]
    exact (min_le_left _ _).trans hw
  rw [readBits, if_neg hz, if_neg h]
  simp only [offset_eq, byte_eq, fromLeBytes_append_zeros]
  rw [Nat.one_shiftLeft, Nat.and_two_pow_sub_one_eq_mod, Nat.shiftRight_eq_div_pow, ← value_drop,
    ← value_take, hsrc, Nat.mod_eq_of_lt hlt]

theorem Within.readBits (h : r.Within) (width : ℕ) : (r.readBits width).2.Within := by
  unfold BitReader.readBits
  by_cases hz : width = 0
  · rw [if_pos hz]
    exact h
  by_cases hpast : r.overflow = true ∨ r.buf.length * 8 < r.bitPos + width
  · rw [if_neg hz, if_pos hpast]
    exact h
  · rw [if_neg hz, if_neg hpast]
    exact not_lt.mp (not_or.mp hpast).2

/-- The reader of words reads what the plain one does. -/
theorem Within.view_readBits {width : ℕ} (h : r.Within) (hw : width ≤ 32) :
    BeforeColony.readBits width r.view = (.ok (r.readBits width).1, (r.readBits width).2.view) := by
  have hrest : r.view.rest.length = r.buf.length * 8 - r.bitPos := by
    rw [view, List.length_drop, length_unpack, Nat.mul_comm]
  unfold BeforeColony.readBits
  by_cases hz : width = 0
  · rw [if_pos hz, BitReader.readBits, if_pos hz]
  have hwithin : r.bitPos ≤ r.buf.length * 8 := h
  have hshort : r.view.rest.length < width ↔ r.buf.length * 8 < r.bitPos + width := by
    rw [hrest]
    omega
  by_cases hpast : r.overflow = true ∨ r.buf.length * 8 < r.bitPos + width
  · have hplain : r.view.overflow = true ∨ r.view.rest.length < width :=
      hpast.imp_right hshort.mpr
    rw [if_neg hz, if_pos hplain, BitReader.readBits, if_neg hz, if_pos hpast]
    rfl
  · have hplain : ¬ (r.view.overflow = true ∨ r.view.rest.length < width) :=
      fun hor => hpast (hor.imp_right hshort.mp)
    rw [if_neg hz, if_neg hplain, readBits_eq hz hw hpast]
    simp only [view, List.drop_drop]

theorem get_fields {fs : List Field} (hfs : Field.Narrow fs) (h : r.Within)
    (hok : r.overflow = false) {rest : List Bool}
    (hrest : (unpack r.buf).drop r.bitPos = Field.all fs ++ rest) :
    (r.get (fs.map Field.width)).1 = fs.map (fun f => f.value % 2 ^ f.width)
      ∧ (r.get (fs.map Field.width)).2.overflow = false := by
  induction fs generalizing r with
  | nil => exact ⟨rfl, hok⟩
  | cons f later ih =>
    have hread := Reads.bits (Nat.mod_lt f.value (Nat.two_pow_pos f.width)) (Field.all later ++ rest)
    rw [bits_mod, ← List.append_assoc] at hread
    have hview : r.view = ⟨f.bits ++ Field.all later ++ rest, false⟩ := by
      rw [view, hrest, hok]
      rfl
    have hone := h.view_readBits (hfs f List.mem_cons_self)
    rw [hview, Field.bits, hread, Prod.mk.injEq, Except.ok.injEq] at hone
    obtain ⟨hvalue, hnext⟩ := hone
    have hrest' := congrArg BeforeColony.BitReader.rest hnext
    have hok' := congrArg BeforeColony.BitReader.overflow hnext
    obtain ⟨hvalues, hlast⟩ := ih (fun g hg => hfs g (List.mem_cons_of_mem _ hg))
      (h.readBits f.width) hok'.symm hrest'.symm
    refine ⟨?_, hlast⟩
    rw [List.map_cons, get, List.map_cons, ← hvalues, hvalue]

end BitReader

namespace BitReader

variable {r : BitReader}

theorem readBits_overflowed (h : r.overflow = true) (width : ℕ) : r.readBits width = (0, r) := by
  obtain ⟨buf, bitPos, overflow⟩ := r
  subst h
  simp [readBits]

theorem get_overflowed (h : r.overflow = true) (widths : List ℕ) :
    r.get widths = (widths.map fun _ => 0, r) := by
  induction widths with
  | nil => rfl
  | cons width rest ih => simp only [get, readBits_overflowed h, ih, List.map_cons]

theorem readBits_past {width : ℕ} (h : (r.readBits width).2.overflow = true) :
    (r.readBits width).1 = 0 ∧ (r.readBits width).2.bitPos = r.bitPos := by
  unfold readBits at h ⊢
  split
  · exact ⟨rfl, rfl⟩
  · split
    · exact ⟨rfl, rfl⟩
    · rename_i hz hpast
      rw [if_neg hz, if_neg hpast] at h
      exact absurd (.inl h) hpast

end BitReader

namespace BitWriter

variable {w : BitWriter} {fs : List Field}

/-- What a writer took is read back from its bytes, whatever follows them. -/
theorem Sound.reads_back (h : w.Sound) (hfs : Field.Narrow fs) (hbits : w.view.bits = Field.all fs)
    (rest : List UInt8) :
    ((BitReader.new (w.written ++ rest)).get (fs.map Field.width)).1
        = fs.map (fun f => f.value % 2 ^ f.width)
      ∧ ((BitReader.new (w.written ++ rest)).get (fs.map Field.width)).2.overflow = false := by
  apply BitReader.get_fields hfs (Nat.zero_le _) rfl
  · rw [BitReader.new, List.drop_zero, unpack_append, h.zeros, hbits, List.append_assoc]

theorem writeBits_past {value width : ℕ} (h : (w.writeBits value width).overflow = true) :
    (w.writeBits value width).buf = w.buf ∧ (w.writeBits value width).bitPos = w.bitPos := by
  unfold writeBits at h ⊢
  split
  · exact ⟨rfl, rfl⟩
  · split
    · exact ⟨rfl, rfl⟩
    · rename_i hz hfull
      rw [if_neg hz, if_neg hfull] at h
      exact absurd (.inl h) hfull

theorem put_overflowed (h : w.overflow = true) (fs : List Field) : w.put fs = w := by
  have hone (value width : ℕ) : w.writeBits value width = w := by
    obtain ⟨buf, bitPos, limitBits, overflow⟩ := w
    subst h
    simp [writeBits]
  induction fs with
  | nil => rfl
  | cons f rest ih => rw [put, List.foldl_cons, hone, ← put, ih]

/-- Bit streams round trip: fields a writer takes are read back, in order and each in its width,
from the bytes it made; it makes the bytes a writer of one bit at a time does, and overflows when
that does; through a packer it overflows when it does without, and where it doesn't makes the same
bytes; and once overflowed a writer or a reader stays so, and nothing more is written or read. -/
theorem bit_streams_round_trip (buf : List UInt8) (maxBytes : ℕ) (hfs : Field.Narrow fs) :
    let start := withLimit buf maxBytes
    ((start.put fs).overflow = false → ∀ rest : List UInt8,
      let r := BitReader.new ((start.put fs).written ++ rest)
      (r.get (fs.map Field.width)).1 = fs.map (fun f => f.value % 2 ^ f.width)
        ∧ (r.get (fs.map Field.width)).2.overflow = false)
    ∧ ((start.put fs).written = (start.putEachBit fs).written
      ∧ (start.put fs).overflow = (start.putEachBit fs).overflow)
    ∧ (∀ more, Field.Narrow more →
      ((start.put fs).pack more).overflow = ((start.put fs).put more).overflow
        ∧ (((start.put fs).put more).overflow = false →
          ((start.put fs).pack more).written = ((start.put fs).put more).written))
    ∧ (∀ value width, let w := (start.put fs).writeBits value width
      w.overflow = true → w.buf = (start.put fs).buf ∧ w.bitPos = (start.put fs).bitPos
        ∧ ∀ later, w.put later = w)
    ∧ ∀ (r : BitReader) (width : ℕ), (r.readBits width).2.overflow = true →
      (r.readBits width).1 = 0 ∧ (r.readBits width).2.bitPos = r.bitPos
        ∧ ∀ later, (r.readBits width).2.get later
          = (later.map fun _ => 0, (r.readBits width).2) := by
  intro start
  have hstart : start.Sound := sound_withLimit buf maxBytes
  obtain ⟨hsound, hview⟩ := hstart.put hfs
  refine ⟨?_, ?_, ?_, ?_, ?_⟩
  · intro hok
    apply hsound.reads_back hfs
    have hover : (start.view.put fs).overflow = false := by
      rw [← hview]
      exact hok
    rw [BeforeColony.BitWriter.put_overflow hstart.view_within, Bool.or_eq_false_iff,
      decide_eq_false_iff_not, not_lt] at hover
    rw [hview, BeforeColony.BitWriter.put_eq ⟨hover.1, hover.2⟩]
    rfl
  · obtain ⟨heach, hsame⟩ := hstart.putEachBit fs
    exact hsound.same heach (hview.trans hsame.symm)
  · intro more hmore
    obtain ⟨hpacked, hpack⟩ := hsound.pack hmore
    obtain ⟨hmoved, hput⟩ := hsound.put hmore
    have hover := BeforeColony.BitWriter.pack_overflow hsound.view_within hmore
    rw [← hpack, ← hput] at hover
    refine ⟨hover, ?_⟩
    intro hok
    have hplain : (((start.put fs).view).put more).overflow = false := by
      rw [← hput]
      exact hok
    have heq := BeforeColony.BitWriter.pack_eq_put hsound.view_within hmore hplain
    exact (hpacked.same hmoved (hpack.trans (heq.trans hput.symm))).1
  · intro value width w hover
    obtain ⟨hbuf, hpos⟩ := writeBits_past hover
    exact ⟨hbuf, hpos, put_overflowed hover⟩
  · intro r width hover
    obtain ⟨hzero, hpos⟩ := BitReader.readBits_past hover
    exact ⟨hzero, hpos, BitReader.get_overflowed hover⟩

theorem bit_streams_round_trip_mixed :
    let fs : List Field := [⟨5, 3⟩, ⟨0xdeadbeef, 32⟩, ⟨1, 1⟩]
    let w := (withLimit (List.replicate 9 0xAA) 5).put fs
    ((BitReader.new w.written).get [3, 32, 1]).1 = [5, 0xdeadbeef, 1] := by
  intro fs w
  have hfs : Field.Narrow fs := by
    intro f hf
    simp only [fs, List.mem_cons, List.not_mem_nil, or_false] at hf
    rcases hf with rfl | rfl | rfl <;> simp
  have hback := (bit_streams_round_trip (List.replicate 9 0xAA) 5 hfs).1 (by decide) []
  rw [List.append_nil] at hback
  exact hback.1

/-- A packer lets go of a word at a time: where its fields overflow, the bytes of those that fit
are not the ones a writer without it makes. -/
theorem packed_overflow_differs :
    ¬ ∀ (buf : List UInt8) (maxBytes : ℕ) (fs : List Field), Field.Narrow fs →
      ((withLimit buf maxBytes).pack fs).written = ((withLimit buf maxBytes).put fs).written := by
  intro h
  have hfs : Field.Narrow [⟨1, 4⟩, ⟨1, 4⟩, ⟨1, 4⟩] := by
    intro f hf
    simp only [List.mem_cons, List.not_mem_nil, or_false, or_self] at hf
    rw [hf]
    decide
  exact absurd (h [0] 1 _ hfs) (by decide)

end BitWriter

end Words

end BeforeColony
