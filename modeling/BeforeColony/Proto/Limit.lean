import BeforeColony.Proto.Words

/-!
# What a limited writer stores past its limit

A field goes in with a store of eight bytes where the buffer has them, whatever the limit. What a
store leaves past the field is zeros, so of the bytes past the limit those it reaches become zero.
-/

set_option autoImplicit false

namespace BeforeColony.Words.BitWriter

open Lib Lib.BitString Lib.Bytes

/-- Where the stores of fields written from bit `pos` on end, those of eight bytes: fields are taken
up to `limitBits`, in a buffer of `len` bytes. -/
def reach (len limitBits : ℕ) (pos : ℕ) : List Field → ℕ
  | [] => 0
  | f :: rest =>
    if f.width = 0 then reach len limitBits pos rest
    else if limitBits < pos + f.width then 0
    else max (if pos / 8 + 8 ≤ len then pos / 8 + 8 else 0) (reach len limitBits (pos + f.width) rest)

theorem reach_le (len limitBits pos : ℕ) (fs : List Field) : reach len limitBits pos fs ≤ len := by
  induction fs generalizing pos with
  | nil => exact Nat.zero_le _
  | cons f rest ih =>
    rw [reach]
    split
    · exact ih pos
    · split
      · exact Nat.zero_le _
      · refine max_le ?_ (ih _)
        split
        · assumption
        · exact Nat.zero_le _

theorem leBytes_high {n word k : ℕ} (hk : k < n) (h : word < 2 ^ (8 * k)) :
    (leBytes n word)[k]? = some 0 := by
  rw [leBytes, List.getElem?_map, List.getElem?_range hk, Option.map_some,
    Nat.shiftRight_eq_div_pow, Nat.div_eq_of_lt h]
  rfl

theorem store_before {l bytes : List UInt8} {i k : ℕ} (h : i + bytes.length ≤ l.length) (hk : i ≤ k)
    (hlt : k < i + bytes.length) : (store l i bytes)[k]? = bytes[k - i]? := by
  have hlen : (l.take i).length = i := by rw [List.length_take]; omega
  rw [store, List.append_assoc, List.getElem?_append_right (by omega), hlen,
    List.getElem?_append_left (by omega)]

theorem store_past {l bytes : List UInt8} {i k : ℕ} (h : i + bytes.length ≤ l.length)
    (hk : i + bytes.length ≤ k) : (store l i bytes)[k]? = l[k]? := by
  have hlen : (l.take i ++ bytes).length = i + bytes.length := by
    rw [List.length_append, List.length_take]
    omega
  rw [store, List.getElem?_append_right (by omega), hlen, List.getElem?_drop]
  congr 1
  omega

variable {w : BitWriter}

/-- The word a field is stored with has no bits past the field. -/
theorem word_lt (byte value offset width : ℕ) :
    byte % 2 ^ offset + value % 2 ^ width * 2 ^ offset < 2 ^ (offset + width) := by
  have hlow := Nat.mod_lt byte (Nat.two_pow_pos offset)
  have hhigh : (value % 2 ^ width + 1) * 2 ^ offset ≤ 2 ^ width * 2 ^ offset :=
    Nat.mul_le_mul_right _ (Nat.mod_lt value (Nat.two_pow_pos width))
  rw [Nat.add_mul, Nat.one_mul] at hhigh
  rw [Nat.pow_add, Nat.mul_comm (2 ^ offset)]
  omega

theorem writeBits_past_limit {width i : ℕ} (value : ℕ) (hz : width ≠ 0)
    (hfits : ¬ (w.overflow = true ∨ w.limitBits < w.bitPos + width)) (hi : w.limitBits ≤ 8 * i)
    (hlt : i < w.buf.length) :
    (w.writeBits value width).buf[i]?
      = if w.bitPos / 8 + 8 ≤ w.buf.length ∧ i < w.bitPos / 8 + 8 then some 0 else w.buf[i]? := by
  have hend := not_lt.mp (not_or.mp hfits).2
  rw [writeBits, if_neg hz, if_neg hfits]
  simp only [offset_eq, byte_eq, merge_eq]
  have hword := word_lt (w.buf[w.bitPos / 8]?.getD 0).toNat value (w.bitPos % 8) width
  by_cases hwhole : w.bitPos / 8 + 8 ≤ w.buf.length
  · rw [if_pos hwhole]
    by_cases hin : i < w.bitPos / 8 + 8
    · rw [if_pos ⟨hwhole, hin⟩, store_before (by rwa [length_leBytes]) (by omega)
        (by rwa [length_leBytes])]
      apply leBytes_high (by omega)
      exact hword.trans_le (Nat.pow_le_pow_right (by decide) (by omega))
    · rw [if_neg fun hboth => hin hboth.2]
      exact store_past (by rwa [length_leBytes]) (by rw [length_leBytes]; omega)
  · rw [if_neg hwhole, if_neg fun hboth => hwhole hboth.1]
    apply store_past
    · rw [length_leBytes]
      omega
    · rw [length_leBytes]
      omega

theorem writeBits_length {width : ℕ} (h : w.Sound) (hw : width ≤ 32) (value : ℕ) :
    (w.writeBits value width).buf.length = w.buf.length := by
  by_cases hz : width = 0
  · rw [writeBits, if_pos hz]
  by_cases hfull : w.overflow = true ∨ w.limitBits < w.bitPos + width
  · rw [writeBits_full value hz hfull]
  · obtain ⟨n, -, -, hin, heq⟩ := writeBits_stores value hz h.room hfull hw
    rw [heq]
    exact length_store (by rwa [length_leBytes])

theorem put_length {fs : List Field} (hfs : Field.Narrow fs) (h : w.Sound) :
    (w.put fs).buf.length = w.buf.length := by
  induction fs generalizing w with
  | nil => rfl
  | cons f rest ih =>
    have hf : f.width ≤ 32 := hfs f List.mem_cons_self
    have hone := writeBits_length h hf f.value
    have hrest := ih (fun g hg => hfs g (List.mem_cons_of_mem _ hg)) (h.writeBits hf f.value).1
    exact hrest.trans hone

theorem put_past_limit {fs : List Field} (hfs : Field.Narrow fs) (h : w.Sound)
    (hok : w.overflow = false) {i : ℕ} (hi : w.limitBits ≤ 8 * i) (hlt : i < w.buf.length) :
    (w.put fs).buf[i]?
      = if i < reach w.buf.length w.limitBits w.bitPos fs then some 0 else w.buf[i]? := by
  induction fs generalizing w with
  | nil => rfl
  | cons f rest ih =>
    have hf : f.width ≤ 32 := hfs f List.mem_cons_self
    have hrest : Field.Narrow rest := fun g hg => hfs g (List.mem_cons_of_mem _ hg)
    rw [put, List.foldl_cons, ← put, reach]
    by_cases hz : f.width = 0
    · rw [if_pos hz, writeBits, if_pos hz]
      exact ih hrest h hok hi hlt
    rw [if_neg hz]
    by_cases hfull : w.limitBits < w.bitPos + f.width
    · rw [if_pos hfull, writeBits_full _ hz (.inr hfull), put_overflowed rfl]
      rfl
    have hfits : ¬ (w.overflow = true ∨ w.limitBits < w.bitPos + f.width) := by
      rw [hok]
      exact fun hor => hor.elim (fun hover => by cases hover) hfull
    have hone := writeBits_past_limit f.value hz hfits hi hlt
    have hlen := writeBits_length h hf f.value
    obtain ⟨hlimit, hpos, hover⟩ : (w.writeBits f.value f.width).limitBits = w.limitBits
        ∧ (w.writeBits f.value f.width).bitPos = w.bitPos + f.width
        ∧ (w.writeBits f.value f.width).overflow = w.overflow := by
      rw [writeBits, if_neg hz, if_neg hfits]
      exact ⟨rfl, rfl, rfl⟩
    have hlater := ih (w := w.writeBits f.value f.width) hrest (h.writeBits hf f.value).1
      (hover.trans hok) (hlimit ▸ hi) (hlen ▸ hlt)
    rw [hlimit, hpos, hlen, hone] at hlater
    rw [hlater, if_neg hfull]
    simp only [lt_max_iff]
    by_cases hlate : i < reach w.buf.length w.limitBits (w.bitPos + f.width) rest
    · rw [if_pos hlate, if_pos (Or.inr hlate)]
    · rw [if_neg hlate]
      by_cases hwhole : w.bitPos / 8 + 8 ≤ w.buf.length
      · simp only [hwhole, hlate, true_and, or_false, if_true]
      · simp only [hwhole, hlate, false_and, or_false, if_false, Nat.not_lt_zero]

/-- A limited writer leaves the bytes from its limit on as they were just when those its stores of
eight bytes reach are zero already. -/
theorem put_spares_iff (buf : List UInt8) {maxBytes : ℕ} (hle : maxBytes ≤ buf.length)
    {fs : List Field} (hfs : Field.Narrow fs) :
    ((withLimit buf maxBytes).put fs).buf.drop maxBytes = buf.drop maxBytes
      ↔ ∀ i, maxBytes ≤ i → i < reach buf.length (maxBytes * 8) 0 fs → buf[i]? = some 0 := by
  have hlimit : (withLimit buf maxBytes).limitBits = maxBytes * 8 := by
    rw [withLimit, Nat.min_eq_right hle]
  have hbyte : ∀ i, maxBytes ≤ i → i < buf.length → ((withLimit buf maxBytes).put fs).buf[i]?
      = if i < reach buf.length (maxBytes * 8) 0 fs then some 0 else buf[i]? := by
    intro i hi hlt
    have hput := put_past_limit hfs (sound_withLimit buf maxBytes) rfl (i := i)
      (by rw [hlimit]; omega) hlt
    rw [hlimit] at hput
    exact hput
  have hlen : ((withLimit buf maxBytes).put fs).buf.length = buf.length :=
    put_length hfs (sound_withLimit buf maxBytes)
  constructor
  · intro hsame i hi hreach
    have hlt : i < buf.length := hreach.trans_le (reach_le _ _ _ _)
    have hat := congrArg (·[i - maxBytes]?) hsame
    simp only [List.getElem?_drop, Nat.add_sub_cancel' hi] at hat
    rw [← hat, hbyte i hi hlt, if_pos hreach]
  · intro hzero
    apply List.ext_getElem?
    intro k
    rw [List.getElem?_drop, List.getElem?_drop]
    by_cases hlt : maxBytes + k < buf.length
    · rw [hbyte _ (Nat.le_add_right _ _) hlt]
      split
      · rename_i hreach
        exact (hzero _ (Nat.le_add_right _ _) hreach).symm
      · rfl
    · rw [List.getElem?_eq_none (hlen ▸ not_lt.mp hlt), List.getElem?_eq_none (not_lt.mp hlt)]

/-- A field of a byte, with zeros past it. -/
theorem put_spares_iff_zeros :
    ((withLimit (0xAA :: List.replicate 15 0) 1).put [⟨5, 8⟩]).buf.drop 1
      = (0xAA :: List.replicate 15 0 : List UInt8).drop 1 := by
  have hfs : Field.Narrow [⟨5, 8⟩] := .cons (by decide) Field.narrow_nil
  exact (put_spares_iff (0xAA :: List.replicate 15 0) (by decide) hfs).mpr (by decide)

/-- One byte of limit, one byte written, and seven more changed. -/
theorem limit_not_kept :
    ¬ ∀ (buf : List UInt8) (maxBytes : ℕ) (fs : List Field), maxBytes ≤ buf.length →
      Field.Narrow fs → ((withLimit buf maxBytes).put fs).buf.drop maxBytes = buf.drop maxBytes := by
  intro h
  have hfs : Field.Narrow [⟨5, 8⟩] := .cons (by decide) Field.narrow_nil
  exact absurd (h (List.replicate 16 0xAA) 1 _ (by decide) hfs) (by decide)

end BeforeColony.Words.BitWriter
