import BeforeColony.Lib.BitString

/-!
# Bytes and words

The bits of a byte string, the lowest bit of each byte first, words as little-endian bytes, and
bytes stored into a longer string. A field stored above the bits a byte already holds follows
them in the string's bits, whatever the word it is stored with leaves after it.
-/

set_option autoImplicit false

namespace Lib.BitString

theorem value_append (l l' : List Bool) : value (l ++ l') = value l + 2 ^ l.length * value l' := by
  induction l with
  | nil => simp [value]
  | cons b rest ih => rw [List.cons_append, value, value, ih, List.length_cons, Nat.pow_succ']; ring

theorem value_zeros (n : ℕ) : value (List.replicate n false) = 0 := by
  induction n with
  | zero => rfl
  | succ n ih => simp [List.replicate_succ, value, ih]

theorem bits_zero (n : ℕ) : bits n 0 = List.replicate n false := by
  induction n with
  | zero => rfl
  | succ n ih => simp [bits, ih, List.replicate_succ]

theorem value_take (n : ℕ) (l : List Bool) : value (l.take n) = value l % 2 ^ n := by
  induction l generalizing n with
  | nil => simp [value]
  | cons b rest ih =>
    cases n with
    | zero => simp [value, Nat.mod_one]
    | succ n =>
      have hhalf : (b.toNat + 2 * value rest) / 2 = value rest := by
        cases b <;> simp only [Bool.toNat_false, Bool.toNat_true] <;> omega
      have hlow : (b.toNat + 2 * value rest) % 2 = b.toNat := by
        cases b <;> simp only [Bool.toNat_false, Bool.toNat_true] <;> omega
      rw [List.take_succ_cons, value, value, ih, Nat.pow_succ', Nat.mod_mul, hhalf, hlow]

theorem value_drop (n : ℕ) (l : List Bool) : value (l.drop n) = value l / 2 ^ n := by
  induction l generalizing n with
  | nil => simp [value]
  | cons b rest ih =>
    cases n with
    | zero => simp
    | succ n =>
      rw [List.drop_succ_cons, value, ih, Nat.pow_succ', ← Nat.div_div_eq_div_mul]
      congr 1
      cases b <;> simp only [Bool.toNat_false, Bool.toNat_true] <;> omega

theorem take_bits {m n : ℕ} (h : m ≤ n) (v : ℕ) : (bits n v).take m = bits m v := by
  obtain ⟨k, rfl⟩ := Nat.exists_eq_add_of_le h
  rw [bits_append, List.take_left' (length_bits m v)]

end Lib.BitString

namespace Lib.Bytes

open Lib.BitString

def unpack (l : List UInt8) : List Bool := l.flatMap fun b => bits 8 b.toNat

def leBytes (n word : ℕ) : List UInt8 := (List.range n).map fun i => UInt8.ofNat (word >>> (8 * i))

def fromLeBytes (l : List UInt8) : ℕ := l.foldr (fun b word => b.toNat + 256 * word) 0

/-- Bytes written over those from `i` on. -/
def store (l : List UInt8) (i : ℕ) (bytes : List UInt8) : List UInt8 :=
  l.take i ++ bytes ++ l.drop (i + bytes.length)

@[simp] theorem unpack_nil : unpack [] = [] := rfl

@[simp] theorem unpack_cons (b : UInt8) (l : List UInt8) :
    unpack (b :: l) = bits 8 b.toNat ++ unpack l := rfl

@[simp] theorem unpack_append (l l' : List UInt8) : unpack (l ++ l') = unpack l ++ unpack l' :=
  List.flatMap_append

@[simp] theorem length_unpack (l : List UInt8) : (unpack l).length = 8 * l.length := by
  induction l with
  | nil => rfl
  | cons b rest ih => simp [ih]; ring

theorem unpack_take (n : ℕ) (l : List UInt8) : unpack (l.take n) = (unpack l).take (8 * n) := by
  induction l generalizing n with
  | nil => simp
  | cons b rest ih =>
    cases n with
    | zero => simp
    | succ n =>
      have hlen := length_bits 8 b.toNat
      have hall : (bits 8 b.toNat).take (8 * (n + 1)) = bits 8 b.toNat :=
        List.take_of_length_le (by omega)
      rw [List.take_succ_cons, unpack_cons, unpack_cons, ih, List.take_append, hall, hlen,
        Nat.mul_succ, Nat.add_sub_cancel]

theorem unpack_drop (n : ℕ) (l : List UInt8) : unpack (l.drop n) = (unpack l).drop (8 * n) := by
  induction l generalizing n with
  | nil => simp
  | cons b rest ih =>
    cases n with
    | zero => simp
    | succ n =>
      have hlen := length_bits 8 b.toNat
      have hnone : (bits 8 b.toNat).drop (8 * (n + 1)) = [] := List.drop_of_length_le (by omega)
      rw [List.drop_succ_cons, unpack_cons, ih, List.drop_append, hnone, hlen, Nat.mul_succ,
        Nat.add_sub_cancel, List.nil_append]

theorem bits_injective {b c : UInt8} (h : bits 8 b.toNat = bits 8 c.toNat) : b = c := by
  have hvalue := congrArg value h
  rw [value_bits_of_lt b.toNat_lt, value_bits_of_lt c.toNat_lt] at hvalue
  exact UInt8.toNat_inj.mp hvalue

theorem unpack_injective {l l' : List UInt8} (h : unpack l = unpack l') : l = l' := by
  induction l generalizing l' with
  | nil =>
    cases l' with
    | nil => rfl
    | cons c rest => simp [bits] at h
  | cons b rest ih =>
    cases l' with
    | nil => simp [bits] at h
    | cons c rest' =>
      rw [unpack_cons, unpack_cons] at h
      obtain ⟨hb, hrest⟩ := List.append_inj h (by simp)
      rw [bits_injective hb, ih hrest]

@[simp] theorem length_leBytes (n word : ℕ) : (leBytes n word).length = n := by simp [leBytes]

theorem leBytes_succ (n word : ℕ) :
    leBytes (n + 1) word = UInt8.ofNat word :: leBytes n (word / 256) := by
  unfold leBytes
  rw [List.range_succ_eq_map, List.map_cons, List.map_map]
  congr 1
  apply List.map_congr_left
  intro i _
  change UInt8.ofNat (word >>> (8 * (i + 1))) = _
  rw [Nat.mul_succ, Nat.add_comm, Nat.shiftRight_add, Nat.shiftRight_eq_div_pow word 8]

theorem unpack_leBytes (n word : ℕ) : unpack (leBytes n word) = bits (8 * n) word := by
  induction n generalizing word with
  | zero => rfl
  | succ n ih =>
    rw [leBytes_succ, unpack_cons, ih, Nat.mul_succ, Nat.add_comm, bits_append, UInt8.toNat_ofNat',
      bits_mod]
    rfl

theorem fromLeBytes_eq (l : List UInt8) : fromLeBytes l = value (unpack l) := by
  induction l with
  | nil => rfl
  | cons b rest ih =>
    rw [unpack_cons, value_append, value_bits_of_lt b.toNat_lt, length_bits, ← ih]
    rfl

theorem length_store {l bytes : List UInt8} {i : ℕ} (h : i + bytes.length ≤ l.length) :
    (store l i bytes).length = l.length := by
  simp only [store, List.length_append, List.length_take, List.length_drop]
  omega

/-- What a byte string's bits are once a word is stored into it. -/
theorem unpack_store (l : List UInt8) (i n word : ℕ) :
    unpack (store l i (leBytes n word))
      = (unpack l).take (8 * i) ++ bits (8 * n) word ++ (unpack l).drop (8 * (i + n)) := by
  rw [store, unpack_append, unpack_append, unpack_take, unpack_drop, unpack_leBytes, length_leBytes]

theorem bits_getElem {l : List UInt8} {i k : ℕ} (hi : i < l.length) (hk : k ≤ 8) :
    bits k (l[i]?.getD 0).toNat = ((unpack l).drop (8 * i)).take k := by
  rw [← unpack_drop, List.drop_eq_getElem_cons hi, unpack_cons, List.getElem?_eq_getElem hi,
    Option.getD_some, List.take_append_of_le_length (by simpa using hk), take_bits hk]

/-- A field stored above the bits already there follows them, and zeros fill its last byte. -/
theorem unpack_store_field {l : List UInt8} {pos width n : ℕ} (v : ℕ)
    (hn : pos % 8 + width ≤ 8 * n) (hlt : pos / 8 < l.length) :
    unpack (store l (pos / 8) (leBytes n
        ((l[pos / 8]?.getD 0).toNat % 2 ^ (pos % 8) + v % 2 ^ width * 2 ^ (pos % 8))))
      = (unpack l).take pos ++ bits width v ++ List.replicate (8 * n - (pos % 8 + width)) false
        ++ (unpack l).drop (8 * (pos / 8 + n)) := by
  have hpos : 8 * (pos / 8) + pos % 8 = pos := Nat.div_add_mod pos 8
  have hused := bits_getElem hlt (Nat.mod_lt pos (by decide : 8 > 0)).le
  have hfield : bits (8 * n - pos % 8) (v % 2 ^ width)
      = bits width v ++ List.replicate (8 * n - (pos % 8 + width)) false := by
    have hsplit : 8 * n - pos % 8 = width + (8 * n - (pos % 8 + width)) := by omega
    rw [hsplit, bits_append, bits_mod, Nat.div_eq_of_lt (Nat.mod_lt v (Nat.two_pow_pos width)),
      bits_zero]
  have hword : bits (8 * n)
        ((l[pos / 8]?.getD 0).toNat % 2 ^ (pos % 8) + v % 2 ^ width * 2 ^ (pos % 8))
      = ((unpack l).drop (8 * (pos / 8))).take (pos % 8)
        ++ (bits width v ++ List.replicate (8 * n - (pos % 8 + width)) false) := by
    have hsplit : 8 * n = pos % 8 + (8 * n - pos % 8) := by omega
    rw [hsplit, bits_concat (Nat.mod_lt _ (Nat.two_pow_pos _)), bits_mod, hused, ← hsplit, hfield]
  have htake : (unpack l).take pos
      = (unpack l).take (8 * (pos / 8)) ++ ((unpack l).drop (8 * (pos / 8))).take (pos % 8) := by
    rw [← List.take_add, hpos]
  rw [unpack_store, hword, htake]
  simp only [List.append_assoc]

theorem fromLeBytes_leBytes {n word : ℕ} (h : word < 2 ^ (8 * n)) :
    fromLeBytes (leBytes n word) = word := by
  rw [fromLeBytes_eq, unpack_leBytes, value_bits_of_lt h]

theorem fromLeBytes_lt (l : List UInt8) : fromLeBytes l < 2 ^ (8 * l.length) := by
  rw [fromLeBytes_eq, ← length_unpack]
  exact value_lt _

/-- A string of bits as bytes, zeros after the last of them. -/
def pack (l : List Bool) : List UInt8 := leBytes ((l.length + 7) / 8) (value l)

@[simp] theorem length_pack (l : List Bool) : (pack l).length = (l.length + 7) / 8 := by
  simp [pack, leBytes]

theorem unpack_pack (l : List Bool) :
    unpack (pack l) = l ++ List.replicate (8 * ((l.length + 7) / 8) - l.length) false := by
  have hlength : 8 * ((l.length + 7) / 8)
      = l.length + (8 * ((l.length + 7) / 8) - l.length) := by omega
  rw [pack, unpack_leBytes, hlength, bits_append, bits_value, Nat.div_eq_of_lt (value_lt l),
    bits_zero, ← hlength]

/-! ## Text -/

def utf8 (text : List Char) : List UInt8 := text.flatMap String.utf8EncodeChar

def ofUtf8? (l : List UInt8) : Option (List Char) := l.toByteArray.utf8Decode?.map Array.toList

theorem ofUtf8?_utf8 (text : List Char) : ofUtf8? (utf8 text) = some text := by
  have h : (utf8 text).toByteArray = text.utf8Encode := rfl
  rw [ofUtf8?, h, List.utf8Decode?_utf8Encode]
  rfl

theorem utf8_ascii {l : List UInt8} (h : ∀ b ∈ l, b < 128) :
    utf8 (l.map fun b => Char.ofNat b.toNat) = l := by
  induction l with
  | nil => rfl
  | cons b rest ih =>
    have hb : b.toNat < 128 := h b List.mem_cons_self
    have hvalid : b.toNat.isValidChar := Or.inl (by omega)
    have hval : (Char.ofNat b.toNat).val.toNat = b.toNat := by
      rw [Char.ofNat, dif_pos hvalid]
      rfl
    have hone : String.utf8EncodeChar (Char.ofNat b.toNat) = [b] := by
      rw [String.utf8EncodeChar, hval, if_pos (by omega), UInt8.ofNat_toNat]
    rw [List.map_cons, utf8, List.flatMap_cons, hone, ← utf8,
      ih fun c hc => h c (List.mem_cons_of_mem b hc)]
    rfl

end Lib.Bytes
