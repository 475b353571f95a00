import Mathlib.Data.Fin.Tuple.Basic
import Mathlib.Data.Fintype.Pi
import BeforeColony.Lib.BitString

/-!
# Bit packing

The writer and the reader over a datagram's bits, lowest bit of each byte first. A field that
doesn't fit is not written, nor is anything after it; past the end the reader reads zeros.
Records are written as lists of fields, straight or packed into words of 32 bits, which
comes to the same bits. `Reads` says that a reader takes exactly these bits for this value.
-/

set_option autoImplicit false

namespace BeforeColony

open Lib Lib.BitString

inductive DecodeError where
  | truncated | wrongKind | invalid | noBaseline
  deriving DecidableEq, Repr

/-- One field: the low `width` bits of `value`. -/
structure Field where
  value : ℕ
  width : ℕ
  deriving DecidableEq, Repr

namespace Field

def bits (f : Field) : List Bool := BitString.bits f.width f.value

def flag (b : Bool) : Field := ⟨b.toNat, 1⟩

/-- A signed field, in two's complement of 32 bits cut to its width. -/
def i32 (c : ℤ) (width : ℕ) : Field := ⟨unsigned 32 c, width⟩

def array {α : Type} {n : ℕ} (g : α → Field) (xs : Fin n → α) : List Field :=
  (List.ofFn xs).map g

def all (fs : List Field) : List Bool := fs.flatMap bits

def widths (fs : List Field) : ℕ := (fs.map width).sum

/-- Fields a writer takes: of 32 bits at most. -/
def Narrow (fs : List Field) : Prop := ∀ f ∈ fs, f.width ≤ 32

@[simp] theorem length_bits (f : Field) : f.bits.length = f.width := BitString.length_bits _ _

@[simp] theorem length_all (fs : List Field) : (all fs).length = widths fs := by
  simp [all, widths, List.length_flatMap]

@[simp] theorem all_nil : all [] = [] := rfl

@[simp] theorem all_cons (f : Field) (fs : List Field) : all (f :: fs) = f.bits ++ all fs := rfl

@[simp] theorem all_append (fs fs' : List Field) : all (fs ++ fs') = all fs ++ all fs' :=
  List.flatMap_append

@[simp] theorem widths_nil : widths [] = 0 := rfl

@[simp] theorem widths_cons (f : Field) (fs : List Field) :
    widths (f :: fs) = f.width + widths fs := by
  simp [widths]

theorem all_array {α : Type} {n : ℕ} (g : α → Field) (xs : Fin n → α) :
    all (array g xs) = (List.ofFn xs).flatMap fun x => (g x).bits := by
  rw [all, array, List.flatMap_map]

theorem widths_array {α : Type} {n width : ℕ} {g : α → Field} (xs : Fin n → α)
    (h : ∀ x, (g x).width = width) : widths (array g xs) = n * width := by
  simp [widths, array, Function.comp_def, h]

@[simp] theorem widths_append (fs fs' : List Field) :
    widths (fs ++ fs') = widths fs + widths fs' := by
  simp [widths]

theorem narrow_nil : Narrow [] := fun _ h => by cases h

theorem Narrow.cons {f : Field} {fs : List Field} (hf : f.width ≤ 32) (h : Narrow fs) :
    Narrow (f :: fs) := by
  intro g hg
  rcases List.mem_cons.mp hg with rfl | hmem
  · exact hf
  · exact h g hmem

theorem Narrow.append {fs fs' : List Field} (h : Narrow fs) (h' : Narrow fs') :
    Narrow (fs ++ fs') := by
  intro g hg
  rcases List.mem_append.mp hg with hmem | hmem
  · exact h g hmem
  · exact h' g hmem

theorem narrow_array {α : Type} {n : ℕ} {g : α → Field} (xs : Fin n → α)
    (h : ∀ x, (g x).width ≤ 32) : Narrow (array g xs) := by
  intro f hf
  obtain ⟨x, -, rfl⟩ := List.mem_map.mp hf
  exact h x

end Field

/-- Writes bit fields, up to `limit` bits. -/
structure BitWriter where
  bits : List Bool
  limit : ℕ
  overflow : Bool
  deriving DecidableEq, Repr

namespace BitWriter

def writeBits (w : BitWriter) (value width : ℕ) : BitWriter :=
  if width = 0 then w
  else if w.overflow ∨ w.limit < w.bits.length + width then { w with overflow := true }
  else { w with bits := w.bits ++ BitString.bits width value }

def bitsRemaining (w : BitWriter) : ℕ := w.limit - w.bits.length

def put (w : BitWriter) (fs : List Field) : BitWriter :=
  fs.foldl (fun w f => w.writeBits f.value f.width) w

def append (w : BitWriter) (bs : List Bool) : BitWriter := { w with bits := w.bits ++ bs }

/-- There is room for `n` more bits. -/
structure Fits (w : BitWriter) (n : ℕ) : Prop where
  ok : w.overflow = false
  room : w.bits.length + n ≤ w.limit

variable {w : BitWriter} {n : ℕ}

@[simp] theorem append_append (w : BitWriter) (bs bs' : List Bool) :
    (w.append bs).append bs' = w.append (bs ++ bs') := by
  simp [append]

@[simp] theorem append_nil (w : BitWriter) : w.append [] = w := by
  simp [append]

theorem Fits.le {m : ℕ} (h : w.Fits n) (hm : m ≤ n) : w.Fits m :=
  ⟨h.ok, (Nat.add_le_add_left hm _).trans h.room⟩

theorem Fits.append {bs : List Bool} {m : ℕ} (h : w.Fits n) (hm : bs.length + m ≤ n) :
    (w.append bs).Fits m := by
  refine ⟨h.ok, ?_⟩
  have hroom := h.room
  simp only [BitWriter.append, List.length_append]
  omega

theorem writeBits_eq {width : ℕ} (value : ℕ) (h : w.Fits width) :
    w.writeBits value width = w.append (BitString.bits width value) := by
  unfold writeBits
  split
  · rename_i hz
    rw [hz, BitString.bits, append_nil]
  · have hroom := h.room
    rw [if_neg]
    · rfl
    · simp [h.ok]
      omega

theorem put_eq {fs : List Field} (h : w.Fits (Field.widths fs)) :
    w.put fs = w.append (Field.all fs) := by
  induction fs generalizing w with
  | nil => simp [put]
  | cons f rest ih =>
    rw [Field.widths_cons] at h
    have hone := writeBits_eq f.value (h.le (Nat.le_add_right _ _))
    have hfits : (w.append f.bits).Fits (Field.widths rest) := h.append (by simp)
    have hrest := ih hfits
    rw [put, List.foldl_cons, hone]
    rw [append_append] at hrest
    exact hrest

end BitWriter

/-- Packs fields into a word before they go to a writer. -/
structure Packer where
  w : BitWriter
  acc : ℕ
  n : ℕ

namespace Packer

def new (w : BitWriter) : Packer := ⟨w, 0, 0⟩

def finish (p : Packer) : BitWriter := p.w.writeBits (p.acc % 2 ^ 32) p.n

def writeBits (p : Packer) (value width : ℕ) : Packer :=
  if width = 0 then p
  else
    let acc := p.acc ||| (value % 2 ^ width) <<< p.n
    let n := p.n + width
    if 32 ≤ n then ⟨p.w.writeBits (acc % 2 ^ 32) 32, acc >>> 32, n - 32⟩
    else { p with acc, n }

def put (p : Packer) (fs : List Field) : Packer :=
  fs.foldl (fun p f => p.writeBits f.value f.width) p

structure Holds (p : Packer) (w : BitWriter) (bs : List Bool) : Prop where
  few : p.n < 32
  small : p.acc < 2 ^ p.n
  ok : p.w.overflow = false
  limit : p.w.limit = w.limit
  bits : p.w.bits ++ BitString.bits p.n p.acc = w.bits ++ bs

theorem holds_new {w : BitWriter} (h : w.overflow = false) : (new w).Holds w [] :=
  ⟨by simp [new], by simp [new], h, rfl, rfl⟩

theorem Holds.writeBits {p : Packer} {w : BitWriter} {bs : List Bool} {width : ℕ}
    (value : ℕ) (h : p.Holds w bs) (hw : width ≤ 32) (hroom : w.bits.length + bs.length + width ≤ w.limit) :
    (p.writeBits value width).Holds w (bs ++ BitString.bits width value) := by
  obtain ⟨hfew, hsmall, hok, hlimit, hbits⟩ := h
  have hlen := congrArg List.length hbits
  simp only [List.length_append, BitString.length_bits] at hlen
  have hor : p.acc ||| (value % 2 ^ width) <<< p.n = p.acc + (value % 2 ^ width) * 2 ^ p.n := by
    rw [Nat.or_comm, ← Nat.shiftLeft_add_eq_or_of_lt hsmall, Nat.shiftLeft_eq, Nat.add_comm]
  have hconcat : BitString.bits (p.n + width) (p.acc + (value % 2 ^ width) * 2 ^ p.n)
      = BitString.bits p.n p.acc ++ BitString.bits width value := by
    rw [bits_concat hsmall, bits_mod]
  have hlt : p.acc + (value % 2 ^ width) * 2 ^ p.n < 2 ^ (p.n + width) := by
    have hv := Nat.mod_lt value (Nat.two_pow_pos width)
    have hmul : (value % 2 ^ width + 1) * 2 ^ p.n ≤ 2 ^ width * 2 ^ p.n :=
      Nat.mul_le_mul_right _ hv
    rw [Nat.pow_add, Nat.mul_comm (2 ^ p.n)]
    rw [Nat.add_mul, Nat.one_mul] at hmul
    omega
  unfold Packer.writeBits
  by_cases hz : width = 0
  · rw [if_pos hz, hz]
    exact ⟨hfew, hsmall, hok, hlimit, by simpa [BitString.bits] using hbits⟩
  rw [if_neg hz, hor]
  generalize p.acc + (value % 2 ^ width) * 2 ^ p.n = acc at *
  by_cases hfull : 32 ≤ p.n + width
  · have hfits : p.w.Fits 32 := ⟨hok, by omega⟩
    have hsplit : p.n + width = 32 + (p.n + width - 32) := by omega
    have hword := BitString.bits_append 32 (p.n + width - 32) acc
    rw [← hsplit, hconcat] at hword
    simp only [if_pos hfull, BitWriter.writeBits_eq _ hfits, bits_mod, Nat.shiftRight_eq_div_pow]
    have hless : p.n + width - 32 < 32 := by omega
    refine ⟨hless, ?_, hok, hlimit, ?_⟩
    · apply Nat.div_lt_of_lt_mul
      rwa [← Nat.pow_add, ← hsplit]
    · rw [BitWriter.append, List.append_assoc, ← hword, ← List.append_assoc, hbits,
        List.append_assoc]
  · simp only [if_neg hfull]
    refine ⟨not_le.mp hfull, hlt, hok, hlimit, ?_⟩
    rw [hconcat, ← List.append_assoc, hbits, List.append_assoc]

theorem Holds.put {p : Packer} {w : BitWriter} {bs : List Bool} {fs : List Field}
    (h : p.Holds w bs) (hw : Field.Narrow fs)
    (hroom : w.bits.length + bs.length + Field.widths fs ≤ w.limit) :
    (p.put fs).Holds w (bs ++ Field.all fs) := by
  induction fs generalizing p bs with
  | nil => simpa [Packer.put] using h
  | cons f rest ih =>
    rw [Field.widths_cons] at hroom
    have hone := h.writeBits f.value (hw f List.mem_cons_self) (by omega)
    have hrest := ih hone (fun g hg => hw g (List.mem_cons_of_mem _ hg)) (by simp; omega)
    rw [Field.all_cons, ← List.append_assoc]
    exact hrest

theorem Holds.finish {p : Packer} {w : BitWriter} {bs : List Bool} (h : p.Holds w bs)
    (hok : w.overflow = false) (hroom : w.bits.length + bs.length ≤ w.limit) :
    p.finish = w.append bs := by
  have hlen := congrArg List.length h.bits
  simp only [List.length_append, BitString.length_bits] at hlen
  have hfits : p.w.Fits p.n := ⟨h.ok, by rw [h.limit]; omega⟩
  have hsmall : p.acc < 2 ^ 32 := h.small.trans (Nat.pow_lt_pow_right (by decide) h.few)
  rw [Packer.finish, BitWriter.writeBits_eq _ hfits, Nat.mod_eq_of_lt hsmall]
  unfold BitWriter.append
  rw [h.bits, h.limit, h.ok, hok]

end Packer

def BitWriter.pack (w : BitWriter) (fs : List Field) : BitWriter := ((Packer.new w).put fs).finish

theorem BitWriter.pack_eq {w : BitWriter} {fs : List Field} (h : w.Fits (Field.widths fs))
    (hw : Field.Narrow fs) : w.pack fs = w.append (Field.all fs) := by
  have hroom := h.room
  have hput := (Packer.holds_new h.ok).put hw (by simpa using hroom)
  rw [List.nil_append] at hput
  exact hput.finish h.ok (by simpa using hroom)

/-! ## Reading -/

/-- What is left to read, and whether something was read past the end. -/
structure BitReader where
  rest : List Bool
  overflow : Bool
  deriving DecidableEq, Repr

/-- Reading, which leaves the reader where it got to, also when it fails. -/
abbrev Read := ExceptT DecodeError (StateM BitReader)

/-- Reads `width` bits; past the end it reads 0 and marks the reader overflowed. -/
def readBits (width : ℕ) : Read ℕ := fun r =>
  if width = 0 then (.ok 0, r)
  else if r.overflow ∨ r.rest.length < width then (.ok 0, { r with overflow := true })
  else (.ok (value (r.rest.take width)), { r with rest := r.rest.drop width })

def readBool : Read Bool := do
  let v ← readBits 1
  return v ≠ 0

/-- A signed value over `width` bits. -/
def readI32 (width : ℕ) : Read ℤ := do
  let raw ← readBits width
  return signed width raw

/-- Reads an array's values one after the other. -/
def readArray {α : Type} (rd : Read α) : (n : ℕ) → Read (Fin n → α)
  | 0 => return Fin.elim0
  | n + 1 => do
    let x ← rd
    let xs ← readArray rd n
    return Fin.cons x xs

def invalid {α : Type} : Read α := throw .invalid

/-- Two reads in turn; the second only if the first has a value. -/
theorem bind_apply {α β : Type} (rd : Read α) (f : α → Read β) (r : BitReader) :
    (rd >>= f) r = match rd r with
      | (.ok a, r') => f a r'
      | (.error e, r') => (.error e, r') := by
  change (match rd r with | (a, r') => ExceptT.bindCont f a r') = _
  cases rd r with
  | mk a r' => cases a <;> rfl

/-- `rd` takes exactly the bits `bs` and makes `a` of them. -/
def Reads {α : Type} (rd : Read α) (bs : List Bool) (a : α) : Prop :=
  ∀ rest, rd ⟨bs ++ rest, false⟩ = (.ok a, ⟨rest, false⟩)

namespace Reads

variable {α β : Type} {rd : Read α} {f : α → Read β} {bs bs' : List Bool} {a : α} {b : β}

theorem pure (a : α) : Reads (Pure.pure a) [] a := fun _ => rfl

theorem step (h : Reads rd bs a) (f : α → Read β) (rest : List Bool) :
    (rd >>= f) ⟨bs ++ rest, false⟩ = f a ⟨rest, false⟩ := by
  rw [bind_apply, h]

theorem bind (h : Reads rd bs a) (h' : Reads (f a) bs' b) : Reads (rd >>= f) (bs ++ bs') b := by
  intro rest
  rw [List.append_assoc, h.step]
  exact h' rest

/-- A reader whose value needs no more bits. -/
theorem map (h : Reads rd bs a) (h' : f a = Pure.pure b) : Reads (rd >>= f) bs b := by
  have hdone : Reads (f a) [] b := by
    rw [h']
    exact Reads.pure b
  have hboth := h.bind hdone
  rwa [List.append_nil] at hboth

theorem bits {v n : ℕ} (h : v < 2 ^ n) : Reads (readBits n) (BitString.bits n v) v := by
  intro rest
  have hlen := BitString.length_bits n v
  unfold readBits
  split
  · rename_i hz
    subst hz
    have hv : v = 0 := by simpa using h
    simp [BitString.bits, hv]
  · rw [if_neg (by simp), List.take_append_of_le_length (by omega), List.take_of_length_le (by omega),
      List.drop_append_of_le_length (by omega), List.drop_of_length_le (by omega),
      value_bits_of_lt h, List.nil_append]

theorem field {v n : ℕ} (h : v < 2 ^ n) : Reads (readBits n) (Field.bits ⟨v, n⟩) v := bits h

theorem bool (b : Bool) : Reads readBool (Field.flag b).bits b := by
  refine (bits (n := 1) (v := b.toNat) (by cases b <;> decide)).map ?_
  cases b <;> rfl

theorem i32 {c : ℤ} {n : ℕ} (hn : 0 < n) (h32 : n ≤ 32) (hlow : -2 ^ (n - 1) ≤ c)
    (hhigh : c < 2 ^ (n - 1)) : Reads (readI32 n) (Field.i32 c n).bits c := by
  have hbits : (Field.i32 c n).bits = BitString.bits n (unsigned n c) := bits_unsigned h32 c
  rw [hbits]
  refine (bits (unsigned_lt n c)).map ?_
  rw [signed_unsigned hn hlow hhigh]

theorem array {n : ℕ} {g : α → List Bool} {xs : Fin n → α} (h : ∀ i, Reads rd (g (xs i)) (xs i)) :
    Reads (readArray rd n) ((List.ofFn xs).flatMap g) xs := by
  induction n with
  | zero =>
    have hxs : xs = Fin.elim0 := funext fun i => i.elim0
    rw [hxs]
    exact Reads.pure _
  | succ n ih =>
    rw [List.ofFn_succ, List.flatMap_cons]
    refine (h 0).bind ((ih fun i => h i.succ).map ?_)
    rw [show Fin.cons (xs 0) (fun i => xs i.succ) = xs from Fin.cons_self_tail xs]

end Reads

end BeforeColony
