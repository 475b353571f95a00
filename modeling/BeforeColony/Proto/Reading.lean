import BeforeColony.Proto.Types
import BeforeColony.Proto.Words

/-!
# Reading whatever comes

A read is safe when all it does is read fields, fail, and look whether it is past the end: then
whatever the bytes are it ends, within them, and what it makes is as it says. The reader it leaves
is one that reads of words leave, none of them out of bounds.
-/

set_option autoImplicit false

namespace BeforeColony

open Lib

/-- Fails if something was read past the end. -/
def check : Read Unit := fun r => (if r.overflow then .error .truncated else .ok (), r)

/-- Reads it, and fails if that went past the end. -/
def whole {α : Type} (rd : Read α) : Read α := do
  let a ← rd
  check
  return a

/-- The value a code stands for, which it must have. -/
def orInvalid {α : Type} : Option α → Read α
  | some a => return a
  | none => invalid

/-- A read made of fields of at most 32 bits, whatever it makes being such. -/
inductive Safe : {α : Type} → Read α → (α → Prop) → Prop where
  | pure {α : Type} {P : α → Prop} {a : α} (ha : P a) : Safe (pure a) P
  | fail {α : Type} {P : α → Prop} {e : DecodeError} (he : e ≠ .truncated) : Safe (throw e : Read α) P
  | bits {n : ℕ} (hn : n ≤ 32) : Safe (readBits n) fun v => v < 2 ^ n
  | check : Safe check fun _ => True
  | bind {α β : Type} {P : α → Prop} {Q : β → Prop} {rd : Read α} {f : α → Read β}
      (h : Safe rd P) (hf : ∀ a, P a → Safe (f a) Q) : Safe (rd >>= f) Q
  | mono {α : Type} {P Q : α → Prop} {rd : Read α} (h : Safe rd P) (hPQ : ∀ a, P a → Q a) : Safe rd Q

/-- A reader further on: no more left to read, and past the end if it was. -/
structure BitReader.Onward (r r' : BitReader) : Prop where
  rest : r'.rest <:+ r.rest
  overflow : r.overflow = true → r'.overflow = true

namespace BitReader.Onward

variable {r r' r'' : BitReader}

theorem refl (r : BitReader) : Onward r r := ⟨List.suffix_rfl, id⟩

theorem trans (h : Onward r r') (h' : Onward r' r'') : Onward r r'' :=
  ⟨h'.rest.trans h.rest, h'.overflow ∘ h.overflow⟩

theorem length_le (h : Onward r r') : r'.rest.length ≤ r.rest.length := h.rest.length_le

end BitReader.Onward

theorem readBits_onward (n : ℕ) (r : BitReader) : r.Onward (readBits n r).2 := by
  unfold readBits
  split
  · exact .refl r
  · split
    · exact ⟨List.suffix_rfl, fun _ => rfl⟩
    · exact ⟨List.drop_suffix _ _, id⟩

theorem readBits_lt {n v : ℕ} {r r' : BitReader} (h : readBits n r = (.ok v, r')) : v < 2 ^ n := by
  unfold readBits at h
  split at h
  · cases h
    exact Nat.two_pow_pos n
  · split at h
    · cases h
      exact Nat.two_pow_pos n
    · cases h
      refine (BitString.value_lt _).trans_le (Nat.pow_le_pow_right (by decide) ?_)
      rw [List.length_take]
      exact min_le_left _ _

theorem readBits_one {r r' : BitReader} (h : readBits 1 r = (.ok 1, r')) :
    r'.rest.length + 1 = r.rest.length ∧ r'.overflow = false := by
  unfold readBits at h
  split at h
  · cases h
  · split at h
    · cases h
    · rename_i hroom
      obtain ⟨-, rfl⟩ := Prod.mk.inj h
      obtain ⟨hok, hlong⟩ := not_or.mp hroom
      refine ⟨?_, Bool.eq_false_iff.mpr hok⟩
      rw [List.length_drop, Nat.sub_add_cancel (not_lt.mp hlong)]

theorem readBool_true {r r' : BitReader} (h : readBool r = (.ok true, r')) :
    r'.rest.length + 1 = r.rest.length ∧ r'.overflow = false := by
  rw [readBool, bind_apply] at h
  split at h
  · rename_i v r₀ heq
    obtain ⟨hv, rfl⟩ := Prod.mk.inj h
    have hne : v ≠ 0 := of_decide_eq_true (Except.ok.inj hv)
    have hlt : v < 2 := readBits_lt heq
    have hone : v = 1 := by omega
    rw [hone] at heq
    exact readBits_one heq
  · cases h

namespace Safe

variable {α β : Type} {P : α → Prop} {Q : β → Prop} {rd : Read α} {r r' : BitReader} {a : α}

theorem invalid : Safe (BeforeColony.invalid : Read α) P := .fail nofun

/-- A value whose reading needs no more bits. -/
theorem map {f : α → β} (h : Safe rd P) (hf : ∀ a, P a → Q (f a)) : Safe (rd >>= fun a => Pure.pure (f a)) Q :=
  h.bind fun a ha => .pure (hf a ha)

theorem any (h : Safe rd P) : Safe rd fun _ => True := h.mono fun _ _ => trivial

theorem bool : Safe readBool fun _ => True := (bits (by decide)).map fun _ _ => trivial

theorem i32 {n : ℕ} (hpos : 0 < n) (hn : n ≤ 32) :
    Safe (readI32 n) fun c => -2 ^ (n - 1) ≤ c ∧ c < 2 ^ (n - 1) :=
  (bits hn).map fun _ hv => BitString.signed_mem hpos hv

theorem array (h : Safe rd P) (n : ℕ) : Safe (readArray rd n) fun xs => ∀ i, P (xs i) := by
  induction n with
  | zero => exact .pure nofun
  | succ n ih =>
    refine h.bind fun x hx => ih.map fun xs hxs i => ?_
    cases i using Fin.cases with
    | zero => exact hx
    | succ i => exact hxs i

theorem orInvalid (o : Option α) : Safe (BeforeColony.orInvalid o) fun a => o = some a := by
  cases o with
  | none => exact invalid
  | some a => exact .pure rfl

theorem whole (h : Safe rd P) : Safe (BeforeColony.whole rd) P :=
  h.bind fun _ ha => check.bind fun _ _ => .pure ha

theorem ok (h : Safe rd P) (hrd : rd r = (.ok a, r')) : P a := by
  induction h generalizing r r' with
  | pure ha =>
    cases hrd
    exact ha
  | fail he => cases hrd
  | bits hn => exact readBits_lt hrd
  | check => trivial
  | bind h hf ih ihf =>
    rw [bind_apply] at hrd
    split at hrd
    · rename_i a₀ r₀ hone
      exact ihf a₀ (ih hone) hrd
    · cases hrd
  | mono h hPQ ih => exact hPQ _ (ih hrd)

/-- It goes on from where it was, whether it fails or not. -/
theorem onward (h : Safe rd P) (r : BitReader) : r.Onward (rd r).2 := by
  induction h generalizing r with
  | pure ha => exact .refl r
  | fail he => exact .refl r
  | bits hn => exact readBits_onward _ r
  | check => exact .refl r
  | @bind _ _ _ _ rd f h hf ih ihf =>
    have hone := ih r
    rw [bind_apply]
    split
    · rename_i a r₀ heq
      rw [heq] at hone
      exact hone.trans (ihf a (h.ok heq) r₀)
    · rename_i e r₀ heq
      rw [heq] at hone
      exact hone
  | mono h hPQ ih => exact ih r

/-- It says the bytes are cut short only past their end. -/
theorem truncated (h : Safe rd P) (hrd : rd r = (.error .truncated, r')) : r'.overflow = true := by
  induction h generalizing r r' with
  | pure ha => cases hrd
  | fail he =>
    cases hrd
    exact (he rfl).elim
  | @bits n hn =>
    have hvalue : ∃ v, (readBits n r).1 = .ok v := by
      unfold readBits
      split
      · exact ⟨_, rfl⟩
      · split <;> exact ⟨_, rfl⟩
    obtain ⟨v, hv⟩ := hvalue
    rw [hrd] at hv
    cases hv
  | check =>
    obtain ⟨hover, rfl⟩ := Prod.mk.inj hrd
    by_contra hnot
    rw [if_neg hnot] at hover
    cases hover
  | bind h hf ih ihf =>
    rw [bind_apply] at hrd
    split at hrd
    · rename_i a r₀ heq
      exact ihf a (h.ok heq) hrd
    · rename_i e r₀ heq
      cases hrd
      exact ih heq
  | mono h hPQ ih => exact ih hrd

end Safe

theorem bind_ok_iff {α β : Type} {rd : Read α} {f : α → Read β} {r r' : BitReader} {b : β} :
    (rd >>= f) r = (.ok b, r') ↔ ∃ a r₀, rd r = (.ok a, r₀) ∧ f a r₀ = (.ok b, r') := by
  rw [bind_apply]
  constructor
  · intro h
    split at h
    · rename_i a r₀ heq
      exact ⟨a, r₀, heq, h⟩
    · cases h
  · rintro ⟨a, r₀, heq, h⟩
    rw [heq]
    exact h

theorem check_bind_iff {β : Type} {f : Unit → Read β} {r r' : BitReader} {b : β} :
    (check >>= f) r = (.ok b, r') ↔ r.overflow = false ∧ f () r = (.ok b, r') := by
  rw [bind_ok_iff]
  constructor
  · rintro ⟨_, r₀, hcheck, h⟩
    obtain ⟨hok, rfl⟩ := Prod.mk.inj hcheck
    split at hok
    · cases hok
    · rename_i hover
      exact ⟨Bool.eq_false_of_not_eq_true hover, h⟩
  · rintro ⟨hover, h⟩
    exact ⟨(), r, by rw [check, hover]; rfl, h⟩

theorem whole_ok_iff {α : Type} {rd : Read α} {r r' : BitReader} {a : α} :
    whole rd r = (.ok a, r') ↔ rd r = (.ok a, r') ∧ r'.overflow = false := by
  rw [whole, bind_ok_iff]
  simp only [check_bind_iff]
  constructor
  · rintro ⟨a₀, r₀, hrd, hover, hpure⟩
    obtain ⟨⟨⟩, rfl⟩ := Prod.mk.inj hpure
    exact ⟨hrd, hover⟩
  · rintro ⟨hrd, hover⟩
    exact ⟨a, r', hrd, hover, rfl⟩

theorem whole_ok {α : Type} {rd : Read α} {r r' : BitReader} {a : α} (h : whole rd r = (.ok a, r')) :
    rd r = (.ok a, r') ∧ r'.overflow = false :=
  whole_ok_iff.mp h

/-! ## Bodies, vectors and rotations -/

theorem BodyRef.safe_read : Safe BodyRef.read BodyRef.InRange := by
  refine .bind (.bits (by decide)) fun kind hkind => ?_
  split
  · exact (Safe.bits (by decide)).map fun _ hv => hv
  · exact (Safe.bits (by decide)).map fun _ hv => hv
  · exact .pure trivial
  · exact (Safe.bits (by decide)).map fun _ hv => hv

/-- A unit quaternion's smallest-three code. -/
structure Quat where
  largest : ℕ
  codes : Fin 3 → ℕ
  deriving DecidableEq

def readVec (bits : ℕ) : Read (Fin 3 → ℕ) := readArray (readBits bits) 3

def readDir (bits : ℕ) : Read (Fin 2 → ℕ) := readArray (readBits bits) 2

def readQuat (bits : ℕ) : Read Quat := do
  let largest ← readBits 2
  let codes ← readArray (readBits bits) 3
  return { largest, codes }

theorem safe_vec {bits : ℕ} (h : bits ≤ 32) : Safe (readVec bits) fun v => ∀ k, v k < 2 ^ bits :=
  (Safe.bits h).array 3

theorem safe_dir {bits : ℕ} (h : bits ≤ 32) : Safe (readDir bits) fun v => ∀ k, v k < 2 ^ bits :=
  (Safe.bits h).array 2

theorem safe_quat {bits : ℕ} (h : bits ≤ 32) :
    Safe (readQuat bits) fun q => q.largest < 2 ^ 2 ∧ ∀ k, q.codes k < 2 ^ bits :=
  .bind (.bits (by decide)) fun _ hlargest =>
    ((Safe.bits h).array 3).map fun _ hcodes => ⟨hlargest, hcodes⟩

/-! ## Through words -/

namespace Words.BitReader

def readBits? (r : BitReader) (width : ℕ) : Option (ℕ × BitReader) :=
  if width = 0 ∨ r.overflow ∨ r.buf.length * 8 < r.bitPos + width then some (r.readBits width)
  else if r.bitPos >>> 3 ≤ min (r.bitPos >>> 3 + 8) r.buf.length then some (r.readBits width)
  else none

/-- Reads fields of these widths one after the other, if none is out of bounds. -/
def get? (r : BitReader) : List ℕ → Option BitReader
  | [] => some r
  | width :: rest => (r.readBits? width).bind fun o => o.2.get? rest

theorem readBits?_eq (r : BitReader) (width : ℕ) : r.readBits? width = some (r.readBits width) := by
  unfold readBits?
  split
  · rfl
  · rename_i hread
    simp only [not_or, not_lt] at hread
    rw [if_pos]
    rw [byte_eq]
    omega

theorem get?_append (r : BitReader) (widths widths' : List ℕ) :
    r.get? (widths ++ widths') = (r.get? widths).bind fun r' => r'.get? widths' := by
  induction widths generalizing r with
  | nil => rfl
  | cons width rest ih =>
    simp only [List.cons_append, get?, Option.bind_assoc, ih]

end Words.BitReader

def Words.BitReader.Leads (r r' : Words.BitReader) : Prop :=
  ∃ widths : List ℕ, (∀ width ∈ widths, width ≤ 32) ∧ r.get? widths = some r'

namespace Words.BitReader

variable {r r' r'' : BitReader}

theorem Leads.refl (r : BitReader) : r.Leads r := ⟨[], nofun, rfl⟩

theorem Leads.trans (h : r.Leads r') (h' : r'.Leads r'') : r.Leads r'' := by
  obtain ⟨widths, hnarrow, hget⟩ := h
  obtain ⟨widths', hnarrow', hget'⟩ := h'
  refine ⟨widths ++ widths', ?_, ?_⟩
  · intro width hwidth
    rcases List.mem_append.mp hwidth with hwidth | hwidth
    · exact hnarrow width hwidth
    · exact hnarrow' width hwidth
  · rw [get?_append, hget, Option.bind_some, hget']

end Words.BitReader

theorem Safe.leads {α : Type} {P : α → Prop} {rd : Read α} (h : Safe rd P) {r : Words.BitReader}
    (hr : r.Within) : ∃ r', r.Leads r' ∧ r'.Within ∧ (rd r.view).2 = r'.view := by
  induction h generalizing r with
  | pure ha => exact ⟨r, .refl r, hr, rfl⟩
  | fail he => exact ⟨r, .refl r, hr, rfl⟩
  | @bits n hn =>
    refine ⟨(r.readBits n).2, ⟨[n], ?_, ?_⟩, hr.readBits n, ?_⟩
    · intro width hwidth
      rw [List.mem_singleton] at hwidth
      exact hwidth ▸ hn
    · simp only [Words.BitReader.get?, Words.BitReader.readBits?_eq, Option.bind_some]
    · rw [hr.view_readBits hn]
  | check => exact ⟨r, .refl r, hr, rfl⟩
  | @bind _ _ P Q rd f h hf ih ihf =>
    obtain ⟨r₁, hlead, hwithin, hview⟩ := ih hr
    rw [bind_apply]
    split
    · rename_i a r₀ heq
      rw [heq] at hview
      obtain ⟨r₂, hlead', hwithin', hview'⟩ := ihf a (h.ok heq) hwithin
      refine ⟨r₂, hlead.trans hlead', hwithin', ?_⟩
      rw [← hview', ← hview]
    · rename_i e r₀ heq
      rw [heq] at hview
      exact ⟨r₁, hlead, hwithin, hview⟩
  | mono h hPQ ih => exact ih hr

end BeforeColony
