import BeforeColony.Auth.Base58

/-!
# base64url

What a pass is written in: six bits a character, with no padding. The decoder gives the whole bytes
of a text and forgets what is left over.
-/

set_option autoImplicit false

namespace BeforeColony.Auth

open Lib Lib.Radix

/-- A character's six bits. -/
def sextet (c : UInt8) : Option ℕ :=
  if 65 ≤ c ∧ c ≤ 90 then some (c - 65).toNat
  else if 97 ≤ c ∧ c ≤ 122 then some (c - 97 + 26).toNat
  else if 48 ≤ c ∧ c ≤ 57 then some (c - 48 + 52).toNat
  else if c = 45 then some 62
  else if c = 95 then some 63
  else none

/-- A text decoded so far: the last bits read, in a word of 32, those of them not written yet, and
the bytes written. -/
structure Decoding where
  bits : ℕ
  held : ℕ
  out : List UInt8

def base64Step (cap : ℕ) (d : Decoding) (c : UInt8) : Option Decoding :=
  match sextet c with
  | none => none
  | some v =>
    let bits := (d.bits * 64 + v) % 2 ^ 32
    if 8 ≤ d.held + 6 then
      if d.out.length < cap then
        some ⟨bits, d.held - 2, d.out ++ [UInt8.ofNat (bits / 2 ^ (d.held - 2))]⟩
      else none
    else some ⟨bits, d.held + 6, d.out⟩

def base64url (cap : ℕ) (s : List UInt8) : Option (List UInt8) :=
  (s.foldlM (base64Step cap) ⟨0, 0, []⟩).map (·.out)

/-! ## What is decoded -/

def bytesValue (l : List UInt8) : ℕ := horner 256 0 (l.map UInt8.toNat)

theorem bytesValue_concat (l : List UInt8) (b : UInt8) :
    bytesValue (l ++ [b]) = 256 * bytesValue l + b.toNat := by
  rw [bytesValue, List.map_append, horner_append]
  rfl

/-- `d` holds the whole bytes of what the characters so far spell. -/
structure Decoding.Reads (d : Decoding) (vs : List ℕ) : Prop where
  bits : d.bits = horner 64 0 vs % 2 ^ 32
  held : d.held = 6 * vs.length % 8
  length : d.out.length = 6 * vs.length / 8
  value : bytesValue d.out = horner 64 0 vs / 2 ^ (6 * vs.length % 8)

theorem horner_concat (vs : List ℕ) (v : ℕ) : horner 64 0 (vs ++ [v]) = 64 * horner 64 0 vs + v :=
  horner_append 0 vs [v]

theorem sextet_lt {c : UInt8} {v : ℕ} (h : sextet c = some v) : v < 64 := by
  have hall : ∀ n < 256, ∀ v ∈ sextet (UInt8.ofNat n), v < 64 := by decide +kernel
  have := hall c.toNat c.toNat_lt v
  rw [UInt8.ofNat_toNat] at this
  exact this h

theorem Decoding.Reads.step {cap : ℕ} {d : Decoding} {vs : List ℕ} (h : d.Reads vs) {c : UInt8} {v : ℕ}
    (hc : sextet c = some v) (hcap : 6 * (vs ++ [v]).length / 8 ≤ cap) :
    ∃ d', base64Step cap d c = some d' ∧ d'.Reads (vs ++ [v]) := by
  have hv := sextet_lt hc
  have hbits : (d.bits * 64 + v) % 2 ^ 32 = horner 64 0 (vs ++ [v]) % 2 ^ 32 := by
    rw [h.bits, horner_concat, Nat.add_mod, Nat.mod_mul_mod, ← Nat.add_mod, Nat.mul_comm]
  have hheld := h.held
  have hlen := h.length
  have hvalue := h.value
  rw [List.length_append, List.length_singleton] at hcap
  simp only [base64Step, hc]
  by_cases hfull : 8 ≤ d.held + 6
  · rw [if_pos hfull, if_pos (by omega)]
    refine ⟨_, rfl, hbits, ?_, ?_, ?_⟩
    · simp only [List.length_append, List.length_singleton]
      omega
    · simp only [List.length_append, List.length_singleton]
      omega
    · have hbyte (x : ℕ) : (UInt8.ofNat x).toNat = x % 256 := rfl
      have hnext : 6 * (vs.length + 1) % 8 = d.held - 2 := by omega
      rw [List.length_append, List.length_singleton, hnext, bytesValue_concat, hbyte, hvalue, ← hheld,
        hbits, horner_concat]
      -- two, four or six bits were left over
      obtain hbits | hbits | hbits : d.held = 2 ∨ d.held = 4 ∨ d.held = 6 := by omega
      · rw [hbits]
        omega
      · rw [hbits]
        omega
      · rw [hbits]
        omega
  · rw [if_neg hfull]
    refine ⟨_, rfl, hbits, ?_, ?_, ?_⟩
    · simp only [List.length_append, List.length_singleton]
      omega
    · simp only [List.length_append, List.length_singleton]
      omega
    · have hzero : 6 * vs.length % 8 = 0 := by omega
      have hsix : 6 * (vs.length + 1) % 8 = 6 := by omega
      rw [hzero, pow_zero, Nat.div_one] at hvalue
      rw [List.length_append, List.length_singleton, hsix, horner_concat, hvalue]
      omega

theorem Decoding.Reads.of_step {cap : ℕ} {d d' : Decoding} {vs : List ℕ} (h : d.Reads vs) {c : UInt8}
    (hcap : d.out.length ≤ cap) (hstep : base64Step cap d c = some d') :
    ∃ v, sextet c = some v ∧ d'.Reads (vs ++ [v]) ∧ d'.out.length ≤ cap := by
  cases hc : sextet c with
  | none =>
    rw [base64Step, hc] at hstep
    cases hstep
  | some v =>
    have hlen := h.length
    have hheld := h.held
    have hroom : d'.out.length ≤ cap ∧ d'.out.length = 6 * (vs ++ [v]).length / 8 := by
      rw [List.length_append, List.length_singleton]
      simp only [base64Step, hc] at hstep
      split at hstep
      · split at hstep
        · cases hstep
          simp only [List.length_append, List.length_singleton]
          omega
        · cases hstep
      · cases hstep
        simp only
        omega
    obtain ⟨d'', hd'', hreads⟩ := h.step hc (hroom.2 ▸ hroom.1)
    rw [hstep] at hd''
    cases hd''
    exact ⟨v, rfl, hreads, hroom.1⟩

theorem Decoding.Reads.run {cap : ℕ} {d : Decoding} {vs ws : List ℕ} (h : d.Reads vs) {s : List UInt8}
    (hs : s.mapM sextet = some ws) (hcap : 6 * (vs ++ ws).length / 8 ≤ cap) :
    ∃ d', s.foldlM (base64Step cap) d = some d' ∧ d'.Reads (vs ++ ws) := by
  induction s generalizing d vs ws with
  | nil =>
    rw [List.mapM_nil] at hs
    cases hs
    exact ⟨d, rfl, by rwa [List.append_nil]⟩
  | cons c s ih =>
    rw [List.mapM_cons, Option.bind_eq_bind, Option.bind_eq_some_iff] at hs
    obtain ⟨v, hc, hs⟩ := hs
    rw [Option.bind_eq_bind, Option.bind_eq_some_iff] at hs
    obtain ⟨ws', hs, hws⟩ := hs
    cases hws
    rw [List.append_cons] at hcap ⊢
    have hhere : 6 * (vs ++ [v]).length / 8 ≤ cap := by
      rw [List.length_append] at hcap
      omega
    obtain ⟨next, hnext, hreads⟩ := h.step hc hhere
    obtain ⟨last, hlast, hend⟩ := ih hreads hs hcap
    refine ⟨last, ?_, hend⟩
    rw [List.foldlM_cons, hnext]
    exact hlast

theorem Decoding.Reads.of_run {cap : ℕ} {d d' : Decoding} {vs : List ℕ} (h : d.Reads vs)
    (hcap : d.out.length ≤ cap) {s : List UInt8} (hs : s.foldlM (base64Step cap) d = some d') :
    ∃ ws, s.mapM sextet = some ws ∧ d'.Reads (vs ++ ws) ∧ d'.out.length ≤ cap := by
  induction s generalizing d vs with
  | nil =>
    cases hs
    exact ⟨[], rfl, by rwa [List.append_nil], hcap⟩
  | cons c s ih =>
    rw [List.foldlM_cons, Option.bind_eq_bind, Option.bind_eq_some_iff] at hs
    obtain ⟨next, hnext, hs⟩ := hs
    obtain ⟨v, hc, hreads, hroom⟩ := h.of_step hcap hnext
    obtain ⟨ws, hws, hend, hfits⟩ := ih hreads hroom hs
    refine ⟨v :: ws, ?_, by rwa [List.append_cons], hfits⟩
    rw [List.mapM_cons, hc, hws]
    rfl

theorem reads_nil : Decoding.Reads ⟨0, 0, []⟩ [] := ⟨rfl, rfl, rfl, rfl⟩

/-- A text is taken when all its characters are in the alphabet and its whole bytes fit, and those
bytes are what comes out of it: the bits left over may be anything. -/
theorem base64url_eq_some_iff {cap : ℕ} {s out : List UInt8} : base64url cap s = some out ↔
    ∃ vs, s.mapM sextet = some vs ∧ out.length = 6 * vs.length / 8 ∧ out.length ≤ cap
      ∧ bytesValue out = horner 64 0 vs / 2 ^ (6 * vs.length % 8) := by
  constructor
  · intro h
    obtain ⟨d, hd, rfl⟩ := Option.map_eq_some_iff.mp h
    obtain ⟨ws, hws, hreads, hfits⟩ := reads_nil.of_run (Nat.zero_le _) hd
    exact ⟨ws, hws, hreads.length, hfits, hreads.value⟩
  · rintro ⟨vs, hvs, hlength, hcap, hvalue⟩
    obtain ⟨d, hd, hreads⟩ := reads_nil.run hvs (hlength ▸ hcap)
    refine Option.map_eq_some_iff.mpr ⟨d, hd, bytes_inj (hreads.length.trans hlength.symm) ?_⟩
    exact hreads.value.trans hvalue.symm

/-! ## What is encoded -/

def base64Alphabet : List UInt8 :=
  ascii "ABCDEFGHIJKLMNOPQRSTUVWXYZabcdefghijklmnopqrstuvwxyz0123456789-_"

/-- Three bytes are four times six bits; zeros fill up the last six. -/
def sextets : List UInt8 → List ℕ
  | a :: b :: c :: rest =>
    a.toNat / 4 :: (a.toNat % 4 * 16 + b.toNat / 16) :: (b.toNat % 16 * 4 + c.toNat / 64)
      :: c.toNat % 64 :: sextets rest
  | [a, b] => [a.toNat / 4, a.toNat % 4 * 16 + b.toNat / 16, b.toNat % 16 * 4]
  | [a] => [a.toNat / 4, a.toNat % 4 * 16]
  | [] => []

def base64Write (bytes : List UInt8) : List UInt8 := (sextets bytes).map fun v => base64Alphabet.getD v 0

theorem sextets_lt (l : List UInt8) : ∀ v ∈ sextets l, v < 64 := by
  fun_induction sextets l with
  | case1 a b c rest ih =>
    have ha := a.toNat_lt
    have hb := b.toNat_lt
    have hc := c.toNat_lt
    simp only [List.forall_mem_cons]
    exact ⟨by omega, by omega, by omega, by omega, ih⟩
  | case2 a b =>
    have ha := a.toNat_lt
    have hb := b.toNat_lt
    simp only [List.forall_mem_cons]
    exact ⟨by omega, by omega, by omega, by simp⟩
  | case3 a =>
    have ha := a.toNat_lt
    simp only [List.forall_mem_cons]
    exact ⟨by omega, by omega, by simp⟩
  | case4 => simp

theorem length_sextets (l : List UInt8) : 6 * (sextets l).length / 8 = l.length := by
  have hboth : 6 * (sextets l).length / 8 = l.length ∧ 6 * (sextets l).length % 8 < 6 := by
    fun_induction sextets l with
    | case1 a b c rest ih =>
      simp only [List.length_cons]
      omega
    | case2 a b => simp
    | case3 a => simp
    | case4 => simp
  exact hboth.1

theorem horner_sextets (v : ℕ) (l : List UInt8) :
    horner 64 v (sextets l) / 2 ^ (6 * (sextets l).length % 8) = horner 256 v (l.map UInt8.toNat) := by
  fun_induction sextets l generalizing v with
  | case1 a b c rest ih =>
    have hlength : 6 * ((sextets rest).length + 1 + 1 + 1 + 1) % 8 = 6 * (sextets rest).length % 8 := by
      omega
    have hgroup : 64 * (64 * (64 * (64 * v + a.toNat / 4) + (a.toNat % 4 * 16 + b.toNat / 16))
        + (b.toNat % 16 * 4 + c.toNat / 64)) + c.toNat % 64
        = 256 * (256 * (256 * v + a.toNat) + b.toNat) + c.toNat := by omega
    simp only [List.length_cons, hlength, horner, List.foldl_cons, List.map_cons]
    rw [hgroup]
    exact ih _
  | case2 a b =>
    rw [List.length_cons, List.length_cons, List.length_singleton, show 6 * (1 + 1 + 1) % 8 = 2 from rfl]
    change (64 * (64 * (64 * v + a.toNat / 4) + (a.toNat % 4 * 16 + b.toNat / 16))
      + b.toNat % 16 * 4) / 2 ^ 2 = 256 * (256 * v + a.toNat) + b.toNat
    omega
  | case3 a =>
    rw [List.length_cons, List.length_singleton, show 6 * (1 + 1) % 8 = 4 from rfl]
    change (64 * (64 * v + a.toNat / 4) + a.toNat % 4 * 16) / 2 ^ 4 = 256 * v + a.toNat
    omega
  | case4 => exact Nat.div_one v

/-- Bytes come back from their text, into a buffer they fit. -/
theorem base64url_write {cap : ℕ} {bytes : List UInt8} (h : bytes.length ≤ cap) :
    base64url cap (base64Write bytes) = some bytes := by
  have hchar : ∀ v < 64, sextet (base64Alphabet.getD v 0) = some v := by
    rw [base64Alphabet, ascii_ofList]
    decide +kernel
  have hread : (base64Write bytes).mapM sextet = some (sextets bytes) := by
    have hall := sextets_lt bytes
    rw [base64Write]
    generalize sextets bytes = vs at hall
    induction vs with
    | nil => rfl
    | cons v vs ih =>
      rw [List.map_cons, List.mapM_cons, hchar v (hall v List.mem_cons_self),
        ih fun w hw => hall w (List.mem_cons_of_mem v hw)]
      rfl
  exact base64url_eq_some_iff.mpr ⟨sextets bytes, hread, (length_sextets bytes).symm, h,
    (horner_sextets 0 bytes).symm⟩

end BeforeColony.Auth
