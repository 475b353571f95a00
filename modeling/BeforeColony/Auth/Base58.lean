import BeforeColony.Auth.SignIn
import BeforeColony.Lib.Radix

/-!
# Base58

A Solana wallet's key as it is written: the 32 bytes as one number in base 58, with a `1` for each
zero byte in front. The key is read back the same way, and only from the one text that it writes.
-/

set_option autoImplicit false

namespace BeforeColony.Auth

open Lib Lib.Radix

def base58 : List UInt8 := ascii "123456789ABCDEFGHJKLMNPQRSTUVWXYZabcdefghijkmnopqrstuvwxyz"

def base58Digits (key : Block solanaKeyBytes) : List ℕ :=
  (key.val.map UInt8.toNat).foldl (grow 58 256 maxPlayerId) []

def leadingZeros (key : Block solanaKeyBytes) : ℕ := (key.val.takeWhile (· = 0)).length

def base58Write (key : Block solanaKeyBytes) : List UInt8 :=
  List.replicate (leadingZeros key) 49
    ++ (base58Digits key).reverse.map fun d => base58.getD d 0

/-- One character more, unless it's no digit or carries out of the key. -/
def base58Step (key : Block solanaKeyBytes) (c : UInt8) : Option (Block solanaKeyBytes) :=
  match base58.findIdx? (· == c) with
  | none => none
  | some digit =>
    let r := mulAdd 256 58 digit (key.val.reverse.map UInt8.toNat)
    if r.2 ≠ 0 then none
    else some ⟨(r.1.map UInt8.ofNat).reverse, by simp [r, key.property]⟩

/-- The public key a Solana address spells: 32 to 44 characters, exactly the text of 32 bytes. -/
def base58Key (s : List UInt8) : Option (Block solanaKeyBytes) :=
  if 32 ≤ s.length ∧ s.length ≤ maxPlayerId then
    match s.foldlM base58Step (Block.zero solanaKeyBytes) with
    | some key => if base58Write key = s then some key else none
    | none => none
  else none

/-! ## The number a key is -/

def keyValue (key : Block solanaKeyBytes) : ℕ := horner 256 0 (key.val.map UInt8.toNat)

theorem toNat_lt_of_mem {l : List UInt8} : ∀ d ∈ l.map UInt8.toNat, d < 256 := by
  intro d hd
  obtain ⟨b, -, rfl⟩ := List.mem_map.mp hd
  exact b.toNat_lt

theorem keyValue_eq (key : Block solanaKeyBytes) :
    keyValue key = Nat.ofDigits 256 (key.val.reverse.map UInt8.toNat) := by
  rw [keyValue, ← horner_reverse, ← List.map_reverse, List.reverse_reverse]

theorem bytes_inj {l l' : List UInt8} (hlength : l.length = l'.length)
    (h : horner 256 0 (l.map UInt8.toNat) = horner 256 0 (l'.map UInt8.toNat)) : l = l' := by
  refine List.map_injective_iff.mpr (fun a b => UInt8.toNat_inj.mp) ?_
  exact horner_inj (by decide) (by simp [hlength]) toNat_lt_of_mem toNat_lt_of_mem h

theorem keyValue_inj {key key' : Block solanaKeyBytes} (h : keyValue key = keyValue key') :
    key = key' :=
  Subtype.ext (bytes_inj (key.property.trans key'.property.symm) h)

theorem keyValue_lt (key : Block solanaKeyBytes) : keyValue key < 256 ^ 32 := by
  rw [keyValue_eq]
  refine (Nat.ofDigits_lt_base_pow_length (by decide) toNat_lt_of_mem).trans_eq ?_
  rw [List.length_map, List.length_reverse, key.property, solanaKeyBytes]

theorem base58Digits_eq (key : Block solanaKeyBytes) :
    base58Digits key = Nat.digits 58 (keyValue key) := by
  have hroom : keyValue key < 58 ^ maxPlayerId := (keyValue_lt key).trans (by decide)
  rw [keyValue] at hroom
  rw [base58Digits, keyValue, ← foldl_grow (by decide) (by decide) hroom, Nat.digits_zero]

/-! ## How long a text is -/

theorem leadingZeros_eq (key : Block solanaKeyBytes) :
    leadingZeros key = ((key.val.map UInt8.toNat).takeWhile (· = 0)).length := by
  have hsame : (fun b : UInt8 => decide (b = 0)) = (fun n : ℕ => decide (n = 0)) ∘ UInt8.toNat := by
    funext b
    exact decide_eq_decide.mpr (UInt8.toNat_inj (b := 0)).symm
  rw [leadingZeros, List.takeWhile_map, List.length_map, hsame]

theorem leadingZeros_le (key : Block solanaKeyBytes) : leadingZeros key ≤ 32 :=
  (List.takeWhile_sublist _).length_le.trans_eq key.property

theorem length_base58Write (key : Block solanaKeyBytes) :
    (base58Write key).length = leadingZeros key + (Nat.digits 58 (keyValue key)).length := by
  rw [base58Write, base58Digits_eq, List.length_append, List.length_replicate, List.length_map,
    List.length_reverse]

theorem base58Write_length (key : Block solanaKeyBytes) :
    32 ≤ (base58Write key).length ∧ (base58Write key).length ≤ maxPlayerId := by
  obtain ⟨hupper, hlower⟩ := horner_bounds (toNat_lt_of_mem (l := key.val))
  rw [← leadingZeros_eq, List.length_map, key.property] at hupper hlower
  have hz := leadingZeros_le key
  have hmost : ∀ z ≤ 32, 256 ^ (solanaKeyBytes - z) ≤ 58 ^ (maxPlayerId - z) := by decide +kernel
  have hleast : ∀ z ≤ 32, 58 ^ (31 - z) ≤ 256 ^ (solanaKeyBytes - z - 1) := by decide +kernel
  have hfew := (Nat.digits_length_le_iff (by decide) (keyValue key)).mpr
    (hupper.trans_le (hmost _ hz))
  rw [length_base58Write]
  constructor
  · by_cases hall : leadingZeros key < 32
    · have hmany := (Nat.lt_digits_length_iff (by decide) (keyValue key)).mpr
        ((hleast _ hz).trans (hlower hall))
      omega
    · omega
  · simp only [maxPlayerId] at hfew ⊢
    omega

/-! ## A key comes back -/

theorem findIdx_base58 : ∀ d < 58, base58.findIdx? (· == base58.getD d 0) = some d := by
  rw [base58, ascii_ofList]
  decide +kernel

theorem map_ofNat_toNat {l : List ℕ} (h : ∀ d ∈ l, d < 256) :
    (l.map UInt8.ofNat).map UInt8.toNat = l := by
  rw [List.map_map]
  refine (List.map_congr_left fun d hd => ?_).trans (List.map_id l)
  exact Nat.mod_eq_of_lt (h d hd)

theorem base58Step_eq {key : Block solanaKeyBytes} {d : ℕ} (hd : d < 58)
    (hroom : 58 * keyValue key + d < 256 ^ 32) :
    ∃ key', base58Step key (base58.getD d 0) = some key' ∧ keyValue key' = 58 * keyValue key + d := by
  have hlength : (key.val.reverse.map UInt8.toNat).length = 32 := by
    rw [List.length_map, List.length_reverse, key.property, solanaKeyBytes]
  rw [keyValue_eq key] at hroom ⊢
  have hcarry : (mulAdd 256 58 d (key.val.reverse.map UInt8.toNat)).2 = 0 :=
    carry_eq_zero (by rwa [hlength])
  have hvalue := ofDigits_mulAdd (b := 256) (m := 58) d (key.val.reverse.map UInt8.toNat)
  rw [hcarry, Nat.mul_zero, Nat.add_zero] at hvalue
  refine ⟨⟨((mulAdd 256 58 d (key.val.reverse.map UInt8.toNat)).1.map UInt8.ofNat).reverse,
    by simp [key.property]⟩, ?_, ?_⟩
  · simp only [base58Step, findIdx_base58 d hd]
    rw [if_neg (not_not.mpr hcarry)]
  · rw [keyValue_eq]
    simp only [List.reverse_reverse]
    rw [map_ofNat_toNat (mulAdd_lt (by decide) d _), hvalue]

/-- Reading digits goes on as long as the number stays within 32 bytes. -/
theorem foldlM_base58Step {key : Block solanaKeyBytes} {ds : List ℕ} (hds : ∀ d ∈ ds, d < 58)
    (hroom : horner 58 (keyValue key) ds < 256 ^ 32) :
    ∃ key', (ds.map fun d => base58.getD d 0).foldlM base58Step key = some key'
      ∧ keyValue key' = horner 58 (keyValue key) ds := by
  induction ds generalizing key with
  | nil => exact ⟨key, rfl, rfl⟩
  | cons d ds ih =>
    have hhere : 58 * keyValue key + d < 256 ^ 32 := (le_horner (by decide) _ ds).trans_lt hroom
    obtain ⟨next, hnext, hvalue⟩ := base58Step_eq (hds d List.mem_cons_self) hhere
    obtain ⟨last, hlast, hend⟩ := ih (fun e he => hds e (List.mem_cons_of_mem d he))
      (show horner 58 (keyValue next) ds < 256 ^ 32 by rwa [hvalue])
    refine ⟨last, ?_, ?_⟩
    · rw [List.map_cons, List.foldlM_cons, hnext]
      exact hlast
    · rw [hend, hvalue]
      rfl

theorem base58Write_eq (key : Block solanaKeyBytes) : base58Write key
    = (List.replicate (leadingZeros key) 0 ++ (Nat.digits 58 (keyValue key)).reverse).map
      fun d => base58.getD d 0 := by
  rw [base58Write, base58Digits_eq, List.map_append, List.map_replicate]
  rfl

theorem base58Key_write (key : Block solanaKeyBytes) : base58Key (base58Write key) = some key := by
  have hvalue : horner 58 (keyValue (Block.zero solanaKeyBytes))
      (List.replicate (leadingZeros key) 0 ++ (Nat.digits 58 (keyValue key)).reverse)
        = keyValue key := by
    rw [horner_append, show keyValue (Block.zero solanaKeyBytes) = 0 by decide, horner_zeros,
      horner_reverse, Nat.ofDigits_digits]
  have hds : ∀ d ∈ List.replicate (leadingZeros key) 0 ++ (Nat.digits 58 (keyValue key)).reverse,
      d < 58 := by
    intro d hd
    rcases List.mem_append.mp hd with hd | hd
    · rw [List.eq_of_mem_replicate hd]
      decide
    · exact Nat.digits_lt_base (by decide) (List.mem_reverse.mp hd)
  obtain ⟨back, hback, hsame⟩ := foldlM_base58Step hds (by rw [hvalue]; exact keyValue_lt key)
  rw [← base58Write_eq] at hback
  cases keyValue_inj (hsame.trans hvalue)
  rw [base58Key, if_pos (base58Write_length key), hback]
  exact if_pos rfl

theorem base58Key_eq_some_iff {s : List UInt8} {key : Block solanaKeyBytes} :
    base58Key s = some key ↔ s = base58Write key := by
  constructor
  · intro h
    unfold base58Key at h
    split at h
    · split at h
      · split at h
        · rename_i hsame
          cases h
          exact hsame.symm
        · cases h
      · cases h
    · cases h
  · rintro rfl
    exact base58Key_write key

end BeforeColony.Auth
