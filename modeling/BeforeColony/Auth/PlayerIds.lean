import BeforeColony.Auth.Base58

/-!
# Player ids

Who a signed-in pilot is, in one spelling: a Robinhood Chain wallet, a Solana wallet or an account
with no wallet.
-/

set_option autoImplicit false

namespace BeforeColony.Auth

open Lib

inductive PlayerKind
  | evm
  | solana
  | account
  deriving DecidableEq

def isLowerHex (b : UInt8) : Bool := 48 ≤ b ∧ b ≤ 57 ∨ 97 ≤ b ∧ b ≤ 102

def isHexDigit (b : UInt8) : Bool := 48 ≤ b ∧ b ≤ 57 ∨ 97 ≤ b ∧ b ≤ 102 ∨ 65 ≤ b ∧ b ≤ 70

def lowerHexDigits (s : List UInt8) (n : ℕ) : Bool := s.length = n && s.all isLowerHex

def hexValue (c : UInt8) : UInt8 := if 48 ≤ c ∧ c ≤ 57 then c - 48 else c - 97 + 10

def hexByte (high low : UInt8) : UInt8 := hexValue high <<< 4 ||| hexValue low

structure PlayerId where
  len : ℕ
  bytes : Block maxPlayerId
  deriving DecidableEq

def Begins0x (s : List UInt8) : Prop :=
  s.length = 42 ∧ s.getD 0 0 = 48 ∧ (s.getD 1 0 = 120 ∨ s.getD 1 0 = 88)

instance (s : List UInt8) : Decidable (Begins0x s) := inferInstanceAs (Decidable (_ ∧ _))

namespace PlayerId

def inline (s : List UInt8) : PlayerId :=
  ⟨s.length, ⟨(s ++ List.replicate maxPlayerId 0).take maxPlayerId, by simp⟩⟩

def parse (s : List UInt8) : Option PlayerId :=
  if Begins0x s then
    if (s.drop 2).all isHexDigit then some (inline (s.map toLower)) else none
  else if (ascii "acct_").isPrefixOf s then
    if lowerHexDigits (s.drop 5) 20 then some (inline s) else none
  else (base58Key s).map fun _ => inline s

def solana (key : Block solanaKeyBytes) : PlayerId := inline (base58Write key)

def ofAddress (a : Address) : PlayerId := inline (lowerHex a)

def asStr (id : PlayerId) : List UInt8 := id.bytes.val.take id.len

def kind (id : PlayerId) : PlayerKind :=
  if id.bytes.val.getD 0 0 = 48 then .evm
  else if id.bytes.val.getD 0 0 = 97 ∧ id.len = 25 ∧ id.bytes.val.take 5 = ascii "acct_" then .account
  else .solana

def address (id : PlayerId) : Option Address :=
  if id.kind ≠ .evm then none
  else some ⟨(List.range 20).map fun i =>
    hexByte (id.bytes.val.getD (2 + i * 2) 0) (id.bytes.val.getD (3 + i * 2) 0), by simp⟩

def solanaKey (id : PlayerId) : Option (Block solanaKeyBytes) :=
  if id.kind = .solana then base58Key id.asStr else none

inductive Made : PlayerId → Prop
  | parsed {s : List UInt8} {id : PlayerId} (h : parse s = some id) : Made id
  | fromKey (key : Block solanaKeyBytes) : Made (solana key)
  | fromAddress (a : Address) : Made (ofAddress a)

end PlayerId

def oneSpelling (s : List UInt8) : List UInt8 := if Begins0x s then s.map toLower else s

/-! ## Hexadecimal digits -/

theorem hexByte_digits (b : UInt8) : hexByte (hexDigit (b >>> 4)) (hexDigit (b &&& 0xf)) = b := by
  have hall : ∀ n < 256, hexByte (hexDigit (UInt8.ofNat n >>> 4)) (hexDigit (UInt8.ofNat n &&& 0xf))
      = UInt8.ofNat n := by
    simp only [hexDigit_eq]
    decide +kernel
  have := hall b.toNat b.toNat_lt
  rwa [UInt8.ofNat_toNat] at this

theorem hex_case (b : UInt8) : isHexDigit (toLower b) = isHexDigit b ∧ toLower (toLower b) = toLower b
    ∧ (isHexDigit b = true → isLowerHex (toLower b) = true)
    ∧ (isLowerHex b = true → b ∈ ascii "0123456789abcdef" ∧ isHexDigit b = true ∧ toLower b = b) := by
  have hall : ∀ n < 256, isHexDigit (toLower (UInt8.ofNat n)) = isHexDigit (UInt8.ofNat n)
      ∧ toLower (toLower (UInt8.ofNat n)) = toLower (UInt8.ofNat n)
      ∧ (isHexDigit (UInt8.ofNat n) = true → isLowerHex (toLower (UInt8.ofNat n)) = true)
      ∧ (isLowerHex (UInt8.ofNat n) = true → UInt8.ofNat n ∈ ascii "0123456789abcdef"
        ∧ isHexDigit (UInt8.ofNat n) = true ∧ toLower (UInt8.ofNat n) = UInt8.ofNat n) := by
    rw [hexDigits_eq]
    decide +kernel
  have := hall b.toNat b.toNat_lt
  rwa [UInt8.ofNat_toNat] at this

theorem isLowerHex_hexDigit (b : UInt8) :
    isLowerHex (hexDigit (b >>> 4)) = true ∧ isLowerHex (hexDigit (b &&& 0xf)) = true := by
  have hall : ∀ n < 256, isLowerHex (hexDigit (UInt8.ofNat n >>> 4)) = true
      ∧ isLowerHex (hexDigit (UInt8.ofNat n &&& 0xf)) = true := by
    simp only [hexDigit_eq]
    decide +kernel
  have := hall b.toNat b.toNat_lt
  rwa [UInt8.ofNat_toNat] at this

theorem isLowerHex_of_mem_hexText {c : UInt8} {l : List UInt8} (h : c ∈ hexText l) :
    isLowerHex c = true := by
  obtain ⟨b, -, hb⟩ := List.mem_flatMap.mp h
  rcases List.mem_cons.mp hb with rfl | hb
  · exact (isLowerHex_hexDigit b).1
  · cases List.mem_singleton.mp hb
    exact (isLowerHex_hexDigit b).2

theorem digits_hexByte : ∀ high ∈ ascii "0123456789abcdef", ∀ low ∈ ascii "0123456789abcdef",
    hexDigit (hexByte high low >>> 4) = high ∧ hexDigit (hexByte high low &&& 0xf) = low := by
  simp only [hexDigits_eq, hexDigit_eq]
  decide +kernel

/-- An even number of lowercase digits is some bytes' text. -/
theorem exists_hexText {n : ℕ} {s : List UInt8} (hs : lowerHexDigits s (2 * n) = true) :
    ∃ l : Block n, hexText l.val = s := by
  induction n generalizing s with
  | zero =>
    simp only [lowerHexDigits, Bool.and_eq_true, decide_eq_true_eq, Nat.mul_zero,
      List.length_eq_zero_iff] at hs
    exact ⟨⟨[], rfl⟩, hs.1.symm⟩
  | succ n ih =>
    match s with
    | [] => simp [lowerHexDigits] at hs
    | [_] =>
      simp only [lowerHexDigits, Bool.and_eq_true, decide_eq_true_eq, List.length_singleton] at hs
      omega
    | high :: low :: rest =>
      simp only [lowerHexDigits, Bool.and_eq_true, decide_eq_true_eq, List.length_cons,
        List.all_cons] at hs
      obtain ⟨hlength, hhigh, hlow, hrest⟩ := hs
      obtain ⟨l, hl⟩ := ih (s := rest) (by
        simp only [lowerHexDigits, Bool.and_eq_true, decide_eq_true_eq]
        exact ⟨by omega, hrest⟩)
      obtain ⟨h, h'⟩ := digits_hexByte high ((hex_case high).2.2.2 hhigh).1 low
        ((hex_case low).2.2.2 hlow).1
      refine ⟨⟨hexByte high low :: l.val, by simp [l.property]⟩, ?_⟩
      simp only [hexText, List.flatMap_cons, h, h'] at hl ⊢
      rw [hl]
      rfl

theorem hexText_getD {l : List UInt8} {i : ℕ} (hi : i < l.length) :
    (hexText l).getD (i * 2) 0 = hexDigit (l[i] >>> 4)
      ∧ (hexText l).getD (i * 2 + 1) 0 = hexDigit (l[i] &&& 0xf) := by
  induction l generalizing i with
  | nil => simp at hi
  | cons b rest ih =>
    cases i with
    | zero => exact ⟨rfl, rfl⟩
    | succ i =>
      have hrest := ih (i := i) (by simpa using hi)
      rw [show (i + 1) * 2 = i * 2 + 1 + 1 by omega, show i * 2 + 1 + 1 + 1 = (i * 2 + 1) + 1 + 1 by rfl]
      exact hrest

/-! ## Where each shape's text begins -/

theorem PlayerId.asStr_inline {s : List UInt8} (h : s.length ≤ maxPlayerId) : (inline s).asStr = s := by
  simp only [asStr, inline, List.take_take]
  rw [Nat.min_eq_left h]
  exact List.take_left

theorem PlayerId.getD_inline {s : List UInt8} {i : ℕ} (hi : i < s.length) (h : s.length ≤ maxPlayerId) :
    (inline s).bytes.val.getD i 0 = s.getD i 0 := by
  simp only [inline, List.getD_eq_getElem?_getD]
  rw [List.getElem?_take_of_lt (by omega), List.getElem?_append_left hi]

theorem length_lowerHex (a : Address) : (lowerHex a).length = 42 := by
  rw [lowerHex, List.length_append, length_hexText, a.property]
  rfl

theorem getD_mem {l : List UInt8} {i : ℕ} (h : i < l.length) : l.getD i 0 ∈ l := by
  rw [List.getD_eq_getElem?_getD, List.getElem?_eq_getElem h]
  exact List.getElem_mem h

theorem mem_base58Write {key : Block solanaKeyBytes} {b : UInt8} (h : b ∈ base58Write key) :
    b ∈ base58 := by
  rcases List.mem_append.mp h with h | h
  · rw [List.eq_of_mem_replicate h]
    decide
  · obtain ⟨d, hd, rfl⟩ := List.mem_map.mp h
    rw [base58Digits_eq] at hd
    have hlt := Nat.digits_lt_base (by decide) (List.mem_reverse.mp hd)
    exact getD_mem hlt

theorem base58Write_shape (key : Block solanaKeyBytes) : (base58Write key).getD 0 0 ≠ 48
    ∧ (ascii "acct_").isPrefixOf (base58Write key) = false := by
  have hlength := (base58Write_length key).1
  constructor
  · intro hzero
    have hmem : (base58Write key).getD 0 0 ∈ base58Write key := getD_mem (by omega)
    have := mem_base58Write hmem
    rw [hzero] at this
    revert this
    decide
  · by_contra hacct
    rw [Bool.not_eq_false, List.isPrefixOf_iff_prefix] at hacct
    have hmark : (95 : UInt8) ∈ base58Write key := hacct.subset (by decide)
    have := mem_base58Write hmark
    revert this
    decide

namespace PlayerId

def account (digits : List UInt8) : PlayerId := inline (ascii "acct_" ++ digits)

variable {digits : List UInt8}

theorem lowerHexDigits_iff {s : List UInt8} {n : ℕ} :
    lowerHexDigits s n = true ↔ s.length = n ∧ ∀ b ∈ s, isLowerHex b = true := by
  rw [lowerHexDigits, Bool.and_eq_true, decide_eq_true_eq, List.all_eq_true]

theorem length_account (h : lowerHexDigits digits 20 = true) :
    (ascii "acct_" ++ digits).length = 25 := by
  rw [List.length_append, (lowerHexDigits_iff.mp h).1]
  rfl

/-! ## The three shapes -/

theorem asStr_ofAddress (a : Address) : (ofAddress a).asStr = lowerHex a :=
  asStr_inline (by rw [length_lowerHex]; decide)

theorem asStr_solana (key : Block solanaKeyBytes) : (solana key).asStr = base58Write key :=
  asStr_inline (base58Write_length key).2

theorem asStr_account (h : lowerHexDigits digits 20 = true) :
    (account digits).asStr = ascii "acct_" ++ digits :=
  asStr_inline (by rw [length_account h]; decide)

theorem kind_ofAddress (a : Address) : (ofAddress a).kind = .evm := by
  have hfirst : (ofAddress a).bytes.val.getD 0 0 = 48 := by
    rw [ofAddress, getD_inline (by rw [length_lowerHex]; decide) (by rw [length_lowerHex]; decide)]
    rfl
  rw [kind, if_pos hfirst]

theorem kind_solana (key : Block solanaKeyBytes) : (solana key).kind = .solana := by
  obtain ⟨hleast, hmost⟩ := base58Write_length key
  obtain ⟨hzero, hacct⟩ := base58Write_shape key
  have hfirst : (solana key).bytes.val.getD 0 0 ≠ 48 := by
    rw [solana, getD_inline (by omega) hmost]
    exact hzero
  rw [kind, if_neg hfirst, if_neg]
  rintro ⟨-, hlen, -⟩
  have : (base58Write key).length = 25 := hlen
  omega

theorem kind_account (h : lowerHexDigits digits 20 = true) : (account digits).kind = .account := by
  have hlength := length_account h
  have hfirst : (account digits).bytes.val.getD 0 0 = 97 := by
    rw [account, getD_inline (by omega) (by rw [hlength]; decide)]
    rfl
  rw [kind, if_neg (by rw [hfirst]; decide), if_pos]
  refine ⟨hfirst, hlength, ?_⟩
  simp only [account, inline, List.take_take, List.append_assoc]
  rw [Nat.min_eq_left (by decide)]
  exact List.take_left' rfl

theorem parse_ofAddress (a : Address) : parse (lowerHex a) = some (ofAddress a) := by
  have hbegins : Begins0x (lowerHex a) := ⟨length_lowerHex a, rfl, Or.inl rfl⟩
  have hdrop : (lowerHex a).drop 2 = hexText a.val := List.drop_left' rfl
  have hdigits : (hexText a.val).all isHexDigit = true := by
    refine List.all_eq_true.mpr fun b hb => ?_
    exact ((hex_case b).2.2.2 (isLowerHex_of_mem_hexText hb)).2.1
  have hlower : (lowerHex a).map toLower = lowerHex a := by
    have hsame : (hexText a.val).map toLower = hexText a.val := by
      refine (List.map_congr_left fun b hb => ?_).trans (List.map_id _)
      exact ((hex_case b).2.2.2 (isLowerHex_of_mem_hexText hb)).2.2
    rw [lowerHex, List.map_append, hsame]
    rfl
  rw [parse, if_pos hbegins, hdrop, if_pos hdigits, hlower]
  rfl

theorem parse_solana (key : Block solanaKeyBytes) : parse (base58Write key) = some (solana key) := by
  obtain ⟨hzero, hacct⟩ := base58Write_shape key
  rw [parse, if_neg fun h => hzero h.2.1, hacct, base58Key_write]
  rfl

theorem parse_account (h : lowerHexDigits digits 20 = true) :
    parse (ascii "acct_" ++ digits) = some (account digits) := by
  have hbegins : ¬ Begins0x (ascii "acct_" ++ digits) := fun hb => by
    have := hb.1
    rw [length_account h] at this
    omega
  have hmark : (ascii "acct_").isPrefixOf (ascii "acct_" ++ digits) = true :=
    List.isPrefixOf_iff_prefix.mpr (List.prefix_append _ _)
  rw [parse, if_neg hbegins, if_pos hmark, List.drop_left' (i := 5) rfl, if_pos h]
  rfl

theorem parse_shapes {s : List UInt8} {id : PlayerId} (h : parse s = some id) :
    (∃ a, id = ofAddress a) ∨ (∃ key, id = solana key)
      ∨ ∃ digits, lowerHexDigits digits 20 = true ∧ id = account digits := by
  unfold parse at h
  split at h
  · rename_i hbegins
    obtain ⟨hlength, hzero, hmark⟩ := hbegins
    split at h
    · rename_i hdigits
      left
      have hrest : lowerHexDigits ((s.drop 2).map toLower) (2 * 20) = true := by
        refine lowerHexDigits_iff.mpr ⟨by simp [hlength], fun b hb => ?_⟩
        obtain ⟨c, hc, rfl⟩ := List.mem_map.mp hb
        exact (hex_case c).2.2.1 (List.all_eq_true.mp hdigits c hc)
      obtain ⟨a, ha⟩ := exists_hexText hrest
      refine ⟨a, ?_⟩
      have hspelled : s.map toLower = lowerHex a := by
        match s, hlength with
        | zero :: mark :: rest, _ =>
          rw [lowerHex, ha]
          simp only [List.getD_cons_zero, List.getD_cons_succ] at hzero hmark
          subst hzero
          rcases hmark with rfl | rfl
          · rfl
          · rfl
      cases h
      rw [hspelled]
      rfl
    · cases h
  · split at h
    · rename_i hmark
      obtain ⟨rest, rfl⟩ := List.isPrefixOf_iff_prefix.mp hmark
      rw [List.drop_left' (i := 5) rfl] at h
      split at h
      · rename_i hdigits
        cases h
        exact Or.inr (Or.inr ⟨rest, hdigits, rfl⟩)
      · cases h
    · right
      left
      cases hkey : base58Key s with
      | none =>
        rw [hkey] at h
        cases h
      | some key =>
        rw [hkey] at h
        cases h
        cases base58Key_eq_some_iff.mp hkey
        exact ⟨key, rfl⟩

theorem Made.shapes {id : PlayerId} (h : Made id) : (∃ a, id = ofAddress a)
    ∨ (∃ key, id = solana key) ∨ ∃ digits, lowerHexDigits digits 20 = true ∧ id = account digits := by
  cases h with
  | parsed h => exact parse_shapes h
  | fromKey key => exact Or.inr (Or.inl ⟨key, rfl⟩)
  | fromAddress a => exact Or.inl ⟨a, rfl⟩

theorem Made.parse_asStr {id : PlayerId} (h : Made id) : parse id.asStr = some id := by
  rcases h.shapes with ⟨a, rfl⟩ | ⟨key, rfl⟩ | ⟨digits, hdigits, rfl⟩
  · rw [asStr_ofAddress, parse_ofAddress]
  · rw [asStr_solana, parse_solana]
  · rw [asStr_account hdigits, parse_account hdigits]

theorem asStr_parse {s : List UInt8} {id : PlayerId} (h : parse s = some id) :
    id.asStr = oneSpelling s := by
  unfold parse at h
  unfold oneSpelling
  split at h
  · rename_i hbegins
    rw [if_pos hbegins]
    split at h
    · cases h
      exact asStr_inline (by rw [List.length_map, hbegins.1]; decide)
    · cases h
  · rename_i hbegins
    rw [if_neg hbegins]
    split at h
    · rename_i hmark
      split at h
      · rename_i hdigits
        cases h
        obtain ⟨rest, rfl⟩ := List.isPrefixOf_iff_prefix.mp hmark
        rw [List.drop_left' (i := 5) rfl] at hdigits
        exact asStr_account hdigits
      · cases h
    · cases hkey : base58Key s with
      | none =>
        rw [hkey] at h
        cases h
      | some key =>
        rw [hkey] at h
        cases h
        cases base58Key_eq_some_iff.mp hkey
        exact asStr_solana key

theorem begins0x_map {s : List UInt8} (h : Begins0x s) : Begins0x (s.map toLower) := by
  obtain ⟨hlength, hzero, hmark⟩ := h
  match s, hlength with
  | zero :: mark :: rest, hlength =>
    simp only [List.getD_cons_zero, List.getD_cons_succ] at hzero hmark
    subst hzero
    refine ⟨by rw [List.length_map, hlength], rfl, Or.inl ?_⟩
    rcases hmark with rfl | rfl
    · rfl
    · rfl

theorem parse_oneSpelling (s : List UInt8) : parse (oneSpelling s) = parse s := by
  by_cases hbegins : Begins0x s
  · have hdigits : ((s.map toLower).drop 2).all isHexDigit = (s.drop 2).all isHexDigit := by
      rw [← List.map_drop, List.all_map]
      exact congrArg (s.drop 2).all (funext fun b => (hex_case b).1)
    have hagain : (s.map toLower).map toLower = s.map toLower := by
      rw [List.map_map]
      exact List.map_congr_left fun b _ => (hex_case b).2.1
    rw [oneSpelling, if_pos hbegins, parse, if_pos (begins0x_map hbegins), hdigits, hagain, parse,
      if_pos hbegins]
  · rw [oneSpelling, if_neg hbegins]

theorem parse_eq_some_iff {s : List UInt8} {id : PlayerId} :
    parse s = some id ↔ Made id ∧ id.asStr = oneSpelling s := by
  constructor
  · exact fun h => ⟨.parsed h, asStr_parse h⟩
  · rintro ⟨hmade, hspelled⟩
    rw [← parse_oneSpelling, ← hspelled]
    exact hmade.parse_asStr

/-! ## The wallet an id names -/

theorem address_ofAddress (a : Address) : (ofAddress a).address = some a := by
  rw [address, if_neg (not_not.mpr (kind_ofAddress a))]
  congr 1
  refine Subtype.ext (List.ext_getElem (by simp [a.property]) fun i hi hi' => ?_)
  have hlength := length_lowerHex a
  have hmax : (lowerHex a).length ≤ maxPlayerId := by
    rw [hlength]
    decide
  have hi20 : i < 20 := by simpa using hi
  obtain ⟨hhigh, hlow⟩ := hexText_getD (l := a.val) hi'
  have hat (k : ℕ) : (lowerHex a).getD (2 + k) 0 = (hexText a.val).getD k 0 := by
    rw [Nat.add_comm]
    rfl
  rw [List.getElem_map, List.getElem_range, ofAddress, getD_inline (by omega) hmax,
    getD_inline (by omega) hmax, hat, show 3 + i * 2 = 2 + (i * 2 + 1) by omega, hat, hhigh, hlow]
  exact hexByte_digits _

theorem Made.of_address {id : PlayerId} {a : Address} (h : Made id) (ha : id.address = some a) :
    ofAddress a = id := by
  have hkind : id.kind = .evm := by
    by_contra hother
    rw [address, if_pos hother] at ha
    cases ha
  rcases h.shapes with ⟨b, rfl⟩ | ⟨key, rfl⟩ | ⟨digits, hdigits, rfl⟩
  · rw [address_ofAddress] at ha
    cases ha
    rfl
  · rw [kind_solana] at hkind
    cases hkind
  · rw [kind_account hdigits] at hkind
    cases hkind

theorem solanaKey_solana (key : Block solanaKeyBytes) : (solana key).solanaKey = some key := by
  rw [solanaKey, if_pos (kind_solana key), asStr_solana, base58Key_write]

end PlayerId

open PlayerId in
/-- A wallet's key comes back from its id, whose text is at most 44 characters; the texts read as
keys are those that keys write, and the texts read as ids are those that have an id's spelling, once
an `0x` address is lowercased; an id comes back from its own text; an `0x` wallet's id and its
address come back from each other; and ids of two kinds differ in their texts. -/
theorem ids_have_one_spelling :
    (∀ key, (solana key).solanaKey = some key ∧ (solana key).asStr.length ≤ maxPlayerId)
      ∧ (∀ s key, base58Key s = some key ↔ s = base58Write key)
      ∧ (∀ s id, parse s = some id ↔ Made id ∧ id.asStr = oneSpelling s)
      ∧ (∀ id : { id // Made id }, parse id.val.asStr = some id.val)
      ∧ (∀ a, (ofAddress a).address = some a)
      ∧ (∀ (id : { id // Made id }) (a : Address), id.val.address = some a ↔ ofAddress a = id.val)
      ∧ (∀ a, (ofAddress a).kind = .evm) ∧ (∀ key, (solana key).kind = .solana)
      ∧ ∀ id id' : { id // Made id }, id.val.kind = id'.val.kind ∨ id.val.asStr ≠ id'.val.asStr := by
  refine ⟨fun key => ⟨solanaKey_solana key, ?_⟩, fun s key => base58Key_eq_some_iff,
    fun s id => parse_eq_some_iff, fun id => id.property.parse_asStr, address_ofAddress,
    fun id a => ⟨id.property.of_address, fun h => ?_⟩, kind_ofAddress, kind_solana,
    fun id id' => ?_⟩
  · rw [asStr_solana]
    exact (base58Write_length key).2
  · rw [← h]
    exact address_ofAddress a
  · by_cases hsame : id.val.asStr = id'.val.asStr
    · left
      have hid := id.property.parse_asStr
      rw [hsame, id'.property.parse_asStr] at hid
      rw [Option.some.inj hid]
    · exact Or.inr hsame

/-- An address in capitals is read, and no id is written so. -/
theorem capital_address_is_read : ¬ ∀ s : List UInt8,
    (PlayerId.parse s).isSome = true ↔ ∃ id : { id // PlayerId.Made id }, id.val.asStr = s := by
  intro h
  obtain ⟨id, hid⟩ := (h (ascii "0XABCDEF0123456789ABCDEF0123456789ABCDEF01")).mp (by decide +kernel)
  have hspelling := PlayerId.asStr_parse id.property.parse_asStr
  rw [hid] at hspelling
  revert hspelling
  decide +kernel

end BeforeColony.Auth
