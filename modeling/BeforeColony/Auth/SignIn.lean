import BeforeColony.Auth.Dates

/-!
# A text names one sign-in

Texts fit their buffer whole, and what a text was made of can be read back from it: the server's name
ends at the first space, and every part after it has the length of the other's.
-/

set_option autoImplicit false

namespace BeforeColony

open Lib

/-! ## What is written -/

namespace Text

variable {cap : ℕ} {w : Text cap} {l : List UInt8}

def Holds (w : Text cap) (l : List UInt8) : Prop := w.out = l.take cap

theorem Holds.bytes (h : w.Holds l) (b : List UInt8) : (w.bytes b).Holds (l ++ b) := by
  have hroom : cap - (l.take cap).length = cap - l.length := by
    rw [List.length_take]
    omega
  rw [Holds, Text.bytes, h, hroom, List.take_append]

theorem Holds.str (h : w.Holds l) (s : String) : (w.str s).Holds (l ++ ascii s) := h.bytes _

theorem Holds.hex (h : w.Holds l) (b : List UInt8) : (w.hex b).Holds (l ++ hexText b) := by
  induction b generalizing w l with
  | nil => simpa [Text.hex, hexText] using h
  | cons x rest ih =>
    have := ih (h.bytes [hexDigit (x >>> 4), hexDigit (x &&& 0xf)])
    simpa [Text.hex, hexText, List.append_assoc] using this

theorem Holds.pad2 (h : w.Holds l) (v : ℕ) : (w.pad2 v).Holds (l ++ pad2Text v) := h.bytes _

theorem Holds.iso8601 (h : w.Holds l) (unixSecs : ℕ) :
    (w.iso8601 unixSecs).Holds (l ++ isoText unixSecs) := by
  simp only [isoText, ← List.append_assoc]
  exact ((((((((((((h.pad2 _).pad2 _).str "-").pad2 _).str "-").pad2 _).str "T").pad2 _).str
    ":").pad2 _).str ":").pad2 _).str "Z"

end Text

def Chain.text : Chain → List UInt8
  | .id n => Text.decimal n
  | .named name => ascii name

theorem Text.Holds.chain {cap : ℕ} {w : Text cap} {l : List UInt8} (h : w.Holds l) (chain : Chain) :
    (w.chain chain).Holds (l ++ chain.text) := by
  cases chain with
  | id n => exact h.bytes _
  | named name => exact h.str _

def scheme (domain : List UInt8) : List UInt8 :=
  ascii (if loopback domain then "http://" else "https://")

def messageBody (domain : List UInt8) (family : String) (address : List UInt8) (statement : String)
    (chain : Chain) (nonce : List UInt8) (issuedAt : ℕ) : List UInt8 :=
  ascii family ++ (ascii " account:\n" ++ (address ++ (ascii "\n\n" ++ (ascii statement ++
    (ascii "\n\nURI: " ++ (scheme domain ++ (domain ++ (ascii "\nVersion: 1\nChain ID: " ++
      (chain.text ++ (ascii "\nNonce: " ++ (hexText nonce ++ (ascii "\nIssued At: " ++
        isoText issuedAt))))))))))))

def messageText (domain : List UInt8) (family : String) (address : List UInt8) (statement : String)
    (chain : Chain) (nonce : List UInt8) (issuedAt : ℕ) : List UInt8 :=
  domain ++ (ascii " wants you to sign in with your " ++
    messageBody domain family address statement chain nonce issuedAt)

section

variable {cap : ℕ} {domain : Domain} {family statement : String} {address : List UInt8}
  {chain : Chain} {nonce : Block nonceBytes} {issuedAt : ℕ}

theorem writeMessage_eq_take : writeMessage cap domain family address statement chain nonce issuedAt =
    (messageText domain.bytes family address statement chain nonce.val issuedAt).take cap := by
  have hstart : Text.Holds (⟨[]⟩ : Text cap) [] := List.take_nil.symm
  have := ((((((((((((((((hstart.bytes domain.bytes).str " wants you to sign in with your ").str
    family).str " account:\n").bytes address).str "\n\n").str statement).str "\n\nURI: ").str
    (if loopback domain.bytes then "http://" else "https://")).bytes domain.bytes).str
    "\nVersion: 1\nChain ID: ").chain chain).str "\nNonce: ").hex nonce.val).str
    "\nIssued At: ").iso8601 issuedAt)
  simp only [List.append_assoc, List.nil_append] at this
  exact this

end

/-! ## How long a text is -/

@[simp] theorem length_hexText (bytes : List UInt8) : (hexText bytes).length = 2 * bytes.length := by
  induction bytes with
  | nil => rfl
  | cons b rest ih =>
    simp only [hexText, List.flatMap_cons, List.length_append, List.length_cons, List.length_nil] at ih ⊢
    omega

theorem length_checksumHex (keccak256 : List UInt8 → Block 32) (a : Address) :
    (checksumHex keccak256 a).length = 42 := by
  simp only [checksumHex, List.length_append, List.length_mapIdx, length_hexText, a.property]
  rfl

theorem length_scheme (domain : List UInt8) : (scheme domain).length ≤ 8 := by
  unfold scheme
  split <;> decide

theorem length_messageBody (domain : Domain) (family : String) (address : List UInt8)
    (statement : String) (chain : Chain) (nonce : Block nonceBytes) (issuedAt : ℕ) :
    (messageBody domain.bytes family address statement chain nonce.val issuedAt).length ≤
      217 + (ascii family).length + address.length + (ascii statement).length +
        chain.text.length := by
  have hdomain : domain.bytes.length ≤ 64 := domain.short
  have hscheme := length_scheme domain.bytes
  have hnonce : nonce.val.length = 32 := nonce.property
  have haccount : (ascii " account:\n").length = 10 := length_ascii_ofList _
  have hblank : (ascii "\n\n").length = 2 := length_ascii_ofList _
  have huri : (ascii "\n\nURI: ").length = 7 := length_ascii_ofList _
  have hchain : (ascii "\nVersion: 1\nChain ID: ").length = 22 := length_ascii_ofList _
  have hnonceLine : (ascii "\nNonce: ").length = 8 := length_ascii_ofList _
  have hissued : (ascii "\nIssued At: ").length = 12 := length_ascii_ofList _
  simp only [messageBody, List.length_append, length_hexText, length_isoText, haccount, hblank, huri,
    hchain, hnonceLine, hissued, hnonce]
  omega

theorem length_messageText (domain : Domain) (family : String) (address : List UInt8)
    (statement : String) (chain : Chain) (nonce : Block nonceBytes) (issuedAt : ℕ) :
    (messageText domain.bytes family address statement chain nonce.val issuedAt).length ≤
      313 + (ascii family).length + address.length + (ascii statement).length +
        chain.text.length := by
  have hdomain : domain.bytes.length ≤ 64 := domain.short
  have hwants : (ascii " wants you to sign in with your ").length = 32 := length_ascii_ofList _
  have hbody := length_messageBody domain family address statement chain nonce issuedAt
  simp only [messageText, List.length_append, hwants]
  omega

/-! ## Reading a text back -/

theorem append_space_inj {l l' rest rest' : List UInt8} (hl : 32 ∉ l) (hl' : 32 ∉ l')
    (h : l ++ 32 :: rest = l' ++ 32 :: rest') : l = l' ∧ rest = rest' := by
  induction l generalizing l' with
  | nil =>
    cases l' with
    | nil => exact ⟨rfl, List.cons.inj h |>.2⟩
    | cons c l' => exact absurd ((List.cons.inj h).1 ▸ List.mem_cons_self) hl'
  | cons c l ih =>
    cases l' with
    | nil => exact absurd ((List.cons.inj h).1 ▸ List.mem_cons_self) hl
    | cons c' l' =>
      obtain ⟨rfl, htail⟩ := List.cons.inj h
      obtain ⟨rfl, hrest⟩ := ih (fun hm => hl (List.mem_cons_of_mem _ hm))
        (fun hm => hl' (List.mem_cons_of_mem _ hm)) htail
      exact ⟨rfl, hrest⟩

theorem not_space (domain : Domain) : 32 ∉ domain.bytes := by
  intro h
  exact absurd (domain.graphic 32 h) (by decide)

theorem hexDigit_inj : ∀ m < 16, ∀ n < 16,
    hexDigit (UInt8.ofNat m) = hexDigit (UInt8.ofNat n) → m = n := by
  simp only [hexDigit_eq]
  decide

theorem hexDigits_inj {b c : UInt8} (hhigh : hexDigit (b >>> 4) = hexDigit (c >>> 4))
    (hlow : hexDigit (b &&& 0xf) = hexDigit (c &&& 0xf)) : b = c := by
  have hshift (x : UInt8) : x >>> 4 = UInt8.ofNat (x.toNat / 16) := by
    apply UInt8.toNat_inj.mp
    have := x.toNat_lt
    simp [UInt8.toNat_shiftRight, Nat.shiftRight_eq_div_pow]
    omega
  have hmask (x : UInt8) : x &&& 0xf = UInt8.ofNat (x.toNat % 16) := by
    apply UInt8.toNat_inj.mp
    have hand : x.toNat &&& 15 = x.toNat % 16 := Nat.and_two_pow_sub_one_eq_mod x.toNat 4
    simp [UInt8.toNat_and, hand]
    omega
  have hb := b.toNat_lt
  have hc := c.toNat_lt
  rw [hshift, hshift] at hhigh
  rw [hmask, hmask] at hlow
  have hdiv := hexDigit_inj _ (by omega) _ (by omega) hhigh
  have hmod := hexDigit_inj _ (by omega) _ (by omega) hlow
  exact UInt8.toNat_inj.mp (by omega)

theorem hexText_inj {l l' : List UInt8} (h : hexText l = hexText l') : l = l' := by
  induction l generalizing l' with
  | nil =>
    cases l' with
    | nil => rfl
    | cons c rest => cases h
  | cons b rest ih =>
    cases l' with
    | nil => cases h
    | cons c rest' =>
      simp only [hexText, List.flatMap_cons, List.cons_append, List.nil_append, List.cons.injEq] at h
      obtain ⟨hhigh, hlow, hrest⟩ := h
      rw [hexDigits_inj hhigh hlow, ih hrest]

def toLower (c : UInt8) : UInt8 := if 65 ≤ c ∧ c ≤ 90 then c + 32 else c

theorem toLower_hexDigit : ∀ n < 256, toLower (hexDigit (UInt8.ofNat n)) = hexDigit (UInt8.ofNat n) ∧
    toLower (toUpper (hexDigit (UInt8.ofNat n))) = hexDigit (UInt8.ofNat n) := by
  simp only [hexDigit_eq]
  decide +kernel

theorem toLower_of_mem_hexText {c : UInt8} {l : List UInt8} (h : c ∈ hexText l) :
    toLower c = c ∧ toLower (toUpper c) = c := by
  have hdigit (x : UInt8) : toLower (hexDigit x) = hexDigit x ∧
      toLower (toUpper (hexDigit x)) = hexDigit x := by
    have := toLower_hexDigit x.toNat x.toNat_lt
    rwa [UInt8.ofNat_toNat] at this
  obtain ⟨b, -, hb⟩ := List.mem_flatMap.mp h
  rcases List.mem_cons.mp hb with rfl | hb
  · exact hdigit _
  · cases List.mem_singleton.mp hb
    exact hdigit _

/-- An address can be read from its text, whatever its case. -/
theorem checksumHex_inj {keccak256 : List UInt8 → Block 32} {a b : Address}
    (h : checksumHex keccak256 a = checksumHex keccak256 b) : a = b := by
  have hlower (a : Address) :
      ((checksumHex keccak256 a).drop 2).map toLower = hexText a.val := by
    have hmark : (ascii "0x").length = 2 := length_ascii_ofList _
    rw [checksumHex, List.drop_left' hmark]
    refine List.ext_getElem (by simp) fun i hi hi' => ?_
    have hmem := toLower_of_mem_hexText (List.getElem_mem hi')
    have hcase (p : Prop) [Decidable p] : toLower (if p then toUpper (hexText a.val)[i]
        else (hexText a.val)[i]) = (hexText a.val)[i] := by
      split
      · exact hmem.2
      · exact hmem.1
    simp only [List.getElem_map, List.getElem_mapIdx]
    exact hcase _
  exact Subtype.ext (hexText_inj (by rw [← hlower a, ← hlower b, h]))

theorem length_messageBody_eq {domain : List UInt8} {family statement : String} {chain : Chain}
    {address address' : List UInt8} {nonce nonce' : Block nonceBytes} {issuedAt issuedAt' : ℕ}
    (h : messageBody domain family address statement chain nonce.val issuedAt =
      messageBody domain family address' statement chain nonce'.val issuedAt') :
    address.length = address'.length := by
  have hlen := congrArg List.length h
  simp only [messageBody, List.length_append, length_hexText, length_isoText, nonce.property,
    nonce'.property, Nat.add_left_cancel_iff, Nat.add_right_cancel_iff] at hlen
  exact hlen

theorem messageBody_inj {domain : List UInt8} {family statement : String} {chain : Chain}
    {address address' : List UInt8} {nonce nonce' : Block nonceBytes} {issuedAt issuedAt' : ℕ}
    (h : messageBody domain family address statement chain nonce.val issuedAt =
      messageBody domain family address' statement chain nonce'.val issuedAt') :
    address = address' ∧ nonce = nonce' ∧ isoText issuedAt = isoText issuedAt' := by
  have hlen := length_messageBody_eq h
  simp only [messageBody, List.append_cancel_left_eq] at h
  obtain ⟨haddress, h⟩ := List.append_inj h hlen
  simp only [List.append_cancel_left_eq] at h
  obtain ⟨hnonce, h⟩ := List.append_inj h (by
    rw [length_hexText, length_hexText, nonce.property, nonce'.property])
  exact ⟨haddress, Subtype.ext (hexText_inj hnonce), List.append_cancel_left h⟩

/-- The server's name, and what follows it, can be read from a text. -/
theorem messageText_inj {domain domain' : Domain} {family family' statement statement' : String}
    {chain chain' : Chain} {address address' nonce nonce' : List UInt8} {issuedAt issuedAt' : ℕ}
    (h : messageText domain.bytes family address statement chain nonce issuedAt =
      messageText domain'.bytes family' address' statement' chain' nonce' issuedAt') :
    domain = domain' ∧ messageBody domain.bytes family address statement chain nonce issuedAt =
      messageBody domain'.bytes family' address' statement' chain' nonce' issuedAt' := by
  have hwants : ascii " wants you to sign in with your " =
      32 :: ascii "wants you to sign in with your " :=
    (ascii_ofList _).trans (congrArg (List.cons 32) (ascii_ofList _).symm)
  simp only [messageText, hwants, List.cons_append] at h
  obtain ⟨hdomain, hrest⟩ := append_space_inj (not_space domain) (not_space domain') h
  exact ⟨Domain.ext hdomain, List.append_cancel_left hrest⟩

/-! ## Sign-ins -/

/-- What a wallet signs for, before the year 10000. -/
@[ext] structure SignIn (A : Type) where
  domain : Domain
  nonce : Block nonceBytes
  issuedAt : ℕ
  early : issuedAt < year10000
  address : A

abbrev SolanaAddress := { a : List UInt8 // a.length ≤ maxPlayerId }

namespace SignIn

variable (keccak256 : List UInt8 → Block 32)

def siwe (p : SignIn Address) : List UInt8 :=
  siweMessage siweMax keccak256 p.domain p.nonce p.issuedAt p.address

def siws (p : SignIn SolanaAddress) : List UInt8 :=
  siwsMessage siweMax p.domain p.nonce p.issuedAt p.address.val

def legacy (p : SignIn Address) : List UInt8 :=
  legacyMessage siweMax keccak256 p.domain p.nonce p.issuedAt p.address

end SignIn

theorem isoText_inj {s t : ℕ} (hs : s < year10000) (ht : t < year10000)
    (h : isoText s = isoText t) : s = t := by
  rcases Nat.lt_trichotomy s t with hlt | heq | hgt
  · have hless := isoText_lt hlt ht
    rw [h] at hless
    exact absurd hless (List.lt_irrefl _)
  · exact heq
  · have hless := isoText_lt hgt hs
    rw [h] at hless
    exact absurd hless (List.lt_irrefl _)

theorem writeMessage_eq {cap : ℕ} {family statement : String} {address : List UInt8} {chain : Chain}
    (hshort : (ascii family).length + address.length + (ascii statement).length +
      chain.text.length ≤ 199) (hcap : siweMax ≤ cap) (domain : Domain) (nonce : Block nonceBytes)
    (issuedAt : ℕ) : writeMessage cap domain family address statement chain nonce issuedAt =
      messageText domain.bytes family address statement chain nonce.val issuedAt := by
  have hlen := length_messageText domain family address statement chain nonce issuedAt
  rw [writeMessage_eq_take, List.take_of_length_le]
  rw [siweMax] at hcap
  omega

theorem length_statement : (ascii statement).length = 96 := length_ascii_ofList _

theorem length_legacyStatement : (ascii legacyStatement).length = 101 := length_ascii_ofList _

namespace SignIn

variable {keccak256 : List UInt8 → Block 32}

theorem siwe_eq {cap : ℕ} (hcap : siweMax ≤ cap) (p : SignIn Address) :
    siweMessage cap keccak256 p.domain p.nonce p.issuedAt p.address =
      messageText p.domain.bytes "Ethereum" (checksumHex keccak256 p.address) statement (.id chainId)
        p.nonce.val p.issuedAt :=
  writeMessage_eq (by rw [length_checksumHex, length_statement]; decide) hcap _ _ _

theorem legacy_eq {cap : ℕ} (hcap : siweMax ≤ cap) (p : SignIn Address) :
    legacyMessage cap keccak256 p.domain p.nonce p.issuedAt p.address =
      messageText p.domain.bytes "Ethereum" (checksumHex keccak256 p.address) legacyStatement
        (.id legacyChainId) p.nonce.val p.issuedAt :=
  writeMessage_eq (by rw [length_checksumHex, length_legacyStatement]; decide) hcap _ _ _

theorem siws_eq {cap : ℕ} (hcap : siweMax ≤ cap) (p : SignIn SolanaAddress) :
    siwsMessage cap p.domain p.nonce p.issuedAt p.address.val =
      messageText p.domain.bytes "Solana" p.address.val statement (.named "mainnet") p.nonce.val
        p.issuedAt := by
  have hfamily : (ascii "Solana").length = 6 := length_ascii_ofList _
  have hstatement := length_statement
  have hchain : (Chain.named "mainnet").text.length = 7 := by decide
  have haddress : p.address.val.length ≤ 44 := p.address.property
  exact writeMessage_eq (by omega) hcap _ _ _

theorem of_messageText {A B : Type} {p : SignIn A} {q : SignIn B} {family statement : String}
    {chain : Chain} {address address' : List UInt8}
    (h : messageText p.domain.bytes family address statement chain p.nonce.val p.issuedAt =
      messageText q.domain.bytes family address' statement chain q.nonce.val q.issuedAt) :
    p.domain = q.domain ∧ p.nonce = q.nonce ∧ p.issuedAt = q.issuedAt ∧ address = address' := by
  obtain ⟨hdomain, hbody⟩ := messageText_inj h
  rw [← hdomain] at hbody
  obtain ⟨haddress, hnonce, htime⟩ := messageBody_inj hbody
  exact ⟨hdomain, hnonce, isoText_inj p.early q.early htime, haddress⟩

theorem siwe_injective : Function.Injective (siwe keccak256) := by
  intro p q h
  rw [siwe, siwe, siwe_eq (Nat.le_refl _), siwe_eq (Nat.le_refl _)] at h
  obtain ⟨hdomain, hnonce, htime, haddress⟩ := of_messageText h
  exact SignIn.ext hdomain hnonce htime (checksumHex_inj haddress)

theorem legacy_injective : Function.Injective (legacy keccak256) := by
  intro p q h
  rw [legacy, legacy, legacy_eq (Nat.le_refl _), legacy_eq (Nat.le_refl _)] at h
  obtain ⟨hdomain, hnonce, htime, haddress⟩ := of_messageText h
  exact SignIn.ext hdomain hnonce htime (checksumHex_inj haddress)

theorem siws_injective : Function.Injective siws := by
  intro p q h
  rw [siws, siws, siws_eq (Nat.le_refl _), siws_eq (Nat.le_refl _)] at h
  obtain ⟨hdomain, hnonce, htime, haddress⟩ := of_messageText h
  exact SignIn.ext hdomain hnonce htime (Subtype.ext haddress)

theorem family_ne {domain domain' : Domain} {statement statement' : String} {chain chain' : Chain}
    {address address' nonce nonce' : List UInt8} {issuedAt issuedAt' : ℕ} :
    messageText domain.bytes "Ethereum" address statement chain nonce issuedAt ≠
      messageText domain'.bytes "Solana" address' statement' chain' nonce' issuedAt' := by
  intro h
  obtain ⟨rest, hethereum⟩ : ∃ rest, ascii "Ethereum" = 69 :: rest := ⟨_, ascii_ofList _⟩
  obtain ⟨rest', hsolana⟩ : ∃ rest, ascii "Solana" = 83 :: rest := ⟨_, ascii_ofList _⟩
  have hbody := (messageText_inj h).2
  rw [messageBody, messageBody, hethereum, hsolana] at hbody
  exact absurd (List.cons.inj hbody).1 (by decide)

theorem siwe_ne_siws (p : SignIn Address) (q : SignIn SolanaAddress) : p.siwe keccak256 ≠ q.siws := by
  rw [siwe, siws, siwe_eq (Nat.le_refl _), siws_eq (Nat.le_refl _)]
  exact family_ne

theorem legacy_ne_siws (p : SignIn Address) (q : SignIn SolanaAddress) :
    p.legacy keccak256 ≠ q.siws := by
  rw [legacy, siws, legacy_eq (Nat.le_refl _), siws_eq (Nat.le_refl _)]
  exact family_ne

theorem siwe_ne_legacy (p q : SignIn Address) : p.siwe keccak256 ≠ q.legacy keccak256 := by
  intro h
  rw [siwe, legacy, siwe_eq (Nat.le_refl _), legacy_eq (Nat.le_refl _)] at h
  obtain ⟨hdomain, hbody⟩ := messageText_inj h
  obtain ⟨rest, hstatement⟩ : ∃ rest, ascii statement = 80 :: rest := ⟨_, ascii_ofList _⟩
  obtain ⟨rest', hlegacy⟩ : ∃ rest, ascii legacyStatement = 83 :: rest := ⟨_, ascii_ofList _⟩
  rw [messageBody, messageBody, hstatement, hlegacy] at hbody
  simp only [List.append_cancel_left_eq] at hbody
  obtain ⟨-, hlines⟩ := List.append_inj hbody (by rw [length_checksumHex, length_checksumHex])
  exact absurd (List.cons.inj (List.append_cancel_left hlines)).1 (by decide)

end SignIn

/-- Texts fit their buffer whole; each kind is of one server, nonce, time and address; no text is of
two kinds; and the time in them is the Gregorian date and time of day, later times having greater
texts. -/
theorem texts_name_one_signIn (keccak256 : List UInt8 → Block 32) :
    (∀ cap, siweMax ≤ cap →
      (∀ p : SignIn Address,
        siweMessage cap keccak256 p.domain p.nonce p.issuedAt p.address = p.siwe keccak256 ∧
          legacyMessage cap keccak256 p.domain p.nonce p.issuedAt p.address = p.legacy keccak256) ∧
      ∀ p : SignIn SolanaAddress,
        siwsMessage cap p.domain p.nonce p.issuedAt p.address.val = p.siws) ∧
    (Function.Injective (SignIn.siwe keccak256) ∧ Function.Injective SignIn.siws ∧
      Function.Injective (SignIn.legacy keccak256)) ∧
    ((∀ p q : SignIn Address, p.siwe keccak256 ≠ q.legacy keccak256) ∧
      (∀ (p : SignIn Address) (q : SignIn SolanaAddress), p.siwe keccak256 ≠ q.siws) ∧
      ∀ (p : SignIn Address) (q : SignIn SolanaAddress), p.legacy keccak256 ≠ q.siws) ∧
    (∀ t < year10000, ((⟨[]⟩ : Text siweMax).iso8601 t).out =
      digits 4 (Date.ofDays (t / 86400)).year ++ ascii "-" ++
        digits 2 (Date.ofDays (t / 86400)).month ++ ascii "-" ++
        digits 2 (Date.ofDays (t / 86400)).day ++ ascii "T" ++
        digits 2 (t % 86400 / 3600) ++ ascii ":" ++ digits 2 (t % 86400 % 3600 / 60) ++ ascii ":" ++
        digits 2 (t % 86400 % 60) ++ ascii "Z" ∧
      (Date.ofDays (t / 86400)).Valid ∧ (Date.ofDays (t / 86400)).year < 10000) ∧
    ∀ s t, s < t → t < year10000 →
      ((⟨[]⟩ : Text siweMax).iso8601 s).out < ((⟨[]⟩ : Text siweMax).iso8601 t).out := by
  have hiso (t : ℕ) : ((⟨[]⟩ : Text siweMax).iso8601 t).out = isoText t := by
    have hholds := Text.Holds.iso8601 (w := (⟨[]⟩ : Text siweMax)) (l := []) List.take_nil.symm t
    rw [Text.Holds, List.nil_append] at hholds
    rw [hholds, List.take_of_length_le]
    rw [length_isoText]
    decide
  refine ⟨fun cap hcap => ⟨fun p => ⟨?_, ?_⟩, fun p => ?_⟩, ⟨SignIn.siwe_injective, SignIn.siws_injective,
    SignIn.legacy_injective⟩, ⟨SignIn.siwe_ne_legacy, SignIn.siwe_ne_siws, SignIn.legacy_ne_siws⟩,
    fun t ht => ⟨?_, Date.valid_ofDays _, year_lt ht⟩, fun s t hst ht => ?_⟩
  · rw [SignIn.siwe, SignIn.siwe_eq hcap, SignIn.siwe_eq (Nat.le_refl _)]
  · rw [SignIn.legacy, SignIn.legacy_eq hcap, SignIn.legacy_eq (Nat.le_refl _)]
  · rw [SignIn.siws, SignIn.siws_eq hcap, SignIn.siws_eq (Nat.le_refl _)]
  · rw [hiso, isoText_eq]
  · rw [hiso, hiso]
    exact isoText_lt hst ht

/-! ## Checking signatures -/

inductive AuthError
  | badRecoveryId
  /-- Not a valid secp256k1 signature. -/
  | malformed
  | wrongSigner
  deriving DecidableEq

namespace SignIn

-- Both schemes' checks of a signature over a text are parameters.
variable {S : Type} (keccak256 : List UInt8 → Block 32)
  (verifyText : List UInt8 → Address → S → Except AuthError Unit)
  (ed25519 : List UInt8 → SolanaAddress → S → Bool)

/-- The message is rebuilt, never taken from the client: as it is now, or else as it first was. -/
def verify (p : SignIn Address) (signature : S) : Except AuthError Unit :=
  match verifyText (p.siwe keccak256) p.address signature with
  | .error .wrongSigner => verifyText (p.legacy keccak256) p.address signature
  | now => now

def verifySolana (p : SignIn SolanaAddress) (signature : S) : Except AuthError Unit :=
  if ed25519 p.siws p.address signature then .ok () else .error .wrongSigner

variable {keccak256 verifyText ed25519}

theorem verify_ok {p : SignIn Address} {signature : S}
    (h : p.verify keccak256 verifyText signature = .ok ()) :
    verifyText (p.siwe keccak256) p.address signature = .ok ()
      ∨ verifyText (p.legacy keccak256) p.address signature = .ok () := by
  unfold verify at h
  split at h
  · exact Or.inr h
  · exact Or.inl h

/-- Where a signature passes only over what its wallet signed, and the texts a wallet signed are of
the sign-ins asked of it or of another family, only a sign-in asked for passes. -/
theorem verify_asked {signed : Address → Set (List UInt8)} {asked : Set (SignIn Address)}
    (hsigned : ∀ text a signature, verifyText text a signature = .ok () → text ∈ signed a)
    (hasked : ∀ a, ∀ text ∈ signed a,
      (∃ q ∈ asked, text = q.siwe keccak256 ∨ text = q.legacy keccak256)
        ∨ ∃ q : SignIn SolanaAddress, text = q.siws)
    {p : SignIn Address} {signature : S} (h : p.verify keccak256 verifyText signature = .ok ()) :
    p ∈ asked := by
  rcases verify_ok h with hnow | hlegacy
  · rcases hasked _ _ (hsigned _ _ _ hnow) with ⟨q, hq, heq | heq⟩ | ⟨q, heq⟩
    · rwa [siwe_injective heq]
    · exact absurd heq (siwe_ne_legacy p q)
    · exact absurd heq (siwe_ne_siws p q)
  · rcases hasked _ _ (hsigned _ _ _ hlegacy) with ⟨q, hq, heq | heq⟩ | ⟨q, heq⟩
    · exact absurd heq.symm (siwe_ne_legacy q p)
    · rwa [legacy_injective heq]
    · exact absurd heq (legacy_ne_siws p q)

theorem verifySolana_asked {signed : SolanaAddress → Set (List UInt8)}
    {asked : Set (SignIn SolanaAddress)}
    (hsigned : ∀ text a signature, ed25519 text a signature = true → text ∈ signed a)
    (hasked : ∀ a, ∀ text ∈ signed a, (∃ q ∈ asked, text = q.siws)
      ∨ ∃ q : SignIn Address, text = q.siwe keccak256 ∨ text = q.legacy keccak256)
    {p : SignIn SolanaAddress} {signature : S}
    (h : p.verifySolana ed25519 signature = .ok ()) : p ∈ asked := by
  have hpass : ed25519 p.siws p.address signature = true := by
    unfold verifySolana at h
    split at h
    · assumption
    · cases h
  rcases hasked _ _ (hsigned _ _ _ hpass) with ⟨q, hq, heq⟩ | ⟨q, heq | heq⟩
  · rwa [siws_injective heq]
  · exact absurd heq.symm (siwe_ne_siws q p)
  · exact absurd heq.symm (legacy_ne_siws q p)

end SignIn

end BeforeColony
