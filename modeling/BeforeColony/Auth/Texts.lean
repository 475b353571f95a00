import BeforeColony.Lib.Calendar
import BeforeColony.Proto.Control

/-!
# Sign-in texts

What a wallet signs to sign in: a text of fixed lines around the server's name, the wallet's address,
the server's nonce and the time, written into a buffer of fixed size. The hash that an address is
cased by is a parameter.
-/

set_option autoImplicit false

namespace BeforeColony

open Lib

def siweMax : ℕ := 512

def chainId : ℕ := 4663
def legacyChainId : ℕ := 1

def maxPlayerId : ℕ := 44

def ascii (s : String) : List UInt8 := s.toList.map fun c => UInt8.ofNat c.toNat

theorem ascii_ofList (l : List Char) :
    ascii (String.ofList l) = l.map fun c => UInt8.ofNat c.toNat := by
  rw [ascii, String.toList_ofList]

theorem length_ascii_ofList (l : List Char) : (ascii (String.ofList l)).length = l.length := by
  rw [ascii_ofList, List.length_map]

def hexDigit (n : UInt8) : UInt8 := (ascii "0123456789abcdef").getD n.toNat 0

theorem hexDigits_eq : ascii "0123456789abcdef" =
    [48, 49, 50, 51, 52, 53, 54, 55, 56, 57, 97, 98, 99, 100, 101, 102] := ascii_ofList _

theorem hexDigit_eq (n : UInt8) : hexDigit n =
    [48, 49, 50, 51, 52, 53, 54, 55, 56, 57, 97, 98, 99, 100, 101, 102].getD n.toNat 0 := by
  rw [hexDigit, hexDigits_eq]

def hexText (bytes : List UInt8) : List UInt8 :=
  bytes.flatMap fun b : UInt8 => [hexDigit (b >>> 4), hexDigit (b &&& 0xf)]

abbrev Address := Block 20

def lowerHex (a : Address) : List UInt8 := ascii "0x" ++ hexText a.val

def toUpper (c : UInt8) : UInt8 := if 97 ≤ c ∧ c ≤ 122 then c - 32 else c

/-- The address's digits cased by a hash of themselves. -/
def checksumHex (keccak256 : List UInt8 → Block 32) (a : Address) : List UInt8 :=
  let hash := (keccak256 (hexText a.val)).val
  let nibble (i : ℕ) : UInt8 := (hash.getD (i / 2) 0 >>> (if i % 2 = 0 then 4 else 0)) &&& 0xf
  ascii "0x" ++ (hexText a.val).mapIdx fun i c => if 8 ≤ nibble i then toUpper c else c

/-! ## Writing -/

/-- A text written so far into a buffer of `cap` bytes: what doesn't fit is cut off. -/
structure Text (cap : ℕ) where
  out : List UInt8

namespace Text

variable {cap : ℕ}

def bytes (w : Text cap) (b : List UInt8) : Text cap := ⟨w.out ++ b.take (cap - w.out.length)⟩

def str (w : Text cap) (s : String) : Text cap := w.bytes (ascii s)

def hex (w : Text cap) (b : List UInt8) : Text cap :=
  b.foldl (fun w (x : UInt8) => w.bytes [hexDigit (x >>> 4), hexDigit (x &&& 0xf)]) w

/-- A number's decimal digits, at most twenty. -/
def decimal (v : ℕ) : List UInt8 := go 20 v []
where
  go : ℕ → ℕ → List UInt8 → List UInt8
    | 0, _, digits => digits
    | fuel + 1, v, digits =>
      let digits := UInt8.ofNat (48 + v % 10) :: digits
      if v / 10 = 0 then digits else go fuel (v / 10) digits

def num (w : Text cap) (v : ℕ) : Text cap := w.bytes (decimal v)

def pad2 (w : Text cap) (v : ℕ) : Text cap :=
  w.bytes [UInt8.ofNat (48 + v / 10 % 10), UInt8.ofNat (48 + v % 10)]

end Text

/-- The date of a day from the Unix epoch, by eras of 400 years that begin in March. -/
def civilFromDays (days : ℕ) : Date :=
  let z := days + 719468
  let era := z / 146097
  let doe := z % 146097
  let yoe := (doe - doe / 1460 + doe / 36524 - doe / 146096) / 365
  let doy := doe - (365 * yoe + yoe / 4 - yoe / 100)
  let mp := (5 * doy + 2) / 153
  let d := doy - (153 * mp + 2) / 5 + 1
  let m := if mp < 10 then mp + 3 else mp - 9
  let y := yoe + era * 400 + if m ≤ 2 then 1 else 0
  ⟨y, m, d⟩

def Text.iso8601 {cap : ℕ} (w : Text cap) (unixSecs : ℕ) : Text cap :=
  let date := civilFromDays (unixSecs / 86400)
  let rem := unixSecs % 86400
  let w := (w.pad2 (date.year / 100)).pad2 (date.year % 100)
  let w := (w.str "-").pad2 date.month
  let w := (w.str "-").pad2 date.day
  let w := (w.str "T").pad2 (rem / 3600)
  let w := (w.str ":").pad2 (rem % 3600 / 60)
  let w := (w.str ":").pad2 (rem % 60)
  w.str "Z"

/-! ## The messages -/

/-- Whether a server is this machine: its name up to the last colon. -/
def loopback (domain : List UInt8) : Bool :=
  let host := if 58 ∈ domain then ((domain.reverse.dropWhile (· != 58)).drop 1).reverse else domain
  host = ascii "127.0.0.1" || host = ascii "localhost" || host = ascii "[::1]"

inductive Chain
  | id (n : ℕ)
  | named (name : String)

def Text.chain {cap : ℕ} (w : Text cap) : Chain → Text cap
  | .id n => w.num n
  | .named name => w.str name

def writeMessage (cap : ℕ) (domain : Domain) (family : String) (address : List UInt8)
    (statement : String) (chain : Chain) (nonce : Block nonceBytes) (issuedAt : ℕ) : List UInt8 :=
  let w : Text cap := ⟨[]⟩
  let w := w.bytes domain.bytes
  let w := w.str " wants you to sign in with your "
  let w := w.str family
  let w := w.str " account:\n"
  let w := w.bytes address
  let w := w.str "\n\n"
  let w := w.str statement
  let w := w.str "\n\nURI: "
  let w := w.str (if loopback domain.bytes then "http://" else "https://")
  let w := w.bytes domain.bytes
  let w := w.str "\nVersion: 1\nChain ID: "
  let w := w.chain chain
  let w := w.str "\nNonce: "
  let w := w.hex nonce.val
  let w := w.str "\nIssued At: "
  let w := w.iso8601 issuedAt
  w.out

def statement : String :=
  "Prove your identity to play before-colony. This signature authorises nothing and moves no funds."

def legacyStatement : String :=
  "Sign in to Before Colony. This proves you own this address; it authorizes nothing and moves no funds."

section

variable (cap : ℕ) (keccak256 : List UInt8 → Block 32) (domain : Domain) (nonce : Block nonceBytes)
  (issuedAt : ℕ)

def siweMessage (address : Address) : List UInt8 :=
  writeMessage cap domain "Ethereum" (checksumHex keccak256 address) statement (.id chainId) nonce
    issuedAt

/-- A Solana wallet's, its address as written. -/
def siwsMessage (address : List UInt8) : List UInt8 :=
  writeMessage cap domain "Solana" address statement (.named "mainnet") nonce issuedAt

def legacyMessage (address : Address) : List UInt8 :=
  writeMessage cap domain "Ethereum" (checksumHex keccak256 address) legacyStatement
    (.id legacyChainId) nonce issuedAt

end

end BeforeColony
