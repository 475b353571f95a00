import BeforeColony.Auth.Base64
import BeforeColony.Auth.PlayerIds
import BeforeColony.Lib.Bytes

/-!
# Passes

An Elo Pros pass is checked offline: its signature, its seven lines, who it is for and until when,
and last its nonce. The signature scheme and the store of nonces are parameters.
-/

set_option autoImplicit false

namespace BeforeColony.Auth

open Lib Lib.Bytes

structure Passed where
  account : PlayerId
  wallet : Option PlayerId
  deriving DecidableEq

inductive PassError
  | malformed
  | wrongSigner
  | elsewhere
  | replayed
  | expired
  deriving DecidableEq

def passTextMax : ℕ := 768

structure PassLines where
  id : List UInt8
  game : List UInt8
  shard : List UInt8
  nonce : List UInt8
  wallet : List UInt8
  exp : List UInt8

def stripName (name : String) (l : List UInt8) : Option (List UInt8) :=
  if (ascii name).isPrefixOf l then some (l.drop (ascii name).length) else none

def takeLine (name : String) : List (List UInt8) → Option (List UInt8 × List (List UInt8))
  | [] => none
  | l :: lines => ((stripName name l).bind (stripName ": ")).map fun field => (field, lines)

def readLines (text : List UInt8) : Option PassLines :=
  match text.splitOn 10 with
  | [] => none
  | l :: lines =>
    if l ≠ ascii "elo account" then none
    else do
      let (id, lines) ← takeLine "id" lines
      let (game, lines) ← takeLine "for" lines
      let (shard, lines) ← takeLine "shard" lines
      let (nonce, lines) ← takeLine "nonce" lines
      let (wallet, lines) ← takeLine "wallet" lines
      let (exp, lines) ← takeLine "exp" lines
      if lines ≠ [] then none else some ⟨id, game, shard, nonce, wallet, exp⟩

/-- A decimal digit more of a number below 2 ^ 64. -/
def decimalStep (v : ℕ) (c : UInt8) : Option ℕ :=
  if 48 ≤ c ∧ c ≤ 57 ∧ v * 10 + (c - 48).toNat < 2 ^ 64 then some (v * 10 + (c - 48).toNat) else none

/-- A 64-bit number as the standard library reads one: digits, with a plus sign before them or not. -/
def parseU64 : List UInt8 → Option ℕ
  | [] => none
  | 43 :: c :: rest => (c :: rest).foldlM decimalStep 0
  | s => s.foldlM decimalStep 0

def PlayerId.isWallet (id : PlayerId) : Bool := id.kind ≠ .account

/-- The wallet a pass names, if it names one. -/
def readWallet (s : List UInt8) : Option (Option PlayerId) :=
  if s = ascii "none" then some none
  else ((PlayerId.parse s).filter PlayerId.isWallet).map some

/-- What comes before a text's first `.` and what after. -/
def splitDot (pass : List UInt8) : Option (List UInt8 × List UInt8) :=
  match pass.dropWhile (· ≠ 46) with
  | [] => none
  | _ :: sig => some (pass.takeWhile (· ≠ 46), sig)

def okOr {α : Type} (e : PassError) (o : Option α) : Except PassError α := o.elim (.error e) .ok

section

variable {Nonces : Type} (verify : Block 32 → List UInt8 → List UInt8 → Bool)
  (nonceOk : Nonces → List UInt8 → Bool × Nonces)

def checkPass (pass : List UInt8) (key : Block 32) (slug : List UInt8) (hosts : List (List UInt8))
    (now : ℕ) : Except PassError (Passed × List UInt8) := do
  let (body, sig) ← okOr .malformed (splitDot pass)
  let text ← okOr .malformed (base64url passTextMax body)
  let sig ← okOr .malformed (base64url 64 sig)
  if verify key text sig = false then .error .wrongSigner
  else if (ofUtf8? text).isNone then .error .malformed
  else do
    let lines ← okOr .malformed (readLines text)
    let account ← okOr .malformed ((PlayerId.parse lines.id).filter fun a => ! PlayerId.isWallet a)
    let wallet ← okOr .malformed (readWallet lines.wallet)
    let exp ← okOr .malformed (parseU64 lines.exp)
    if stripName "play:" lines.game ≠ some slug ∨ lines.shard ∉ hosts then .error .elsewhere
    else if exp ≤ now then .error .expired
    else .ok (⟨account, wallet⟩, lines.nonce)

/-- Checks a pass against the account key; the nonce is marked used last. -/
def verifyPass (pass : List UInt8) (key : Block 32) (slug : List UInt8) (hosts : List (List UInt8))
    (nonces : Nonces) (now : ℕ) : Except PassError Passed × Nonces :=
  match checkPass verify pass key slug hosts now with
  | .error e => (.error e, nonces)
  | .ok (passed, nonce) =>
    let (good, nonces) := nonceOk nonces nonce
    (if good then .ok passed else .error .replayed, nonces)

end

/-! ## The lines of a pass -/

theorem stripName_eq_some_iff {name : String} {l field : List UInt8} :
    stripName name l = some field ↔ l = ascii name ++ field := by
  constructor
  · intro h
    unfold stripName at h
    split at h
    · rename_i hmark
      obtain ⟨rest, rfl⟩ := List.isPrefixOf_iff_prefix.mp hmark
      rw [List.drop_left] at h
      cases h
      rfl
    · cases h
  · rintro rfl
    rw [stripName, if_pos (List.isPrefixOf_iff_prefix.mpr (List.prefix_append _ _)), List.drop_left]

def fieldLine (name : String) (field : List UInt8) : List UInt8 := ascii name ++ (ascii ": " ++ field)

theorem takeLine_eq_some_iff {name : String} {lines rest : List (List UInt8)} {field : List UInt8} :
    takeLine name lines = some (field, rest) ↔ lines = fieldLine name field :: rest := by
  cases lines with
  | nil => simp [takeLine]
  | cons l lines =>
    simp only [takeLine, Option.map_eq_some_iff, Option.bind_eq_some_iff, stripName_eq_some_iff,
      Prod.mk.injEq, List.cons.injEq, fieldLine]
    constructor
    · rintro ⟨_, ⟨_, rfl, rfl⟩, rfl, rfl⟩
      exact ⟨rfl, rfl⟩
    · rintro ⟨rfl, rfl⟩
      exact ⟨field, ⟨_, rfl, rfl⟩, rfl, rfl⟩

namespace PassLines

variable (p : PassLines)

def lines : List (List UInt8) :=
  [ascii "elo account", fieldLine "id" p.id, fieldLine "for" p.game, fieldLine "shard" p.shard,
    fieldLine "nonce" p.nonce, fieldLine "wallet" p.wallet, fieldLine "exp" p.exp]

def text : List UInt8 := [10].intercalate p.lines

def OneLineEach : Prop :=
  10 ∉ p.id ∧ 10 ∉ p.game ∧ 10 ∉ p.shard ∧ 10 ∉ p.nonce ∧ 10 ∉ p.wallet ∧ 10 ∉ p.exp

end PassLines

theorem not_mem_splitOn {α : Type} [DecidableEq α] {a : α} {l piece : List α}
    (h : piece ∈ l.splitOn a) : a ∉ piece := by
  induction l generalizing piece with
  | nil =>
    rw [List.splitOn_nil, List.mem_singleton] at h
    rw [h]
    exact List.not_mem_nil
  | cons x l ih =>
    rw [List.splitOn_cons_eq_if_modifyHead] at h
    split at h
    · rcases List.mem_cons.mp h with rfl | h
      · exact List.not_mem_nil
      · exact ih h
    · rename_i hne
      cases hl : l.splitOn a with
      | nil => exact absurd hl (List.splitOn_ne_nil a l)
      | cons first rest =>
        rw [hl] at h ih
        rcases List.mem_cons.mp h with rfl | h
        · intro hmem
          rcases List.mem_cons.mp hmem with rfl | hmem
          · exact hne (beq_self_eq_true a)
          · exact ih List.mem_cons_self hmem
        · exact ih (List.mem_cons_of_mem first h)

theorem not_mem_fieldLine {name : String} {field : List UInt8} (hname : 10 ∉ ascii name) :
    10 ∉ fieldLine name field ↔ 10 ∉ field := by
  have hmark : (10 : UInt8) ∉ ascii ": " := by decide
  simp only [fieldLine, List.mem_append, hname, hmark, false_or]

theorem PassLines.not_mem_lines {p : PassLines} : (∀ l ∈ p.lines, 10 ∉ l) ↔ p.OneLineEach := by
  simp only [PassLines.lines, PassLines.OneLineEach, List.forall_mem_cons,
    not_mem_fieldLine (show (10 : UInt8) ∉ ascii "id" by decide),
    not_mem_fieldLine (show (10 : UInt8) ∉ ascii "for" by decide),
    not_mem_fieldLine (show (10 : UInt8) ∉ ascii "shard" by decide),
    not_mem_fieldLine (show (10 : UInt8) ∉ ascii "nonce" by decide),
    not_mem_fieldLine (show (10 : UInt8) ∉ ascii "wallet" by decide),
    not_mem_fieldLine (show (10 : UInt8) ∉ ascii "exp" by decide),
    show (10 : UInt8) ∉ ascii "elo account" by decide, not_false_eq_true, true_and, List.not_mem_nil,
    false_implies, implies_true, and_true]

theorem readLines_eq {text : List UInt8} {p : PassLines} :
    readLines text = some p ↔ text.splitOn 10 = p.lines := by
  cases hlines : text.splitOn 10 with
  | nil => exact absurd hlines (List.splitOn_ne_nil _ _)
  | cons l lines =>
    simp only [readLines, hlines]
    split
    · rename_i hne
      constructor
      · intro h
        cases h
      · intro h
        exact absurd (List.cons.inj h).1 hne
    · rename_i heq
      rw [not_not.mp heq]
      constructor
      · intro h
        simp only [Option.bind_eq_bind, Option.bind_eq_some_iff, Prod.exists, takeLine_eq_some_iff] at h
        obtain ⟨id, _, rfl, game, _, rfl, shard, _, rfl, nonce, _, rfl, wallet, _, rfl, exp, _, rfl, h⟩ := h
        split at h
        · cases h
        · rename_i hend
          cases h
          rw [not_not.mp hend]
          rfl
      · intro h
        cases h
        simp only [Option.bind_eq_bind, Option.bind_eq_some_iff, Prod.exists, takeLine_eq_some_iff]
        exact ⟨_, _, rfl, _, _, rfl, _, _, rfl, _, _, rfl, _, _, rfl, _, _, rfl, rfl⟩

theorem readLines_eq_some_iff {text : List UInt8} {p : PassLines} :
    readLines text = some p ↔ text = p.text ∧ p.OneLineEach := by
  rw [readLines_eq]
  constructor
  · intro h
    refine ⟨?_, PassLines.not_mem_lines.mp fun l hl => not_mem_splitOn (h ▸ hl)⟩
    rw [PassLines.text, ← h, List.intercalate_splitOn]
  · rintro ⟨rfl, hone⟩
    exact List.splitOn_intercalate 10 (PassLines.not_mem_lines.mpr hone) (List.cons_ne_nil _ _)

theorem splitDot_eq_some_iff {pass body sig : List UInt8} :
    splitDot pass = some (body, sig) ↔ pass = body ++ 46 :: sig ∧ 46 ∉ body := by
  unfold splitDot
  constructor
  · intro h
    have hsplit := List.takeWhile_append_dropWhile (p := fun b : UInt8 => decide (b ≠ 46)) (l := pass)
    cases hrest : pass.dropWhile fun b : UInt8 => decide (b ≠ 46) with
    | nil =>
      rw [hrest] at h
      cases h
    | cons dot sig' =>
      have hdot := List.head?_dropWhile_not (fun b : UInt8 => decide (b ≠ 46)) pass
      rw [hrest] at h hsplit hdot
      cases h
      have hdot : dot = 46 := by simpa using hdot
      rw [hdot] at hsplit
      refine ⟨hsplit.symm, fun hmem => ?_⟩
      have := List.all_eq_true.mp (List.all_takeWhile (p := fun b : UInt8 => decide (b ≠ 46))) 46 hmem
      revert this
      decide
  · rintro ⟨rfl, hbody⟩
    have hall : ∀ b ∈ body, decide (b ≠ 46) = true := fun b hb =>
      decide_eq_true fun heq => hbody (heq ▸ hb)
    rw [List.dropWhile_append_of_pos hall, List.takeWhile_append_of_pos hall]
    simp

/-! ## What is taken -/

@[simp] theorem okOr_bind_eq_ok {α β : Type} {e : PassError} {o : Option α} {f : α → Except PassError β}
    {b : β} : (okOr e o >>= f) = .ok b ↔ ∃ a, o = some a ∧ f a = .ok b := by
  cases o with
  | none =>
    constructor
    · intro h
      cases h
    · rintro ⟨_, h, -⟩
      cases h
  | some a =>
    constructor
    · exact fun h => ⟨a, rfl, h⟩
    · rintro ⟨_, h, hb⟩
      cases h
      exact hb

def WalletLine (s : List UInt8) (wallet : Option PlayerId) : Prop :=
  (s = ascii "none" ∧ wallet = none)
    ∨ ∃ id, PlayerId.parse s = some id ∧ id.isWallet = true ∧ wallet = some id

theorem readWallet_eq_some_iff {s : List UInt8} {wallet : Option PlayerId} :
    readWallet s = some wallet ↔ WalletLine s wallet := by
  unfold readWallet WalletLine
  split
  · rename_i hnone
    have hparse : PlayerId.parse s = none := by
      rw [hnone]
      decide +kernel
    constructor
    · intro h
      cases h
      exact Or.inl ⟨hnone, rfl⟩
    · rintro (⟨-, rfl⟩ | ⟨id, hid, -⟩)
      · rfl
      · rw [hparse] at hid
        cases hid
  · rename_i hsome
    simp only [Option.map_eq_some_iff, Option.filter_eq_some_iff]
    constructor
    · rintro ⟨id, ⟨hid, hkind⟩, rfl⟩
      exact Or.inr ⟨id, hid, hkind, rfl⟩
    · rintro (⟨hnone, -⟩ | ⟨id, hid, hkind, rfl⟩)
      · exact absurd hnone hsome
      · exact ⟨id, ⟨hid, hkind⟩, rfl⟩

section

variable {Nonces : Type} {verify : Block 32 → List UInt8 → List UInt8 → Bool}
  {nonceOk : Nonces → List UInt8 → Bool × Nonces} {pass : List UInt8} {key : Block 32}
  {slug : List UInt8} {hosts : List (List UInt8)} {now : ℕ} {passed : Passed} {nonce : List UInt8}
  {nonces : Nonces}

variable (verify pass key slug hosts now passed nonce) in
/-- A pass that is good but for its nonce: signed, in exactly the seven lines, naming an account and
a wallet or none, for this game and one of the hosts, and not expired. -/
def Good : Prop :=
  ∃ (body sig64 sig : List UInt8) (lines : PassLines) (exp : ℕ),
    pass = body ++ 46 :: sig64 ∧ 46 ∉ body ∧ base64url passTextMax body = some lines.text
      ∧ base64url 64 sig64 = some sig ∧ verify key lines.text sig = true
      ∧ (ofUtf8? lines.text).isSome = true ∧ lines.OneLineEach
      ∧ PlayerId.parse lines.id = some passed.account ∧ passed.account.isWallet = false
      ∧ WalletLine lines.wallet passed.wallet ∧ lines.game = ascii "play:" ++ slug
      ∧ lines.shard ∈ hosts ∧ parseU64 lines.exp = some exp ∧ now < exp ∧ lines.nonce = nonce

theorem checkPass_eq_ok_iff : checkPass verify pass key slug hosts now = .ok (passed, nonce)
    ↔ Good verify pass key slug hosts now passed nonce := by
  simp only [checkPass, okOr_bind_eq_ok, Prod.exists, splitDot_eq_some_iff]
  constructor
  · rintro ⟨body, sig64, ⟨hpass, hdot⟩, text, htext, sig, hsig, h⟩
    split at h
    · cases h
    · rename_i hverify
      split at h
      · cases h
      · rename_i hutf8
        simp only [okOr_bind_eq_ok, readLines_eq_some_iff, readWallet_eq_some_iff,
          Option.filter_eq_some_iff, Bool.not_eq_true'] at h
        obtain ⟨lines, ⟨rfl, hone⟩, account, ⟨haccount, hkind⟩, wallet, hwallet, exp, hexp, h⟩ := h
        split at h
        · cases h
        · rename_i hhere
          obtain ⟨hgame, hshard⟩ := not_or.mp hhere
          split at h
          · cases h
          · rename_i hlive
            cases h
            exact ⟨body, sig64, sig, lines, exp, hpass, hdot, htext, hsig,
              Bool.eq_true_of_not_eq_false hverify,
              Option.isSome_iff_ne_none.mpr (by simpa using hutf8), hone, haccount, hkind,
              hwallet, stripName_eq_some_iff.mp (not_not.mp hgame), not_not.mp hshard, hexp,
              not_le.mp hlive, rfl⟩
  · rintro ⟨body, sig64, sig, lines, exp, hpass, hdot, htext, hsig, hverify, hutf8, hone, haccount,
      hkind, hwallet, hgame, hshard, hexp, hlive, rfl⟩
    refine ⟨body, sig64, ⟨hpass, hdot⟩, lines.text, htext, sig, hsig, ?_⟩
    have hvalid : ¬ (ofUtf8? lines.text).isNone = true := by
      rw [Option.isNone_iff_eq_none]
      exact Option.isSome_iff_ne_none.mp hutf8
    rw [if_neg (by rw [hverify]; decide), if_neg hvalid]
    simp only [okOr_bind_eq_ok, readLines_eq_some_iff, readWallet_eq_some_iff,
      Option.filter_eq_some_iff, Bool.not_eq_true']
    refine ⟨lines, ⟨rfl, hone⟩, passed.account, ⟨haccount, hkind⟩, passed.wallet, hwallet, exp, hexp,
      ?_⟩
    rw [if_neg, if_neg (not_le.mpr hlive)]
    rintro (hother | hother)
    · exact hother (stripName_eq_some_iff.mpr hgame)
    · exact hother hshard

end

variable {Nonces : Type}

/-- A pass is taken when it is good and its nonce is, which is put to the store exactly when all
else is right: a pass that isn't good leaves the store as it was. base64url gives bytes back from
their text, and takes the texts of its alphabet whose whole bytes fit, whatever bits are left over. -/
theorem pass_taken_whole (verify : Block 32 → List UInt8 → List UInt8 → Bool)
    (nonceOk : Nonces → List UInt8 → Bool × Nonces) (pass : List UInt8) (key : Block 32)
    (slug : List UInt8) (hosts : List (List UInt8)) (nonces : Nonces) (now : ℕ) :
    (∀ passed, (verifyPass verify nonceOk pass key slug hosts nonces now).1 = .ok passed
        ↔ ∃ nonce, Good verify pass key slug hosts now passed nonce ∧ (nonceOk nonces nonce).1 = true)
      ∧ (∀ passed nonce, Good verify pass key slug hosts now passed nonce →
        (verifyPass verify nonceOk pass key slug hosts nonces now).2 = (nonceOk nonces nonce).2)
      ∧ ((∀ passed nonce, ¬ Good verify pass key slug hosts now passed nonce) →
        (verifyPass verify nonceOk pass key slug hosts nonces now).2 = nonces)
      ∧ (∀ (cap : ℕ) (bytes : List UInt8), bytes.length ≤ cap →
        base64url cap (base64Write bytes) = some bytes)
      ∧ ∀ (cap : ℕ) (s out : List UInt8), base64url cap s = some out ↔
        ∃ vs, s.mapM sextet = some vs ∧ out.length = 6 * vs.length / 8 ∧ out.length ≤ cap
          ∧ bytesValue out = Radix.horner 64 0 vs / 2 ^ (6 * vs.length % 8) := by
  refine ⟨fun passed => ?_, fun passed nonce h => ?_, fun h => ?_, fun cap bytes => base64url_write,
    fun cap s out => base64url_eq_some_iff⟩
  · unfold verifyPass
    simp only [← checkPass_eq_ok_iff]
    split
    · rename_i e he
      simp [he]
    · rename_i p nonce hok
      simp only [hok, Except.ok.injEq, Prod.mk.injEq]
      cases hgood : (nonceOk nonces nonce).1 with
      | true =>
        constructor
        · intro h
          cases h
          exact ⟨nonce, ⟨rfl, rfl⟩, hgood⟩
        · rintro ⟨_, ⟨rfl, -⟩, -⟩
          rfl
      | false =>
        constructor
        · intro h
          cases h
        · rintro ⟨_, ⟨-, rfl⟩, htrue⟩
          rw [hgood] at htrue
          cases htrue
  · rw [← checkPass_eq_ok_iff] at h
    simp only [verifyPass, h]
  · unfold verifyPass
    split
    · rfl
    · rename_i p nonce hok
      exact absurd (checkPass_eq_ok_iff.mp hok) (h p nonce)

/-- Two texts of one byte. -/
theorem leftover_bits_are_ignored : ¬ ∀ (cap : ℕ) (s out : List UInt8), base64url cap s = some out →
    s = base64Write out := by
  intro h
  have hread : base64url 1 (ascii "AB") = some [0] := by decide +kernel
  have := h 1 (ascii "AB") [0] hread
  revert this
  decide +kernel

end BeforeColony.Auth
