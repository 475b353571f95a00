import BeforeColony.Auth.PlayerIds
import BeforeColony.Lib.Bytes
import BeforeColony.Lib.Run

/-!
# Nonces

A nonce handed to the page carries its own proof: when it was issued, eight random bytes and their
MAC. What was taken is remembered until it has expired, so a run keeps beside it everything issued
and everything taken.
-/

set_option autoImplicit false

namespace BeforeColony.Elo

open Lib Auth

/-- How long a nonce is good for, in seconds. -/
def nonceTtl : UInt64 := 900

def nonceCap : ℕ := 100000

/-- The nonces taken and not forgotten, each with when it was issued. -/
abbrev Used := List (List UInt8 × UInt64)

/-- What is handed out at `now`, but for its MAC. -/
def headAt (now : UInt64) (random : Block 8) : List UInt8 :=
  hexText (Bytes.leBytes 8 now.toNat).reverse ++ hexText random.val

section

variable (mac : List UInt8 → Block 16)

def issueAt (now : UInt64) (random : Block 8) : List UInt8 :=
  headAt now random ++ hexText (mac (headAt now random)).val

/-- Whether two texts differ, without stopping where they do. -/
def differ (want got : List UInt8) : Bool :=
  (want.zip got).foldl (fun acc p => acc ||| (p.1 ^^^ p.2)) 0 != 0

/-- Whether a text has a nonce's shape and its own MAC. -/
def checks (n : List UInt8) : Bool :=
  lowerHexDigits n 64 && ! differ (hexText (mac (n.take 32)).val) (n.drop 32)

def issuedAt (n : List UInt8) : UInt64 :=
  UInt64.ofNat (Radix.horner 16 0 ((n.take 16).map fun c => (hexValue c).toNat))

def saturatingSub (a b : UInt64) : UInt64 := if b ≤ a then a - b else 0

/-- Whether `n` was issued here less than the time to live ago and hasn't been taken. Takes it. -/
def takeAt (used : Used) (n : List UInt8) (now : UInt64) : Bool × Used :=
  if ! checks mac n then (false, used)
  else
    let at_ := issuedAt n
    if now + 5 < at_ ∨ nonceTtl ≤ saturatingSub now at_ then (false, used)
    else
      let used := used.filter fun e => saturatingSub now e.2 < nonceTtl
      if used.any (fun e => e.1 = n) || nonceCap ≤ used.length then (false, used)
      else (true, (n, at_) :: used)

end

/-! ## Runs -/

structure Issue where
  now : UInt64
  random : Block 8

structure Taking where
  text : List UInt8
  now : UInt64

/-- The nonces, the time of the last act, and what was issued and taken so far. -/
structure Nonces where
  used : Used
  now : UInt64
  issued : List Issue
  taken : List Taking

inductive NonceAct
  | issue (i : Issue)
  | take (t : Taking)

def NonceAct.now : NonceAct → UInt64
  | .issue i => i.now
  | .take t => t.now

namespace Nonces

variable (mac : List UInt8 → Block 16)

def new : Nonces := ⟨[], 0, [], []⟩

def step (s : Nonces) : NonceAct → Nonces
  | .issue i => { s with now := i.now, issued := i :: s.issued }
  | .take t =>
    let (good, used) := takeAt mac s.used t.text t.now
    { s with used := used, now := t.now, taken := if good then t :: s.taken else s.taken }

def run (s : Nonces) (acts : List NonceAct) : Nonces := acts.foldl (step mac) s

/-- What is assumed of every step: a time no earlier than the last, random bytes unlike those so far, and
a MAC that only the issuer can make. -/
structure Fair (s : Nonces) (act : NonceAct) : Prop where
  later : s.now ≤ act.now
  fresh : ∀ i, act = .issue i → ∀ j ∈ s.issued, j.random ≠ i.random
  unforged : ∀ t, act = .take t → checks mac t.text = true →
    ∃ i ∈ s.issued, headAt i.now i.random = t.text.take 32

end Nonces

/-! ## What a text says of itself -/

theorem foldl_or_eq_zero {l l' : List UInt8} (hlength : l.length = l'.length) {acc : UInt8}
    (h : (l.zip l').foldl (fun acc p => acc ||| (p.1 ^^^ p.2)) acc = 0) : acc = 0 ∧ l = l' := by
  induction l generalizing l' acc with
  | nil => exact ⟨h, (List.length_eq_zero_iff.mp hlength.symm).symm⟩
  | cons b l ih =>
    match l', hlength with
    | b' :: l', hlength =>
      rw [List.zip_cons_cons, List.foldl_cons] at h
      obtain ⟨hhere, hrest⟩ := ih (Nat.succ.inj hlength) h
      obtain ⟨hacc, hsame⟩ := UInt8.or_eq_zero_iff.mp hhere
      have hbyte : b = b' := UInt8.xor_eq_zero_iff.mp hsame
      rw [hbyte, hrest]
      exact ⟨hacc, rfl⟩

theorem differ_eq_false {want got : List UInt8} (hlength : want.length = got.length)
    (h : differ want got = false) : want = got := by
  rw [differ, bne_eq_false_iff_eq] at h
  exact (foldl_or_eq_zero hlength h).2

theorem horner_hexText (v : ℕ) (l : List UInt8) :
    Radix.horner 16 v ((hexText l).map fun c => (hexValue c).toNat)
      = Radix.horner 256 v (l.map UInt8.toNat) := by
  have hbyte (b : UInt8) : 16 * (hexValue (hexDigit (b >>> 4))).toNat
      + (hexValue (hexDigit (b &&& 0xf))).toNat = b.toNat := by
    have hall : ∀ n < 256, 16 * (hexValue (hexDigit (UInt8.ofNat n >>> 4))).toNat
        + (hexValue (hexDigit (UInt8.ofNat n &&& 0xf))).toNat = n := by decide +kernel
    have := hall b.toNat b.toNat_lt
    rwa [UInt8.ofNat_toNat] at this
  induction l generalizing v with
  | nil => rfl
  | cons b l ih =>
    have hgroup : 16 * (16 * v + (hexValue (hexDigit (b >>> 4))).toNat)
        + (hexValue (hexDigit (b &&& 0xf))).toNat = 256 * v + b.toNat := by
      have := hbyte b
      omega
    simp only [hexText, List.flatMap_cons, List.map_append, List.map_cons, List.map_nil,
      Radix.horner_append] at ih ⊢
    simp only [Radix.horner, List.foldl_cons, List.foldl_nil] at ih ⊢
    rw [hgroup]
    exact ih _

theorem issuedAt_headAt (now : UInt64) (random : Block 8) {rest : List UInt8} :
    issuedAt (headAt now random ++ rest) = now := by
  have hlength : (hexText (Bytes.leBytes 8 now.toNat).reverse).length = 16 := by simp
  have htake : (headAt now random ++ rest).take 16 = hexText (Bytes.leBytes 8 now.toNat).reverse := by
    rw [headAt, List.append_assoc, List.take_left' hlength]
  have hvalue : Radix.horner 256 0 ((Bytes.leBytes 8 now.toNat).reverse.map UInt8.toNat)
      = now.toNat := by
    rw [List.map_reverse, Radix.horner_reverse, Nat.ofDigits_eq_foldr, List.foldr_map]
    exact Bytes.fromLeBytes_leBytes (n := 8) now.toNat_lt
  rw [issuedAt, htake, horner_hexText, hvalue]
  exact UInt64.ofNat_toNat

theorem toNat_saturatingSub (a b : UInt64) : (saturatingSub a b).toNat = a.toNat - b.toNat := by
  unfold saturatingSub
  split
  · rename_i hle
    exact UInt64.toNat_sub_of_le a b hle
  · rename_i hlt
    have : a.toNat < b.toNat := UInt64.lt_iff_toNat_lt.mp (UInt64.not_le.mp hlt)
    simp only [UInt64.toNat_zero]
    omega

theorem saturatingSub_mono {a a' : UInt64} (h : a ≤ a') (b : UInt64) :
    saturatingSub a b ≤ saturatingSub a' b := by
  rw [UInt64.le_iff_toNat_le] at h ⊢
  rw [toNat_saturatingSub, toNat_saturatingSub]
  omega

section

variable {mac : List UInt8 → Block 16}

/-- A text with its own MAC, whose head was handed out, was handed out whole. -/
theorem eq_issueAt {n : List UInt8} {now : UInt64} {random : Block 8} (hchecks : checks mac n = true)
    (hhead : headAt now random = n.take 32) : n = issueAt mac now random := by
  rw [checks, Bool.and_eq_true, Bool.not_eq_true'] at hchecks
  have hlength := (PlayerId.lowerHexDigits_iff.mp hchecks.1).1
  have hmac := differ_eq_false (by simp [hlength, (mac _).property]) hchecks.2
  rw [issueAt, hhead, hmac, List.take_append_drop]

theorem issueAt_inj {now now' : UInt64} {random random' : Block 8}
    (h : issueAt mac now random = issueAt mac now' random') : random = random' := by
  have hmiddle (now : UInt64) (random : Block 8) :
      ((issueAt mac now random).drop 16).take 16 = hexText random.val := by
    rw [issueAt, headAt, List.append_assoc, List.drop_left' (by simp),
      List.take_left' (by simp [random.property])]
  have hsame := congrArg (fun n => (n.drop 16).take 16) h
  simp only [hmiddle] at hsame
  exact Subtype.ext (hexText_inj hsame)

/-- A refusal forgets what has expired, at most; a text taken is unlike any that hasn't. -/
theorem takeAt_cases (mac : List UInt8 → Block 16) (used : Used) (n : List UInt8) (now : UInt64) :
    (∃ used', takeAt mac used n now = (false, used')
        ∧ ∀ e ∈ used, saturatingSub now e.2 < nonceTtl → e ∈ used')
      ∨ (checks mac n = true ∧ saturatingSub now (issuedAt n) < nonceTtl
        ∧ (∀ e ∈ used, saturatingSub now e.2 < nonceTtl → e.1 ≠ n)
        ∧ takeAt mac used n now
          = (true, (n, issuedAt n) :: used.filter fun e => saturatingSub now e.2 < nonceTtl)) := by
  unfold takeAt
  split
  · exact Or.inl ⟨used, rfl, fun e he _ => he⟩
  · rename_i hchecks
    dsimp only
    split
    · exact Or.inl ⟨used, rfl, fun e he _ => he⟩
    · rename_i hlive
      split
      · exact Or.inl ⟨_, rfl, fun e he hfresh => List.mem_filter.mpr ⟨he, decide_eq_true hfresh⟩⟩
      · rename_i hnew
        rw [Bool.or_eq_true, not_or, Bool.not_eq_true, List.any_eq_false] at hnew
        refine Or.inr ⟨by simpa using hchecks, UInt64.not_le.mp (not_or.mp hlive).2, ?_, rfl⟩
        intro e he hfresh
        have := hnew.1 e (List.mem_filter.mpr ⟨he, decide_eq_true hfresh⟩)
        simpa using this

end

namespace Nonces

variable {mac : List UInt8 → Block 16}

/-- What is taken was issued, in time; and is remembered as long as it is good. -/
structure Sound (mac : List UInt8 → Block 16) (s : Nonces) : Prop where
  issued_le : ∀ i ∈ s.issued, i.now ≤ s.now
  fresh : (s.issued.map Issue.random).Nodup
  remembered : ∀ t ∈ s.taken, (t.text, issuedAt t.text) ∈ s.used
    ∨ nonceTtl ≤ saturatingSub s.now (issuedAt t.text)
  once : (s.taken.map Taking.text).Nodup
  issued : ∀ t ∈ s.taken, ∃ i ∈ s.issued, t.text = issueAt mac i.now i.random
    ∧ i.now ≤ t.now ∧ t.now - i.now < nonceTtl

theorem sound_new : new.Sound mac where
  issued_le := by simp [new]
  fresh := List.nodup_nil
  remembered := by simp [new]
  once := List.nodup_nil
  issued := by simp [new]

theorem Sound.issue {s : Nonces} (h : s.Sound mac) {i : Issue} (hfair : Fair mac s (.issue i)) :
    (s.step mac (.issue i)).Sound mac where
  issued_le j hj := by
    rcases List.mem_cons.mp hj with rfl | hj
    · exact UInt64.le_refl _
    · exact UInt64.le_trans (h.issued_le j hj) hfair.later
  fresh := by
    refine List.nodup_cons.mpr ⟨fun hmem => ?_, h.fresh⟩
    obtain ⟨j, hj, heq⟩ := List.mem_map.mp hmem
    exact hfair.fresh i rfl j hj heq
  remembered t ht :=
    (h.remembered t ht).imp_right fun hold => UInt64.le_trans hold (saturatingSub_mono hfair.later _)
  once := h.once
  issued t ht := by
    obtain ⟨j, hj, hrest⟩ := h.issued t ht
    exact ⟨j, List.mem_cons_of_mem i hj, hrest⟩

theorem Sound.take {s : Nonces} (h : s.Sound mac) {t : Taking} (hfair : Fair mac s (.take t)) :
    (s.step mac (.take t)).Sound mac := by
  have hstill : ∀ u ∈ s.taken, saturatingSub t.now (issuedAt u.text) < nonceTtl →
      (u.text, issuedAt u.text) ∈ s.used := by
    intro u hu hfresh
    rcases h.remembered u hu with hmem | hold
    · exact hmem
    · exact absurd (UInt64.le_trans hold (saturatingSub_mono hfair.later _))
        (UInt64.not_le.mpr hfresh)
  have hissued_le : ∀ i ∈ s.issued, i.now ≤ t.now := fun i hi =>
    UInt64.le_trans (h.issued_le i hi) hfair.later
  rcases takeAt_cases mac s.used t.text t.now with ⟨used, heq, hkeeps⟩ | ⟨hchecks, hlive, hnew, heq⟩
  · have hstep : s.step mac (.take t) = { s with used := used, now := t.now } := by
      simp only [step, heq]
      rfl
    rw [hstep]
    refine ⟨hissued_le, h.fresh, fun u hu => ?_, h.once, h.issued⟩
    by_cases hfresh : saturatingSub t.now (issuedAt u.text) < nonceTtl
    · exact Or.inl (hkeeps _ (hstill u hu hfresh) hfresh)
    · exact Or.inr (UInt64.not_lt.mp hfresh)
  · have hstep : s.step mac (.take t) = { s with
        used := (t.text, issuedAt t.text)
          :: s.used.filter fun e => saturatingSub t.now e.2 < nonceTtl
        now := t.now
        taken := t :: s.taken } := by
      simp only [step, heq]
      rfl
    obtain ⟨i, hi, hhead⟩ := hfair.unforged t rfl hchecks
    have htext := eq_issueAt hchecks hhead
    have hat : issuedAt t.text = i.now := by
      rw [htext]
      exact issuedAt_headAt _ _
    rw [hstep]
    refine ⟨hissued_le, h.fresh, fun u hu => ?_, ?_, fun u hu => ?_⟩
    · rcases List.mem_cons.mp hu with rfl | hu
      · exact Or.inl List.mem_cons_self
      · by_cases hfresh : saturatingSub t.now (issuedAt u.text) < nonceTtl
        · refine Or.inl (List.mem_cons_of_mem _ (List.mem_filter.mpr ⟨hstill u hu hfresh, ?_⟩))
          exact decide_eq_true hfresh
        · exact Or.inr (UInt64.not_lt.mp hfresh)
    · refine List.nodup_cons.mpr ⟨fun hmem => ?_, h.once⟩
      obtain ⟨u, hu, hsame⟩ := List.mem_map.mp hmem
      -- had it been taken before, it would be remembered, being good still
      have hfresh : saturatingSub t.now (issuedAt u.text) < nonceTtl := by rwa [hsame]
      exact hnew _ (hstill u hu hfresh) hfresh hsame
    · rcases List.mem_cons.mp hu with rfl | hu
      · refine ⟨i, hi, htext, hissued_le i hi, ?_⟩
        rw [hat, saturatingSub, if_pos (hissued_le i hi)] at hlive
        exact hlive
      · exact h.issued u hu

theorem Sound.step {s : Nonces} (h : s.Sound mac) {act : NonceAct} (hfair : Fair mac s act) :
    (s.step mac act).Sound mac := by
  cases act with
  | issue i => exact h.issue hfair
  | take t => exact h.take hfair

/-- In any run at non-decreasing times, with a MAC that isn't forged and random bytes that differ:
what is taken is taken once, was issued, and less than the time to live before; and each text is of
one issue. -/
theorem nonce_good_once (mac : List UInt8 → Block 16) (acts : List NonceAct)
    (h : Run.Along (Nonces.step mac) (Fair mac) new acts) :
    ((new.run mac acts).taken.map Taking.text).Nodup
      ∧ (∀ t ∈ (new.run mac acts).taken, ∃ i ∈ (new.run mac acts).issued,
        t.text = issueAt mac i.now i.random ∧ i.now ≤ t.now ∧ t.now - i.now < nonceTtl)
      ∧ ((new.run mac acts).issued.map fun i => issueAt mac i.now i.random).Nodup := by
  have hsound : (new.run mac acts).Sound mac :=
    Run.invariant (fun _ _ hs hc => hs.step hc) sound_new h
  refine ⟨hsound.once, hsound.issued, ?_⟩
  have hfresh := hsound.fresh
  rw [List.nodup_iff_pairwise_ne, List.pairwise_map] at hfresh ⊢
  exact hfresh.imp fun hne heq => hne (issueAt_inj heq)

def firstBytes (head : List UInt8) : Block 16 :=
  ⟨(head ++ List.replicate 16 0).take 16, by simp⟩

/-- Issued at 1000, taken at 1001, and refused at 1002. -/
def twice : List NonceAct :=
  [.issue ⟨1000, Block.zero 8⟩, .take ⟨issueAt firstBytes 1000 (Block.zero 8), 1001⟩,
    .take ⟨issueAt firstBytes 1000 (Block.zero 8), 1002⟩]

theorem nonce_good_once_twice : (new.run firstBytes twice).taken.length = 1
    ∧ ((new.run firstBytes twice).taken.map Taking.text).Nodup := by
  refine ⟨by decide +kernel, (nonce_good_once firstBytes twice ?_).1⟩
  have hissued (s : Nonces) (t : Taking) (hs : s.issued = [⟨1000, Block.zero 8⟩])
      (ht : t.text = issueAt firstBytes 1000 (Block.zero 8)) :
      ∃ i ∈ s.issued, headAt i.now i.random = t.text.take 32 := by
    rw [hs, ht]
    exact ⟨_, List.mem_cons_self, by decide +kernel⟩
  refine ⟨⟨by decide, ?_, ?_⟩, ⟨by decide +kernel, ?_, ?_⟩, ⟨by decide +kernel, ?_, ?_⟩, trivial⟩
  · exact fun i _ j hj => absurd hj List.not_mem_nil
  · intro t ht
    cases ht
  · intro i hi
    cases hi
  · intro t ht _
    cases ht
    exact hissued _ _ rfl rfl
  · intro i hi
    cases hi
  · intro t ht _
    cases ht
    exact hissued _ _ rfl rfl

end Nonces

end BeforeColony.Elo
