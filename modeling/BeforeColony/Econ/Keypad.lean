import BeforeColony.Econ.HomesLedger

/-!
# The keypad at a home's door

What one code entered does to the lock (`Lock.Entry`), and what a sequence of them can: however
many are tried at a door, in the time the keypad stays shut at most `lockoutTries` of them are
wrong ones taken, unless one that is right has come between.
-/

set_option autoImplicit false

namespace BeforeColony

open Lib

/-- A list that remembers `who` now: as it was if it did already, one longer if it had room. -/
def Remembers (list : List Trader) (who : Trader) (cap : ℕ) (list' : List Trader) : Prop :=
  who ∈ list ∧ list' = list ∨ who ∉ list ∧ list.length < cap ∧ list' = list ++ [who]

namespace Remembers

variable {list list' : List Trader} {who other : Trader} {cap : ℕ}

theorem length_le (hrem : Remembers list who cap list') (hcap : list.length ≤ cap) :
    list'.length ≤ cap := by
  rcases hrem with ⟨-, rfl⟩ | ⟨-, hroom, rfl⟩
  · exact hcap
  · rw [List.length_append, List.length_singleton]
    exact hroom

theorem mem_or_eq (hrem : Remembers list who cap list') (hother : other ∈ list') :
    other ∈ list ∨ other = who := by
  rcases hrem with ⟨-, rfl⟩ | ⟨-, -, rfl⟩
  · exact Or.inl hother
  · exact (List.mem_append.mp hother).imp_right List.mem_singleton.mp

theorem mem_of_mem (hrem : Remembers list who cap list') (hother : other ∈ list) :
    other ∈ list' := by
  rcases hrem with ⟨-, rfl⟩ | ⟨-, -, rfl⟩
  · exact hother
  · exact List.mem_append_left _ hother

end Remembers

namespace Lock

/-- The misses that still count: none once the shutter has run out. -/
def streak (l : Lock) : ℕ := if l.shutUntil ≠ 0 then 0 else l.misses

/-- What `code`, entered by `who` at `now`, does to a lock whose keypad is open, and what it's
told. -/
inductive Entry (who : Trader) (code now : ℕ) (l : Lock) : Lock → Except String Entered → Prop
  | full (why : String) :
      Entry who code now l { l with misses := l.streak, shutUntil := 0 } (.error why)
  | crew {crew : List Trader} (hcode : l.code = some code)
      (hrem : Remembers l.crew who crewCap crew) :
      Entry who code now l { l with crew, misses := 0, shutUntil := 0 } (.ok .crew)
  | guest {guests : List Trader} (hnot : l.code ≠ some code)
      (hcode : l.guestCode = some code)
      (hrem : who ∈ l.crew ∧ guests = l.guests
        ∨ who ∉ l.crew ∧ Remembers l.guests who guestCap guests) :
      Entry who code now l { l with guests, misses := 0, shutUntil := 0 } (.ok .guest)
  | wrong {misses shock : ℕ} (hnot : l.code ≠ some code)
      (hguest : l.guestCode ≠ some code) (hmisses : misses = min (l.streak + 1) 255) :
      Entry who code now l
        { l with
          misses
          lastMiss := now
          shutUntil := if lockoutTries ≤ misses then now + lockoutS else 0 }
        (.ok (.wrong shock (lockoutTries ≤ misses)))

end Lock

namespace Homes

variable {r r' : Homes} {id : ℕ} {h : Held}

theorem get?_setHeld (r : Homes) (id : ℕ) (h : Held) (k : ℕ) :
    (r.setHeld id h).held.get? k = if k = id then some h else r.held.get? k :=
  Table.get?_insert ..

theorem remembers_remember {list : List Trader} {who : Trader} {cap : ℕ}
    (hrem : (remember list who cap).2 = true) :
    Remembers list who cap (remember list who cap).1 := by
  unfold remember at hrem ⊢
  by_cases hmem : who ∈ list
  · rw [if_pos hmem]
    exact Or.inl ⟨hmem, rfl⟩
  · rw [if_neg hmem] at hrem ⊢
    by_cases hfull : cap ≤ list.length
    · rw [if_pos hfull] at hrem
      cases hrem
    · rw [if_neg hfull]
      exact Or.inr ⟨hmem, Nat.not_le.mp hfull, rfl⟩

theorem remember_of_full {list : List Trader} {who : Trader} {cap : ℕ}
    (hrem : (remember list who cap).2 = false) : (remember list who cap).1 = list := by
  unfold remember at hrem ⊢
  by_cases hmem : who ∈ list
  · rw [if_pos hmem]
  · rw [if_neg hmem] at hrem ⊢
    by_cases hfull : cap ≤ list.length
    · rw [if_pos hfull]
    · rw [if_neg hfull] at hrem
      cases hrem

/-- What a code entered at a door does: nothing where it isn't four digits, nobody
holds the home or its keypad is shut, else what it does to the lock there. -/
inductive Enters (r : Homes) (id : ℕ) (who : Trader) (code now : ℕ) :
    Homes → Except String Entered → Prop
  | refused (why : String) : Enters r id who code now r (.error why)
  | shut {h : Held} (hget : r.held.get? id = some h) (hshut : now < h.lock.shutUntil) :
      Enters r id who code now r (.ok .shut)
  | keyed {h : Held} {lock : Lock} {e : Except String Entered} (hget : r.held.get? id = some h)
      (hopen : h.lock.shutUntil ≤ now) (hentry : h.lock.Entry who code now lock e) :
      Enters r id who code now (r.setHeld id { h with lock }) e

theorem enters (r : Homes) (id : ℕ) (who : Trader) (code now : ℕ) :
    Enters r id who code now (r.enterCode id who code now).1 (r.enterCode id who code now).2 := by
  unfold enterCode
  split
  · exact .refused _
  · cases hget : r.held.get? id with
    | none => exact .refused _
    | some h =>
      dsimp only
      by_cases hshut : now < h.lock.shutUntil
      · rw [if_pos hshut]
        exact .shut hget hshut
      · rw [if_neg hshut]
        have hopen := Nat.not_lt.mp hshut
        have hfresh : (if h.lock.shutUntil ≠ 0 then { h.lock with shutUntil := 0, misses := 0 }
            else h.lock) = { h.lock with shutUntil := 0, misses := h.lock.streak } := by
          unfold Lock.streak
          split
          · rfl
          · rename_i hzero
            rw [not_not] at hzero
            rw [← hzero]
        rw [hfresh]
        dsimp only
        split
        · rename_i hcode
          cases hrem : (remember h.lock.crew who crewCap).2 with
          | false =>
            simp only [Bool.false_eq_true, not_false_eq_true, if_true, remember_of_full hrem]
            exact .keyed hget hopen (.full _)
          | true =>
            simp only [not_true_eq_false, if_false]
            exact .keyed hget hopen (.crew hcode.symm (remembers_remember hrem))
        · rename_i hnot
          have hnot : h.lock.code ≠ some code := fun heq => hnot heq.symm
          split
          · rename_i hcode
            by_cases hcrew : who ∈ h.lock.crew
            · simp only [Lock.isCrew, hcrew, decide_true, if_true, not_true_eq_false, if_false]
              exact .keyed hget hopen (.guest hnot hcode.symm (Or.inl ⟨hcrew, rfl⟩))
            · simp only [Lock.isCrew, hcrew, decide_false, Bool.false_eq_true, if_false]
              cases hrem : (remember h.lock.guests who guestCap).2 with
              | false =>
                simp only [Bool.false_eq_true, not_false_eq_true, if_true, remember_of_full hrem]
                exact .keyed hget hopen (.full _)
              | true =>
                simp only [not_true_eq_false, if_false]
                exact .keyed hget hopen
                  (.guest hnot hcode.symm (Or.inr ⟨hcrew, remembers_remember hrem⟩))
          · rename_i hguest
            have hguest : h.lock.guestCode ≠ some code := fun heq => hguest heq.symm
            let step := if shockResetS < now - h.lock.lastMiss then 1 else h.lock.streak + 1
            have hwrong : Lock.Entry who code now h.lock _
                (.ok (.wrong (min (shockStepHp * step) 65535) _)) :=
              .wrong hnot hguest rfl
            by_cases htries : lockoutTries ≤ min (h.lock.streak + 1) 255
            · simp only [htries, decide_true, if_true] at hwrong ⊢
              exact .keyed hget hopen hwrong
            · simp only [htries, decide_false, Bool.false_eq_true, if_false] at hwrong ⊢
              exact .keyed hget hopen hwrong

end Homes

/-! ## A sequence of codes -/

/-- A code entered by someone, at some time. -/
structure CodeEntry where
  who : Trader
  code : ℕ
  now : ℕ

namespace Entered

def isWrong : Except String Entered → Bool
  | .ok (.wrong _ _) => true
  | _ => false

def isAccepted : Except String Entered → Bool
  | .ok .crew | .ok .guest => true
  | _ => false

/-- Not taken: the keypad is shut, or what was entered can't be a code here. -/
def isRefused : Except String Entered → Bool
  | .ok .shut | .error _ => true
  | _ => false

end Entered

namespace Lock

/-- How many wrong codes a lock takes before it is shut until a time. -/
def triesLeft (l : Lock) (upTo : ℕ) : ℕ :=
  if upTo ≤ l.shutUntil then 0 else max 1 (lockoutTries - l.streak)

theorem triesLeft_of_shut {l : Lock} {upTo : ℕ} (h : upTo ≤ l.shutUntil) : l.triesLeft upTo = 0 :=
  if_pos h

theorem triesLeft_of_open {l : Lock} {upTo : ℕ} (h : l.shutUntil < upTo) :
    l.triesLeft upTo = max 1 (lockoutTries - l.streak) := if_neg (Nat.not_le.mpr h)

theorem triesLeft_le (l : Lock) (upTo : ℕ) : l.triesLeft upTo ≤ lockoutTries := by
  unfold triesLeft lockoutTries
  split <;> omega

theorem shut_of_triesLeft {l : Lock} {upTo : ℕ} (h : l.triesLeft upTo = 0) :
    upTo ≤ l.shutUntil := by
  unfold triesLeft at h
  split at h
  · assumption
  · omega

/-- A wrong code uses up a try, and nothing but one that is accepted gives any back. -/
theorem tries_entry {who : Trader} {code now w : ℕ} {l l' : Lock} {e : Except String Entered}
    (h : l.Entry who code now l' e) (hopen : l.shutUntil ≤ now) (hfrom : w ≤ now)
    (hto : now < w + lockoutS) (hnot : Entered.isAccepted e = false) :
    l'.triesLeft (w + lockoutS) + (if Entered.isWrong e then 1 else 0)
      ≤ l.triesLeft (w + lockoutS) := by
  rw [triesLeft_of_open (hopen.trans_lt hto)]
  cases h with
  | full why =>
    rw [triesLeft_of_open (Nat.zero_lt_of_lt hto)]
    exact le_rfl
  | crew hcode hrem => cases hnot
  | guest hmain hcode hrem => cases hnot
  | wrong hmain hguest hmisses =>
    rename_i misses shock
    generalize l.streak = streak at hmisses ⊢
    by_cases htries : lockoutTries ≤ misses
    · rw [triesLeft_of_shut (by simpa only [htries, if_true] using Nat.add_le_add_right hfrom _)]
      exact le_max_left 1 _
    · rw [triesLeft_of_open (by simpa only [htries, if_false] using Nat.zero_lt_of_lt hto)]
      simp only [Lock.streak, htries, if_false, not_true_eq_false, ne_eq, Entered.isWrong, if_true]
      -- The row isn't at its end, so it is one longer.
      simp only [lockoutTries] at htries ⊢
      omega

end Lock

namespace Homes

/-- Codes entered at a home's door one after another, and what each is told. -/
def enterAll (id : ℕ) : Homes → List CodeEntry → Homes × List (Except String Entered)
  | r, [] => (r, [])
  | r, e :: rest =>
    let (r, entered) := r.enterCode id e.who e.code e.now
    let (r, all) := enterAll id r rest
    (r, entered :: all)

def triesLeft (r : Homes) (id upTo : ℕ) : ℕ := (r.held.get? id).elim 0 fun h => h.lock.triesLeft upTo

variable {r : Homes} {id w : ℕ}

theorem triesLeft_le (r : Homes) (id upTo : ℕ) : r.triesLeft id upTo ≤ lockoutTries := by
  unfold triesLeft
  cases r.held.get? id with
  | none => exact Nat.zero_le _
  | some h => exact h.lock.triesLeft_le upTo

theorem tries_enterCode (e : CodeEntry) (hfrom : w ≤ e.now) (hto : e.now < w + lockoutS)
    (hnot : Entered.isAccepted (r.enterCode id e.who e.code e.now).2 = false) :
    (r.enterCode id e.who e.code e.now).1.triesLeft id (w + lockoutS)
        + (if Entered.isWrong (r.enterCode id e.who e.code e.now).2 then 1 else 0)
      ≤ r.triesLeft id (w + lockoutS) := by
  have hspec := enters r id e.who e.code e.now
  generalize r.enterCode id e.who e.code e.now = o at hspec hnot ⊢
  obtain ⟨r', entered⟩ := o
  dsimp only at hspec hnot ⊢
  cases hspec with
  | refused why => exact le_rfl
  | shut hget hshut => exact le_rfl
  | keyed hget hopen hentry =>
    simp only [triesLeft, get?_setHeld, if_pos, hget, Option.elim_some]
    exact Lock.tries_entry hentry hopen hfrom hto hnot

theorem refused_of_triesLeft (e : CodeEntry) (hto : e.now < w + lockoutS)
    (hleft : r.triesLeft id (w + lockoutS) = 0) :
    Entered.isRefused (r.enterCode id e.who e.code e.now).2 = true
      ∧ (r.enterCode id e.who e.code e.now).1 = r := by
  have hspec := enters r id e.who e.code e.now
  generalize r.enterCode id e.who e.code e.now = o at hspec ⊢
  obtain ⟨r', entered⟩ := o
  dsimp only at hspec ⊢
  cases hspec with
  | refused why => exact ⟨rfl, rfl⟩
  | shut hget hshut => exact ⟨rfl, rfl⟩
  | keyed hget hopen hentry =>
    rw [triesLeft, hget, Option.elim_some] at hleft
    exact absurd (Lock.shut_of_triesLeft hleft) (Nat.not_le.mpr (hopen.trans_lt hto))

theorem tries_enterAll (entries : List CodeEntry)
    (hwindow : ∀ e ∈ entries, w ≤ e.now ∧ e.now < w + lockoutS)
    (hnot : ∀ e ∈ (r.enterAll id entries).2, Entered.isAccepted e = false) :
    (r.enterAll id entries).1.triesLeft id (w + lockoutS)
        + (r.enterAll id entries).2.countP Entered.isWrong
      ≤ r.triesLeft id (w + lockoutS) := by
  induction entries generalizing r with
  | nil => exact le_rfl
  | cons e rest ih =>
    obtain ⟨hfrom, hto⟩ := hwindow e List.mem_cons_self
    have hone := @tries_enterCode r id w e hfrom hto (hnot _ List.mem_cons_self)
    have hrest := ih (r := (r.enterCode id e.who e.code e.now).1)
      (fun e' he' => hwindow e' (List.mem_cons_of_mem e he'))
      (fun e' he' => hnot e' (List.mem_cons_of_mem _ he'))
    simp only [enterAll, List.countP_cons]
    omega

theorem refused_enterAll (entries : List CodeEntry) (hto : ∀ e ∈ entries, e.now < w + lockoutS)
    (hleft : r.triesLeft id (w + lockoutS) = 0) :
    ∀ e ∈ (r.enterAll id entries).2, Entered.isRefused e = true := by
  induction entries with
  | nil =>
    intro e he
    cases he
  | cons e rest ih =>
    obtain ⟨hrefused, hsame⟩ := refused_of_triesLeft e (hto e List.mem_cons_self) hleft
    intro e' he'
    simp only [enterAll, List.mem_cons, hsame] at he'
    rcases he' with rfl | he'
    · exact hrefused
    · exact ih (fun e'' he'' => hto e'' (List.mem_cons_of_mem e he'')) e' he'

/-- Whatever is entered at a door within `lockoutS` of some moment, while nothing is accepted at
most `lockoutTries` wrong codes are taken, and after that many nothing is, right or wrong. -/
theorem keypad_window (r : Homes) (id w : ℕ) (entries later : List CodeEntry)
    (hwindow : ∀ e ∈ entries ++ later, w ≤ e.now ∧ e.now < w + lockoutS)
    (hnot : ∀ e ∈ (r.enterAll id entries).2, Entered.isAccepted e = false) :
    (r.enterAll id entries).2.countP Entered.isWrong ≤ lockoutTries
      ∧ ((r.enterAll id entries).2.countP Entered.isWrong = lockoutTries →
        ∀ e ∈ ((r.enterAll id entries).1.enterAll id later).2, Entered.isRefused e = true) := by
  have hspent := @tries_enterAll r id w entries
    (fun e he => hwindow e (List.mem_append_left later he)) hnot
  have hall := r.triesLeft_le id (w + lockoutS)
  constructor
  · omega
  · intro htries
    refine refused_enterAll later (fun e he => ?_) (w := w) (by omega)
    exact (hwindow e (List.mem_append_right entries he)).2

/-- A flat rented, its main code and its guest code set. -/
def codedFlat : Option Tenancy :=
  Tenancy.run Tenancy.oneFlat
    ⟨Table.empty.insert "0xa" { Hangar.empty with credits := 10000 }, Homes.new⟩
    [.serve "0xa" "ADA" 0 (.rent 0 1), .serve "0xa" "ADA" 0 (.setCode 0 false (some 1111)),
      .serve "0xa" "ADA" 0 (.setCode 0 true (some 2222))]

def codedHomes : Homes := codedFlat.elim Homes.new Tenancy.reg

def guesses (who : Trader) (since n : ℕ) : List CodeEntry :=
  (List.range n).map fun i => ⟨who, 3000 + i, since + i⟩

theorem keypad_window_shut :
    ((codedHomes.enterAll 0 (guesses "0xb" 5 8)).1.enterAll 0 [⟨"0xb", 1111, 20⟩]).2.all
      Entered.isRefused = true :=
  List.all_eq_true.mpr ((keypad_window codedHomes 0 0 (guesses "0xb" 5 8) [⟨"0xb", 1111, 20⟩]
    (by decide) (by decide +kernel)).2 (by decide +kernel))

/-- Seven wrong, the guest code, and seven more wrong: fourteen are taken within a minute. -/
theorem guest_code_frees_keypad :
    ¬ ∀ (c : City) (hangars : Table Trader Hangar) (acts : List HomesAct) (t : Tenancy) (id : ℕ)
      (h : Held) (who : Trader) (w : ℕ) (entries : List CodeEntry),
      Tenancy.run c ⟨hangars, Homes.new⟩ acts = some t → t.reg.held.get? id = some h →
      (∀ e ∈ entries, e.who = who ∧ h.lock.code ≠ some e.code) →
      (∀ e ∈ entries, w ≤ e.now ∧ e.now < w + lockoutS) →
      (t.reg.enterAll id entries).2.countP Entered.isWrong ≤ lockoutTries := by
  intro hclaim
  let entries := guesses "0xb" 5 7 ++ ⟨"0xb", 2222, 12⟩ :: guesses "0xb" 13 7
  have hcoded : (codedFlat.bind fun t => (t.reg.held.get? 0).map fun h =>
      (h.lock.code, (t.reg.enterAll 0 entries).2.countP Entered.isWrong))
      = some (some 1111, 14) := by decide +kernel
  obtain ⟨t, hrun, hcoded⟩ := Option.bind_eq_some_iff.mp hcoded
  obtain ⟨h, hget, htried⟩ := Option.map_eq_some_iff.mp hcoded
  rw [Prod.mk.injEq] at htried
  have hknown : ∀ e ∈ entries, e.who = "0xb" ∧ h.lock.code ≠ some e.code := by
    rw [htried.1]
    decide
  have hfew := hclaim _ _ _ t 0 h "0xb" 0 entries hrun hget hknown (by decide)
  rw [htried.2] at hfew
  exact absurd hfew (by decide)

end Homes

end BeforeColony
