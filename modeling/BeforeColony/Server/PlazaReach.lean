import Mathlib.Tactic.Linarith
import Mathlib.Tactic.NormNum
import BeforeColony.Server.Plaza

/-!
# How far a walker gets

Each pose on foot is checked against the reach carried and earned, with the slack on top, and pays
for the way it went as far as the bank has it. What a walk comes to between two times is bounded by
the time, the bank, and the slack of each pose that went further than its reach.
-/

set_option autoImplicit false

namespace BeforeColony.Plaza

open Lib

/-- A pose taken: when, what it left in the bank, and whether it went further than the reach there
was. -/
structure Accepted (K : Type) where
  pose : PersonPose K
  now : K
  bank : K
  outran : Bool

/-- Someone, when they last sent a pose, and the poses taken, the last first. -/
structure Walk (K : Type) where
  me : Person K
  clock : K
  trail : List (Accepted K)

variable {K : Type} [Scalar K] {Home : Type}

namespace Walk

def start (me : Person K) : Walk K :=
  ⟨me, me.heard, (me.pose.map fun p => ⟨p, me.heard, me.bank, false⟩).toList⟩

section

variable (sqrt : K → K) (c : Streets K Home) [DecidableEq Home]

def step (w : Walk K) (sent : Sent K Home) : Walk K :=
  match accept sqrt c w.me sent with
  | (.taken, me) =>
    ⟨me, sent.now, ⟨sent.pose, sent.now, me.bank, w.me.pose.any fun last =>
      maxSpeed * banked w.me sent.now < apart sqrt sent.pose last⟩ :: w.trail⟩
  | _ => { w with clock := sent.now }

def run (w : Walk K) (sents : List (Sent K Home)) : Walk K := sents.foldl (step sqrt c) w

/-- A pose on foot, sent no earlier than the last, and no lift ridden to it. -/
structure OnFoot (w : Walk K) (sent : Sent K Home) : Prop where
  foot : sent.pose.mode = .foot
  later : w.clock ≤ sent.now
  unlifted : ∀ last, w.me.pose = some last → lifted c last sent.pose = false

def path (t₁ t₂ : K) : List (Accepted K) → K
  | e :: f :: rest =>
    (if t₁ ≤ f.now ∧ e.now ≤ t₂ then apart sqrt e.pose f.pose else 0) + path t₁ t₂ (f :: rest)
  | _ => 0

end

/-- How many of those poses went further than their reach. -/
def outruns (t₁ t₂ : K) : List (Accepted K) → ℕ
  | e :: f :: rest =>
    (if t₁ ≤ f.now ∧ e.now ≤ t₂ ∧ e.outran = true then 1 else 0) + outruns t₁ t₂ (f :: rest)
  | _ => 0

end Walk

/-! ## One pose -/

theorem maxSpeed_pos : (0 : K) < maxSpeed := by norm_num [maxSpeed]

theorem bank_pos : (0 : K) < bank := by norm_num [bank]

theorem slack_pos : (0 : K) < slack := by norm_num [slack]

theorem top_of_foot {p : PersonPose K} (h : p.mode = .foot) : top p = maxSpeed := by
  rw [top, h]

section

variable {sqrt : K → K} {c : Streets K Home} {me me' : Person K} {sent : Sent K Home}

theorem bankAfter_mem (sqrt : K → K) (me : Person K) (sent : Sent K Home) :
    0 ≤ bankAfter sqrt me sent ∧ bankAfter sqrt me sent ≤ bank := by
  unfold bankAfter
  split
  · exact ⟨le_rfl, bank_pos.le⟩
  · exact ⟨le_max_left _ _, max_le bank_pos.le (min_le_left _ _)⟩

theorem went_of_judge {last : PersonPose K} (hlast : me.pose = some last)
    (h : judge sqrt c me sent = .taken) :
    went sqrt c last sent.pose (banked me sent.now) sent.tick = none := by
  unfold judge at h
  split at h
  · cases h
  · split at h
    · cases h
    · rw [hlast] at h
      dsimp only at h
      split at h
      · cases h
      · split at h
        · cases h
        · assumption

/-- A move on foot is paid for out of the reach, but for the slack it needed. -/
theorem apart_le_of_taken {last : PersonPose K} (hlast : me.pose = some last)
    (hfrom : last.mode = .foot) (hto : sent.pose.mode = .foot) (hlift : lifted c last sent.pose = false)
    (h : judge sqrt c me sent = .taken) :
    apart sqrt sent.pose last ≤ maxSpeed * (banked me sent.now - bankAfter sqrt me sent)
      + if maxSpeed * banked me sent.now < apart sqrt sent.pose last then slack else 0 := by
  have hwent := went_of_judge hlast h
  simp only [went, hfrom, hto, hlift, Bool.or_false, ite_eq_left_iff, reduceCtorEq, imp_false,
    not_not, moved, Bool.and_eq_true, decide_eq_true_eq] at hwent
  have hbank : bankAfter sqrt me sent = max 0 (min bank
      (banked me sent.now - apart sqrt sent.pose last / maxSpeed)) := by
    simp only [bankAfter, hlast, top_of_foot hfrom, top_of_foot hto, max_self,
      PersonPose.riding_of_foot hfrom, PersonPose.riding_of_foot hto, if_true]
  generalize apart sqrt sent.pose last = d at hwent hbank ⊢
  generalize banked me sent.now = dt at hwent hbank ⊢
  have hspeed := maxSpeed_pos (K := K)
  have hpaid : maxSpeed * (d / maxSpeed) = d := mul_div_cancel₀ d hspeed.ne'
  split
  · rename_i hout
    have hempty : dt - d / maxSpeed ≤ 0 := by
      by_contra hpos
      have := mul_pos hspeed (not_le.mp hpos)
      rw [mul_sub, hpaid] at this
      linarith
    rw [hbank, max_eq_left ((min_le_right _ _).trans hempty), sub_zero]
    exact hwent.1
  · rename_i hin
    have hleft : 0 ≤ dt - d / maxSpeed := by
      by_contra hneg
      have := mul_neg_of_pos_of_neg hspeed (not_le.mp hneg)
      rw [mul_sub, hpaid] at this
      linarith
    have hle : bankAfter sqrt me sent ≤ dt - d / maxSpeed := by
      rw [hbank]
      exact max_le hleft (min_le_right _ _)
    have := mul_le_mul_of_nonneg_left hle hspeed.le
    rw [mul_sub, hpaid] at this
    rw [mul_sub]
    linarith

end

/-! ## A walk -/

/-- From one pose taken to the next: what was gone is what was earned and what the bank gave, but for
the slack. -/
def Linked (sqrt : K → K) (e f : Accepted K) : Prop :=
  f.now ≤ e.now ∧ apart sqrt e.pose f.pose ≤ maxSpeed * (f.bank + (e.now - f.now) - e.bank)
    + if e.outran = true then slack else 0

namespace Walk

/-- The walker is where the last pose taken says, with what it left in the bank, and every move was
paid for. -/
structure Sound (sqrt : K → K) (w : Walk K) : Prop where
  heard_le : w.me.heard ≤ w.clock
  last : w.me.pose = none ∧ w.trail = [] ∨ ∃ e rest, w.trail = e :: rest ∧ w.me.pose = some e.pose
    ∧ e.pose.mode = .foot ∧ w.me.heard = e.now ∧ w.me.bank = e.bank
  linked : w.trail.IsChain (Linked sqrt)
  bank_mem : ∀ e ∈ w.trail, 0 ≤ e.bank ∧ e.bank ≤ bank

/-- Someone whose last pose, if any, was on foot. -/
structure Afoot (me : Person K) : Prop where
  foot : ∀ p, me.pose = some p → p.mode = .foot
  bank_mem : 0 ≤ me.bank ∧ me.bank ≤ bank

variable {sqrt : K → K} {c : Streets K Home}

theorem sound_start {me : Person K} (h : Afoot me) : (start me).Sound sqrt := by
  unfold start
  cases hpose : me.pose with
  | none =>
    exact ⟨le_rfl, Or.inl ⟨hpose, rfl⟩, List.isChain_nil, fun e he => absurd he List.not_mem_nil⟩
  | some p =>
    refine ⟨le_rfl, Or.inr ⟨_, [], rfl, hpose, h.foot p hpose, rfl, rfl⟩, List.isChain_singleton _,
      fun e he => ?_⟩
    rw [List.mem_singleton.mp he]
    exact h.bank_mem

theorem Sound.step [DecidableEq Home] {w : Walk K} (h : w.Sound sqrt) {sent : Sent K Home}
    (hfoot : OnFoot c w sent) : (w.step sqrt c sent).Sound sqrt := by
  rcases accept_cases sqrt c w.me sent with ⟨hjudge, -, heq⟩ | ⟨v, hv, heq⟩
  · have hbank := bankAfter_mem sqrt w.me sent
    unfold Walk.step
    rw [heq]
    refine ⟨le_rfl, Or.inr ⟨_, _, rfl, rfl, hfoot.foot, rfl, rfl⟩, ?_, ?_⟩
    · rcases h.last with ⟨-, hnil⟩ | ⟨e, rest, htrail, hpose, hmode, hheard, hleft⟩
      · rw [hnil]
        exact List.isChain_singleton _
      · have hchain := h.linked
        rw [htrail] at hchain ⊢
        have hlater : e.now ≤ sent.now := hheard ▸ h.heard_le.trans hfoot.later
        have hmove := apart_le_of_taken hpose hmode hfoot.foot (hfoot.unlifted _ hpose) hjudge
        refine List.isChain_cons_cons.mpr ⟨⟨hlater, ?_⟩, hchain⟩
        have hbanked : banked w.me sent.now = e.bank + (sent.now - e.now) := by
          rw [banked, hheard, hleft, max_eq_left (sub_nonneg.mpr hlater)]
        simp only [hpose, Option.any_some, decide_eq_true_eq]
        rwa [hbanked] at hmove ⊢
    · intro e he
      rcases List.mem_cons.mp he with rfl | he
      · exact hbank
      · exact h.bank_mem e he
  · have hsame : w.step sqrt c sent = { w with clock := sent.now } := by
      unfold Walk.step
      rw [heq]
      cases v with
      | taken => exact absurd rfl hv
      | stale => rfl
      | implausibleBy why => rfl
    rw [hsame]
    exact ⟨h.heard_le.trans hfoot.later, h.last, h.linked, h.bank_mem⟩

/-! ## What a walk comes to -/

variable {t₁ t₂ : K}

theorem path_before {trail : List (Accepted K)} (h : trail.IsChain (Linked sqrt))
    (hbefore : ∀ e ∈ trail.head?, e.now < t₁) : path sqrt t₁ t₂ trail = 0 := by
  induction trail with
  | nil => rfl
  | cons e rest ih =>
    cases rest with
    | nil => rfl
    | cons f rest =>
      obtain ⟨hlink, hchain⟩ := List.isChain_cons_cons.mp h
      have hf : f.now < t₁ := hlink.1.trans_lt (hbefore e rfl)
      rw [path, if_neg fun hwindow => not_le.mpr hf hwindow.1, zero_add]
      exact ih hchain fun g hg => by
        cases hg
        exact hf

/-- Up to a pose taken in the time, the way gone is paid for since the time began. -/
theorem path_le {e : Accepted K} {rest : List (Accepted K)} (h : (e :: rest).IsChain (Linked sqrt))
    (hbank : ∀ f ∈ e :: rest, 0 ≤ f.bank ∧ f.bank ≤ bank) (hfrom : t₁ ≤ e.now) (hto : e.now ≤ t₂) :
    path sqrt t₁ t₂ (e :: rest) ≤ maxSpeed * (e.now - t₁ + bank - e.bank)
      + slack * outruns t₁ t₂ (e :: rest) := by
  have hspeed := maxSpeed_pos (K := K)
  induction rest generalizing e with
  | nil =>
    have hroom : 0 ≤ e.now - t₁ + bank - e.bank := by
      have := (hbank e List.mem_cons_self).2
      linarith
    simp only [path, outruns, Nat.cast_zero, mul_zero, add_zero]
    exact mul_nonneg hspeed.le hroom
  | cons f rest ih =>
    obtain ⟨hlink, hchain⟩ := List.isChain_cons_cons.mp h
    by_cases hf : t₁ ≤ f.now
    · have hrest := ih hchain (fun g hg => hbank g (List.mem_cons_of_mem e hg)) hf
        (hlink.1.trans hto)
      have hmove := hlink.2
      rw [path, if_pos ⟨hf, hto⟩, outruns]
      have hcount : ((if t₁ ≤ f.now ∧ e.now ≤ t₂ ∧ e.outran = true then 1 else 0 : ℕ) : K) * slack
          = if e.outran = true then slack else 0 := by
        simp only [hf, hto, true_and]
        split <;> simp
      rw [Nat.cast_add, mul_add, mul_comm slack (Nat.cast _), hcount]
      linear_combination hmove + hrest
    · have hroom : 0 ≤ e.now - t₁ + bank - e.bank := by
        have := (hbank e List.mem_cons_self).2
        linarith
      have hnone : path sqrt t₁ t₂ (f :: rest) = 0 := path_before hchain fun g hg => by
        cases hg
        exact not_le.mp hf
      rw [path, if_neg fun hwindow => hf hwindow.1, hnone, add_zero]
      have hslack := mul_nonneg (slack_pos (K := K)).le
        (Nat.cast_nonneg (outruns t₁ t₂ (e :: f :: rest)))
      have := mul_nonneg hspeed.le hroom
      linarith

theorem path_le_window (ht : t₁ ≤ t₂) {trail : List (Accepted K)} (h : trail.IsChain (Linked sqrt))
    (hbank : ∀ f ∈ trail, 0 ≤ f.bank ∧ f.bank ≤ bank) :
    path sqrt t₁ t₂ trail ≤ maxSpeed * (t₂ - t₁ + bank) + slack * outruns t₁ t₂ trail := by
  have hspeed := maxSpeed_pos (K := K)
  have hwhole : (0 : K) ≤ maxSpeed * (t₂ - t₁ + bank) :=
    mul_nonneg hspeed.le (by linarith [bank_pos (K := K)])
  have hslack (n : ℕ) : (0 : K) ≤ slack * n := mul_nonneg slack_pos.le (Nat.cast_nonneg n)
  induction trail with
  | nil => exact add_nonneg hwhole (hslack _)
  | cons e rest ih =>
    by_cases hto : e.now ≤ t₂
    · by_cases hfrom : t₁ ≤ e.now
      · have hpaid := path_le h hbank hfrom hto
        have hless : maxSpeed * (e.now - t₁ + bank - e.bank) ≤ maxSpeed * (t₂ - t₁ + bank) := by
          have := (hbank e List.mem_cons_self).1
          exact mul_le_mul_of_nonneg_left (by linarith) hspeed.le
        linarith
      · rw [path_before h fun g hg => by
          cases hg
          exact not_le.mp hfrom]
        exact add_nonneg hwhole (hslack _)
    · cases rest with
      | nil => exact add_nonneg hwhole (hslack _)
      | cons f rest =>
        have hrest := ih (List.isChain_cons_cons.mp h).2 fun g hg => hbank g (List.mem_cons_of_mem e hg)
        rw [path, outruns, if_neg fun hwindow => hto hwindow.2,
          if_neg fun hwindow => hto hwindow.2.1, zero_add, zero_add]
        exact hrest

/-- However many poses are sent on foot, at whatever non-decreasing times and with no lift ridden,
the way between those taken from `t₁` to `t₂` is a run's for that time and the bank's, and the slack
of each pose that went further than the reach there was. -/
theorem walker_reach [DecidableEq Home] (sqrt : K → K) (c : Streets K Home) (me : Person K)
    (hme : Afoot me) (sents : List (Sent K Home))
    (h : Run.Along (Walk.step sqrt c) (OnFoot c) (start me) sents) (t₁ t₂ : K) (ht : t₁ ≤ t₂) :
    path sqrt t₁ t₂ ((start me).run sqrt c sents).trail ≤ maxSpeed * (t₂ - t₁ + bank)
      + slack * outruns t₁ t₂ ((start me).run sqrt c sents).trail := by
  have hsound : ((start me).run sqrt c sents).Sound sqrt :=
    Run.invariant (fun _ _ hs hc => hs.step hc) (sound_start hme) h
  exact path_le_window ht hsound.linked hsound.bank_mem

/-! ## Pacing about -/

/-- Open ground outside the first strip's Hub Gate. -/
def square : Streets K ℕ where
  stripWidth := 3351
  halfLength := 16000
  solid _ _ _ := false
  deckSolid _ _ := false
  train _ _ _ := ⟨0, 0, false⟩
  seats := []
  poolNear _ _ _ := false
  lift _ _ _ _ := none
  homeAt _ _ _ _ := none

def pace (b : Bool) : PersonPose K := ⟨0, if b then -15934 else -15936, 1675, kerb, 0⟩

/-- From one to the other and back, all at once. -/
def paces : ℕ → Bool → UInt16 → List (Sent K ℕ)
  | 0, _, _ => []
  | n + 1, b, seq => ⟨seq + 1, pace (!b), 0, 0, none⟩ :: paces n (!b) (seq + 1)

/-- Someone who stands at one of the two, the bank empty. -/
structure Standing (w : Walk K) (b : Bool) : Prop where
  pose : w.me.pose = some (pace b)
  strip : w.me.strip = 0
  heard : w.me.heard = 0
  bank : w.me.bank = 0
  clock : w.clock = 0
  trail : ∃ e rest, w.trail = e :: rest ∧ e.pose = pace b ∧ e.now = 0

theorem apart_pace (hsqrt : IsSqrt sqrt) (b : Bool) : apart sqrt (pace (!b)) (pace b) = (2 : K) := by
  have hfour : sqrt 4 = (2 : K) := by
    have hsquare := hsqrt.mul_self 4 (by norm_num)
    have hnonneg := hsqrt.nonneg 4 (by norm_num)
    nlinarith
  cases b with
  | false => norm_num [apart, hypot, pace, hfour]
  | true => norm_num [apart, hypot, pace, hfour]

theorem possible_pace (b : Bool) : possible square (pace b : PersonPose K) = true := by
  cases b with
  | false => norm_num [possible, square, pace, kerb, PersonPose.riding, PersonPose.markab, baseDeck, maxHeight,
      maxTrains, rideMarkab, abs_of_neg]
  | true => norm_num [possible, square, pace, kerb, PersonPose.riding, PersonPose.markab, baseDeck, maxHeight,
      maxTrains, rideMarkab, abs_of_neg]

theorem mode_pace (b : Bool) : (pace b : PersonPose K).mode = .foot := rfl

theorem banked_standing {w : Walk K} {b : Bool} (h : Standing w b) : banked w.me 0 = 0 := by
  rw [banked, h.heard, h.bank, sub_zero, max_self, add_zero]

theorem judge_pace (hsqrt : IsSqrt sqrt) {w : Walk K} {b : Bool} (h : Standing w b) :
    judge sqrt square w.me ⟨w.me.seq + 1, pace (!b), 0, 0, none⟩ = .taken := by
  have hahead : w.me.seq + 1 - w.me.seq = 1 := by
    rw [UInt16.add_comm]
    exact UInt16.add_sub_cancel _ _
  have hmoved : moved sqrt (pace b) (pace (!b)) 0 maxSpeed = true := by
    rw [moved, apart_pace hsqrt]
    norm_num [pace, kerb, slack]
  have hwent : went sqrt square (pace b) (pace (!b)) (banked w.me 0) 0 = none := by
    simp only [went, mode_pace, banked_standing h, hmoved, Bool.true_or, if_true]
  have hstrip : (pace (!b) : PersonPose K).strip = w.me.strip := h.strip.symm
  rw [judge]
  simp only [hstrip, possible_pace, h.pose, hahead, hwent, ne_eq, not_true, if_false, Bool.not_true,
    Bool.false_eq_true]
  exact if_neg (by decide)

theorem bankAfter_pace (hsqrt : IsSqrt sqrt) {w : Walk K} {b : Bool} (h : Standing w b) :
    bankAfter sqrt w.me ⟨w.me.seq + 1, pace (!b), (0 : K), 0, (none : Option (ℕ → String → Bool))⟩ = 0 := by
  have hriding (b : Bool) : (pace b : PersonPose K).riding = none :=
    PersonPose.riding_of_foot (mode_pace b)
  simp only [bankAfter, h.pose, hriding, if_true, top_of_foot (mode_pace _), max_self,
    banked_standing h, apart_pace hsqrt]
  norm_num [bank, maxSpeed]

/-- A step of two metres in no time is within the slack. -/
theorem Standing.step (hsqrt : IsSqrt sqrt) {w : Walk K} {b : Bool} (h : Standing w b) :
    Standing (w.step sqrt square ⟨w.me.seq + 1, pace (!b), 0, 0, none⟩) (!b)
      ∧ (w.step sqrt square ⟨w.me.seq + 1, pace (!b), 0, 0, none⟩).me.seq = w.me.seq + 1
      ∧ path sqrt 0 0 (w.step sqrt square ⟨w.me.seq + 1, pace (!b), 0, 0, none⟩).trail
        = 2 + path sqrt 0 0 w.trail := by
  have haccept := (accept_cases sqrt square w.me ⟨w.me.seq + 1, pace (!b), 0, 0, none⟩).resolve_right
    fun ⟨v, hv, heq⟩ => by
      have hjudge := judge_pace hsqrt h
      unfold accept at heq
      rw [hjudge] at heq
      simp only [h.pose, Option.any_some, mayCross, Bool.not_true, Bool.false_eq_true, if_false] at heq
      exact hv (congrArg Prod.fst heq).symm
  obtain ⟨e, rest, htrail, hpose, hnow⟩ := h.trail
  have hbank := bankAfter_pace hsqrt h
  unfold Walk.step
  rw [haccept.2.2]
  refine ⟨⟨rfl, h.strip, rfl, hbank, rfl, ⟨_, _, rfl, rfl, rfl⟩⟩, rfl, ?_⟩
  rw [htrail, path, if_pos ⟨hnow.ge, le_rfl⟩, hpose, apart_pace hsqrt]

/-- Any number of them, one after another, are all on foot and add up. -/
theorem pacing (hsqrt : IsSqrt sqrt) (n : ℕ) {w : Walk K} {b : Bool} (h : Standing w b) :
    Run.Along (Walk.step sqrt square) (OnFoot square) w (paces n b w.me.seq)
      ∧ path sqrt 0 0 (w.run sqrt square (paces n b w.me.seq)).trail = 2 * n + path sqrt 0 0 w.trail := by
  induction n generalizing w b with
  | zero => exact ⟨trivial, by rw [Nat.cast_zero, mul_zero, zero_add]; rfl⟩
  | succ n ih =>
    obtain ⟨hnext, hseq, hpath⟩ := h.step hsqrt
    obtain ⟨halong, hrest⟩ := ih hnext
    rw [hseq] at halong hrest
    refine ⟨⟨⟨mode_pace _, h.clock.le, fun last _ => ?_⟩, halong⟩, ?_⟩
    · rw [lifted]
      split
      · rfl
      · rfl
    · rw [paces, run, List.foldl_cons]
      refine hrest.trans ?_
      rw [hpath, Nat.cast_succ]
      ring

/-- Someone standing at the first of the two. -/
def stander : Person K := ⟨"", 0, (1675, -15936), some (pace false), 0, 0, 0⟩

theorem standing_stander : Standing (start (stander : Person K)) false :=
  ⟨rfl, rfl, rfl, rfl, rfl, ⟨_, _, rfl, rfl, rfl⟩⟩

theorem afoot_stander : Afoot (stander : Person K) where
  foot p hp := by
    cases hp
    rfl
  bank_mem := ⟨le_rfl, bank_pos.le⟩

theorem walker_reach_paces : path Real.sqrt 0 0 ((start (stander : Person ℝ)).run Real.sqrt square
    (paces 3 false 0)).trail ≤ maxSpeed * (0 - 0 + bank)
      + slack * outruns 0 0 ((start (stander : Person ℝ)).run Real.sqrt square (paces 3 false 0)).trail :=
  walker_reach Real.sqrt square stander afoot_stander (paces 3 false 0)
    (pacing isSqrt_real 3 standing_stander).1 0 0 le_rfl

/-- Fifteen steps of two metres in no time at all. -/
theorem slack_is_of_each_pose : ¬ ∀ (c : Streets ℝ ℕ) (me : Person ℝ), Afoot me →
    ∀ sents : List (Sent ℝ ℕ), Run.Along (Walk.step Real.sqrt c) (OnFoot c) (start me) sents →
      ∀ t₁ t₂ : ℝ, t₁ ≤ t₂ → path Real.sqrt t₁ t₂ ((start me).run Real.sqrt c sents).trail
        ≤ maxSpeed * (t₂ - t₁ + bank) + slack := by
  intro h
  obtain ⟨halong, hpath⟩ := pacing isSqrt_real 15 (standing_stander (K := ℝ))
  have hle := h square stander afoot_stander _ halong 0 0 le_rfl
  have hnone : path Real.sqrt 0 0 (start (stander : Person ℝ)).trail = 0 := rfl
  rw [hpath, hnone] at hle
  norm_num [maxSpeed, bank, slack] at hle

end Walk

end BeforeColony.Plaza
