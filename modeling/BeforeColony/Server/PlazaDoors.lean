import Mathlib.Data.Rat.Sqrt
import BeforeColony.Server.Plaza

/-!
# Closed doors

Who may go into a home is asked where both poses are on foot. Someone the register keeps out of a
home stays out of it as long as every pose they send on foot inside it follows one on foot.
-/

set_option autoImplicit false

namespace BeforeColony.Plaza

open Lib

variable {K : Type} [Scalar K] {Home : Type}

def Inside (c : Streets K Home) (home : Home) (p : PersonPose K) : Prop :=
  p.strip ≠ baseDeck ∧ homeOf c p = some home

namespace Person

/-- Whether someone's last pose is on foot inside a home. -/
def In (c : Streets K Home) (home : Home) (me : Person K) : Prop :=
  ∃ p, me.pose = some p ∧ p.mode = .foot ∧ Inside c home p

/-- Whether someone's last pose is on their strip. -/
def Placed (me : Person K) : Prop := ∀ p, me.pose = some p → p.strip = me.strip

/-- A pose that, if it's on foot inside the home, follows one on foot. -/
def Afoot (c : Streets K Home) (home : Home) (me : Person K) (sent : Sent K Home) : Prop :=
  sent.pose.mode = .foot → Inside c home sent.pose → ∃ last, me.pose = some last ∧ last.mode = .foot

variable [DecidableEq Home] (sqrt : K → K) (c : Streets K Home)

def step (me : Person K) (sent : Sent K Home) : Person K := (accept sqrt c me sent).2

def run (me : Person K) (sents : List (Sent K Home)) : Person K := sents.foldl (step sqrt c) me

variable {sqrt c} {home : Home} {me : Person K}

structure KeptOut (c : Streets K Home) (home : Home) (key : String) (me : Person K) : Prop where
  key_eq : me.key = key
  placed : me.Placed
  out : ¬ me.In c home

theorem KeptOut.step {key : String} (h : me.KeptOut c home key) {sent : Sent K Home}
    {mayEnter : Home → String → Bool} (hregister : sent.register = some mayEnter)
    (hshut : mayEnter home key = false) (hfoot : me.Afoot c home sent) :
    (me.step sqrt c sent).KeptOut c home key := by
  unfold Person.step
  rcases accept_cases sqrt c me sent with ⟨hjudge, hcross, heq⟩ | ⟨v, -, heq⟩
  · rw [heq]
    refine ⟨h.key_eq, fun p hp => ?_, ?_⟩
    · cases hp
      change sent.pose.strip = me.strip
      exact strip_of_judge hjudge
    · rintro ⟨p, hp, hmode, hinside⟩
      cases hp
      obtain ⟨last, hlast, hbefore⟩ := hfoot hmode hinside
      have hmay := hcross last hlast
      simp only [mayCross, hregister, hbefore, hmode, hinside.1, ne_eq, not_true, or_self, if_false, hinside.2, h.key_eq,
        hshut, Bool.or_false, decide_eq_true_eq] at hmay
      -- so the last pose was inside as well
      refine h.out ⟨last, hlast, hbefore, ?_, hmay⟩
      rw [h.placed last hlast, ← strip_of_judge hjudge]
      exact hinside.1
  · rw [heq]
    exact h

/-- Someone the register keeps out of a home, who is not on foot in it and sends no pose on foot
inside it but after one on foot, is at no time on foot in it. -/
theorem kept_out (sqrt : K → K) (c : Streets K Home) (home : Home) (me : Person K) (hplaced : me.Placed)
    (hout : ¬ me.In c home) (sents : List (Sent K Home))
    (hshut : ∀ sent ∈ sents, ∃ mayEnter, sent.register = some mayEnter ∧ mayEnter home me.key = false)
    (hfoot : Run.Along (Person.step sqrt c) (Person.Afoot c home) me sents) (n : ℕ) :
    ¬ (me.run sqrt c (sents.take n)).In c home := by
  have hrun : ∀ (sents : List (Sent K Home)) (who : Person K), who.KeptOut c home me.key →
      (∀ sent ∈ sents, ∃ mayEnter, sent.register = some mayEnter ∧ mayEnter home me.key = false) →
      Run.Along (Person.step sqrt c) (Person.Afoot c home) who sents →
      (who.run sqrt c sents).KeptOut c home me.key := by
    intro sents
    induction sents with
    | nil => exact fun who h _ _ => h
    | cons sent rest ih =>
      intro who h hshut halong
      obtain ⟨mayEnter, hregister, hno⟩ := hshut sent List.mem_cons_self
      exact ih _ (h.step hregister hno halong.1) (fun s hs => hshut s (List.mem_cons_of_mem sent hs))
        halong.2
  have halong : Run.Along (Person.step sqrt c) (Person.Afoot c home) me (sents.take n) := by
    rw [← List.take_append_drop n sents, Run.along_append] at hfoot
    exact hfoot.1
  exact (hrun (sents.take n) me ⟨rfl, hplaced, hout⟩ (fun s hs => hshut s (List.mem_of_mem_take hs))
    halong).out

/-! ## Two flats -/

/-- Two flats side by side on a ground floor of the first strip's Firsthomes, and nothing in them. -/
def firstHomes : Streets ℚ ℕ where
  stripWidth := 3351
  halfLength := 16000
  solid _ _ _ := false
  deckSolid _ _ := false
  train _ _ _ := ⟨0, 0, false⟩
  seats := []
  poolNear _ _ _ := false
  lift _ _ _ _ := none
  homeAt strip s x h :=
    if strip = 0 ∧ -5079 ≤ x ∧ x < -5069 ∧ 0 ≤ h ∧ h < 5 then
      if 1730 ≤ s ∧ s < 1737 then some 23175168
      else if 1738 ≤ s ∧ s < 1745 then some 23175169
      else none
    else none

/-- Someone in the middle of one of them. -/
def inFlat (s : ℚ) : PersonPose ℚ := ⟨0, -5074, s, kerb, 0⟩

/-- The first flat is its pilot's and the second is someone else's, shut and locked. -/
def mayEnterFirst : ℕ → String → Bool := fun home _ => home = 23175168

/-- Awake in the first flat: where they came into the city. -/
def awake : Person ℚ := enterAt "0xb0" 0 (1733, -5074) 0

/-- A step up the first flat, and a try at the next, in no time. -/
def kept : List (Sent ℚ ℕ) :=
  [⟨1, inFlat 1733, 0, 0, some mayEnterFirst⟩, ⟨2, inFlat 1741, 1, 0, some mayEnterFirst⟩]

theorem awake_placed : awake.Placed := fun _ hp => nomatch hp

theorem awake_out (home : ℕ) : ¬ awake.In firstHomes home := fun ⟨_, hp, _⟩ => nomatch hp

/-- Neither is on foot in the second flat: a step up the first is in the first, and it's after that
they try the next. -/
theorem kept_afoot : Run.Along (Person.step Rat.sqrt firstHomes) (Person.Afoot firstHomes 23175169) awake kept := by
  refine ⟨fun _ h => ?_, fun _ _ => ⟨inFlat 1733, ?_, rfl⟩, trivial⟩
  · exact absurd h.2 (by decide +kernel)
  · decide +kernel

theorem kept_shut : ∀ sent ∈ kept,
    ∃ mayEnter, sent.register = some mayEnter ∧ mayEnter 23175169 awake.key = false := by
  intro sent hsent
  rcases List.mem_pair.mp hsent with rfl | rfl
  · exact ⟨mayEnterFirst, rfl, by decide⟩
  · exact ⟨mayEnterFirst, rfl, by decide⟩

/-- Up their own flat and at the wall of the next, they are kept out of it, and the try isn't taken. -/
theorem kept_out_flat : ¬ (awake.run Rat.sqrt firstHomes (kept.take 2)).In firstHomes 23175169
    ∧ (awake.run Rat.sqrt firstHomes (kept.take 2)).pose = some (inFlat 1733) :=
  ⟨kept_out Rat.sqrt firstHomes 23175169 awake awake_placed (awake_out _) kept kept_shut kept_afoot 2,
    by decide +kernel⟩

/-- Awake in their own flat, and their first pose in the next. -/
theorem first_pose_is_not_asked : ¬ ∀ (c : Streets ℚ ℕ) (home : ℕ) (me : Person ℚ), me.Placed →
    ¬ me.In c home → ∀ sents : List (Sent ℚ ℕ),
      (∀ sent ∈ sents, ∃ mayEnter, sent.register = some mayEnter ∧ mayEnter home me.key = false) →
      ¬ (me.run Rat.sqrt c sents).In c home := by
  intro h
  refine h firstHomes 23175169 awake awake_placed (awake_out _)
    [⟨1, inFlat 1741, 0, 0, some mayEnterFirst⟩] ?_ ⟨inFlat 1741, ?_, rfl, by decide, ?_⟩
  · intro sent hsent
    rw [List.mem_singleton.mp hsent]
    exact ⟨mayEnterFirst, rfl, by decide⟩
  · decide +kernel
  · decide +kernel

end Person

end BeforeColony.Plaza
