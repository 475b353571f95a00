import BeforeColony.Lib.Scalar
import Mathlib.Algebra.Order.AbsoluteValue.Basic
import Mathlib.Tactic.Linarith

/-!
# The trams

One line down the middle of each strip's avenue, twelve trains a line on one timetable, each where
the tick puts it. No two trains of a line come nearer than from one station to the next
(`trains_apart`), and where they stand and when is as the timetable has it (`stands_iff`). The
arithmetic of places is exact.
-/

set_option autoImplicit false

namespace BeforeColony.Transit

open Lib

def stations : ℕ := 11
def trains : ℕ := 12
def tickHz : ℕ := 30

/-- A run from one station to the next, and a stop at one, in ticks. -/
def runTicks : ℕ := 2430
def dwellTicks : ℕ := 594
def stopTicks : ℕ := runTicks + dwellTicks

def legs : ℕ := 2 * (stations - 1)

def periodTicks : ℕ := legs * stopTicks
def headwayTicks : ℕ := periodTicks / trains
def doorMargin : ℕ := 60

/-- The strips' lines run out of step with each other, by this much. -/
def stripOffset : ℕ := headwayTicks / 3

section

variable {K : Type*} [Scalar K]

def firstStation : K := -15500
def stationGap : K := 2450
def accel : K := 1.5

/-- Each track's middle from the avenue's. -/
def trackOffset : K := 4.5

def stationX (i : ℕ) : K := firstStation + stationGap * i

/-- From which tick of each headway on a train stands at a station, its doors on side `dir`. -/
def stands (strip i : ℕ) (dir : K) : Option ℕ :=
  let leg :=
    if 0 < dir then if i < stations - 1 then some i else none
    else if 0 < i then some (legs - i) else none
  leg.map fun leg =>
    (leg * stopTicks + periodTicks - strip % 3 * stripOffset) % headwayTicks

structure TrainState (K : Type*) where
  strip : ℕ
  k : ℕ
  x : K
  s : K
  /-- Out-bound (1) or in-bound (-1). -/
  dir : K
  speed : K
  accel : K
  /-- The station it stands at, if it does. -/
  at_ : Option ℕ
  doors : Bool

variable (sqrt : K → K) (stripWidth : K)

def trackS (dir : K) : K := stripWidth * 0.5 + if 0 < dir then trackOffset else -trackOffset

def runTime : K := (runTicks : K) / tickHz

def cruise : K :=
  0.5 * (accel * runTime
    - sqrt (accel * accel * runTime * runTime - 4.0 * accel * stationGap))

/-- `tau` seconds into a run: how far along it, how fast, and its acceleration. -/
def run (tau : K) : K × K × K :=
  let t : K := runTime
  let v := cruise sqrt
  let ta := v / accel
  let tau := max 0 (min tau t)
  if tau < ta then (0.5 * accel * tau * tau, accel * tau, accel)
  else if tau < t - ta then (0.5 * accel * ta * ta + v * (tau - ta), v, 0)
  else
    let left := t - tau
    (stationGap - 0.5 * accel * left * left, accel * left, -accel)

def phase (strip k t : ℕ) : ℕ :=
  (t % periodTicks + (k % trains * headwayTicks + strip % 3 * stripOffset)) % periodTicks

def train (strip k t : ℕ) (frac : K) : TrainState K :=
  let leg := phase strip k t / stopTicks
  let within : K := (phase strip k t - leg * stopTicks : ℕ) + max 0 (min frac 1)
  let half := legs / 2
  let from_ := if leg < half then leg else legs - leg
  let dir : K := if leg < half then 1 else -1
  let s := trackS stripWidth dir
  if within < dwellTicks then
    { strip, k, x := stationX from_, s, dir, speed := 0, accel := 0, at_ := some from_
      doors := decide ((doorMargin : K) ≤ within ∧ within < (dwellTicks - doorMargin : ℕ)) }
  else
    let (d, v, a) := run sqrt ((within - dwellTicks) / tickHz)
    { strip, k, x := stationX from_ + dir * d, s, dir, speed := v, accel := dir * a, at_ := none
      doors := false }

/-! ## A run -/

variable {sqrt}

theorem accel_eq : (accel : K) = 3 / 2 := by
  norm_num [accel]

theorem half_accel : (0.5 * accel : K) = 3 / 4 := by
  norm_num [accel]

/-- The cruise speed is what a run of the gap in its time takes. -/
theorem cruise_spec (hsqrt : IsSqrt sqrt) :
    0 < cruise sqrt ∧ 2 * cruise sqrt ≤ accel * runTime
      ∧ cruise sqrt * runTime - cruise sqrt / accel * cruise sqrt = stationGap := by
  have ht : (runTime : K) = 81 := by norm_num [runTime, runTicks, tickHz]
  have hdisc : (accel * accel * runTime * runTime - 4.0 * accel * stationGap : K) = 249 / 4 := by
    norm_num [ht, accel, stationGap]
  have hnonneg := hsqrt.nonneg (249 / 4 : K) (by norm_num)
  have hself := hsqrt.mul_self (249 / 4 : K) (by norm_num)
  have hcruise : cruise sqrt = 1 / 2 * (243 / 2 - sqrt (249 / 4)) := by
    rw [cruise, hdisc, ht]
    norm_num [accel]
  have hsmall : sqrt (249 / 4 : K) < 243 / 2 := by
    by_contra hle
    have hle := not_lt.mp hle
    nlinarith
  rw [hcruise, ht]
  refine ⟨by linarith, ?_, ?_⟩
  · norm_num [accel]
    linarith
  · simp only [accel, stationGap]
    linear_combination (-1 / 6 : K) * hself

def travel (sqrt : K → K) (tau : K) : K := (run sqrt tau).1

def along (v ta t gap tau : K) : K :=
  if tau < ta then 0.5 * accel * tau * tau
  else if tau < t - ta then 0.5 * accel * ta * ta + v * (tau - ta)
  else gap - 0.5 * accel * (t - tau) * (t - tau)

theorem travel_eq (tau : K) : travel sqrt tau
    = along (cruise sqrt) (cruise sqrt / accel) runTime stationGap (max 0 (min tau runTime)) := by
  simp only [travel, run, along]
  split_ifs
  · rfl
  · rfl
  · rfl

section

variable {v ta t gap a b : K}

theorem along_mono (hta : v = 3 / 2 * ta) (hpos : 0 < ta) (hshort : 2 * ta ≤ t)
    (hgap : v * t - ta * v = gap) (ha : 0 ≤ a) (hab : a ≤ b) (hb : b ≤ t) :
    along v ta t gap a ≤ along v ta t gap b := by
  simp only [along, half_accel]
  split_ifs with h₁ h₂ h₃ h₄ h₅ h₆
  · nlinarith
  · nlinarith
  · nlinarith
  · linarith
  · nlinarith
  · nlinarith
  · linarith
  · nlinarith
  · nlinarith

theorem along_zero (hpos : 0 < ta) : along v ta t gap 0 = 0 := by
  rw [along, if_pos hpos, mul_zero]

theorem along_end (hpos : 0 < ta) (hshort : 2 * ta ≤ t) : along v ta t gap t = gap := by
  rw [along, if_neg (by linarith), if_neg (by linarith), sub_self, mul_zero, sub_zero]

end

theorem runTime_pos : (0 : K) < runTime := by
  norm_num [runTime, runTicks, tickHz]

/-- A run goes on and on, from one station to the next. -/
theorem travel_spec (hsqrt : IsSqrt sqrt) :
    (∀ a b, a ≤ b → travel sqrt a ≤ travel sqrt b)
      ∧ ∀ a, 0 ≤ travel sqrt a ∧ travel sqrt a ≤ stationGap := by
  obtain ⟨hpos, htwice, hgap⟩ := cruise_spec hsqrt
  have hta : cruise sqrt = 3 / 2 * (cruise sqrt / accel) := by
    rw [accel_eq]
    ring
  have hta₀ : 0 < cruise sqrt / accel := by linarith
  have hshort : 2 * (cruise sqrt / accel) ≤ runTime := by
    rw [accel_eq] at htwice
    linarith
  have hlo (a : K) : 0 ≤ max 0 (min a runTime) := le_max_left _ _
  have hhi (a : K) : max 0 (min a runTime) ≤ (runTime : K) :=
    max_le runTime_pos.le (min_le_right _ _)
  have hmono {a b : K} (ha : 0 ≤ a) (hab : a ≤ b) (hb : b ≤ runTime) :=
    along_mono hta hta₀ hshort hgap ha hab hb
  refine ⟨fun a b hab => ?_, fun a => ⟨?_, ?_⟩⟩
  · rw [travel_eq, travel_eq]
    exact hmono (hlo a) (max_le_max_left 0 (min_le_min_right _ hab)) (hhi b)
  · have h := hmono le_rfl (hlo a) (hhi a)
    rw [along_zero hta₀] at h
    rw [travel_eq]
    exact h
  · have h := hmono (hlo a) (hhi a) le_rfl
    rw [along_end hta₀ hshort] at h
    rw [travel_eq]
    exact h

/-! ## The timetable -/

theorem phase_lt (strip k t : ℕ) : phase strip k t < 60480 := by
  have h : 0 < periodTicks := by decide
  exact Nat.mod_lt _ h

theorem phase_apart (strip t : ℕ) {k k' : ℕ} (h : k % trains ≠ k' % trains) :
    phase strip k t + 5040 ≤ phase strip k' t ∨ phase strip k' t + 5040 ≤ phase strip k t := by
  have hperiod : periodTicks = 60480 := by decide
  have hheadway : headwayTicks = 5040 := by decide
  have hoffset : stripOffset = 1680 := by decide
  have htrains : trains = 12 := rfl
  simp only [phase, hperiod, hheadway, hoffset, htrains] at h ⊢
  omega

theorem travel_of_nonpos (hsqrt : IsSqrt sqrt) {a : K} (ha : a ≤ 0) : travel sqrt a = 0 := by
  obtain ⟨hmono, hbounds⟩ := travel_spec hsqrt
  have hta : 0 < cruise sqrt / accel := by
    rw [accel_eq]
    linarith [(cruise_spec hsqrt).1]
  have hzero : travel sqrt (0 : K) = 0 := by
    rw [travel_eq, min_eq_left runTime_pos.le, max_self, along_zero hta]
  exact le_antisymm (hzero ▸ hmono a 0 ha) (hbounds a).1

/-- How far a train has come since it left the first station of its round trip, if each leg of the
trip went on where the last one ended. -/
def way (sqrt : K → K) (phase : ℕ) (frac : K) : K :=
  stationGap * (phase / stopTicks : ℕ)
    + travel sqrt (((phase % stopTicks : ℕ) + max 0 (min frac 1) - dwellTicks) / tickHz)

theorem way_ahead (hsqrt : IsSqrt sqrt) {p q : ℕ} (h : p + stopTicks ≤ q) (frac : K) :
    way sqrt p frac + stationGap ≤ way sqrt q frac := by
  obtain ⟨hmono, hbounds⟩ := travel_spec hsqrt
  have hgap : (0 : K) < stationGap := by norm_num [stationGap]
  have hstop : stopTicks = 3024 := rfl
  rw [hstop] at h
  rcases Nat.lt_or_ge (p / 3024 + 1) (q / 3024) with hfar | hnear
  · have hlegs : ((p / 3024 : ℕ) : K) + 1 + 1 ≤ (q / 3024 : ℕ) := by exact_mod_cast hfar
    have hp := (hbounds (((p % 3024 : ℕ) + max 0 (min frac 1) - dwellTicks) / tickHz)).2
    have hq := (hbounds (((q % 3024 : ℕ) + max 0 (min frac 1) - dwellTicks) / tickHz)).1
    rw [way, way, hstop]
    nlinarith
  · have hlegs : q / 3024 = p / 3024 + 1 := by omega
    have hwithin : p % 3024 ≤ q % 3024 := by omega
    have hcast : ((p % 3024 : ℕ) : K) ≤ (q % 3024 : ℕ) := by exact_mod_cast hwithin
    have htick : (0 : K) < tickHz := by norm_num [tickHz]
    have htravel : travel sqrt (((p % 3024 : ℕ) + max 0 (min frac 1) - dwellTicks) / tickHz)
        ≤ travel sqrt (((q % 3024 : ℕ) + max 0 (min frac 1) - dwellTicks) / tickHz) := by
      apply hmono
      apply div_le_div_of_nonneg_right _ htick.le
      linarith
    rw [way, way, hstop, hlegs, Nat.cast_add, Nat.cast_one]
    linarith

section

variable {stripWidth : K} (strip k t : ℕ) (frac : K)

theorem train_dir : (train sqrt stripWidth strip k t frac).dir
    = if phase strip k t / stopTicks < legs / 2 then 1 else -1 := by
  unfold train
  dsimp only
  split
  · rfl
  · rfl

theorem train_s : (train sqrt stripWidth strip k t frac).s
    = trackS stripWidth (train sqrt stripWidth strip k t frac).dir := by
  unfold train
  dsimp only
  split
  · rfl
  · rfl

theorem train_x (hsqrt : IsSqrt sqrt) : (train sqrt stripWidth strip k t frac).x
    = if phase strip k t / stopTicks < legs / 2 then
        firstStation + way sqrt (phase strip k t) frac
      else firstStation + stationGap * legs - way sqrt (phase strip k t) frac := by
  have htick : (0 : K) < tickHz := by norm_num [tickHz]
  have hleg : phase strip k t / stopTicks ≤ legs := by
    have hlt := phase_lt strip k t
    have hstop : stopTicks = 3024 := rfl
    have hlegs : legs = 20 := rfl
    rw [hstop, hlegs]
    omega
  have hx : (train sqrt stripWidth strip k t frac).x
      = stationX (if phase strip k t / stopTicks < legs / 2 then phase strip k t / stopTicks
          else legs - phase strip k t / stopTicks)
        + (if phase strip k t / stopTicks < legs / 2 then 1 else -1)
          * travel sqrt (((phase strip k t % stopTicks : ℕ) + max 0 (min frac 1) - dwellTicks)
            / tickHz) := by
    rw [Nat.mod_eq_sub_div_mul]
    unfold train
    dsimp only
    split
    · rename_i hdwell
      have hstill : travel sqrt (((phase strip k t - phase strip k t / stopTicks * stopTicks : ℕ)
          + max 0 (min frac 1) - dwellTicks) / tickHz) = 0 :=
        travel_of_nonpos hsqrt (div_nonpos_of_nonpos_of_nonneg (by linarith) htick.le)
      rw [hstill, mul_zero, add_zero]
    · rfl
  rw [hx]
  split
  · rw [stationX, way]
    ring
  · rw [stationX, way, Nat.cast_sub hleg]
    ring

/-- No two trains of a line are on one track and nearer than from one station to the next. -/
theorem trains_apart (hsqrt : IsSqrt sqrt) {k' : ℕ} (hne : k % trains ≠ k' % trains) :
    ((train sqrt stripWidth strip k t frac).dir = (train sqrt stripWidth strip k' t frac).dir ∧
        stationGap ≤ |(train sqrt stripWidth strip k t frac).x
          - (train sqrt stripWidth strip k' t frac).x|)
      ∨ |(train sqrt stripWidth strip k t frac).s - (train sqrt stripWidth strip k' t frac).s|
        = 2 * trackOffset := by
  have hways : way sqrt (phase strip k t) frac + stationGap ≤ way sqrt (phase strip k' t) frac
      ∨ way sqrt (phase strip k' t) frac + stationGap ≤ way sqrt (phase strip k t) frac := by
    have hstop : stopTicks = 3024 := rfl
    rcases phase_apart strip t hne with hahead | hbehind
    · exact .inl (way_ahead hsqrt (by omega) frac)
    · exact .inr (way_ahead hsqrt (by omega) frac)
  have hfar {a b : K} (h : a + stationGap ≤ b ∨ b + stationGap ≤ a) : stationGap ≤ |a - b| := by
    rcases h with hle | hle
    · rw [abs_sub_comm]
      exact (le_sub_iff_add_le'.mpr hle).trans (le_abs_self _)
    · exact (le_sub_iff_add_le'.mpr hle).trans (le_abs_self _)
  rw [train_s, train_s, train_dir, train_dir, train_x strip k t frac hsqrt,
    train_x strip k' t frac hsqrt]
  by_cases hout : phase strip k t / stopTicks < legs / 2
  · by_cases hout' : phase strip k' t / stopTicks < legs / 2
    · refine .inl ⟨by rw [if_pos hout, if_pos hout'], ?_⟩
      rw [if_pos hout, if_pos hout', add_sub_add_left_eq_sub]
      exact hfar hways
    · right
      rw [if_pos hout, if_neg hout', trackS, trackS, if_pos one_pos, if_neg (by norm_num)]
      norm_num [trackOffset]
  · by_cases hout' : phase strip k' t / stopTicks < legs / 2
    · right
      rw [if_neg hout, if_pos hout', trackS, trackS, if_pos one_pos, if_neg (by norm_num)]
      norm_num [trackOffset]
    · refine .inl ⟨by rw [if_neg hout, if_neg hout'], ?_⟩
      rw [if_neg hout, if_neg hout', sub_sub_sub_cancel_left]
      exact hfar hways.symm

/-- The first two trains of the Charter strip's line, as the first tick begins. -/
theorem trains_apart_first :
    ((train Real.sqrt 3351 0 0 0 0).dir = (train Real.sqrt 3351 0 1 0 0).dir ∧
        stationGap ≤ |(train Real.sqrt 3351 0 0 0 0).x - (train Real.sqrt 3351 0 1 0 0).x|)
      ∨ |(train Real.sqrt 3351 0 0 0 0).s - (train Real.sqrt 3351 0 1 0 0).s| = 2 * trackOffset :=
  trains_apart 0 0 0 0 isSqrt_real (by decide)

theorem train_at (hfrac : 0 ≤ frac) (hlt : frac < 1) : (train sqrt stripWidth strip k t frac).at_
    = if phase strip k t % stopTicks < dwellTicks then
        some (if phase strip k t / stopTicks < legs / 2 then phase strip k t / stopTicks
          else legs - phase strip k t / stopTicks)
      else none := by
  have hwithin : ((phase strip k t % stopTicks : ℕ) : K) + max 0 (min frac 1) < dwellTicks
      ↔ phase strip k t % stopTicks < dwellTicks := by
    rw [min_eq_left hlt.le, max_eq_right hfrac]
    constructor
    · intro h
      have hcast : ((phase strip k t % stopTicks : ℕ) : K) < dwellTicks := by linarith
      exact_mod_cast hcast
    · intro h
      have hcast : ((phase strip k t % stopTicks : ℕ) : K) + 1 ≤ dwellTicks := by exact_mod_cast h
      linarith
  rw [Nat.mod_eq_sub_div_mul] at hwithin ⊢
  unfold train
  dsimp only
  split
  · rename_i hdwell
    rw [if_pos (hwithin.mp hdwell)]
  · rename_i hrun
    rw [if_neg (fun h => hrun (hwithin.mpr h))]

/-- The leg on which a train stands at a station, its doors on one side. -/
def legOf (i : ℕ) (out : Bool) : Option ℕ :=
  if out then if i < stations - 1 then some i else none
  else if 0 < i then some (legs - i) else none

theorem standing_iff {i : ℕ} (hi : i < stations) (hfrac : 0 ≤ frac) (hlt : frac < 1) (out : Bool) :
    ((train sqrt stripWidth strip k t frac).at_ = some i
        ∧ (train sqrt stripWidth strip k t frac).dir = if out then 1 else -1)
      ↔ phase strip k t % stopTicks < dwellTicks
        ∧ legOf i out = some (phase strip k t / stopTicks) := by
  have hforth : (1 : K) ≠ -1 := by norm_num
  have hback : (-1 : K) ≠ 1 := by norm_num
  have hphase := phase_lt strip k t
  have hleg : phase strip k t / stopTicks < 20 := by
    have hstop : stopTicks = 3024 := rfl
    rw [hstop]
    omega
  have hstations : stations = 11 := rfl
  have hlegs : legs = 20 := rfl
  rw [train_at strip k t frac hfrac hlt, train_dir]
  generalize phase strip k t / stopTicks = l at hleg ⊢
  generalize phase strip k t % stopTicks = w
  simp only [hstations, hlegs, legOf] at hi ⊢
  by_cases hw : w < dwellTicks
  · by_cases hout : l < 10
    · cases out with
      | true => simp [hw, hout]; omega
      | false => simp [hw, hout, hforth]; omega
    · cases out with
      | true => simp [hw, hout, hback]; omega
      | false => simp [hw, hout]; omega
  · simp [hw]

end

theorem exists_phase_iff {strip t l : ℕ} (hl : l < legs) :
    (∃ k < trains, phase strip k t / stopTicks = l ∧ phase strip k t % stopTicks < dwellTicks)
      ↔ (t + headwayTicks - (l * stopTicks + periodTicks - strip % 3 * stripOffset) % headwayTicks)
        % headwayTicks < dwellTicks := by
  have hperiod : periodTicks = 60480 := by decide
  have hheadway : headwayTicks = 5040 := by decide
  have hoffset : stripOffset = 1680 := by decide
  have htrains : trains = 12 := rfl
  have hstop : stopTicks = 3024 := rfl
  have hdwell : dwellTicks = 594 := rfl
  have hlegs : legs = 20 := rfl
  simp only [phase, hperiod, hheadway, hoffset, htrains, hstop, hdwell, hlegs] at hl ⊢
  constructor
  · rintro ⟨k, hk, hleg, hstand⟩
    rw [Nat.mod_eq_of_lt hk] at hleg hstand
    omega
  · intro h
    -- the trip the headway's first train has behind it, in headways
    obtain ⟨c, hc⟩ : ∃ c, t + strip % 3 * 1680 + 60480
        = 3024 * l + (t + 5040 - (l * 3024 + 60480 - strip % 3 * 1680) % 5040) % 5040
          + 5040 * c := by
      refine ⟨(t + 5040 - (l * 3024 + 60480 - strip % 3 * 1680) % 5040) / 5040 + 23
        - (l * 3024 + 60480 - strip % 3 * 1680) / 5040, ?_⟩
      omega
    refine ⟨(12 - c % 12) % 12, Nat.mod_lt _ (by decide), ?_⟩
    generalize (t + 5040 - (l * 3024 + 60480 - strip % 3 * 1680) % 5040) % 5040 = m at h hc
    have hphase : (t % 60480 + ((12 - c % 12) % 12 % 12 * 5040 + strip % 3 * 1680)) % 60480
        = 3024 * l + m := by
      omega
    rw [hphase]
    omega

theorem stands_eq (strip i : ℕ) (out : Bool) :
    stands strip i (if out then 1 else -1 : K) = (legOf i out).map fun leg =>
      (leg * stopTicks + periodTicks - strip % 3 * stripOffset) % headwayTicks := by
  have hback : ¬ (0 : K) < -1 := by norm_num
  cases out with
  | true => rw [stands, if_pos rfl, if_pos one_pos, legOf, if_pos rfl]
  | false => rw [stands, if_neg Bool.false_ne_true, if_neg hback, legOf, if_neg Bool.false_ne_true]

theorem legOf_lt {i l : ℕ} {out : Bool} (h : legOf i out = some l) : l < legs := by
  have hstations : stations = 11 := rfl
  have hlegs : legs = 20 := rfl
  rw [hlegs]
  rw [legOf, hstations, hlegs] at h
  cases out with
  | true =>
    rw [if_pos rfl] at h
    split at h
    · rw [← Option.some.inj h]
      omega
    · exact nomatch h
  | false =>
    rw [if_neg Bool.false_ne_true] at h
    split at h
    · rw [← Option.some.inj h]
      omega
    · exact nomatch h

/-- Trains stand at a station, on either side, when the timetable says so, and one at a time. -/
theorem stands_iff {stripWidth : K} {strip i t : ℕ} {frac : K} (hi : i < stations)
    (hfrac : 0 ≤ frac) (hlt : frac < 1) (out : Bool) :
    ((∃ k < trains, (train sqrt stripWidth strip k t frac).at_ = some i
        ∧ (train sqrt stripWidth strip k t frac).dir = if out then 1 else -1)
      ↔ ∃ first, stands strip i (if out then 1 else -1 : K) = some first
        ∧ (t + headwayTicks - first) % headwayTicks < dwellTicks)
      ∧ ∀ k k', (train sqrt stripWidth strip k t frac).at_ = some i →
        (train sqrt stripWidth strip k' t frac).at_ = some i →
        (train sqrt stripWidth strip k t frac).dir = (train sqrt stripWidth strip k' t frac).dir →
        k % trains = k' % trains := by
  constructor
  · simp only [standing_iff strip _ t frac hi hfrac hlt, stands_eq]
    cases hleg : legOf i out with
    | none =>
      rw [Option.map_none]
      constructor
      · rintro ⟨k, hk, hdwell, hnone⟩
        exact nomatch hnone
      · rintro ⟨first, hnone, hdwell⟩
        exact nomatch hnone
    | some l =>
      simp only [Option.map_some, Option.some.injEq]
      constructor
      · rintro ⟨k, hk, hdwell, heq⟩
        exact ⟨_, rfl, (exists_phase_iff (legOf_lt hleg)).mp ⟨k, hk, heq.symm, hdwell⟩⟩
      · rintro ⟨first, hfirst, hdwell⟩
        subst hfirst
        obtain ⟨k, hk, heq, hstand⟩ := (exists_phase_iff (legOf_lt hleg)).mpr hdwell
        exact ⟨k, hk, hstand, heq.symm⟩
  · intro k k' hat hat' hdir
    by_contra hne
    obtain ⟨out', hout⟩ : ∃ out' : Bool,
        (train sqrt stripWidth strip k t frac).dir = if out' then 1 else -1 := by
      rw [train_dir]
      split
      · exact ⟨true, rfl⟩
      · exact ⟨false, rfl⟩
    obtain ⟨hdwell, hleg⟩ := (standing_iff strip k t frac hi hfrac hlt out').mp ⟨hat, hout⟩
    obtain ⟨hdwell', hleg'⟩ :=
      (standing_iff strip k' t frac hi hfrac hlt out').mp ⟨hat', hdir ▸ hout⟩
    have hsame := Option.some.inj (hleg.symm.trans hleg')
    have hapart := phase_apart strip t hne
    have hstop : stopTicks = 3024 := rfl
    have hstand : dwellTicks = 594 := rfl
    rw [hstop] at hdwell hdwell' hsame
    rw [hstand] at hdwell hdwell'
    omega

/-- The fifth station of the second strip's line, half way through a tick, doors on the out-bound
side. -/
theorem stands_iff_fifth :
    ((∃ k < trains, (train id (3351 : ℚ) 1 k 600 (1 / 2)).at_ = some 4
        ∧ (train id (3351 : ℚ) 1 k 600 (1 / 2)).dir = if true then 1 else -1)
      ↔ ∃ first, stands 1 4 (if true then 1 else -1 : ℚ) = some first
        ∧ (600 + headwayTicks - first) % headwayTicks < dwellTicks)
      ∧ ∀ k k', (train id (3351 : ℚ) 1 k 600 (1 / 2)).at_ = some 4 →
        (train id (3351 : ℚ) 1 k' 600 (1 / 2)).at_ = some 4 →
        (train id (3351 : ℚ) 1 k 600 (1 / 2)).dir = (train id (3351 : ℚ) 1 k' 600 (1 / 2)).dir →
        k % trains = k' % trains :=
  stands_iff (by decide) (by norm_num) (by norm_num) true

end

end BeforeColony.Transit
