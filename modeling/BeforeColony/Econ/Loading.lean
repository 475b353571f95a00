import Mathlib.Algebra.BigOperators.Fin
import Mathlib.Algebra.Order.BigOperators.Group.Finset
import Mathlib.Data.Nat.Cast.Order.Field
import Mathlib.Tactic.FinCases
import Mathlib.Tactic.Linarith
import BeforeColony.Econ.BayRuns
import BeforeColony.Econ.StoresShape

/-!
# What a launch loads

A launch reloads mount after mount from the stores. With enough there a mount is filled, for
what its missing rounds need; with less, it has all there is and the rounds that buys, rounded
down. Only homing missiles weigh more than a kilogram a round, so only theirs leaves a
remainder that is paid and not loaded (`launch_takes_iff`). Either way, munitions and rounds
together never grow (`munitionsHeld_step_le`).
-/

set_option autoImplicit false

namespace BeforeColony

open Catalogue

/-! ### The loadouts -/

/-- Homing missiles hang on the second mount, beside a weapon that takes no munitions. -/
theorem missile_mount {line : FrameId} {m : Fin 3}
    (h : (frameLoadout line m).map Mount.weapon = some .homingMissile) :
    m = 1 ∧ ∀ w, (frameLoadout line 0).map Mount.weapon = some w → munitionsPerLoad w = 0 := by
  cases line <;> fin_cases m <;> simp_all [frameLoadout, munitionsPerLoad]

/-- Of anything else a kilogram is a whole number of rounds. -/
theorem munitions_dvd {w : WeaponKind} (h : w ≠ .homingMissile) (hper : 0 < munitionsPerLoad w) :
    0 < roundsPerLoad w ∧ munitionsPerLoad w ∣ roundsPerLoad w := by
  cases w <;> first | exact absurd rfl h | exact absurd hper (by decide) | decide

namespace Suit

variable {s s' : Suit} {m : Fin 3}

def perLoad (s : Suit) (m : Fin 3) : ℕ := (s.weaponOn m).elim 0 munitionsPerLoad

def kgFor (s : Suit) (m : Fin 3) (rounds : ℕ) : ℕ :=
  (rounds * s.perLoad m + (s.fullLoad m - 1)) / s.fullLoad m

def loads (s : Suit) (m : Fin 3) : Prop := s.mounts m = true ∧ 0 < s.fullLoad m

/-- The munitions in the rounds aboard, kg. -/
def munitionsIn (s : Suit) : ℚ := ∑ m, (s.ammo m * s.perLoad m / s.fullLoad m : ℚ)

theorem perLoad_eq {w : WeaponKind} (hw : s.weaponOn m = some w) :
    s.perLoad m = munitionsPerLoad w := by
  rw [perLoad, hw]
  rfl

theorem fullLoad_eq {w : WeaponKind} (hw : s.weaponOn m = some w) :
    s.fullLoad m = if 0 < munitionsPerLoad w then roundsPerLoad w else 0 := by
  rw [fullLoad, hw]

theorem perLoad_line (h : s'.line = s.line) : s'.perLoad m = s.perLoad m := by
  rw [perLoad, perLoad, weaponOn, weaponOn, h]

theorem fullLoad_line (h : s'.line = s.line) : s'.fullLoad m = s.fullLoad m := by
  rw [fullLoad, fullLoad, weaponOn, weaponOn, h]

/-- A mount that holds rounds takes munitions for them. -/
theorem perLoad_pos (h : 0 < s.fullLoad m) : ∃ w, s.weaponOn m = some w ∧ 0 < s.perLoad m
    ∧ s.fullLoad m = roundsPerLoad w := by
  cases hw : s.weaponOn m with
  | none => rw [fullLoad, hw] at h; exact absurd h (lt_irrefl 0)
  | some w =>
    rw [fullLoad_eq hw] at h ⊢
    by_cases hper : 0 < munitionsPerLoad w
    · exact ⟨w, rfl, (perLoad_eq hw).symm ▸ hper, if_pos hper⟩
    · rw [if_neg hper] at h
      exact absurd h (lt_irrefl 0)

theorem le_kgFor_mul (h : 0 < s.fullLoad m) (rounds : ℕ) :
    rounds * s.perLoad m ≤ s.kgFor m rounds * s.fullLoad m := by
  have hlt := Nat.lt_mul_div_succ (rounds * s.perLoad m + (s.fullLoad m - 1)) h
  rw [mul_add, mul_one] at hlt
  rw [kgFor, mul_comm _ (s.fullLoad m)]
  omega

/-- Fewer kilograms than some rounds need are worth less than those rounds. -/
theorem mul_lt_of_lt_kgFor (h : 0 < s.fullLoad m) {kg rounds : ℕ} (hkg : kg < s.kgFor m rounds) :
    kg * s.fullLoad m < rounds * s.perLoad m := by
  have hle := (Nat.le_div_iff_mul_le h).mp (Nat.succ_le_of_lt hkg)
  rw [Nat.succ_mul] at hle
  omega

theorem kgFor_zero (s : Suit) (m : Fin 3) : s.kgFor m 0 = 0 := by
  rw [kgFor, zero_mul, zero_add]
  exact Nat.div_eq_zero_iff.mpr (by omega)

theorem munitionsIn_le (hline : s'.line = s.line) (hammo : ∀ m, s'.ammo m ≤ s.ammo m) :
    s'.munitionsIn ≤ s.munitionsIn := by
  refine Finset.sum_le_sum fun m _ => ?_
  rw [perLoad_line hline, fullLoad_line hline]
  have hm : (s'.ammo m : ℚ) ≤ s.ammo m := Nat.cast_le.mpr (hammo m)
  gcongr

theorem munitionsIn_nonneg (s : Suit) : 0 ≤ s.munitionsIn :=
  Finset.sum_nonneg fun m _ => by positivity

theorem munitionsIn_update (s : Suit) (m : Fin 3) (rounds : ℕ) :
    munitionsIn { s with ammo := Function.update s.ammo m rounds }
      + s.ammo m * s.perLoad m / s.fullLoad m
        = s.munitionsIn + rounds * s.perLoad m / s.fullLoad m := by
  unfold munitionsIn
  rw [← Finset.add_sum_erase _ _ (Finset.mem_univ m),
    ← Finset.add_sum_erase Finset.univ (fun m => (s.ammo m * s.perLoad m / s.fullLoad m : ℚ))
      (Finset.mem_univ m)]
  have hrest : ∀ n ∈ Finset.univ.erase m,
      ((Function.update s.ammo m rounds n : ℕ) * s.perLoad n / s.fullLoad n : ℚ)
        = s.ammo n * s.perLoad n / s.fullLoad n := by
    intro n hn
    rw [Function.update_of_ne (Finset.ne_of_mem_erase hn)]
  have hsum := Finset.sum_congr (rfl : Finset.univ.erase m = Finset.univ.erase m) hrest
  have hself : Function.update s.ammo m rounds m = rounds := Function.update_self m rounds s.ammo
  show (((Function.update s.ammo m rounds m : ℕ) * s.perLoad m / s.fullLoad m : ℚ)
    + ∑ n ∈ Finset.univ.erase m,
      ((Function.update s.ammo m rounds n : ℕ) * s.perLoad n / s.fullLoad n : ℚ)) + _ = _
  rw [hsum, hself]
  ring

theorem munitionsIn_update_le (hfull : 0 < s.fullLoad m) {rounds kg : ℕ}
    (h : rounds * s.perLoad m ≤ s.ammo m * s.perLoad m + kg * s.fullLoad m) :
    munitionsIn { s with ammo := Function.update s.ammo m rounds } ≤ s.munitionsIn + kg := by
  have hupdate := munitionsIn_update s m rounds
  have hpos : (0 : ℚ) < s.fullLoad m := Nat.cast_pos.mpr hfull
  have hcast : (rounds * s.perLoad m : ℚ) ≤ s.ammo m * s.perLoad m + kg * s.fullLoad m := by
    exact_mod_cast h
  have hworth : (rounds * s.perLoad m / s.fullLoad m : ℚ)
      ≤ s.ammo m * s.perLoad m / s.fullLoad m + kg := by
    rw [div_le_iff₀ hpos, add_mul, div_mul_cancel₀ _ hpos.ne']
    exact hcast
  linarith

end Suit

def Bay.munitionsIn : Bay → ℚ
  | .empty => 0
  | .docked s | .out s => s.munitionsIn

namespace PilotHangar

variable {h : PilotHangar} {s out : Suit} {st st' : Stores} {m : Fin 3}

/-! ### One mount's turn -/

/-- What a mount's turn at a launch can come to. -/
inductive Reloads (s : Suit) (st : Stores) (m : Fin 3) : Suit × Stores → Prop
  | idle (hidle : ¬ s.loads m) : Reloads s st m (s, st)
  | filled {st' : Stores} (hloads : s.loads m)
      (htake : st.take munitions (s.kgFor m (s.fullLoad m - s.ammo m)) = some st') :
      Reloads s st m ({ s with ammo := Function.update s.ammo m (s.fullLoad m) }, st')
  | short {st' : Stores} (hloads : s.loads m)
      (hshort : st.get munitions < s.kgFor m (s.fullLoad m - s.ammo m))
      (htake : st.take munitions (st.get munitions) = some st') :
      Reloads s st m ({ s with
        ammo := Function.update s.ammo m
          (s.ammo m + st.get munitions * s.fullLoad m / s.perLoad m) }, st')

/-- Rounds from fewer munitions than a mount needs do not fill it. -/
theorem short_lt (hfull : 0 < s.fullLoad m)
    (hshort : st.get munitions < s.kgFor m (s.fullLoad m - s.ammo m)) :
    s.ammo m + st.get munitions * s.fullLoad m / s.perLoad m < s.fullLoad m := by
  obtain ⟨w, -, hper, -⟩ := Suit.perLoad_pos hfull
  have hlt := Suit.mul_lt_of_lt_kgFor hfull hshort
  have hrounds := (Nat.div_lt_iff_lt_mul hper).mpr hlt
  generalize st.get munitions * s.fullLoad m / s.perLoad m = rounds at hrounds
  omega

theorem reloads (s : Suit) (st : Stores) (m : Fin 3) : Reloads s st m (reload (s, st) m) := by
  unfold reload
  dsimp only
  split
  · rename_i hw
    refine .idle fun hloads => ?_
    obtain ⟨w, hw', -⟩ := Suit.perLoad_pos hloads.2
    rw [hw] at hw'
    cases hw'
  · rename_i w hw
    split
    · rename_i hskip
      simp only [Bool.or_eq_true, Bool.not_eq_true', decide_eq_true_eq] at hskip
      refine .idle fun hloads => ?_
      rcases hskip with hmount | hfull
      · rw [hloads.1] at hmount
        cases hmount
      · exact hloads.2.ne' hfull
    · rename_i hload
      simp only [Bool.or_eq_true, Bool.not_eq_true', decide_eq_true_eq, not_or,
        Bool.not_eq_false] at hload
      have hloads : s.loads m := ⟨hload.1, Nat.pos_of_ne_zero hload.2⟩
      have hneed : s.fullLoad m - min (s.ammo m) (s.fullLoad m) = s.fullLoad m - s.ammo m := by
        omega
      have hkgFor : ((s.fullLoad m - s.ammo m) * s.perLoad m + (s.fullLoad m - 1)) / s.fullLoad m
          = s.kgFor m (s.fullLoad m - s.ammo m) := rfl
      rw [hneed, ← Suit.perLoad_eq hw, hkgFor]
      by_cases hkg : s.kgFor m (s.fullLoad m - s.ammo m) ≤ st.get munitions
      · obtain ⟨st', htake⟩ := Stores.take_of_le hkg
        have hto : min (s.ammo m + (s.fullLoad m - s.ammo m)) (s.fullLoad m) = s.fullLoad m := by
          omega
        simp only [if_pos hkg, hto, htake, Option.getD_some]
        exact .filled hloads htake
      · obtain ⟨st', htake⟩ := Stores.take_of_le (le_refl (st.get munitions))
        have hlt := short_lt hloads.2 (not_le.mp hkg)
        simp only [if_neg hkg, min_eq_left hlt.le, htake, Option.getD_some]
        exact .short hloads (not_le.mp hkg) htake

/-! ### What a turn takes for what it loads -/

/-- Homing missiles, 5 kg each, are loaded from enough munitions for all that are missing, or
from a number of kilograms that they can use up. -/
def MissilesEven (s : Suit) (kg : ℕ) : Prop :=
  ∀ m : Fin 3, s.mounts m = true → s.weaponOn m = some .homingMissile →
    5 * (24 - s.ammo m) ≤ kg ∨ 5 ∣ kg

theorem get_of_take {qty : ℕ} (htake : st.take munitions qty = some st') :
    st'.get munitions + qty = st.get munitions := by
  have hget := Stores.get_take htake munitions
  rwa [if_pos rfl] at hget

/-- What short stores have is what the rounds bought with it need, but for a remainder of
missiles'. -/
theorem kgFor_short_iff (kg : ℕ) (hfull : 0 < s.fullLoad m) :
    s.kgFor m (kg * s.fullLoad m / s.perLoad m) = kg
      ↔ (s.weaponOn m = some .homingMissile → 5 ∣ kg) := by
  obtain ⟨w, hw, hper, hload⟩ := Suit.perLoad_pos hfull
  rw [hw, Option.some.injEq]
  by_cases hmissile : w = .homingMissile
  · subst hmissile
    rw [Suit.kgFor, hload, Suit.perLoad_eq hw, forall_prop_of_true rfl]
    show (kg * 24 / 120 * 120 + (24 - 1)) / 24 = kg ↔ 5 ∣ kg
    omega
  · refine iff_of_true ?_ fun h => absurd h hmissile
    have hper' := hper
    rw [Suit.perLoad_eq hw] at hper'
    obtain ⟨-, q, hq⟩ := munitions_dvd hmissile hper'
    rw [← hload, ← Suit.perLoad_eq hw] at hq
    have hrounds : kg * s.fullLoad m / s.perLoad m = kg * q := by
      rw [hq, mul_left_comm, Nat.mul_div_cancel_left _ hper]
    rw [Suit.kgFor, hrounds, mul_assoc, mul_comm q, ← hq, add_comm,
      Nat.add_mul_div_right _ _ hfull, Nat.div_eq_of_lt (by omega), zero_add]

/-- A mount's turn takes what the rounds it loads need, but for a remainder of missiles'. -/
theorem turn_exact_iff (s : Suit) (st : Stores) (m : Fin 3) :
    st.get munitions = (reload (s, st) m).2.get munitions
        + s.kgFor m ((reload (s, st) m).1.ammo m - s.ammo m)
      ↔ (s.loads m → s.weaponOn m = some .homingMissile →
          s.kgFor m (s.fullLoad m - s.ammo m) ≤ st.get munitions ∨ 5 ∣ st.get munitions) := by
  have hturn := reloads s st m
  generalize reload (s, st) m = r at hturn ⊢
  cases hturn with
  | idle hidle =>
    refine iff_of_true ?_ fun hloads => absurd hloads hidle
    rw [Nat.sub_self, Suit.kgFor_zero, add_zero]
  | @filled st' hloads htake =>
    have hget := get_of_take htake
    have hammo : Function.update s.ammo m (s.fullLoad m) m = s.fullLoad m := Function.update_self ..
    refine iff_of_true ?_ fun _ _ => .inl (by omega)
    dsimp only
    rw [hammo]
    exact hget.symm
  | @short st' hloads hshort htake =>
    have hget := get_of_take htake
    dsimp only
    rw [Function.update_self, Nat.add_sub_cancel_left]
    have hiff := kgFor_short_iff (m := m) (st.get munitions) hloads.2
    constructor
    · intro hexact _ hw
      exact .inr (hiff.mp (by omega) hw)
    · intro heven
      have := hiff.mpr fun hw => (heven hloads hw).resolve_left (by omega)
      omega

/-! ### The loop -/

def fuelled (h : PilotHangar) (s : Suit) : Suit × Stores :=
  let (got, stores) := h.stores.takeUpTo s.grade.item (s.tank - s.propellant)
  ({ s with propellant := s.propellant + got }, stores)

def turns (h : PilotHangar) (s : Suit) (k : ℕ) : Suit × Stores :=
  ((List.finRange 3).take k).foldl reload (h.fuelled s)

/-- What a launch is to do with the munitions, mount after mount. -/
structure LoadsWhatItTakes (h : PilotHangar) (s out : Suit) : Prop where
  starts : (h.turns s 0).2.get munitions = h.stores.get munitions
  ends : (h.turns s 3).2.get munitions = h.launch.1.stores.get munitions
  /-- A mount's turn takes what the rounds loaded there need. -/
  exact (m : Fin 3) : (h.turns s m).2.get munitions
    = (h.turns s (m + 1)).2.get munitions + s.kgFor m (out.ammo m - s.ammo m)
  full (m : Fin 3) : s.loads m → out.ammo m ≤ s.fullLoad m
  idle (m : Fin 3) : ¬ s.loads m → out.ammo m = s.ammo m
  /-- A mount that is not filled leaves nothing for the next. -/
  order (k m : Fin 3) : k < m → s.loads k → out.ammo k < s.fullLoad k → out.ammo m ≤ s.ammo m

theorem turns_succ (h : PilotHangar) (s : Suit) (m : Fin 3) :
    h.turns s (m + 1) = reload (h.turns s m) m := by
  fin_cases m <;> rfl

theorem turns_last (h : PilotHangar) (s : Suit) (m : Fin 3) :
    h.turns s 3 = ((List.finRange 3).drop (m + 1)).foldl reload (h.turns s (m + 1)) := by
  fin_cases m <;> rfl

theorem reload_fst (st : Suit × Stores) (m : Fin 3) :
    ∃ n, (reload st m).1 = { st.1 with ammo := Function.update st.1.ammo m n } := by
  have hturn := reloads st.1 st.2 m
  generalize reload (st.1, st.2) m = r at hturn ⊢
  cases hturn with
  | idle hidle => exact ⟨st.1.ammo m, by rw [Function.update_eq_self]⟩
  | filled hloads htake => exact ⟨_, rfl⟩
  | short hloads hshort htake => exact ⟨_, rfl⟩

theorem ammo_reload_of_ne {m n : Fin 3} (hne : n ≠ m) (st : Suit × Stores) :
    (reload st m).1.ammo n = st.1.ammo n := by
  obtain ⟨k, hk⟩ := reload_fst st m
  rw [hk]
  exact Function.update_of_ne hne k st.1.ammo

theorem munitions_reload_le (st : Suit × Stores) (m : Fin 3) :
    (reload st m).2.get munitions ≤ st.2.get munitions := by
  have hturn := reloads st.1 st.2 m
  generalize reload (st.1, st.2) m = r at hturn ⊢
  cases hturn with
  | idle hidle => exact le_rfl
  | filled hloads htake => exact (Nat.le_add_right _ _).trans_eq (get_of_take htake)
  | short hloads hshort htake => exact (Nat.le_add_right _ _).trans_eq (get_of_take htake)

theorem ammo_reload_le {st : Suit × Stores} (hnone : st.2.get munitions = 0) (m : Fin 3) :
    (reload st m).1.ammo m ≤ st.1.ammo m := by
  have hturn := reloads st.1 st.2 m
  generalize reload (st.1, st.2) m = r at hturn ⊢
  cases hturn with
  | idle hidle => exact le_rfl
  | @filled st' hloads htake =>
    have hkg := get_of_take htake
    have hrounds := Suit.le_kgFor_mul hloads.2 (st.1.fullLoad m - st.1.ammo m)
    have hzero : st.1.kgFor m (st.1.fullLoad m - st.1.ammo m) = 0 := by omega
    obtain ⟨w, -, hper, -⟩ := Suit.perLoad_pos hloads.2
    rw [hzero, zero_mul, Nat.le_zero, mul_eq_zero] at hrounds
    have hammo : Function.update st.1.ammo m (st.1.fullLoad m) m = st.1.fullLoad m :=
      Function.update_self ..
    show Function.update st.1.ammo m (st.1.fullLoad m) m ≤ st.1.ammo m
    rw [hammo]
    omega
  | short hloads hshort htake =>
    show Function.update st.1.ammo m _ m ≤ st.1.ammo m
    rw [Function.update_self, hnone, zero_mul, Nat.zero_div, add_zero]

section Foldl

variable (l : List (Fin 3)) (st : Suit × Stores)

theorem rig_foldl : (l.foldl reload st).1.line = st.1.line
    ∧ (l.foldl reload st).1.mounts = st.1.mounts := by
  induction l generalizing st with
  | nil => exact ⟨rfl, rfl⟩
  | cons m rest ih =>
    obtain ⟨n, hn⟩ := reload_fst st m
    obtain ⟨hline, hmounts⟩ := ih (reload st m)
    rw [hn] at hline hmounts
    exact ⟨hline, hmounts⟩

theorem ammo_foldl {m : Fin 3} (hm : m ∉ l) : (l.foldl reload st).1.ammo m = st.1.ammo m := by
  induction l generalizing st with
  | nil => rfl
  | cons n rest ih =>
    rw [List.mem_cons, not_or] at hm
    rw [List.foldl_cons, ih _ hm.2, ammo_reload_of_ne hm.1]

theorem munitions_foldl_le :
    (l.foldl reload st).2.get munitions ≤ st.2.get munitions := by
  induction l generalizing st with
  | nil => exact le_rfl
  | cons m rest ih => exact (ih _).trans (munitions_reload_le st m)

end Foldl

theorem munitions_turns_le {k n : ℕ} (h : PilotHangar) (s : Suit) (hkn : k ≤ n) :
    (h.turns s n).2.get munitions ≤ (h.turns s k).2.get munitions := by
  unfold turns
  rw [← Nat.add_sub_cancel' hkn, List.take_add, List.foldl_append]
  exact munitions_foldl_le _ _

theorem line_turns (h : PilotHangar) (s : Suit) (k : ℕ) : (h.turns s k).1.line = s.line :=
  (rig_foldl _ _).1

theorem mounts_turns (h : PilotHangar) (s : Suit) (k : ℕ) : (h.turns s k).1.mounts = s.mounts :=
  (rig_foldl _ _).2

/-- A mount's turn finds it with the rounds it had in the bay. -/
theorem ammo_turns (h : PilotHangar) (s : Suit) (m : Fin 3) :
    (h.turns s m).1.ammo m = s.ammo m := by
  refine ammo_foldl _ _ ?_
  fin_cases m <;> decide

theorem ammo_turns_last (h : PilotHangar) (s : Suit) (m : Fin 3) :
    (h.turns s 3).1.ammo m = (reload (h.turns s m) m).1.ammo m := by
  rw [turns_last h s m, turns_succ]
  refine ammo_foldl _ _ ?_
  fin_cases m <;> decide

/-! ### A launch -/

theorem get_takeUpTo {item item' : Item} (hne : item' ≠ item) (st : Stores) (qty : ℕ) :
    (st.takeUpTo item qty).2.get item' = st.get item' := by
  obtain ⟨st', htake⟩ := Stores.take_of_le (min_le_left (st.get item) qty)
  have hget := Stores.get_take htake item'
  rw [if_neg hne, add_zero] at hget
  unfold Stores.takeUpTo
  dsimp only
  rw [htake]
  exact hget

theorem grade_item_ne (g : Grade) : munitions ≠ g.item := by cases g <;> decide

theorem munitions_fuelled (h : PilotHangar) (s : Suit) :
    (h.fuelled s).2.get munitions = h.stores.get munitions :=
  get_takeUpTo (grade_item_ne s.grade) _ _

theorem rackUp_foldl (l : List Kit) (st : Suit × Stores) :
    (∃ kits, (l.foldl rackUp st).1 = { st.1 with kits })
      ∧ (l.foldl rackUp st).2.get munitions = st.2.get munitions := by
  induction l generalizing st with
  | nil => exact ⟨⟨st.1.kits, rfl⟩, rfl⟩
  | cons kit rest ih =>
    obtain ⟨⟨kits, hkits⟩, hget⟩ := ih (rackUp st kit)
    exact ⟨⟨kits, hkits⟩, hget.trans (get_takeUpTo (by cases kit <;> decide) st.2 rack)⟩

theorem launch_turns (hbay : h.bay = .docked s) (hlaunch : h.launch.2 = .ok out) :
    h.launch.1.bay = .out out ∧ (∃ kits, out = { (h.turns s 3).1 with kits })
      ∧ h.launch.1.stores.get munitions = (h.turns s 3).2.get munitions := by
  have hturns : h.turns s 3 = (List.finRange 3).foldl reload
      ({ s with propellant :=
          s.propellant + (h.stores.takeUpTo s.grade.item (s.tank - s.propellant)).1 },
        (h.stores.takeUpTo s.grade.item (s.tank - s.propellant)).2) := rfl
  unfold launch at hlaunch ⊢
  rw [hbay] at hlaunch ⊢
  dsimp only at hlaunch ⊢
  rw [← hturns] at hlaunch ⊢
  obtain ⟨⟨kits, hkits⟩, hget⟩ := rackUp_foldl Kit.all (h.turns s 3)
  generalize h.turns s 3 = st at hlaunch hkits hget ⊢
  obtain ⟨suit, stores⟩ := st
  dsimp only at hlaunch hget ⊢
  generalize Kit.all.foldl rackUp (suit, stores) = racked at hlaunch hkits hget ⊢
  split at hlaunch
  · cases hlaunch
  · rename_i hdry
    rw [if_neg hdry]
    cases hlaunch
    exact ⟨rfl, ⟨kits, hkits⟩, hget⟩

theorem ammo_launch (hbay : h.bay = .docked s) (hlaunch : h.launch.2 = .ok out) (m : Fin 3) :
    out.ammo m = (reload (h.turns s m) m).1.ammo m := by
  obtain ⟨-, ⟨kits, rfl⟩, -⟩ := launch_turns hbay hlaunch
  exact ammo_turns_last h s m

theorem loads_turns (h : PilotHangar) (s : Suit) (k : ℕ) (m : Fin 3) :
    (h.turns s k).1.loads m ↔ s.loads m := by
  rw [Suit.loads, Suit.loads, mounts_turns, Suit.fullLoad_line (line_turns h s k)]

theorem turn (h : PilotHangar) (s : Suit) (m : Fin 3) :
    Reloads (h.turns s m).1 (h.turns s m).2 m (h.turns s (m + 1)) := by
  rw [turns_succ]
  exact reloads _ _ m

theorem loads_of_turn (hbay : h.bay = .docked s) (hlaunch : h.launch.2 = .ok out) (m : Fin 3) :
    (s.loads m → out.ammo m ≤ s.fullLoad m) ∧ (¬ s.loads m → out.ammo m = s.ammo m)
      ∧ (s.loads m → out.ammo m < s.fullLoad m → (h.turns s (m + 1)).2.get munitions = 0) := by
  have hammo := ammo_launch hbay hlaunch m
  have hbefore := ammo_turns h s m
  have hfull := Suit.fullLoad_line (m := m) (line_turns h s m)
  have hturn := turn h s m
  rw [← turns_succ] at hammo
  rw [← loads_turns h s m, ← hfull, ← hbefore, hammo]
  generalize h.turns s (m + 1) = r at hturn
  cases hturn with
  | idle hidle => exact ⟨fun hl => absurd hl hidle, fun _ => rfl, fun hl => absurd hl hidle⟩
  | filled hloads htake =>
    have hto : Function.update (h.turns s m).1.ammo m ((h.turns s m).1.fullLoad m) m
      = (h.turns s m).1.fullLoad m := Function.update_self ..
    exact ⟨fun _ => hto.le, fun hn => absurd hloads hn, fun _ hlt => absurd hto hlt.ne⟩
  | short hloads hshort htake =>
    have hlt := short_lt hloads.2 hshort
    have hto (n : ℕ) : Function.update (h.turns s m).1.ammo m n m = n := Function.update_self ..
    have hget := get_of_take htake
    refine ⟨fun _ => ?_, fun hn => absurd hloads hn, fun _ _ => ?_⟩
    · exact (hto _).trans_le hlt.le
    · dsimp only
      omega

theorem kgFor_missile (hw : s.weaponOn m = some .homingMissile) (n : ℕ) : s.kgFor m n = 5 * n := by
  rw [Suit.kgFor, Suit.perLoad_eq hw, Suit.fullLoad_eq hw]
  show (n * 120 + (24 - 1)) / 24 = 5 * n
  omega

theorem munitions_turns_one (h : PilotHangar) (hw : s.weaponOn 1 = some .homingMissile) :
    (h.turns s (1 : Fin 3)).2.get munitions = h.stores.get munitions := by
  have hturn := turn h s 0
  rw [← munitions_fuelled h s]
  change Reloads _ (h.fuelled s).2 0 (h.turns s (1 : Fin 3)) at hturn
  generalize h.turns s (1 : Fin 3) = r at hturn ⊢
  have hidle : ¬ (h.turns s 0).1.loads 0 := by
    rw [loads_turns]
    intro hloads
    obtain ⟨w, hw', hper, -⟩ := Suit.perLoad_pos hloads.2
    rw [Suit.perLoad_eq hw', (missile_mount hw).2 w hw'] at hper
    exact absurd hper (lt_irrefl 0)
  cases hturn with
  | idle => rfl
  | filled hloads htake => exact absurd hloads hidle
  | short hloads hshort htake => exact absurd hloads hidle

/-- Only the missiles' mount can take more than what it loads needs, and it is the first that
takes any. -/
theorem forall_exact_iff (hbay : h.bay = .docked s) (hlaunch : h.launch.2 = .ok out) :
    (∀ m : Fin 3, (h.turns s m).2.get munitions
        = (h.turns s (m + 1)).2.get munitions + s.kgFor m (out.ammo m - s.ammo m))
      ↔ MissilesEven s (h.stores.get munitions) := by
  have hturn (m : Fin 3) := turn_exact_iff (h.turns s m).1 (h.turns s m).2 m
  have hsuit (m : Fin 3) (n : ℕ) : (h.turns s m).1.kgFor m n = s.kgFor m n := by
    rw [Suit.kgFor, Suit.kgFor, Suit.perLoad_line (line_turns h s m),
      Suit.fullLoad_line (line_turns h s m)]
  have hweapon (m : Fin 3) : (h.turns s m).1.weaponOn m = s.weaponOn m := by
    rw [Suit.weaponOn, Suit.weaponOn, line_turns]
  have hafter (m : Fin 3) : (reload (h.turns s m) m).1.ammo m = out.ammo m :=
    (ammo_launch hbay hlaunch m).symm
  simp only [Prod.eta, hsuit, hweapon, loads_turns, ammo_turns, hafter,
    Suit.fullLoad_line (line_turns h s _)] at hturn
  simp only [turns_succ, hturn]
  have hmissiles (hw : s.weaponOn 1 = some .homingMissile) :
      s.kgFor 1 (s.fullLoad 1 - s.ammo 1) = 5 * (24 - s.ammo 1) := by
    rw [kgFor_missile hw, Suit.fullLoad_eq hw]
    rfl
  constructor
  · intro hall m hmount hw
    obtain ⟨rfl, -⟩ := missile_mount hw
    have hfull : 0 < s.fullLoad 1 := by
      rw [Suit.fullLoad_eq hw]
      decide
    have hfirst := hall 1 ⟨hmount, hfull⟩ hw
    rwa [hmissiles hw, munitions_turns_one h hw] at hfirst
  · intro heven m hloads hw
    obtain ⟨rfl, -⟩ := missile_mount hw
    rw [hmissiles hw, munitions_turns_one h hw]
    exact heven 1 hloads.1 hw

/-- A launch takes for each mount what the rounds it loads need exactly when no missiles are left
short with a remainder. -/
theorem launch_takes_iff (hbay : h.bay = .docked s) (hlaunch : h.launch.2 = .ok out) :
    h.LoadsWhatItTakes s out ↔ MissilesEven s (h.stores.get munitions) := by
  rw [← forall_exact_iff hbay hlaunch]
  constructor
  · exact fun htakes => htakes.exact
  · intro hexact
    refine ⟨munitions_fuelled h s, (launch_turns hbay hlaunch).2.2.symm, hexact, ?_, ?_, ?_⟩
    · exact fun m => (loads_of_turn hbay hlaunch m).1
    · exact fun m => (loads_of_turn hbay hlaunch m).2.1
    · intro k m hkm hloads hshort
      have hnone := (loads_of_turn hbay hlaunch k).2.2 hloads hshort
      have hle := munitions_turns_le h s (Nat.add_one_le_of_lt (Fin.lt_def.mp hkm))
      rw [ammo_launch hbay hlaunch, ← ammo_turns h s m]
      exact ammo_reload_le (by omega) m

/-! ### Munitions and rounds together -/

/-- A hangar's munitions, and those in its suit's rounds, kg. -/
def munitionsHeld (h : PilotHangar) : ℚ := h.stores.get munitions + h.bay.munitionsIn

/-- A launch, a homecoming with no more rounds than went out, or something put on or taken off. -/
def Unspent (h : PilotHangar) : BayOp → Prop
  | .launch | .strip _ | .dismantle | .fit _ | .recover => True
  | .cameHome home => ∃ s, h.bay = .out s ∧ ∀ m, home.ammo m ≤ s.ammo m
  | _ => False

/-- A turn takes at least what the rounds it loads are worth. -/
theorem munitions_reload (st : Suit × Stores) (m : Fin 3) :
    ((reload st m).2.get munitions : ℚ) + (reload st m).1.munitionsIn
      ≤ st.2.get munitions + st.1.munitionsIn := by
  have hturn := reloads st.1 st.2 m
  generalize reload (st.1, st.2) m = r at hturn ⊢
  cases hturn with
  | idle hidle => exact le_rfl
  | @filled st' hloads htake =>
    have hrounds := Suit.le_kgFor_mul hloads.2 (st.1.fullLoad m - st.1.ammo m)
    have hworth : st.1.fullLoad m * st.1.perLoad m ≤ st.1.ammo m * st.1.perLoad m
        + st.1.kgFor m (st.1.fullLoad m - st.1.ammo m) * st.1.fullLoad m :=
      calc st.1.fullLoad m * st.1.perLoad m
          ≤ (st.1.ammo m + (st.1.fullLoad m - st.1.ammo m)) * st.1.perLoad m :=
            Nat.mul_le_mul_right _ (by omega)
        _ = st.1.ammo m * st.1.perLoad m
            + (st.1.fullLoad m - st.1.ammo m) * st.1.perLoad m := add_mul _ _ _
        _ ≤ _ := Nat.add_le_add_left hrounds _
    have hle := Suit.munitionsIn_update_le hloads.2 hworth
    have hget := get_of_take htake
    rw [← hget]
    push_cast
    linarith
  | @short st' hloads hshort htake =>
    have hworth : (st.1.ammo m + st.2.get munitions * st.1.fullLoad m / st.1.perLoad m)
        * st.1.perLoad m ≤ st.1.ammo m * st.1.perLoad m + st.2.get munitions * st.1.fullLoad m := by
      rw [add_mul]
      exact Nat.add_le_add_left (Nat.div_mul_le_self _ _) _
    have hle := Suit.munitionsIn_update_le hloads.2 hworth
    have hnone : (st'.get munitions : ℚ) = 0 := by
      have hget := get_of_take htake
      exact Nat.cast_eq_zero.mpr (by omega)
    dsimp only
    linarith

theorem munitions_foldl (l : List (Fin 3)) (st : Suit × Stores) :
    ((l.foldl reload st).2.get munitions : ℚ) + (l.foldl reload st).1.munitionsIn
      ≤ st.2.get munitions + st.1.munitionsIn := by
  induction l generalizing st with
  | nil => exact le_rfl
  | cons m rest ih => exact (ih _).trans (munitions_reload st m)

theorem munitionsHeld_le {h h' : PilotHangar}
    (hget : h'.stores.get munitions = h.stores.get munitions)
    (hbay : h'.bay.munitionsIn ≤ h.bay.munitionsIn) : h'.munitionsHeld ≤ h.munitionsHeld := by
  rw [munitionsHeld, munitionsHeld, hget]
  exact add_le_add_right hbay _

theorem launch_refused {why : String} (hbay : h.bay = .docked s)
    (hlaunch : h.launch.2 = .error why) : h.launch.1 = h.store (h.fuelled s).2 := by
  unfold launch at hlaunch ⊢
  rw [hbay] at hlaunch ⊢
  dsimp only at hlaunch ⊢
  split at hlaunch
  · rename_i hdry
    rw [if_pos hdry]
    rfl
  · cases hlaunch

theorem munitionsHeld_launch (h : PilotHangar) : h.launch.1.munitionsHeld ≤ h.munitionsHeld := by
  cases hbay : h.bay with
  | empty => rw [launch, hbay]
  | out s => rw [launch, hbay]
  | docked s =>
    cases hlaunch : h.launch.2 with
    | error why =>
      rw [launch_refused hbay hlaunch]
      exact munitionsHeld_le (munitions_fuelled h s) le_rfl
    | ok out =>
      obtain ⟨hout, ⟨kits, rfl⟩, hget⟩ := launch_turns hbay hlaunch
      have hturns : ((h.turns s 3).2.get munitions : ℚ) + (h.turns s 3).1.munitionsIn
          ≤ (h.fuelled s).2.get munitions + (h.fuelled s).1.munitionsIn := munitions_foldl _ _
      rw [munitions_fuelled] at hturns
      rw [munitionsHeld, munitionsHeld, hget, hout, hbay]
      exact hturns

/-! ### Putting on and taking off -/

theorem munitions_ne_weapon (w : WeaponKind) : munitions ≠ .weapon w := by
  intro h
  cases h

theorem munitions_ne_module (k : ModuleKind) : munitions ≠ .module k := by
  intro h
  cases h

theorem munitions_add {item : Item} (hne : munitions ≠ item) (st : Stores) (qty : ℕ) :
    (st.add item qty).get munitions = st.get munitions := by
  rw [Stores.get_add, if_neg hne, add_zero]

theorem munitions_take {item : Item} {qty : ℕ} (hne : munitions ≠ item)
    (htake : st.take item qty = some st') : st'.get munitions = st.get munitions := by
  have hget := Stores.get_take htake munitions
  rwa [if_neg hne, add_zero] at hget

theorem munitions_takeBestPart {line : FrameId} {part : Part} {u : PartUnit}
    (htake : st.takeBestPart line part = some (u, st')) :
    st'.get munitions = st.get munitions := by
  unfold Stores.takeBestPart at htake
  obtain ⟨v, -, hv⟩ := Option.map_eq_some_iff.mp htake
  rw [← (Prod.mk.inj hv).2]
  rfl

theorem munitionsHeld_fit (h : PilotHangar) (item : Item) :
    (h.fit item).1.munitionsHeld ≤ h.munitionsHeld := by
  have hfits := h.fits item
  generalize h.fit item = r at hfits ⊢
  cases hfits with
  | refused why => exact le_rfl
  | @built line u st done hbay htake =>
    refine munitionsHeld_le (munitions_takeBestPart htake) ?_
    rw [hbay]
    have hnone : (Suit.on u).munitionsIn = 0 := by
      refine Finset.sum_eq_zero fun m _ => ?_
      rw [show (Suit.on u).ammo m = 0 from rfl, Nat.cast_zero, zero_mul, zero_div]
    exact hnone.le
  | part done hbay hfree htake =>
    refine munitionsHeld_le (munitions_takeBestPart htake) ?_
    rw [hbay]
    exact le_rfl
  | module done hbay hpart hfree hnew hfit htake =>
    refine munitionsHeld_le (munitions_take (munitions_ne_module _) htake) ?_
    rw [hbay]
    exact le_rfl
  | @weapon s w m st done hbay hslot hw hfree htake =>
    refine munitionsHeld_le (munitions_take (munitions_ne_weapon w) htake) ?_
    rw [hbay]
    refine Suit.munitionsIn_le rfl fun n => ?_
    show (if n.val = m.val then 0 else s.ammo n) ≤ s.ammo n
    split
    · exact Nat.zero_le _
    · exact le_rfl

/-- What comes off a mount gives back no more than its rounds were worth. -/
theorem munitionsHeld_unmount (h : PilotHangar) (m : Fin 3) :
    (h.unmount m).1.munitionsHeld ≤ h.munitionsHeld := by
  cases hbay : h.bay with
  | empty => rw [unmount, hbay]
  | out s => rw [unmount, hbay]
  | docked s =>
    cases hw : s.weaponOn m with
    | none => rw [unmount, hbay]; dsimp only; rw [hw]
    | some w =>
      rw [unmount_eq hbay hw]
      have hupdate := s.munitionsIn_update m 0
      have hdisarm : (s.disarm m).munitionsIn
          = Suit.munitionsIn { s with ammo := Function.update s.ammo m 0 } := rfl
      have hget : ((unloaded h.stores s m w).get munitions : ℚ)
          ≤ h.stores.get munitions + s.ammo m * s.perLoad m / s.fullLoad m := by
        rw [unloaded, munitions_add (munitions_ne_weapon w)]
        split
        · rw [Stores.get_add, if_pos rfl, ← Suit.perLoad_eq hw]
          push_cast
          refine add_le_add_right ?_ _
          exact_mod_cast Nat.cast_div_le
        · have := Nat.cast_nonneg (α := ℚ) (s.fullLoad m)
          exact le_add_of_nonneg_right (by positivity)
      rw [Nat.cast_zero, zero_mul, zero_div, add_zero, ← hdisarm] at hupdate
      rw [munitionsHeld, munitionsHeld, hbay]
      show ((unloaded h.stores s m w).get munitions : ℚ) + (s.disarm m).munitionsIn
        ≤ h.stores.get munitions + s.munitionsIn
      linarith

theorem munitionsHeld_unmountAll (l : List (Fin 3)) (h : PilotHangar) :
    (h.unmountAll l).munitionsHeld ≤ h.munitionsHeld := by
  unfold unmountAll
  induction l generalizing h with
  | nil => exact le_rfl
  | cons m rest ih => exact (ih _).trans (munitionsHeld_unmount h m)

theorem munitions_gear (gear : List ModuleKind) (st : Stores) :
    (gear.foldl (fun st kind => st.add (.module kind) 1) st).get munitions = st.get munitions := by
  induction gear generalizing st with
  | nil => rfl
  | cons kind rest ih =>
    rw [List.foldl_cons, ih, munitions_add (munitions_ne_module kind)]

theorem munitionsHeld_settleTank (h : PilotHangar) :
    h.settleTank.1.munitionsHeld ≤ h.munitionsHeld := by
  cases hbay : h.bay with
  | empty => rw [settleTank, hbay]
  | out s => rw [settleTank, hbay]
  | docked s =>
    rw [settleTank_eq hbay]
    refine munitionsHeld_le (munitions_add (grade_item_ne s.grade) _ _) ?_
    rw [hbay]
    exact le_rfl

theorem munitionsHeld_stripOff (h : PilotHangar) (slot : Slot) :
    (h.stripOff slot).1.munitionsHeld ≤ h.munitionsHeld := by
  cases hbay : h.bay with
  | empty => rw [stripOff, suit, hbay]
  | out s => rw [stripOff, suit, hbay]
  | docked s =>
    have hstrips := strips hbay slot
    generalize h.stripOff slot = r at hstrips ⊢
    cases hstrips with
    | refused why => exact le_rfl
    | torso done hfitted hmounts hmodules =>
      refine munitionsHeld_le (munitions_add (grade_item_ne s.grade) _ _) ?_
      rw [hbay]
      exact s.munitionsIn_nonneg
    | @part p c done hp hc =>
      have hdock : (h.dock (s.detach p)).munitionsHeld ≤ h.munitionsHeld := by
        refine munitionsHeld_le rfl ?_
        rw [hbay]
        exact le_rfl
      have hgear : (h.partStripped s p c).munitionsHeld
          ≤ ((h.dock (s.detach p)).unmountAll (s.detach p).loose).munitionsHeld :=
        munitionsHeld_le (munitions_gear _ _) le_rfl
      exact hgear.trans ((munitionsHeld_unmountAll _ _).trans hdock)
    | module done hk =>
      refine munitionsHeld_le (munitions_add (munitions_ne_module _) _ _) ?_
      rw [hbay]
      exact le_rfl
    | weapon done hm => exact munitionsHeld_unmount h _

theorem munitionsHeld_strip (h : PilotHangar) (slot : Slot) :
    (h.strip slot).1.munitionsHeld ≤ h.munitionsHeld := by
  have hoff := munitionsHeld_stripOff h slot
  rw [strip_fst]
  split
  · exact hoff
  · exact (munitionsHeld_settleTank _).trans hoff

theorem munitionsHeld_dismantle (h : PilotHangar) :
    h.dismantle.1.munitionsHeld ≤ h.munitionsHeld := by
  have hfold (l : List Slot) (h : PilotHangar) :
      (l.foldl (fun h slot => (h.strip slot).1) h).munitionsHeld ≤ h.munitionsHeld := by
    induction l generalizing h with
    | nil => exact le_rfl
    | cons slot rest ih => exact (ih _).trans (munitionsHeld_strip h slot)
  unfold dismantle
  split
  · exact le_rfl
  · exact (munitionsHeld_strip _ _).trans (hfold _ h)

/-! ### Home again -/

/-- What is added note by note and leaves the munitions alone leaves them alone to the end. -/
theorem munitions_notes {α : Type*}
    {f : PilotHangar × List String → α → PilotHangar × List String}
    (hf : ∀ st a, (f st a).1.stores.get munitions = st.1.stores.get munitions) (l : List α)
    (st : PilotHangar × List String) :
    (l.foldl f st).1.stores.get munitions = st.1.stores.get munitions := by
  induction l generalizing st with
  | nil => rfl
  | cons a rest ih => rw [List.foldl_cons, ih, hf]

theorem munitions_ne_ore (o : Ore) : munitions ≠ .ore o := by
  intro h
  cases h

theorem munitions_scrapMetal (h : PilotHangar) (line : FrameId) (kg : ℕ) :
    (h.scrapMetal line kg).1.stores.get munitions = h.stores.get munitions :=
  munitions_add (munitions_ne_ore _) _ _

theorem munitions_salvageHulkPart (frame : FrameId) (parts : ℕ)
    (st : PilotHangar × List String) (part : Part) :
    (salvageHulkPart frame parts st part).1.stores.get munitions = st.1.stores.get munitions := by
  unfold salvageHulkPart
  split
  · rfl
  · dsimp only
    split
    · rfl
    · exact munitions_scrapMetal _ _ _

theorem munitions_salvage (h : PilotHangar) (desc : ChunkDesc) :
    (h.salvage desc).1.stores.get munitions = h.stores.get munitions := by
  unfold salvage
  split
  · split
    · rfl
    · exact munitions_add (munitions_ne_ore _) _ _
  · dsimp only
    split
    · rfl
    · exact munitions_scrapMetal _ _ _
  · exact munitions_notes (munitions_salvageHulkPart _ _) _ _

theorem munitions_unload (cargoKg : Ore → ℕ) (st : PilotHangar × List String) (ore : Ore) :
    (unload cargoKg st ore).1.stores.get munitions = st.1.stores.get munitions := by
  unfold unload
  split
  · exact munitions_add (munitions_ne_ore _) _ _
  · rfl

theorem munitions_shelveKits (st : Stores) (kits : Kit → ℕ) :
    (shelveKits st kits).get munitions = st.get munitions := by
  have hfold (l : List Kit) (st : Stores) :
      (l.foldl (fun s kit => s.add (.kit kit) (kits kit)) st).get munitions
        = st.get munitions := by
    induction l generalizing st with
    | nil => rfl
    | cons kit rest ih => rw [List.foldl_cons, ih, munitions_add (by cases kit <;> decide)]
  exact hfold Kit.all st

theorem munitions_cameHome (h : PilotHangar) (home : Haul) :
    (h.cameHome home).1.stores.get munitions = h.stores.get munitions
      ∧ (h.cameHome home).1.bay = .docked (h.homeSuit home.toHomecoming).1 := by
  unfold cameHome
  dsimp only
  cases home.held with
  | none =>
    dsimp only
    rw [munitions_notes (munitions_unload _), bay_foldl (bay_unload _)]
    exact ⟨munitions_shelveKits _ _, rfl⟩
  | some desc =>
    dsimp only
    rw [munitions_salvage, munitions_notes (munitions_unload _), bay_salvage,
      bay_foldl (bay_unload _)]
    exact ⟨munitions_shelveKits _ _, rfl⟩

theorem ammo_cameHome_le (s : Suit) (home : Homecoming) (m : Fin 3) :
    (s.cameHome home).ammo m ≤ home.ammo m := by
  unfold Suit.cameHome
  dsimp only
  split
  · exact min_le_left _ _
  · exact Nat.zero_le _

theorem munitionsHeld_cameHome (hbay : h.bay = .out s) {home : Haul}
    (hammo : ∀ m, home.ammo m ≤ s.ammo m) :
    (h.cameHome home).1.munitionsHeld ≤ h.munitionsHeld := by
  obtain ⟨hget, hdocked⟩ := munitions_cameHome h home
  refine munitionsHeld_le hget ?_
  rw [hdocked, hbay]
  have hflown : h.flown home.frame = s := by rw [flown, hbay]
  refine Suit.munitionsIn_le ?_ fun m => (ammo_cameHome_le _ _ m).trans (hammo m)
  show (h.flown home.frame).line = s.line
  rw [hflown]

theorem munitionsHeld_recover (h : PilotHangar) : h.recover.1.munitionsHeld ≤ h.munitionsHeld := by
  cases hbay : h.bay with
  | empty => rw [recover, hbay]
  | docked s => rw [recover, hbay]
  | out s =>
    rw [recover, hbay]
    refine munitionsHeld_le (munitions_shelveKits _ _) ?_
    rw [hbay]
    exact le_rfl

/-! ### Runs -/

theorem munitionsHeld_step_le {op : BayOp} (hop : h.Unspent op) :
    (h.step op).munitionsHeld ≤ h.munitionsHeld := by
  cases op with
  | fit item => exact munitionsHeld_fit h item
  | strip slot => exact munitionsHeld_strip h slot
  | dismantle => exact munitionsHeld_dismantle h
  | launch => exact munitionsHeld_launch h
  | cameHome home =>
    obtain ⟨s, hbay, hammo⟩ := hop
    exact munitionsHeld_cameHome hbay hammo
  | recover => exact munitionsHeld_recover h
  | repair | overhaul | scrap | fuel | towed | reissue | trade => exact hop.elim

def launched (h : PilotHangar) : Option Suit :=
  match h.launch.2 with
  | .ok out => some out
  | .error _ => none

theorem launched_iff : h.launched = some out ↔ h.launch.2 = .ok out := by
  unfold launched
  cases h.launch.2 with
  | ok s => rw [Option.some.injEq, Except.ok.injEq]
  | error why => exact iff_of_false nofun nofun

def unloadedAntares : Suit := { Suit.complete .antares with ammo := fun _ => 0 }

/-- It stands in the bay, with `kg` of munitions for its pods. -/
def antaresHangar (kg : ℕ) : PilotHangar :=
  { starter with
    stores := (Stores.empty.add propellantItem 600).add munitions kg
    bay := .docked unloadedAntares }

/-- Short stores' last 2 kg are taken for no missile. -/
theorem seven_kg_for_one_missile :
    ¬ ∀ (h : PilotHangar) (s out : Suit), h.bay = .docked s → h.launch.2 = .ok out →
      h.LoadsWhatItTakes s out := by
  intro hall
  have hammo : (antaresHangar 7).launched.map (fun out => out.ammo 1) = some 1 := by
    decide +kernel
  have hbefore : ((antaresHangar 7).turns unloadedAntares 1).2.get munitions = 7 := by
    decide +kernel
  have hafter : ((antaresHangar 7).turns unloadedAntares 2).2.get munitions = 0 := by
    decide +kernel
  have hneeds : unloadedAntares.kgFor 1 (1 - unloadedAntares.ammo 1) = 5 := by decide
  obtain ⟨out, hout, hone⟩ := Option.map_eq_some_iff.mp hammo
  have hexact := (hall _ _ out rfl (launched_iff.mp hout)).exact 1
  rw [hone, hneeds] at hexact
  change ((antaresHangar 7).turns unloadedAntares 1).2.get munitions
    = ((antaresHangar 7).turns unloadedAntares 2).2.get munitions + 5 at hexact
  omega

/-- A launch takes for each mount what the rounds it loads need, no more when the stores are
short and never past a full load, exactly when no missiles are left short with a remainder of
their 5 kg; and whatever is launched, brought home unspent, put on or taken off, munitions and
loaded rounds together never grow. -/
theorem launch_takes_iff_missiles_even (h : PilotHangar) :
    (∀ s out : Suit, h.bay = .docked s → h.launch.2 = .ok out →
      (h.LoadsWhatItTakes s out ↔ MissilesEven s (h.stores.get munitions)))
    ∧ ∀ ops : List BayOp, Lib.Run.Along step Unspent h ops →
      (ops.foldl step h).munitionsHeld ≤ h.munitionsHeld := by
  constructor
  · exact fun s out => launch_takes_iff
  · intro ops hops
    exact Lib.Run.invariant (I := fun h' => h'.munitionsHeld ≤ h.munitionsHeld)
      (fun h' op hle hop => (munitionsHeld_step_le hop).trans hle) le_rfl hops

theorem launch_takes_iff_missiles_even_antares :
    (∃ out, (antaresHangar 10).launch.2 = .ok out
      ∧ (antaresHangar 10).LoadsWhatItTakes unloadedAntares out)
    ∧ ([.launch, .recover, .strip (.mount 1)].foldl step (antaresHangar 7)).munitionsHeld
      ≤ (antaresHangar 7).munitionsHeld := by
  constructor
  · have hsome : (antaresHangar 10).launched.isSome = true := by decide +kernel
    obtain ⟨out, hout⟩ := Option.isSome_iff_exists.mp hsome
    refine ⟨out, launched_iff.mp hout, ?_⟩
    have hten : (antaresHangar 10).stores.get munitions = 10 := by decide +kernel
    have hiff := (launch_takes_iff_missiles_even (antaresHangar 10)).1 _ out rfl
      (launched_iff.mp hout)
    refine hiff.mpr fun m _ _ => ?_
    rw [hten]
    exact .inr ⟨2, rfl⟩
  · exact (launch_takes_iff_missiles_even (antaresHangar 7)).2 _ ⟨trivial, trivial, trivial, trivial⟩

end PilotHangar

end BeforeColony
