import Mathlib.Logic.Function.Iterate
import Mathlib.Order.Monotone.Basic
import Mathlib.Data.Nat.Basic

/-!
# The Gregorian calendar

A date goes to the next by the lengths of the months, and the date of a day is reached from the
Unix epoch one day at a time. Years counted from March, whose last day is the leap day, give the
same dates in closed form.
-/

set_option autoImplicit false

namespace Lib

@[ext] structure Date where
  year : ℕ
  month : ℕ
  day : ℕ
  deriving DecidableEq

namespace Date

def isLeap (year : ℕ) : Bool := year % 4 = 0 && (year % 100 ≠ 0 || year % 400 = 0)

def monthLength (leap : Bool) (month : ℕ) : ℕ :=
  if month = 2 then (if leap then 29 else 28)
  else if month = 4 ∨ month = 6 ∨ month = 9 ∨ month = 11 then 30 else 31

def next (d : Date) : Date :=
  if d.day < monthLength (isLeap d.year) d.month then { d with day := d.day + 1 }
  else if d.month < 12 then ⟨d.year, d.month + 1, 1⟩
  else ⟨d.year + 1, 1, 1⟩

def unixEpoch : Date := ⟨1970, 1, 1⟩

def ofDays (n : ℕ) : Date := next^[n] unixEpoch

def Before (d e : Date) : Prop :=
  d.year < e.year ∨ d.year = e.year ∧ (d.month < e.month ∨ d.month = e.month ∧ d.day < e.day)

structure Valid (d : Date) : Prop where
  month_pos : 0 < d.month
  month_le : d.month ≤ 12
  day_pos : 0 < d.day
  day_le : d.day ≤ monthLength (isLeap d.year) d.month

theorem next_in_month {d : Date} (h : d.day < monthLength (isLeap d.year) d.month) :
    d.next = ⟨d.year, d.month, d.day + 1⟩ := if_pos h

theorem next_month {d : Date} (h : ¬ d.day < monthLength (isLeap d.year) d.month)
    (hmonth : d.month < 12) : d.next = ⟨d.year, d.month + 1, 1⟩ :=
  (if_neg h).trans (if_pos hmonth)

theorem next_year {d : Date} (h : ¬ d.day < monthLength (isLeap d.year) d.month)
    (hmonth : ¬ d.month < 12) : d.next = ⟨d.year + 1, 1, 1⟩ :=
  (if_neg h).trans (if_neg hmonth)

theorem Before.trans {d e f : Date} (h : d.Before e) (h' : e.Before f) : d.Before f := by
  unfold Before at *
  omega

theorem before_next (d : Date) : d.Before d.next := by
  unfold next Before
  split
  · simp
  · split <;> simp

theorem monthLength_pos (leap : Bool) (month : ℕ) : 0 < monthLength leap month := by
  unfold monthLength
  split
  · cases leap <;> decide
  · split <;> decide

theorem Valid.next {d : Date} (h : d.Valid) : d.next.Valid := by
  unfold Date.next
  split
  · rename_i hlt
    exact ⟨h.month_pos, h.month_le, Nat.succ_pos _, hlt⟩
  · split
    · rename_i hlt
      exact ⟨Nat.succ_pos _, hlt, Nat.one_pos, monthLength_pos _ _⟩
    · exact ⟨Nat.one_pos, Nat.le_add_left 1 11, Nat.one_pos, monthLength_pos _ _⟩

theorem ofDays_succ (n : ℕ) : ofDays (n + 1) = (ofDays n).next := Function.iterate_succ_apply' _ _ _

theorem valid_ofDays (n : ℕ) : (ofDays n).Valid := by
  induction n with
  | zero => exact ⟨by decide, by decide, by decide, by decide⟩
  | succ n ih => exact ofDays_succ n ▸ ih.next

theorem ofDays_before {m n : ℕ} (h : m < n) : (ofDays m).Before (ofDays n) := by
  induction n, h using Nat.le_induction with
  | base => exact ofDays_succ m ▸ before_next _
  | succ n _ ih => exact ih.trans (ofDays_succ n ▸ before_next _)

/-! ## Years from March -/

def marchDays (year : ℕ) : ℕ := 365 * year + year / 4 - year / 100 + year / 400

def marchMonth (doy : ℕ) : ℕ := (5 * doy + 2) / 153

def monthOf (doy : ℕ) : ℕ := if marchMonth doy < 10 then marchMonth doy + 3 else marchMonth doy - 9

def dayOf (doy : ℕ) : ℕ := doy - (153 * marchMonth doy + 2) / 5 + 1

def ofMarch (year doy : ℕ) : Date :=
  ⟨year + if monthOf doy ≤ 2 then 1 else 0, monthOf doy, dayOf doy⟩

@[simp] theorem ofMarch_month (year doy : ℕ) : (ofMarch year doy).month = monthOf doy := rfl

@[simp] theorem ofMarch_day (year doy : ℕ) : (ofMarch year doy).day = dayOf doy := rfl

theorem succ_div_eq (n k : ℕ) : (n + 1) / k = n / k + if (n + 1) % k = 0 then 1 else 0 := by
  rw [Nat.succ_div]
  simp only [Nat.dvd_iff_mod_eq_zero]

theorem marchDays_succ (year : ℕ) :
    marchDays (year + 1) = marchDays year + 365 + (isLeap (year + 1)).toNat := by
  have hcenturies : year / 100 ≤ year := Nat.div_le_self _ _
  simp only [marchDays, succ_div_eq]
  generalize year / 100 = centuries at hcenturies ⊢
  generalize year / 4 = quads
  generalize year / 400 = cycles
  by_cases h4 : (year + 1) % 4 = 0
  · by_cases h100 : (year + 1) % 100 = 0
    · by_cases h400 : (year + 1) % 400 = 0
      · have hleap : isLeap (year + 1) = true := by simp [isLeap, h4, h400]
        rw [hleap, if_pos h4, if_pos h100, if_pos h400, Bool.toNat_true]
        clear h4 h100 h400
        omega
      · have hleap : isLeap (year + 1) = false := by simp [isLeap, h100, h400]
        rw [hleap, if_pos h4, if_pos h100, if_neg h400, Bool.toNat_false]
        clear h4 h100 h400
        omega
    · have hleap : isLeap (year + 1) = true := by simp [isLeap, h4, h100]
      have h400 : ¬ (year + 1) % 400 = 0 := by omega
      rw [hleap, if_pos h4, if_neg h100, if_neg h400, Bool.toNat_true]
      clear h4 h100 h400
      omega
  · have hleap : isLeap (year + 1) = false := by simp [isLeap, h4]
    have h100 : ¬ (year + 1) % 100 = 0 := by omega
    have h400 : ¬ (year + 1) % 400 = 0 := by omega
    rw [hleap, if_neg h4, if_neg h100, if_neg h400, Bool.toNat_false]
    clear h4 h100 h400
    omega

/-- Within the year the day goes on, to the next month after the last of one. -/
theorem monthOf_succ : ∀ leap : Bool, ∀ doy < 364 + leap.toNat,
    (dayOf doy < monthLength leap (monthOf doy) ∧ monthOf (doy + 1) = monthOf doy ∧
      dayOf (doy + 1) = dayOf doy + 1) ∨
    (¬ dayOf doy < monthLength leap (monthOf doy) ∧ dayOf (doy + 1) = 1 ∧
      ((2 < monthOf doy ∧ monthOf doy < 12 ∧ monthOf (doy + 1) = monthOf doy + 1) ∨
        (monthOf doy = 12 ∧ monthOf (doy + 1) = 1) ∨
          (monthOf doy = 1 ∧ monthOf (doy + 1) = 2))) := by
  decide +kernel

theorem monthOf_last : ∀ leap : Bool,
    monthOf (364 + leap.toNat) = 2 ∧ dayOf (364 + leap.toNat) = monthLength leap 2 := by
  decide +kernel

/-- February is of the year that the next March begins. -/
theorem day_lt_iff (year doy : ℕ) :
    (ofMarch year doy).day < monthLength (isLeap (ofMarch year doy).year) (ofMarch year doy).month ↔
      dayOf doy < monthLength (isLeap (year + 1)) (monthOf doy) := by
  by_cases h : monthOf doy ≤ 2
  · simp only [ofMarch, if_pos h]
  · have hlen (leap leap' : Bool) :
        monthLength leap (monthOf doy) = monthLength leap' (monthOf doy) := by
      have hne : monthOf doy ≠ 2 := by omega
      rw [monthLength, monthLength, if_neg hne, if_neg hne]
    rw [ofMarch_month, ofMarch_day, hlen (isLeap (ofMarch year doy).year) (isLeap (year + 1))]

theorem next_ofMarch {year doy : ℕ} (h : doy + 1 < 365 + (isLeap (year + 1)).toNat) :
    (ofMarch year doy).next = ofMarch year (doy + 1) := by
  have hiff := day_lt_iff year doy
  rcases monthOf_succ (isLeap (year + 1)) doy (by omega) with
    ⟨hday, hmonth, hday'⟩ | ⟨hday, hday', hmonths⟩
  · rw [next_in_month (hiff.mpr hday)]
    simp only [ofMarch, hmonth, hday']
  · have hlast := mt hiff.mp hday
    rcases hmonths with ⟨hlow, hhigh, hmonth⟩ | ⟨hdec, hmonth⟩ | ⟨hjan, hmonth⟩
    · rw [next_month hlast hhigh]
      simp only [ofMarch, hmonth, hday']
      rw [if_neg (by omega), if_neg (by omega)]
    · rw [next_year hlast (by simp [hdec])]
      simp [ofMarch, hdec, hmonth, hday']
    · rw [next_month hlast (by simp [hjan])]
      simp [ofMarch, hjan, hmonth, hday']

theorem next_ofMarch_last {year doy : ℕ} (h : doy + 1 = 365 + (isLeap (year + 1)).toNat) :
    (ofMarch year doy).next = ofMarch (year + 1) 0 := by
  obtain rfl : doy = 364 + (isLeap (year + 1)).toNat := by omega
  obtain ⟨hmonth, hday⟩ := monthOf_last (isLeap (year + 1))
  have hlast := mt (day_lt_iff year _).mp (by rw [hmonth, hday]; exact lt_irrefl _)
  rw [next_month hlast (by simp [hmonth])]
  simp only [ofMarch, hmonth]
  rfl

def InMarch (z year doy : ℕ) : Prop :=
  z = marchDays year + doy ∧ doy < 365 + (isLeap (year + 1)).toNat

theorem InMarch.succ {z year doy : ℕ} (h : InMarch z year doy) : ∃ year' doy',
    InMarch (z + 1) year' doy' ∧ ofMarch year' doy' = (ofMarch year doy).next := by
  obtain ⟨rfl, hdoy⟩ := h
  rcases Nat.lt_or_ge (doy + 1) (365 + (isLeap (year + 1)).toNat) with hlt | hge
  · exact ⟨year, doy + 1, ⟨rfl, hlt⟩, (next_ofMarch hlt).symm⟩
  · have hlast : doy + 1 = 365 + (isLeap (year + 1)).toNat := by omega
    refine ⟨year + 1, 0, ⟨?_, by omega⟩, (next_ofMarch_last hlast).symm⟩
    rw [marchDays_succ]
    omega

/-- Each day from the epoch on stands somewhere, with its date. -/
theorem exists_inMarch (n : ℕ) :
    ∃ year doy, InMarch (n + 719468) year doy ∧ ofMarch year doy = ofDays n := by
  induction n with
  | zero => exact ⟨1969, 306, ⟨by decide, by decide⟩, by decide⟩
  | succ n ih =>
    obtain ⟨year, doy, hin, hdate⟩ := ih
    obtain ⟨year', doy', hin', hdate'⟩ := hin.succ
    refine ⟨year', doy', by rwa [Nat.add_right_comm] at hin', ?_⟩
    rw [hdate', hdate, ofDays_succ]

theorem marchDays_mono {year year' : ℕ} (h : year ≤ year') : marchDays year ≤ marchDays year' := by
  induction year', h using Nat.le_induction with
  | base => exact Nat.le_refl _
  | succ year' _ ih =>
    rw [marchDays_succ]
    omega

theorem year_ofDays_lt {n year : ℕ} (h : n + 719468 < marchDays year + 306) :
    (ofDays n).year ≤ year := by
  obtain ⟨year', doy, ⟨hz, hdoy⟩, hdate⟩ := exists_inMarch n
  rw [← hdate]
  rcases Nat.lt_trichotomy year' year with hlt | rfl | hgt
  · simp only [ofMarch]
    split <;> omega
  · have hearly : ∀ doy < 306, ¬ monthOf doy ≤ 2 := by decide +kernel
    simp only [ofMarch]
    rw [if_neg (hearly doy (by omega))]
    exact Nat.le_refl _
  · have hmono := marchDays_mono hgt
    rw [marchDays_succ] at hmono
    omega

end Date

end Lib
