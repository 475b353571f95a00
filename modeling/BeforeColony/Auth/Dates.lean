import BeforeColony.Auth.Texts

/-!
# Dates in texts

The era arithmetic gives the Gregorian date of every day from the epoch, and the time it is written
with grows, byte by byte, with the seconds.
-/

set_option autoImplicit false

namespace BeforeColony

open Lib

/-! ## The date of a day -/

def eraDays (doe : ℕ) : ℕ := doe - doe / 1460 + doe / 36524 - doe / 146096

theorem eraDays_succ {n : ℕ} (h : n < 146096) : eraDays n ≤ eraDays (n + 1) := by
  unfold eraDays
  omega

theorem eraDays_mono {m n : ℕ} (h : m ≤ n) (hn : n < 146097) : eraDays m ≤ eraDays n := by
  induction n, h using Nat.le_induction with
  | base => exact Nat.le_refl _
  | succ n _ ih => exact (ih (by omega)).trans (eraDays_succ (by omega))

theorem eraDays_ends : ∀ yoe < 400, 365 * yoe ≤ eraDays (365 * yoe + yoe / 4 - yoe / 100) ∧
    eraDays (Date.marchDays (yoe + 1) - 1) < 365 * (yoe + 1) := by
  decide +kernel

theorem yoe_eq {yoe doy : ℕ} (hyoe : yoe < 400)
    (hdoy : doy < 365 + (Date.isLeap (yoe + 1)).toNat) :
    eraDays (365 * yoe + yoe / 4 - yoe / 100 + doy) / 365 = yoe := by
  obtain ⟨hfirst, hlast⟩ := eraDays_ends yoe hyoe
  have hend : Date.marchDays (yoe + 1) ≤ 146097 := by
    have := Date.marchDays_mono (show yoe + 1 ≤ 400 by omega)
    exact this.trans (by decide)
  have hsucc := Date.marchDays_succ yoe
  have hyear : Date.marchDays yoe = 365 * yoe + yoe / 4 - yoe / 100 := by
    rw [Date.marchDays]
    omega
  have hle : 365 * yoe + yoe / 4 - yoe / 100 + doy ≤ Date.marchDays (yoe + 1) - 1 := by omega
  have hlow := eraDays_mono (Nat.le_add_right (365 * yoe + yoe / 4 - yoe / 100) doy) (by omega)
  have hhigh := eraDays_mono hle (by omega)
  omega

theorem isLeap_era (era yoe : ℕ) : Date.isLeap (400 * era + yoe) = Date.isLeap yoe := by
  have h4 : (400 * era + yoe) % 4 = yoe % 4 := by omega
  have h100 : (400 * era + yoe) % 100 = yoe % 100 := by omega
  have h400 : (400 * era + yoe) % 400 = yoe % 400 := by omega
  rw [Date.isLeap, Date.isLeap, h4, h100, h400]

theorem marchDays_era {era yoe : ℕ} (hyoe : yoe < 400) :
    Date.marchDays (400 * era + yoe) = 146097 * era + (365 * yoe + yoe / 4 - yoe / 100) := by
  have h4 : (400 * era + yoe) / 4 = 100 * era + yoe / 4 := by omega
  have h100 : (400 * era + yoe) / 100 = 4 * era + yoe / 100 := by omega
  have h400 : (400 * era + yoe) / 400 = era := by omega
  rw [Date.marchDays, h4, h100, h400]
  omega

theorem civilFromDays_of_inMarch {n era yoe doy : ℕ} (hyoe : yoe < 400)
    (h : Date.InMarch (n + 719468) (400 * era + yoe) doy) :
    civilFromDays n = Date.ofMarch (400 * era + yoe) doy := by
  obtain ⟨hz, hdoy⟩ := h
  rw [marchDays_era hyoe] at hz
  rw [Nat.add_assoc, isLeap_era] at hdoy
  have hbound : 365 * yoe + yoe / 4 - yoe / 100 + doy < 146097 := by
    have hsucc := Date.marchDays_succ yoe
    have hend := Date.marchDays_mono (show yoe + 1 ≤ 400 by omega)
    have h400 : Date.marchDays 400 = 146097 := by decide
    have hstart : Date.marchDays yoe = 365 * yoe + yoe / 4 - yoe / 100 := by
      simpa only [Nat.mul_zero, Nat.zero_add] using @marchDays_era 0 yoe hyoe
    omega
  have hera : (n + 719468) / 146097 = era := by omega
  have hdoe : (n + 719468) % 146097 = 365 * yoe + yoe / 4 - yoe / 100 + doy := by omega
  have hyear := yoe_eq hyoe hdoy
  rw [eraDays] at hyear
  simp only [civilFromDays, hera, hdoe, hyear, Nat.add_sub_cancel_left]
  rw [Nat.add_comm yoe, Nat.mul_comm era]
  rfl

theorem civilFromDays_eq (n : ℕ) : civilFromDays n = Date.ofDays n := by
  obtain ⟨year, doy, hin, hdate⟩ := Date.exists_inMarch n
  rw [← Nat.div_add_mod year 400] at hin hdate
  rw [civilFromDays_of_inMarch (Nat.mod_lt _ (by decide)) hin, hdate]

/-! ## The text of a time -/

def digit (k : ℕ) : UInt8 := UInt8.ofNat (48 + k)

def digits (n v : ℕ) : List UInt8 := (List.range n).reverse.map fun i => digit (v / 10 ^ i % 10)

def pad2Text (v : ℕ) : List UInt8 := [digit (v / 10 % 10), digit (v % 10)]

def isoText (unixSecs : ℕ) : List UInt8 :=
  let date := civilFromDays (unixSecs / 86400)
  let rem := unixSecs % 86400
  pad2Text (date.year / 100) ++ (pad2Text (date.year % 100) ++ (ascii "-" ++ (pad2Text date.month ++
    (ascii "-" ++ (pad2Text date.day ++ (ascii "T" ++ (pad2Text (rem / 3600) ++ (ascii ":" ++
      (pad2Text (rem % 3600 / 60) ++ (ascii ":" ++ (pad2Text (rem % 60) ++ ascii "Z")))))))))))

def year10000 : ℕ := 253402300800

theorem year_lt {unixSecs : ℕ} (h : unixSecs < year10000) :
    (Date.ofDays (unixSecs / 86400)).year < 10000 := by
  have hend : Date.marchDays 9999 = 3652059 := by decide
  have hle : (Date.ofDays (unixSecs / 86400)).year ≤ 9999 := by
    apply Date.year_ofDays_lt
    rw [year10000] at h
    omega
  omega

theorem pad2Text_eq (v : ℕ) : pad2Text v = digits 2 v := by
  simp [pad2Text, digits, List.range_succ]

theorem pad2Text_year (year : ℕ) : pad2Text (year / 100) ++ pad2Text (year % 100) = digits 4 year := by
  have h3 : year / 100 / 10 % 10 = year / 10 ^ 3 % 10 := by omega
  have h1 : year % 100 / 10 % 10 = year / 10 % 10 := by omega
  have h0 : year % 100 % 10 = year % 10 := by omega
  simp [pad2Text, digits, List.range_succ, h3, h1, h0]

/-- The text is the Gregorian date and the time of day. -/
theorem isoText_eq (unixSecs : ℕ) : isoText unixSecs =
    digits 4 (Date.ofDays (unixSecs / 86400)).year ++ ascii "-" ++
      digits 2 (Date.ofDays (unixSecs / 86400)).month ++ ascii "-" ++
      digits 2 (Date.ofDays (unixSecs / 86400)).day ++ ascii "T" ++
      digits 2 (unixSecs % 86400 / 3600) ++ ascii ":" ++
      digits 2 (unixSecs % 86400 % 3600 / 60) ++ ascii ":" ++
      digits 2 (unixSecs % 86400 % 60) ++ ascii "Z" := by
  simp only [isoText, civilFromDays_eq, ← pad2Text_eq, ← pad2Text_year, List.append_assoc]

@[simp] theorem length_pad2Text (v : ℕ) : (pad2Text v).length = 2 := rfl

theorem length_isoText (unixSecs : ℕ) : (isoText unixSecs).length = 20 := by
  simp only [isoText, List.length_append, length_pad2Text]
  rfl

/-! ## Later times have greater texts -/

theorem digit_lt : ∀ m < 10, ∀ k < m, digit k < digit m := by decide

/-- A text that begins with a smaller number is smaller, and so is one that does after the same. -/
theorem pad2Text_lt {a b : ℕ} {x y : List UInt8} (hb : b < 100) (h : a < b ∨ a = b ∧ x < y) :
    pad2Text a ++ x < pad2Text b ++ y := by
  simp only [pad2Text, List.cons_append, List.nil_append, List.cons_lt_cons_iff]
  rcases h with h | ⟨rfl, h⟩
  · by_cases htens : a / 10 = b / 10
    · rw [htens]
      exact .inr ⟨rfl, .inl (digit_lt _ (Nat.mod_lt _ (by decide)) _ (by omega))⟩
    · exact .inl (digit_lt _ (Nat.mod_lt _ (by decide)) _ (by omega))
  · exact .inr ⟨rfl, .inr ⟨rfl, h⟩⟩

theorem append_lt {x y : List UInt8} (u : List UInt8) (h : x < y) : u ++ x < u ++ y := by
  induction u with
  | nil => exact h
  | cons c rest ih => exact List.cons_lt_cons_iff.mpr (.inr ⟨rfl, ih⟩)

theorem isoText_lt {s t : ℕ} (hst : s < t) (ht : t < year10000) : isoText s < isoText t := by
  have hyear := year_lt ht
  have hvalid := Date.valid_ofDays (t / 86400)
  have hmonth := hvalid.month_le
  have hday : (Date.ofDays (t / 86400)).day ≤ 31 := by
    refine hvalid.day_le.trans ?_
    unfold Date.monthLength
    split
    · split <;> decide
    · split <;> decide
  have hdate : (Date.ofDays (s / 86400)).Before (Date.ofDays (t / 86400)) ∨
      s / 86400 = t / 86400 ∧ s % 86400 < t % 86400 := by
    rcases (Nat.div_le_div_right hst.le : s / 86400 ≤ t / 86400).lt_or_eq with hlt | heq
    · exact .inl (Date.ofDays_before hlt)
    · exact .inr ⟨heq, by omega⟩
  simp only [isoText, civilFromDays_eq]
  rcases hdate with hdate | ⟨hdays, hsecs⟩
  · rcases hdate with hlt | ⟨heq, hdate⟩
    · refine pad2Text_lt (by omega) ?_
      rcases (Nat.div_le_div_right hlt.le :
        (Date.ofDays (s / 86400)).year / 100 ≤ (Date.ofDays (t / 86400)).year / 100).lt_or_eq with h | h
      · exact .inl h
      · exact .inr ⟨h, pad2Text_lt (Nat.mod_lt _ (by decide)) (.inl (by omega))⟩
    · rw [heq]
      refine append_lt _ (append_lt _ (append_lt _ ?_))
      rcases hdate with hlt | ⟨heq, hlt⟩
      · exact pad2Text_lt (by omega) (.inl hlt)
      · rw [heq]
        exact append_lt _ (append_lt _ (pad2Text_lt (by omega) (.inl hlt)))
  · rw [hdays]
    refine append_lt _ (append_lt _ (append_lt _ (append_lt _ (append_lt _ (append_lt _ (append_lt _ ?_))))))
    have hrem : t % 86400 < 86400 := Nat.mod_lt _ (by decide)
    rcases (Nat.div_le_div_right hsecs.le : s % 86400 / 3600 ≤ t % 86400 / 3600).lt_or_eq with h | h
    · exact pad2Text_lt (by omega) (.inl h)
    · refine pad2Text_lt (by omega) (.inr ⟨h, append_lt _ ?_⟩)
      rcases Nat.lt_or_ge (s % 86400 % 3600 / 60) (t % 86400 % 3600 / 60) with h' | h'
      · exact pad2Text_lt (by omega) (.inl h')
      · refine pad2Text_lt (by omega) (.inr ⟨by omega, append_lt _ ?_⟩)
        exact pad2Text_lt (by omega) (.inl (by omega))

end BeforeColony
