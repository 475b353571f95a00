import BeforeColony.Econ.HomesSteps

/-!
# The clock of the homes

One tick charges every lease and lets go what has lapsed or been left, each home by itself
(`Homes.ticked`). Two ticks do what the later does alone but for leases long unpaid (`Tenure.Strays`).
-/

set_option autoImplicit false

namespace BeforeColony

open Lib

def City.perHour (c : City) (home : Home) (crew : ℕ) : ℕ := max (c.hourly home crew) 1

theorem City.perHour_pos (c : City) (home : Home) (crew : ℕ) : 0 < c.perHour home crew :=
  Nat.lt_of_lt_of_le Nat.zero_lt_one (le_max_right _ _)

namespace Tenure

/-- What a tick takes of the rent on a panel. -/
def paid (per now : ℕ) : Tenure → ℕ
  | lease bank chargedTo _ => min (per * ((now - chargedTo) / hourS)) bank
  | deed _ _ => 0

def dry (per bank chargedTo : ℕ) : ℕ := chargedTo + bank / per * hourS

def charged (per now : ℕ) : Tenure → Tenure
  | lease bank chargedTo unpaidSince =>
    let hours := (now - chargedTo) / hourS
    if hours = 0 then lease bank chargedTo unpaidSince
    else if bank < per * hours then
      lease 0 (chargedTo + hours * hourS) (some (unpaidSince.getD (dry per bank chargedTo)))
    else lease (bank - per * hours) (chargedTo + hours * hourS) none
  | deed paid seen => deed paid seen

/-- Whether a tick finds it has lapsed, or been left. -/
def lapses (per now : ℕ) : Tenure → Bool
  | lease bank chargedTo unpaidSince =>
    let hours := (now - chargedTo) / hourS
    hours ≠ 0 && bank < per * hours && graceS ≤ now - unpaidSince.getD (dry per bank chargedTo)
  | deed _ seen => abandonedS ≤ now - seen

def ticked (per now : ℕ) (t : Tenure) : Option Tenure :=
  if t.lapses per now then none else some (t.charged per now)

/-- Where two ticks are not the later alone. A lease once unpaid has been fed, to run dry again
between them: the later alone goes by when it was first unpaid. Or its day's grace ends between
them, with no hour due to find it. -/
def Strays (per earlier later : ℕ) : Tenure → Prop
  | lease bank chargedTo (some since) =>
    let one := (earlier - chargedTo) / hourS
    let both := (later - chargedTo) / hourS
    one ≠ 0 ∧ (per * one ≤ bank ∧ bank < per * both ∧ since ≠ dry per bank chargedTo
        ∧ ¬ (graceS ≤ later - since ∧ graceS ≤ later - dry per bank chargedTo)
      ∨ bank < per * one ∧ both = one ∧ earlier - since < graceS ∧ graceS ≤ later - since)
  | _ => False

variable {per earlier later now bank chargedTo : ℕ} {unpaidSince : Option ℕ}

theorem ticked_lease (per now bank chargedTo : ℕ) (unpaidSince : Option ℕ) :
    (lease bank chargedTo unpaidSince).ticked per now =
      if (now - chargedTo) / hourS = 0 then some (lease bank chargedTo unpaidSince)
      else if bank < per * ((now - chargedTo) / hourS) then
        if graceS ≤ now - unpaidSince.getD (dry per bank chargedTo) then none
        else some (lease 0 (chargedTo + (now - chargedTo) / hourS * hourS)
          (some (unpaidSince.getD (dry per bank chargedTo))))
      else some (lease (bank - per * ((now - chargedTo) / hourS))
        (chargedTo + (now - chargedTo) / hourS * hourS) none) := by
  simp only [ticked, lapses, charged]
  by_cases hnone : (now - chargedTo) / hourS = 0
  · simp [hnone]
  · by_cases hdry : bank < per * ((now - chargedTo) / hourS)
    · by_cases hgone : graceS ≤ now - unpaidSince.getD (dry per bank chargedTo)
      · simp [hnone, hdry, hgone]
      · simp [hnone, hdry, hgone]
    · simp [hnone, hdry]

theorem hours_later (chargedTo one later : ℕ) :
    (later - (chargedTo + one * hourS)) / hourS = (later - chargedTo) / hourS - one := by
  rw [← Nat.sub_sub, Nat.mul_comm, Nat.sub_mul_div]

theorem dry_later (hper : 0 < per) {one : ℕ} (hpaid : per * one ≤ bank) :
    dry per (bank - per * one) (chargedTo + one * hourS) = dry per bank chargedTo := by
  have hle : one ≤ bank / per := (Nat.le_div_iff_mul_le hper).mpr (by rwa [Nat.mul_comm])
  rw [dry, dry, Nat.sub_mul_div, Nat.add_assoc, ← Nat.add_mul, Nat.add_sub_cancel' hle]

theorem lapse_hour {q one : ℕ} (hone : (earlier - chargedTo) / hourS = one)
    (hboth : (later - chargedTo) / hourS = one)
    (hearlier : earlier - (chargedTo + q * hourS) < graceS) :
    ¬ graceS ≤ later - (chargedTo + q * hourS) := by
  simp only [hourS, graceS] at *
  omega

theorem ticked_ticked_paid (hper : 0 < per) (hnone : (earlier - chargedTo) / hourS ≠ 0)
    (hhours : (earlier - chargedTo) / hourS ≤ (later - chargedTo) / hourS)
    (hpaid : per * ((earlier - chargedTo) / hourS) ≤ bank) :
    ((lease bank chargedTo unpaidSince).ticked per earlier).bind (ticked per later)
        = (lease bank chargedTo unpaidSince).ticked per later
      ↔ ¬ (lease bank chargedTo unpaidSince).Strays per earlier later := by
  rw [ticked_lease per earlier, if_neg hnone, if_neg (Nat.not_lt.mpr hpaid), Option.bind_some,
    ticked_lease per later, ticked_lease per later, hours_later, dry_later hper hpaid]
  have hstrays (since : ℕ) : (lease bank chargedTo (some since)).Strays per earlier later
      ↔ bank < per * ((later - chargedTo) / hourS) ∧ since ≠ dry per bank chargedTo
        ∧ ¬ (graceS ≤ later - since ∧ graceS ≤ later - dry per bank chargedTo) := by
    simp only [Strays, hnone, not_false_eq_true, ne_eq, true_and, hpaid, Nat.not_lt.mpr hpaid,
      false_and, or_false]
  generalize dry per bank chargedTo = dry at hstrays ⊢
  generalize (earlier - chargedTo) / hourS = one at *
  obtain ⟨more, hboth⟩ := Nat.exists_eq_add_of_le hhours
  have hboth₀ : ¬ (later - chargedTo) / hourS = 0 := by omega
  rw [if_neg hboth₀]
  generalize (later - chargedTo) / hourS = both at *
  subst hboth
  rw [Nat.add_sub_cancel_left]
  have hupTo : chargedTo + one * hourS + more * hourS = chargedTo + (one + more) * hourS := by
    rw [Nat.add_assoc, Nat.add_mul]
  rw [hupTo]
  by_cases hdry : bank < per * (one + more)
  · have hmore : more ≠ 0 := by
      rintro rfl
      exact absurd hpaid (Nat.not_le.mpr hdry)
    have hless : bank - per * one < per * more := by
      rw [Nat.mul_add] at hdry
      omega
    rw [if_neg hmore, if_pos hless, if_pos hdry, Option.getD_none]
    cases unpaidSince with
    | none => exact iff_of_true rfl id
    | some since =>
      rw [hstrays, Option.getD_some]
      by_cases hsame : since = dry
      · simp [hsame]
      · by_cases hone : graceS ≤ later - dry <;> by_cases htwo : graceS ≤ later - since <;>
          simp [hone, htwo, hdry, hsame, Ne.symm hsame]
  · have hright : ¬ (lease bank chargedTo unpaidSince).Strays per earlier later := by
      cases unpaidSince with
      | none => exact id
      | some since =>
        rw [hstrays]
        exact fun hs => hdry hs.1
    refine iff_of_true ?_ hright
    rw [if_neg hdry, Nat.mul_add]
    by_cases hmore : more = 0
    · rw [if_pos hmore, hmore, Nat.mul_zero, Nat.add_zero, Nat.add_zero]
    · have hless : ¬ bank - per * one < per * more := by
        rw [Nat.mul_add] at hdry
        omega
      rw [if_neg hmore, if_neg hless, Nat.sub_sub]

theorem ticked_ticked_unpaid (htimes : earlier ≤ later) (hnone : (earlier - chargedTo) / hourS ≠ 0)
    (hhours : (earlier - chargedTo) / hourS ≤ (later - chargedTo) / hourS)
    (hunpaid : bank < per * ((earlier - chargedTo) / hourS)) :
    ((lease bank chargedTo unpaidSince).ticked per earlier).bind (ticked per later)
        = (lease bank chargedTo unpaidSince).ticked per later
      ↔ ¬ (lease bank chargedTo unpaidSince).Strays per earlier later := by
  have hstrays (since : ℕ) : (lease bank chargedTo (some since)).Strays per earlier later
      ↔ (later - chargedTo) / hourS = (earlier - chargedTo) / hourS
        ∧ earlier - since < graceS ∧ graceS ≤ later - since := by
    simp only [Strays, hnone, not_false_eq_true, ne_eq, true_and, hunpaid, Nat.not_le.mpr hunpaid,
      false_and, false_or]
  have hhour := @lapse_hour earlier later chargedTo (bank / per) _ rfl
  rw [ticked_lease per earlier, if_neg hnone, if_pos hunpaid, ticked_lease per later bank]
  have hboth₀ : ¬ (later - chargedTo) / hourS = 0 := fun hzero =>
    hnone (Nat.le_zero.mp (hzero ▸ hhours))
  have hdue : bank < per * ((later - chargedTo) / hourS) :=
    hunpaid.trans_le (Nat.mul_le_mul_left per hhours)
  rw [if_neg hboth₀, if_pos hdue]
  by_cases hgone : graceS ≤ earlier - unpaidSince.getD (dry per bank chargedTo)
  · rw [if_pos hgone, if_pos (hgone.trans (Nat.sub_le_sub_right htimes _)), Option.bind_none]
    refine iff_of_true rfl ?_
    cases unpaidSince with
    | none => exact id
    | some since =>
      rw [hstrays]
      exact fun hs => absurd hgone (Nat.not_le.mpr hs.2.1)
  · rw [if_neg hgone, Option.bind_some, ticked_lease per later 0, hours_later]
    by_cases hmore : (later - chargedTo) / hourS - (earlier - chargedTo) / hourS = 0
    · have hsame : (later - chargedTo) / hourS = (earlier - chargedTo) / hourS :=
        Nat.le_antisymm (Nat.sub_eq_zero_iff_le.mp hmore) hhours
      rw [if_pos hmore, hsame]
      cases unpaidSince with
      | none =>
        refine iff_of_true ?_ id
        rw [Option.getD_none] at hgone ⊢
        rw [dry] at hgone
        rw [dry, if_neg (hhour hsame (Nat.not_le.mp hgone))]
      | some since =>
        rw [Option.getD_some] at hgone ⊢
        rw [hstrays]
        by_cases hlater : graceS ≤ later - since
        · simp [hlater, hsame, Nat.not_le.mp hgone]
        · simp [hlater]
    · have hpos : 0 < per * ((later - chargedTo) / hourS - (earlier - chargedTo) / hourS) :=
        Nat.mul_pos (Nat.pos_of_mul_pos_right (Nat.zero_lt_of_lt hunpaid)) (Nat.pos_of_ne_zero hmore)
      have hupTo : chargedTo + (earlier - chargedTo) / hourS * hourS
          + ((later - chargedTo) / hourS - (earlier - chargedTo) / hourS) * hourS
          = chargedTo + (later - chargedTo) / hourS * hourS := by
        rw [Nat.add_assoc, ← Nat.add_mul, Nat.add_sub_cancel' hhours]
      rw [if_neg hmore, if_pos hpos, Option.getD_some, hupTo]
      refine iff_of_true rfl ?_
      cases unpaidSince with
      | none => exact id
      | some since =>
        rw [hstrays]
        exact fun hs => hmore (Nat.sub_eq_zero_of_le hs.1.le)

theorem ticked_ticked_lease (hper : 0 < per) (htimes : earlier ≤ later) :
    ((lease bank chargedTo unpaidSince).ticked per earlier).bind (ticked per later)
        = (lease bank chargedTo unpaidSince).ticked per later
      ↔ ¬ (lease bank chargedTo unpaidSince).Strays per earlier later := by
  have hhours : (earlier - chargedTo) / hourS ≤ (later - chargedTo) / hourS :=
    Nat.div_le_div_right (Nat.sub_le_sub_right htimes chargedTo)
  by_cases hnone : (earlier - chargedTo) / hourS = 0
  · rw [ticked_lease per earlier, if_pos hnone, Option.bind_some]
    refine iff_of_true rfl ?_
    cases unpaidSince with
    | none => exact id
    | some since => exact fun hstrays => hstrays.1 hnone
  · rcases Nat.lt_or_ge bank (per * ((earlier - chargedTo) / hourS)) with hunpaid | hpaid
    · exact ticked_ticked_unpaid htimes hnone hhours hunpaid
    · exact ticked_ticked_paid hper hnone hhours hpaid

theorem ticked_ticked (hper : 0 < per) (htimes : earlier ≤ later) (t : Tenure) :
    (t.ticked per earlier).bind (ticked per later) = t.ticked per later
      ↔ ¬ t.Strays per earlier later := by
  cases t with
  | deed paid seen =>
    refine iff_of_true ?_ id
    have hleft (now : ℕ) : (deed paid seen).ticked per now
        = if abandonedS ≤ now - seen then none else some (deed paid seen) := by
      simp [ticked, lapses, charged]
    rw [hleft earlier]
    by_cases hgone : abandonedS ≤ earlier - seen
    · rw [if_pos hgone, hleft later, if_pos (hgone.trans (Nat.sub_le_sub_right htimes seen))]
      rfl
    · rw [if_neg hgone]
      rfl
  | lease bank chargedTo unpaidSince =>
    exact ticked_ticked_lease hper htimes

theorem paid_ticked (htimes : earlier ≤ later) (t : Tenure) :
    t.paid per earlier + (t.ticked per earlier).elim 0 (paid per later) = t.paid per later := by
  cases t with
  | deed paid seen =>
    rw [ticked]
    split <;> rfl
  | lease bank chargedTo unpaidSince =>
    have hhours : (earlier - chargedTo) / hourS ≤ (later - chargedTo) / hourS :=
      Nat.div_le_div_right (Nat.sub_le_sub_right htimes chargedTo)
    rw [ticked_lease]
    by_cases hnone : (earlier - chargedTo) / hourS = 0
    · rw [if_pos hnone, Option.elim_some, paid, paid, hnone, Nat.mul_zero, Nat.zero_min,
        Nat.zero_add]
    · rw [if_neg hnone]
      have hdue : per * ((earlier - chargedTo) / hourS) ≤ per * ((later - chargedTo) / hourS) :=
        Nat.mul_le_mul_left per hhours
      by_cases hunpaid : bank < per * ((earlier - chargedTo) / hourS)
      · rw [if_pos hunpaid]
        simp only [paid, min_eq_right hunpaid.le, min_eq_right (hunpaid.le.trans hdue)]
        split
        · rfl
        · rw [Option.elim_some, paid, Nat.min_zero, Nat.add_zero]
      · rw [if_neg hunpaid, Option.elim_some, paid, paid, paid, hours_later, Nat.mul_sub]
        omega

theorem ticked_upTo {t' : Tenure} (ht : (lease bank chargedTo unpaidSince).ticked per now = some t') :
    ∃ left since, t' = lease left (chargedTo + (now - chargedTo) / hourS * hourS) since := by
  rw [ticked_lease] at ht
  split at ht
  · rename_i hnone
    cases ht
    exact ⟨_, _, by rw [hnone, Nat.zero_mul, Nat.add_zero]⟩
  · split at ht
    · split at ht
      · cases ht
      · cases ht
        exact ⟨_, _, rfl⟩
    · cases ht
      exact ⟨_, _, rfl⟩

/-- What there is on a panel, and since when it has been unpaid. -/
def account : Tenure → ℕ × Option ℕ
  | lease bank _ unpaidSince => (bank, unpaidSince)
  | deed _ _ => (0, none)

/-- What two ticks leave on a panel tells whether they leave what the later alone would. -/
theorem ticked_ticked_account (htimes : earlier ≤ later) (t : Tenure) :
    ((t.ticked per earlier).bind (ticked per later)).map account = (t.ticked per later).map account
      ↔ (t.ticked per earlier).bind (ticked per later) = t.ticked per later := by
  refine ⟨fun hsame => ?_, fun hsame => by rw [hsame]⟩
  cases htwo : (t.ticked per earlier).bind (ticked per later) with
  | none =>
    rw [htwo, Option.map_none, eq_comm, Option.map_eq_none_iff] at hsame
    exact hsame.symm
  | some t₂ =>
    rw [htwo, Option.map_some, eq_comm, Option.map_eq_some_iff] at hsame
    obtain ⟨t', hone, haccount⟩ := hsame
    rw [hone]
    obtain ⟨t₁, hfirst, hsecond⟩ := Option.bind_eq_some_iff.mp htwo
    cases t with
    | deed paid seen =>
      have hdeed {now : ℕ} {t' : Tenure} (ht : (deed paid seen).ticked per now = some t') :
          t' = deed paid seen := by
        rw [ticked] at ht
        split at ht
        · cases ht
        · exact (Option.some.inj ht).symm
      rw [hdeed hfirst] at hsecond
      rw [hdeed hsecond, hdeed hone]
    | lease bank chargedTo unpaidSince =>
      obtain ⟨left, since, rfl⟩ := ticked_upTo hfirst
      obtain ⟨left₂, since₂, rfl⟩ := ticked_upTo hsecond
      obtain ⟨left', since', rfl⟩ := ticked_upTo hone
      have hhours : (earlier - chargedTo) / hourS ≤ (later - chargedTo) / hourS :=
        Nat.div_le_div_right (Nat.sub_le_sub_right htimes chargedTo)
      cases haccount
      rw [hours_later, Nat.add_assoc, ← Nat.add_mul, Nat.add_sub_cancel' hhours]

end Tenure

namespace Homes

/-- A home after a tick, if it hasn't gone. -/
def tickHeld (c : City) (now id : ℕ) (h : Held) : Option Held :=
  (c.home id).elim (some h) fun home =>
    (h.tenure.ticked (c.perHour home h.lock.crew.length) now).map fun tenure => { h with tenure }

def tickPaid (c : City) (now id : ℕ) (h : Held) : ℕ :=
  (c.home id).elim 0 fun home => h.tenure.paid (c.perHour home h.lock.crew.length) now

def chargedHeld (c : City) (now id : ℕ) (h : Held) : Held :=
  (c.home id).elim h fun home =>
    { h with tenure := h.tenure.charged (c.perHour home h.lock.crew.length) now }

def lapsesHeld (c : City) (now id : ℕ) (h : Held) : Bool :=
  (c.home id).elim false fun home => h.tenure.lapses (c.perHour home h.lock.crew.length) now

theorem tickHeld_eq (c : City) (now id : ℕ) (h : Held) :
    tickHeld c now id h
      = if lapsesHeld c now id h then none else some (chargedHeld c now id h) := by
  unfold tickHeld lapsesHeld chargedHeld
  cases c.home id with
  | none => rfl
  | some home =>
    rw [Option.elim_some, Option.elim_some, Option.elim_some, Tenure.ticked]
    cases h.tenure.lapses (c.perHour home h.lock.crew.length) now <;> rfl

structure Charges (c : City) (now id : ℕ) (h : Held) (t t' : Charged) : Prop where
  held : ∀ k, t'.reg.held.get? k = if k = id then some (chargedHeld c now id h)
    else t.reg.held.get? k
  rentTaken : t'.reg.rentTaken = t.reg.rentTaken + tickPaid c now id h
  gone : ∀ k, k ∈ t'.gone.map Prod.fst ↔ k ∈ t.gone.map Prod.fst ∨ k = id ∧ lapsesHeld c now id h

theorem get?_same {r : Homes} {id : ℕ} {h : Held} (hget : r.held.get? id = some h) (k : ℕ) :
    r.held.get? k = if k = id then some h else r.held.get? k := by
  split
  · rename_i hk
    rw [hk, hget]
  · rfl

theorem charges (c : City) (now id : ℕ) {h : Held} {t t' : Charged}
    (hget : t.reg.held.get? id = some h) (ht : charge c now t id = some t') :
    Charges c now id h t t' := by
  unfold charge at ht
  rw [hget] at ht
  cases hhome : c.home id with
  | none =>
    rw [hhome] at ht
    cases ht
    refine ⟨?_, ?_, ?_⟩
    · rw [chargedHeld, hhome]
      exact get?_same hget
    · rw [tickPaid, hhome]
      rfl
    · simp [lapsesHeld, hhome]
  | some home =>
    rw [hhome] at ht
    have hheld : chargedHeld c now id h
        = { h with tenure := h.tenure.charged (c.perHour home h.lock.crew.length) now } := by
      rw [chargedHeld, hhome, Option.elim_some]
    have hpaid : tickPaid c now id h = h.tenure.paid (c.perHour home h.lock.crew.length) now := by
      rw [tickPaid, hhome, Option.elim_some]
    have hlapses : lapsesHeld c now id h
        = h.tenure.lapses (c.perHour home h.lock.crew.length) now := by
      rw [lapsesHeld, hhome, Option.elim_some]
    have hper : max (c.hourly home h.lock.crew.length) 1 = c.perHour home h.lock.crew.length := rfl
    dsimp only at ht
    rw [hper] at ht
    generalize c.perHour home h.lock.crew.length = per at ht hheld hpaid hlapses
    cases htenure : h.tenure with
    | deed paid seen =>
      rw [htenure] at ht hheld hpaid hlapses
      cases ht
      refine ⟨?_, hpaid ▸ rfl, ?_⟩
      · rw [hheld, Tenure.charged, ← htenure]
        exact get?_same hget
      · intro k
        rw [hlapses]
        by_cases hleft : abandonedS ≤ now - seen <;> simp [Tenure.lapses, hleft]
    | lease bank chargedTo unpaidSince =>
      rw [htenure] at ht hheld hpaid hlapses
      dsimp only at ht
      simp only [Tenure.charged, Tenure.paid, Tenure.lapses] at hheld hpaid hlapses
      generalize (now - chargedTo) / hourS = hours at ht hheld hpaid hlapses
      by_cases hnone : hours = 0
      · rw [if_pos hnone] at ht
        cases ht
        refine ⟨?_, ?_, ?_⟩
        · rw [hheld, if_pos hnone, ← htenure]
          exact get?_same hget
        · rw [hpaid, hnone, Nat.mul_zero, Nat.zero_min]
          rfl
        · simp [hlapses, hnone]
      · rw [if_neg hnone, checkedSub_of_le (min_le_right _ _)] at ht
        cases ht
        rw [if_neg hnone] at hheld
        refine ⟨?_, hpaid ▸ rfl, ?_⟩
        · intro k
          refine (get?_setHeld ..).trans ?_
          rw [hheld]
          by_cases hdry : bank < per * hours
          · simp only [min_eq_right hdry.le, hdry, decide_true, if_true, Nat.sub_self, Tenure.dry]
          · simp only [min_eq_left (Nat.not_lt.mp hdry), hdry, lt_irrefl, decide_false,
              Bool.false_eq_true, if_false]
        · intro k
          rw [hlapses]
          by_cases hdry : bank < per * hours
          · have hdryAt : Tenure.dry per bank chargedTo = chargedTo + bank / per * hourS := rfl
            rw [hdryAt]
            simp only [min_eq_right hdry.le, hdry, decide_true, true_and]
            by_cases hgone : graceS ≤ now - unpaidSince.getD (chargedTo + bank / per * hourS)
            · simp [hgone, hnone]
            · simp [hgone]
          · simp [min_eq_left (Nat.not_lt.mp hdry), hdry]

structure ChargesAll (c : City) (now : ℕ) (ids : List ℕ) (t t' : Charged) : Prop where
  held : ∀ k, t'.reg.held.get? k
    = if k ∈ ids then (t.reg.held.get? k).map (chargedHeld c now k) else t.reg.held.get? k
  rentTaken : t'.reg.rentTaken
    = t.reg.rentTaken + (ids.map (Table.at? (tickPaid c now) t.reg.held)).sum
  gone : ∀ k, k ∈ t'.gone.map Prod.fst ↔ k ∈ t.gone.map Prod.fst
    ∨ k ∈ ids ∧ ∃ h, t.reg.held.get? k = some h ∧ lapsesHeld c now k h

theorem chargesAll (c : City) (now : ℕ) {ids : List ℕ} (hids : ids.Nodup) {t t' : Charged}
    (hheld : ∀ id ∈ ids, (t.reg.held.get? id).isSome)
    (ht : ids.foldlM (charge c now) t = some t') : ChargesAll c now ids t t' := by
  induction ids generalizing t with
  | nil =>
    cases ht
    exact ⟨fun k => (if_neg List.not_mem_nil).symm, rfl, fun k => by simp⟩
  | cons id rest ih =>
    obtain ⟨hnot, hrest⟩ := List.nodup_cons.mp hids
    rw [List.foldlM_cons] at ht
    obtain ⟨t₁, hone, hall⟩ := Option.bind_eq_some_iff.mp ht
    obtain ⟨h, hget⟩ := Option.isSome_iff_exists.mp (hheld id List.mem_cons_self)
    have hc := charges c now id hget hone
    have hsame {k : ℕ} (hk : k ∈ rest) : t₁.reg.held.get? k = t.reg.held.get? k := by
      rw [hc.held, if_neg]
      rintro rfl
      exact hnot hk
    have hr := ih hrest (fun k hk => by
      rw [hsame hk]
      exact hheld k (List.mem_cons_of_mem id hk)) hall
    refine ⟨?_, ?_, ?_⟩
    · intro k
      rw [hr.held]
      by_cases hk : k ∈ rest
      · rw [if_pos hk, if_pos (List.mem_cons_of_mem id hk), hsame hk]
      · rw [if_neg hk, hc.held]
        by_cases hid : k = id
        · rw [if_pos hid, if_pos (List.mem_cons.mpr (Or.inl hid)), hid, hget, Option.map_some]
        · rw [if_neg hid, if_neg (List.not_mem_cons_of_ne_of_not_mem hid hk)]
    · have hsum : rest.map (Table.at? (tickPaid c now) t₁.reg.held)
          = rest.map (Table.at? (tickPaid c now) t.reg.held) :=
        List.map_congr_left fun k hk => by rw [Table.at?, Table.at?, hsame hk]
      rw [hr.rentTaken, hc.rentTaken, hsum, List.map_cons, List.sum_cons,
        Table.at?_of_get? hget, Nat.add_assoc]
    · intro k
      rw [hr.gone, hc.gone, or_assoc]
      refine or_congr_right ?_
      constructor
      · rintro (⟨rfl, hgone⟩ | ⟨hk, h', hget', hgone⟩)
        · exact ⟨List.mem_cons_self, h, hget, hgone⟩
        · exact ⟨List.mem_cons_of_mem id hk, h', hsame hk ▸ hget', hgone⟩
      · rintro ⟨hk, h', hget', hgone⟩
        rcases List.mem_cons.mp hk with rfl | hk
        · rw [hget] at hget'
          cases hget'
          exact Or.inl ⟨rfl, hgone⟩
        · exact Or.inr ⟨hk, h', (hsame hk).symm ▸ hget', hgone⟩

theorem held_lapseAll (c : City) (gone : List (ℕ × String)) (r : Homes) (k : ℕ) :
    (gone.foldl (lapse c) r).held.get? k
      = if k ∈ gone.map Prod.fst then none else r.held.get? k := by
  induction gone generalizing r with
  | nil => rfl
  | cons g rest ih =>
    rw [List.foldl_cons, ih, held_lapse, List.map_cons]
    by_cases hrest : k ∈ rest.map Prod.fst
    · rw [if_pos hrest, if_pos (List.mem_cons_of_mem _ hrest)]
    · rw [if_neg hrest]
      by_cases hk : k = g.1
      · rw [if_pos hk, if_pos (List.mem_cons.mpr (Or.inl hk))]
      · rw [if_neg hk, if_neg (List.not_mem_cons_of_ne_of_not_mem hk hrest)]

theorem rentTaken_lapseAll (c : City) (gone : List (ℕ × String)) (r : Homes) :
    (gone.foldl (lapse c) r).rentTaken = r.rentTaken := by
  induction gone generalizing r with
  | nil => rfl
  | cons g rest ih =>
    rw [List.foldl_cons, ih, lapse]
    split <;> rfl

theorem isSome_of_mem_keys {r : Homes} {id : ℕ} (hid : id ∈ r.held.keys) :
    (r.held.get? id).isSome := by
  obtain ⟨⟨k, h⟩, hmem, rfl⟩ := List.mem_map.mp hid
  rw [Table.mem_entries_iff.mp hmem]
  rfl

/-- A tick: each home charged or gone, by itself, and what was paid of their rents taken. -/
theorem ticks {c : City} {r : Homes} {now : ℕ} {o : Homes × Bool} (ho : r.tick c now = some o) :
    o.1.held = r.held.filterMapVal (tickHeld c now)
      ∧ o.1.rentTaken = r.rentTaken + Table.total (tickPaid c now) r.held := by
  obtain ⟨t, hcharged, ho⟩ := Option.bind_eq_some_iff.mp ho
  cases ho
  have hall := chargesAll c now r.held.keys_nodup (fun id hid => isSome_of_mem_keys hid) hcharged
  constructor
  · apply Table.ext_get?
    intro k
    rw [held_lapseAll, Table.get?_filterMapVal, hall.held]
    cases hget : r.held.get? k with
    | none =>
      simp only [Option.map_none, ite_self, Option.bind_none]
    | some h =>
      have hk : k ∈ r.held.keys :=
        List.mem_map.mpr ⟨(k, h), Table.mem_entries_iff.mpr hget, rfl⟩
      have hgone : k ∈ t.gone.map Prod.fst ↔ lapsesHeld c now k h = true := by
        rw [hall.gone, hget]
        simp [hk]
      rw [if_pos hk, Option.map_some, Option.bind_some, tickHeld_eq]
      simp only [hgone]
  · rw [rentTaken_lapseAll, hall.rentTaken, Table.sum_keys]

/-! ## Two ticks -/

/-- The rent taken is the same, and in every home what its panel holds and since when it has been
unpaid; and the same homes are gone. -/
structure SameRent (r r' : Homes) : Prop where
  rentTaken : r'.rentTaken = r.rentTaken
  accounts : ∀ id, (r'.held.get? id).map (fun h => h.tenure.account)
    = (r.held.get? id).map fun h => h.tenure.account

/-- No lease strays between two ticks. -/
def NoneStrays (c : City) (r : Homes) (earlier later : ℕ) : Prop :=
  ∀ id h home, r.held.get? id = some h → c.home id = some home →
    ¬ h.tenure.Strays (c.perHour home h.lock.crew.length) earlier later

variable {earlier later : ℕ}

theorem tickPaid_twice (c : City) (htimes : earlier ≤ later) (id : ℕ) (h : Held) :
    tickPaid c earlier id h + (tickHeld c earlier id h).elim 0 (tickPaid c later id)
      = tickPaid c later id h := by
  cases hhome : c.home id with
  | none => simp [tickPaid, tickHeld, hhome]
  | some home =>
    simp only [tickPaid, tickHeld, hhome, Option.elim_some]
    have hpaid := @Tenure.paid_ticked (c.perHour home h.lock.crew.length) _ _ htimes h.tenure
    cases hticked : h.tenure.ticked (c.perHour home h.lock.crew.length) earlier with
    | none =>
      rw [hticked] at hpaid
      exact hpaid
    | some tenure =>
      rw [hticked] at hpaid
      rw [Option.map_some, Option.elim_some, tickPaid, hhome]
      exact hpaid

theorem account_twice (c : City) (htimes : earlier ≤ later) (id : ℕ) (h : Held) :
    ((tickHeld c earlier id h).bind (tickHeld c later id)).map (fun h => h.tenure.account)
        = (tickHeld c later id h).map (fun h => h.tenure.account)
      ↔ ∀ home, c.home id = some home →
        ¬ h.tenure.Strays (c.perHour home h.lock.crew.length) earlier later := by
  cases hhome : c.home id with
  | none => exact iff_of_true (by simp [tickHeld, hhome]) nofun
  | some home =>
    simp only [tickHeld, hhome, Option.elim_some, Option.some.injEq, forall_eq']
    rw [← Tenure.ticked_ticked (c.perHour_pos home _) htimes h.tenure,
      ← Tenure.ticked_ticked_account htimes h.tenure, Option.map_map]
    cases h.tenure.ticked (c.perHour home h.lock.crew.length) earlier with
    | none => exact Iff.rfl
    | some tenure =>
      rw [Option.map_some, Option.bind_some, Option.bind_some, tickHeld, hhome, Option.elim_some,
        Option.map_map]
      exact Iff.rfl

theorem tick_tick_iff (c : City) (r : Homes) (htimes : earlier ≤ later) :
    ∃ r₁ r₂ r₃, (r.tick c earlier).map Prod.fst = some r₁ ∧ (r₁.tick c later).map Prod.fst = some r₂
      ∧ (r.tick c later).map Prod.fst = some r₃
      ∧ (SameRent r₃ r₂ ↔ NoneStrays c r earlier later) := by
  obtain ⟨r₁, b₁, hone, -⟩ := even_tick c r earlier
  obtain ⟨r₂, b₂, htwo, -⟩ := even_tick c r₁ later
  obtain ⟨r₃, b₃, hlater, -⟩ := even_tick c r later
  obtain ⟨hheld₁, hrent₁⟩ := ticks hone
  obtain ⟨hheld₂, hrent₂⟩ := ticks htwo
  obtain ⟨hheld₃, hrent₃⟩ := ticks hlater
  dsimp only at hheld₁ hrent₁ hheld₂ hrent₂ hheld₃ hrent₃
  refine ⟨r₁, r₂, r₃, by rw [hone]; rfl, by rw [htwo]; rfl, by rw [hlater]; rfl, ?_⟩
  have hrent : r₂.rentTaken = r₃.rentTaken := by
    rw [hrent₂, hrent₁, hrent₃, hheld₁, Table.total_filterMapVal, Nat.add_assoc,
      ← Table.total_add]
    exact congrArg _ (Table.total_congr fun id h _ => tickPaid_twice c htimes id h)
  constructor
  · intro hsame id h home hget hhome
    have haccount := hsame.accounts id
    rw [hheld₂, hheld₁, hheld₃, Table.get?_filterMapVal, Table.get?_filterMapVal,
      Table.get?_filterMapVal, hget, Option.bind_some, Option.bind_some] at haccount
    exact (account_twice c htimes id h).mp haccount home hhome
  · intro hnone
    refine ⟨hrent, fun id => ?_⟩
    rw [hheld₂, hheld₁, hheld₃, Table.get?_filterMapVal, Table.get?_filterMapVal,
      Table.get?_filterMapVal]
    cases hget : r.held.get? id with
    | none => rfl
    | some h => exact (account_twice c htimes id h).mpr fun home hhome => hnone id h home hget hhome

/-- A flat's rent paid for a hundred hours, an hour unpaid, and then one more hour's paid in. -/
def fedLate : Homes :=
  let hangars := Table.empty.insert "0xa" { Hangar.empty with credits := 10000 }
  (Tenancy.run Tenancy.oneFlat ⟨hangars, Homes.new⟩
    [.serve "0xa" "ADA" 0 (.rent 0 1), .tick (101 * hourS),
      .serve "0xa" "ADA" (101 * hourS) (.feed 0 1)]).elim Homes.new Tenancy.reg

theorem tick_tick_fedLate :
    ∃ r₁ r₂ r₃, (fedLate.tick Tenancy.oneFlat (102 * hourS)).map Prod.fst = some r₁
      ∧ (r₁.tick Tenancy.oneFlat (125 * hourS)).map Prod.fst = some r₂
      ∧ (fedLate.tick Tenancy.oneFlat (125 * hourS)).map Prod.fst = some r₃
      ∧ (SameRent r₃ r₂ ↔ NoneStrays Tenancy.oneFlat fedLate (102 * hourS) (125 * hourS)) :=
  tick_tick_iff Tenancy.oneFlat fedLate (by decide)

/-- Charged by the hour it is 23 hours unpaid a day later; charged once it has lapsed. -/
theorem fed_lease_lapses :
    ¬ ∀ (c : City) (r r₁ r₂ r₃ : Homes) (earlier later : ℕ), earlier ≤ later →
      (r.tick c earlier).map Prod.fst = some r₁ → (r₁.tick c later).map Prod.fst = some r₂ →
      (r.tick c later).map Prod.fst = some r₃ → SameRent r₃ r₂ := by
  intro hclaim
  have htwice : (((fedLate.tick Tenancy.oneFlat (102 * hourS)).map Prod.fst).bind fun r =>
      ((r.tick Tenancy.oneFlat (125 * hourS)).map Prod.fst).map fun r =>
        (r.held.get? 0).map fun h => h.tenure.account)
      = some (some (0, some (102 * hourS))) := by decide +kernel
  have honce : ((fedLate.tick Tenancy.oneFlat (125 * hourS)).map Prod.fst).map (fun r =>
      (r.held.get? 0).map fun h => h.tenure.account) = some none := by decide +kernel
  obtain ⟨r₁, hone, htwice⟩ := Option.bind_eq_some_iff.mp htwice
  obtain ⟨r₂, htwo, htwice⟩ := Option.map_eq_some_iff.mp htwice
  obtain ⟨r₃, hlater, honce⟩ := Option.map_eq_some_iff.mp honce
  have hsame := hclaim _ fedLate r₁ r₂ r₃ _ _ (by decide) hone htwo hlater
  have haccount := hsame.accounts 0
  rw [htwice, honce] at haccount
  cases haccount

end Homes

end BeforeColony
