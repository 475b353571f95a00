import BeforeColony.Econ.HomesClock
import BeforeColony.Lib.Run

/-!
# Holding the homes

With the inside closed the clock holds the homes and charges nothing. Over a run of ticks and holds
a lease pays for open time alone; and while it is never held once unpaid, it lapses only after a
day of open time. Held while unpaid, it lapses sooner.
-/

set_option autoImplicit false

namespace BeforeColony

open Lib

/-- The clock coming by: the inside was open until now, or closed. -/
inductive Clock where
  | tick (now : ℕ)
  | hold (now : ℕ)
  deriving DecidableEq

namespace Clock

def now : Clock → ℕ
  | tick now | hold now => now

def InOrder : ℕ → List Clock → Prop
  | _, [] => True
  | t, op :: rest => t ≤ op.now ∧ InOrder op.now rest

def last (t : ℕ) (ops : List Clock) : ℕ := ops.foldl (fun _ op => op.now) t

/-- How long the inside has been open since `since`, of the time from `t` on. -/
def openSince (since : ℕ) : ℕ → List Clock → ℕ
  | _, [] => 0
  | t, .tick now :: rest => (now - max t since) + openSince since now rest
  | _, .hold now :: rest => openSince since now rest

variable {t since : ℕ} {ops : List Clock} {op : Clock}

theorem last_concat : last t (ops ++ [op]) = op.now := by
  rw [last, List.foldl_append]
  rfl

theorem inOrder_concat (h : InOrder t (ops ++ [op])) : InOrder t ops ∧ last t ops ≤ op.now := by
  induction ops generalizing t with
  | nil => exact ⟨trivial, h.1⟩
  | cons o rest ih =>
    obtain ⟨hrest, hlast⟩ := ih h.2
    exact ⟨⟨h.1, hrest⟩, hlast⟩

theorem openSince_tick (now : ℕ) :
    openSince since t (ops ++ [.tick now])
      = openSince since t ops + (now - max (last t ops) since) := by
  induction ops generalizing t with
  | nil => simp [openSince, last]
  | cons o rest ih =>
    have hlast : last t (o :: rest) = last o.now rest := rfl
    rw [hlast]
    cases o with
    | tick now' =>
      rw [List.cons_append, openSince, openSince, ih, Nat.add_assoc]
      rfl
    | hold now' =>
      rw [List.cons_append, openSince, openSince, ih]
      rfl

theorem openSince_hold (now : ℕ) :
    openSince since t (ops ++ [.hold now]) = openSince since t ops := by
  induction ops generalizing t with
  | nil => rfl
  | cons o rest ih =>
    cases o with
    | tick now' => rw [List.cons_append, openSince, openSince, ih]
    | hold now' => rw [List.cons_append, openSince, openSince, ih]

theorem openSince_le_concat : openSince since t ops ≤ openSince since t (ops ++ [op]) := by
  cases op with
  | tick now =>
    rw [openSince_tick]
    exact Nat.le_add_right _ _
  | hold now => rw [openSince_hold]

end Clock

namespace Homes

/-- The register once the clock has come by. -/
def clock (c : City) (r : Homes) : Clock → Homes
  | .tick now => ((r.tick c now).map Prod.fst).getD r
  | .hold now => (r.hold now).1

/-- The register after the clock has come by so many times. -/
def watch (c : City) (r : Homes) (ops : List Clock) : Homes := ops.foldl (clock c) r

variable {c : City} {r : Homes} {id : ℕ} {ops : List Clock}

theorem watch_concat (op : Clock) : r.watch c (ops ++ [op]) = clock c (r.watch c ops) op := by
  rw [watch, List.foldl_append]
  rfl

theorem tick_eq_clock (c : City) (r : Homes) (now : ℕ) :
    (r.tick c now).map Prod.fst = some (r.clock c (.tick now)) := by
  obtain ⟨r', changed, htick, -⟩ := even_tick c r now
  rw [clock, htick]
  rfl

theorem get?_tick (c : City) (r : Homes) (now id : ℕ) :
    (r.clock c (.tick now)).held.get? id = (r.held.get? id).bind (tickHeld c now id) := by
  obtain ⟨o, htick, hfst⟩ := Option.map_eq_some_iff.mp (tick_eq_clock c r now)
  rw [← hfst, (ticks htick).1, Table.get?_filterMapVal]

theorem get?_hold (c : City) (r : Homes) (now id : ℕ) :
    (r.clock c (.hold now)).held.get? id
      = (r.held.get? id).map fun h => { h with tenure := h.tenure.holdAt now } :=
  Table.get?_mapVal ..

/-- On the way, a tick found a panel that couldn't pay to `now`, from the hour `since` on. -/
def WentUnpaid (c : City) (r : Homes) (id : ℕ) (home : Home) (ops : List Clock) (since : ℕ) : Prop :=
  ∃ before now later h bank chargedTo, ops = before ++ .tick now :: later
    ∧ (r.watch c before).held.get? id = some h ∧ h.tenure = .lease bank chargedTo none
    ∧ bank < c.perHour home h.lock.crew.length * ((now - chargedTo) / hourS)
    ∧ since = Tenure.dry (c.perHour home h.lock.crew.length) bank chargedTo

theorem WentUnpaid.concat {home : Home} {since : ℕ} {op : Clock}
    (h : WentUnpaid c r id home ops since) : WentUnpaid c r id home (ops ++ [op]) since := by
  obtain ⟨before, now, later, h, bank, chargedTo, rfl, hrest⟩ := h
  exact ⟨before, now, later ++ [op], h, bank, chargedTo, by simp, hrest⟩

/-- The home isn't held while it's unpaid. -/
def HeldPaid (id : ℕ) (r : Homes) : Clock → Prop
  | .hold _ => ∀ h bank chargedTo since, r.held.get? id = some h →
    h.tenure ≠ .lease bank chargedTo (some since)
  | .tick _ => True

/-- What is so of a lease after the clock has come by: of the rent first on its panel it has paid
for no more than open time, and for no less than what it is charged for; and all the time since it
was charged, or went unpaid, was open. -/
structure Watched (c : City) (r : Homes) (id : ℕ) (home : Home) (per rent t : ℕ) (ops : List Clock)
    (h : Held) (bank chargedTo : ℕ) (unpaidSince : Option ℕ) : Prop where
  get : (r.watch c ops).held.get? id = some h
  tenure : h.tenure = .lease bank chargedTo unpaidSince
  crew : c.perHour home h.lock.crew.length = per
  upTo : chargedTo ≤ Clock.last t ops
  left : bank ≤ rent
  paid : (rent - bank) * hourS + per * (Clock.last t ops - chargedTo)
    ≤ per * Clock.openSince 0 t ops
  openTime : ∀ since, chargedTo ≤ since → Clock.openSince since t ops = Clock.last t ops - since
  unpaid : ∀ since, unpaidSince = some since →
    WentUnpaid c r id home ops since ∧ Clock.openSince since t ops = Clock.last t ops - since

/-- It lapsed, after a day and more of open time since it went unpaid. -/
structure Lapsed (c : City) (r : Homes) (id : ℕ) (home : Home) (t : ℕ) (ops : List Clock)
    (since : ℕ) : Prop where
  gone : (r.watch c ops).held.get? id = none
  unpaid : WentUnpaid c r id home ops since
  grace : graceS ≤ Clock.openSince since t ops

namespace Watched

variable {home : Home} {per rent t now bank chargedTo : ℕ} {unpaidSince : Option ℕ} {h : Held}

theorem hold (hw : Watched c r id home per rent t ops h bank chargedTo none)
    (hlast : Clock.last t ops ≤ now) :
    Watched c r id home per rent t (ops ++ [.hold now])
      { h with tenure := .lease bank (max chargedTo now) none } bank (max chargedTo now) none := by
  have hnow : max chargedTo now = now := max_eq_right (hw.upTo.trans hlast)
  refine ⟨?_, rfl, hw.crew, ?_, hw.left, ?_, ?_, nofun⟩
  · rw [watch_concat, get?_hold, hw.get, Option.map_some, hw.tenure]
    rfl
  · rw [Clock.last_concat, hnow]
    rfl
  · rw [Clock.last_concat, Clock.openSince_hold, hnow]
    exact (Nat.add_le_add_left (by simp [Clock.now]) _).trans hw.paid
  · intro since hsince
    rw [hnow] at hsince
    have hc := hw.upTo
    rw [Clock.last_concat, Clock.openSince_hold, hw.openTime since (by omega)]
    simp only [Clock.now]
    omega

theorem openTime_tick (hlast : Clock.last t ops ≤ now) {since : ℕ}
    (hsince : Clock.openSince since t ops = Clock.last t ops - since) :
    Clock.openSince since t (ops ++ [.tick now]) = now - since := by
  rw [Clock.openSince_tick, hsince]
  omega

theorem paid_tick (hw : Watched c r id home per rent t ops h bank chargedTo unpaidSince)
    (hlast : Clock.last t ops ≤ now) :
    (rent - bank) * hourS + per * (now - chargedTo)
      ≤ per * Clock.openSince 0 t (ops ++ [.tick now]) := by
  have hc := hw.upTo
  have hsplit : now - chargedTo = (Clock.last t ops - chargedTo) + (now - Clock.last t ops) := by
    omega
  rw [Clock.openSince_tick, Nat.max_zero, hsplit, Nat.mul_add, Nat.mul_add, ← Nat.add_assoc]
  exact Nat.add_le_add_right hw.paid _

theorem tick_same (hw : Watched c r id home per rent t ops h bank chargedTo unpaidSince)
    (hhome : c.home id = some home) (hlast : Clock.last t ops ≤ now)
    (hnone : (now - chargedTo) / hourS = 0) :
    Watched c r id home per rent t (ops ++ [.tick now]) h bank chargedTo unpaidSince := by
  refine ⟨?_, hw.tenure, hw.crew, ?_, hw.left, ?_, ?_, ?_⟩
  · rw [watch_concat, get?_tick, hw.get, Option.bind_some, tickHeld, hhome, Option.elim_some,
      hw.tenure, Tenure.ticked_lease, if_pos hnone, Option.map_some, ← hw.tenure]
  · rw [Clock.last_concat]
    exact hw.upTo.trans hlast
  · rw [Clock.last_concat]
    exact hw.paid_tick hlast
  · intro since hsince
    rw [Clock.last_concat]
    exact openTime_tick hlast (hw.openTime since hsince)
  · intro since hsince
    obtain ⟨hwent, hopen⟩ := hw.unpaid since hsince
    rw [Clock.last_concat]
    exact ⟨hwent.concat, openTime_tick hlast hopen⟩

theorem tick_charged (hw : Watched c r id home per rent t ops h bank chargedTo unpaidSince)
    (hhome : c.home id = some home) (hlast : Clock.last t ops ≤ now)
    {left : ℕ} {since : Option ℕ} (hleft : left ≤ bank)
    (hpaid : bank - left ≤ per * ((now - chargedTo) / hourS))
    (hticked : (Tenure.lease bank chargedTo unpaidSince).ticked per now
      = some (.lease left (chargedTo + (now - chargedTo) / hourS * hourS) since))
    (hsince : ∀ u, since = some u → WentUnpaid c r id home (ops ++ [.tick now]) u
      ∧ Clock.openSince u t (ops ++ [.tick now]) = now - u) :
    Watched c r id home per rent t (ops ++ [.tick now])
      { h with tenure := .lease left (chargedTo + (now - chargedTo) / hourS * hourS) since } left
      (chargedTo + (now - chargedTo) / hourS * hourS) since := by
  have hc := hw.upTo.trans hlast
  have hhours : (now - chargedTo) / hourS * hourS ≤ now - chargedTo := Nat.div_mul_le_self _ _
  refine ⟨?_, rfl, hw.crew, ?_, hleft.trans hw.left, ?_, ?_, ?_⟩
  · rw [watch_concat, get?_tick, hw.get, Option.bind_some, tickHeld, hhome, Option.elim_some,
      hw.crew, hw.tenure, hticked, Option.map_some]
  · rw [Clock.last_concat]
    simp only [Clock.now]
    omega
  · have hb := hw.left
    have hspent : rent - left = (rent - bank) + (bank - left) := by omega
    have hdue : now - chargedTo = (now - chargedTo) / hourS * hourS
        + (now - (chargedTo + (now - chargedTo) / hourS * hourS)) := by omega
    have hcharged := Nat.mul_le_mul_right hourS hpaid
    rw [Clock.last_concat]
    refine le_trans ?_ (hw.paid_tick hlast)
    rw [hspent, hdue, Nat.add_mul, Nat.mul_add, ← Nat.mul_assoc, Clock.now, ← hdue]
    omega
  · intro u hu
    rw [Clock.last_concat]
    exact openTime_tick hlast (hw.openTime u ((Nat.le_add_right _ _).trans hu))
  · rw [Clock.last_concat]
    exact hsince

theorem tick (hw : Watched c r id home per rent t ops h bank chargedTo unpaidSince)
    (hhome : c.home id = some home) (hlast : Clock.last t ops ≤ now) :
    (∃ h' bank' chargedTo' unpaidSince',
      Watched c r id home per rent t (ops ++ [.tick now]) h' bank' chargedTo' unpaidSince')
      ∨ ∃ since, Lapsed c r id home t (ops ++ [.tick now]) since := by
  have hticked := Tenure.ticked_lease per now bank chargedTo unpaidSince
  by_cases hnone : (now - chargedTo) / hourS = 0
  · exact Or.inl ⟨_, _, _, _, hw.tick_same hhome hlast hnone⟩
  · rw [if_neg hnone] at hticked
    by_cases hdry : bank < per * ((now - chargedTo) / hourS)
    · rw [if_pos hdry] at hticked
      -- It has been unpaid since it was first found so, or is found so now.
      have hwent : ∀ u, unpaidSince.getD (Tenure.dry per bank chargedTo) = u →
          WentUnpaid c r id home (ops ++ [.tick now]) u
            ∧ Clock.openSince u t (ops ++ [.tick now]) = now - u := by
        rintro u rfl
        cases unpaidSince with
        | some since =>
          obtain ⟨hwent, hopen⟩ := hw.unpaid since rfl
          exact ⟨hwent.concat, openTime_tick hlast hopen⟩
        | none =>
          refine ⟨⟨ops, now, [], h, bank, chargedTo, rfl, hw.get, hw.tenure, ?_, ?_⟩, ?_⟩
          · rw [hw.crew]
            exact hdry
          · rw [hw.crew, Option.getD_none]
          · rw [Option.getD_none]
            exact openTime_tick hlast (hw.openTime _ (Nat.le_add_right _ _))
      by_cases hgone : graceS ≤ now - unpaidSince.getD (Tenure.dry per bank chargedTo)
      · rw [if_pos hgone] at hticked
        obtain ⟨hunpaid, hopen⟩ := hwent _ rfl
        refine Or.inr ⟨_, ?_, hunpaid, hopen ▸ hgone⟩
        rw [watch_concat, get?_tick, hw.get, Option.bind_some, tickHeld, hhome, Option.elim_some,
          hw.crew, hw.tenure, hticked, Option.map_none]
      · rw [if_neg hgone] at hticked
        refine Or.inl ⟨_, _, _, _, hw.tick_charged hhome hlast (Nat.zero_le _) hdry.le hticked ?_⟩
        intro u hu
        exact hwent u (Option.some.inj hu)
    · rw [if_neg hdry] at hticked
      have hpaid : bank - (bank - per * ((now - chargedTo) / hourS))
          ≤ per * ((now - chargedTo) / hourS) := by omega
      refine Or.inl ⟨_, _, _, _, hw.tick_charged hhome hlast (Nat.sub_le _ _) hpaid hticked ?_⟩
      intro u hu
      cases hu

end Watched

/-- However often the clock comes by, a lease that is never held while unpaid has paid for open time
alone, and lapses only once it has gone a day of open time since it went unpaid. -/
theorem hold_stops_clock (c : City) (r : Homes) (id : ℕ) (home : Home) (h : Held) (rent t : ℕ)
    (ops : List Clock) (hhome : c.home id = some home) (hget : r.held.get? id = some h)
    (htenure : h.tenure = .lease rent t none) (htimes : Clock.InOrder t ops)
    (hpaid : Run.Along (clock c) (HeldPaid id) r ops) :
    (∃ h' bank chargedTo unpaidSince,
        (r.watch c ops).held.get? id = some h' ∧ h'.tenure = .lease bank chargedTo unpaidSince
          ∧ (rent - bank) * hourS
            ≤ c.perHour home h.lock.crew.length * Clock.openSince 0 t ops)
      ∨ ∃ since, Lapsed c r id home t ops since := by
  have hrun : (∃ h' bank chargedTo unpaidSince,
      Watched c r id home (c.perHour home h.lock.crew.length) rent t ops h' bank chargedTo
        unpaidSince) ∨ ∃ since, Lapsed c r id home t ops since := by
    induction ops using List.reverseRecOn with
    | nil =>
      refine Or.inl ⟨h, rent, t, none, hget, htenure, rfl, le_rfl, le_rfl, ?_, ?_, nofun⟩
      · simp [Clock.last, Clock.openSince]
      · intro since hsince
        simp only [Clock.openSince, Clock.last, List.foldl_nil]
        omega
    | append_singleton ops op ih =>
      obtain ⟨htimes, hlast⟩ := Clock.inOrder_concat htimes
      obtain ⟨hpaid, hop⟩ := (Run.along_append (clock c)).mp hpaid
      rcases ih htimes hpaid with ⟨h', bank, chargedTo, unpaidSince, hw⟩ | ⟨since, hl⟩
      · cases op with
        | tick now => exact hw.tick hhome hlast
        | hold now =>
          cases unpaidSince with
          | none => exact Or.inl ⟨_, _, _, _, hw.hold hlast⟩
          | some since => exact (hop.1 h' bank chargedTo since hw.get hw.tenure).elim
      · refine Or.inr ⟨since, ?_, hl.unpaid.concat, hl.grace.trans Clock.openSince_le_concat⟩
        rw [watch_concat]
        cases op with
        | tick now => rw [get?_tick, hl.gone, Option.bind_none]
        | hold now => rw [get?_hold, hl.gone, Option.map_none]
  rcases hrun with ⟨h', bank, chargedTo, unpaidSince, hw⟩ | hlapsed
  · exact Or.inl ⟨h', bank, chargedTo, unpaidSince, hw.get, hw.tenure,
      (Nat.le_add_right _ _).trans hw.paid⟩
  · exact Or.inr hlapsed

def spentFlat : Homes :=
  let hangars := Table.empty.insert "0xa" { Hangar.empty with credits := 10000 }
  (Tenancy.run Tenancy.oneFlat ⟨hangars, Homes.new⟩
    [.serve "0xa" "ADA" 0 (.rent 0 1), .tick (100 * hourS)]).elim Homes.new Tenancy.reg

def spentHeld : Held := newlyHeld "0xa" "ADA" (.lease 0 (100 * hourS) none) 0

theorem get?_spentFlat : spentFlat.held.get? 0 = some spentHeld := by decide +kernel

theorem hold_stops_clock_spentFlat :
    let ops : List Clock := [.hold (150 * hourS), .tick (151 * hourS)]
    (∃ h' bank chargedTo unpaidSince, (spentFlat.watch Tenancy.oneFlat ops).held.get? 0 = some h'
        ∧ h'.tenure = .lease bank chargedTo unpaidSince
        ∧ (0 - bank) * hourS ≤ Tenancy.oneFlat.perHour ⟨0, false, false⟩ spentHeld.lock.crew.length
          * Clock.openSince 0 (100 * hourS) ops)
      ∨ ∃ since, Lapsed Tenancy.oneFlat spentFlat 0 ⟨0, false, false⟩ (100 * hourS) ops since := by
  refine hold_stops_clock Tenancy.oneFlat spentFlat 0 ⟨0, false, false⟩ spentHeld 0 (100 * hourS) _
    rfl get?_spentFlat rfl ⟨by decide, by decide, trivial⟩ ⟨?_, trivial, trivial⟩
  intro h bank chargedTo since hget htenure
  rw [get?_spentFlat] at hget
  cases hget
  cases htenure

/-- Held for a day an hour after its panel ran dry, and ticked an hour after that, it has lapsed with
two hours' open time unpaid. -/
theorem held_lease_lapses :
    ¬ ∀ (c : City) (r : Homes) (id : ℕ) (home : Home) (h : Held) (rent t : ℕ) (ops : List Clock),
      c.home id = some home → r.held.get? id = some h → h.tenure = .lease rent t none →
      Clock.InOrder t ops →
      (∃ h' bank chargedTo unpaidSince,
          (r.watch c ops).held.get? id = some h' ∧ h'.tenure = .lease bank chargedTo unpaidSince
            ∧ (rent - bank) * hourS
              ≤ c.perHour home h.lock.crew.length * Clock.openSince 0 t ops)
        ∨ ∃ since, Lapsed c r id home t ops since := by
  intro hclaim
  let ops : List Clock := [.tick (101 * hourS), .hold (125 * hourS), .tick (126 * hourS)]
  have hgone : (spentFlat.watch Tenancy.oneFlat ops).held.get? 0 = none := by decide +kernel
  rcases hclaim Tenancy.oneFlat spentFlat 0 ⟨0, false, false⟩ spentHeld 0 (100 * hourS) ops rfl
    get?_spentFlat rfl ⟨by decide, by decide, by decide, trivial⟩
    with ⟨h', bank, chargedTo, unpaidSince, hget, -⟩ | ⟨since, hl⟩
  · rw [hgone] at hget
    cases hget
  · have hgrace := hl.grace
    simp only [ops, Clock.openSince, graceS, hourS] at hgrace
    omega

end Homes

end BeforeColony
