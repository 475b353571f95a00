import BeforeColony.Econ.HomesSteps

/-!
# Who a home's lock knows

Every home taken, every code set and every code entered right is written down as it's done.
Whoever a lock knows is its holder, or set the code it has now, or entered that code since.
-/

set_option autoImplicit false

namespace BeforeColony

open Lib

inductive KeyEvent where
  | taken
  | codeSet (who : Trader) (code : ℕ)
  | entered (who : Trader) (code : ℕ)
  | guestCodeSet (code : Option ℕ)
  | guestEntered (who : Trader) (code : ℕ)
  deriving DecidableEq

namespace KeyEvent

/-- The main code is another from here on. -/
def ResetsCrew : KeyEvent → Prop
  | taken | codeSet _ _ => True
  | _ => False

/-- The guest code is another from here on. -/
def ResetsGuests : KeyEvent → Prop
  | taken | codeSet _ _ | guestCodeSet _ => True
  | _ => False

end KeyEvent

/-- What has been done at the homes' locks, the oldest first. -/
abbrev KeyLog := List (ℕ × KeyEvent)

namespace KeyLog

def Since (log : KeyLog) (id : ℕ) (p resets : KeyEvent → Prop) : Prop :=
  ∃ before e later, log = before ++ (id, e) :: later ∧ p e
    ∧ ∀ e', (id, e') ∈ later → ¬ resets e'

variable {log : KeyLog} {id : ℕ} {p resets : KeyEvent → Prop}

theorem Since.append {more : KeyLog} (h : Since log id p resets)
    (hmore : ∀ e, (id, e) ∈ more → ¬ resets e) : Since (log ++ more) id p resets := by
  obtain ⟨before, e, later, rfl, hp, hlater⟩ := h
  refine ⟨before, e, later ++ more, ?_, hp, ?_⟩
  · rw [List.append_assoc, List.cons_append]
  · intro e' he'
    rcases List.mem_append.mp he' with hl | hm
    · exact hlater e' hl
    · exact hmore e' hm

theorem since_last {e : KeyEvent} (hp : p e) : Since (log ++ [(id, e)]) id p resets := by
  refine ⟨log, e, [], rfl, hp, ?_⟩
  intro e' he'
  cases he'

end KeyLog

open KeyLog

namespace Homes

/-- What a request that was done did at a lock. -/
def keyEvents (c : City) (r : Homes) (who : Trader) : HomeRequest → KeyLog
  | .rent id _ | .buy id => (c.home id).elim [] fun home => [(home.id, .taken)]
  | .setCode id false (some code) => [(id, .codeSet who code)]
  | .setCode id true code => [(id, .guestCodeSet code)]
  | .enterCode id code =>
    (r.held.get? id).elim [] fun h =>
      if h.lock.code = some code then [(id, .entered who code)]
      else if h.lock.guestCode = some code then [(id, .guestEntered who code)]
      else []
  | _ => []

/-- What a request did at a lock: nothing, if it was refused. -/
def happened (c : City) (r : Homes) (who : Trader) (req : HomeRequest) : Hangar.Done → KeyLog
  | .ok _ => keyEvents c r who req
  | .error _ => []

end Homes

namespace Tenancy

def happened (c : City) (t : Tenancy) : HomesAct → KeyLog
  | .serve who name now req =>
    (t.reg.serve c req (t.hangar who) who name now).elim [] fun o =>
      Homes.happened c t.reg who req o.2.2
  | _ => []

def keyLog (c : City) : Tenancy → List HomesAct → KeyLog
  | _, [] => []
  | t, act :: rest => t.happened c act ++ (t.step c act).elim [] fun t' => keyLog c t' rest

end Tenancy

/-- A home's lock knows its holder, and whoever else has a right to be known. -/
structure Keyed (log : KeyLog) (id : ℕ) (h : Held) : Prop where
  holder : h.holder ∈ h.lock.crew
  crew : ∀ who ∈ h.lock.crew, who ≠ h.holder → ∃ code, h.lock.code = some code
    ∧ log.Since id (fun e => e = .codeSet who code ∨ e = .entered who code) KeyEvent.ResetsCrew
  guests : ∀ who ∈ h.lock.guests, ∃ code, h.lock.guestCode = some code
    ∧ log.Since id (fun e => e = .guestEntered who code) KeyEvent.ResetsGuests
  crewCap : h.lock.crew.length ≤ crewCap
  guestCap : h.lock.guests.length ≤ guestCap

namespace Keyed

variable {log more : KeyLog} {id : ℕ} {h h' : Held}

theorem newlyHeld (log : KeyLog) (id : ℕ) (who : Trader) (name : String) (tenure : Tenure)
    (now : ℕ) : Keyed log id (Homes.newlyHeld who name tenure now) where
  holder := List.mem_singleton.mpr rfl
  crew who' hmem hne := absurd (List.mem_singleton.mp hmem) hne
  guests who' hmem := by cases hmem
  crewCap := Nat.succ_le_succ (Nat.zero_le 9)
  guestCap := Nat.zero_le 8

/-- What resets nothing here keeps what is known here. -/
theorem append (hk : Keyed log id h)
    (hmore : ∀ e, (id, e) ∈ more → ¬ e.ResetsCrew ∧ ¬ e.ResetsGuests) : Keyed (log ++ more) id h where
  holder := hk.holder
  crew who hmem hne := by
    obtain ⟨code, hcode, hsince⟩ := hk.crew who hmem hne
    exact ⟨code, hcode, hsince.append fun e he => (hmore e he).1⟩
  guests who hmem := by
    obtain ⟨code, hcode, hsince⟩ := hk.guests who hmem
    exact ⟨code, hcode, hsince.append fun e he => (hmore e he).2⟩
  crewCap := hk.crewCap
  guestCap := hk.guestCap

theorem quiet (hk : Keyed log id h) (hq : h.Quiet h') : Keyed log id h' where
  holder := by
    rw [hq.holder, hq.crew]
    exact hk.holder
  crew who hmem hne := by
    rw [hq.code]
    exact hk.crew who (hq.crew ▸ hmem) (hq.holder ▸ hne)
  guests who hmem := by
    rw [hq.guestCode]
    exact hk.guests who (hq.guests ▸ hmem)
  crewCap := hq.crew ▸ hk.crewCap
  guestCap := hq.guests ▸ hk.guestCap

theorem sublist (hk : Keyed log id h) (hholder : h'.holder = h.holder)
    (hcode : h'.lock.code = h.lock.code) (hguestCode : h'.lock.guestCode = h.lock.guestCode)
    (hmem : h.holder ∈ h'.lock.crew) (hcrew : h'.lock.crew.Sublist h.lock.crew)
    (hguests : h'.lock.guests.Sublist h.lock.guests) : Keyed log id h' where
  holder := hholder ▸ hmem
  crew who hwho hne := by
    rw [hcode]
    exact hk.crew who (hcrew.subset hwho) (hholder ▸ hne)
  guests who hwho := by
    rw [hguestCode]
    exact hk.guests who (hguests.subset hwho)
  crewCap := hcrew.length_le.trans hk.crewCap
  guestCap := hguests.length_le.trans hk.guestCap

theorem entered {who : Trader} {code : ℕ} {crew : List Trader} (hk : Keyed log id h)
    (hcode : h.lock.code = some code) (hrem : Remembers h.lock.crew who BeforeColony.crewCap crew) :
    Keyed (log ++ [(id, .entered who code)]) id
      { h with lock := { h.lock with crew, misses := 0, shutUntil := 0 } } := by
  have hold : Keyed (log ++ [(id, .entered who code)]) id h := by
    refine hk.append fun e he => ?_
    cases List.mem_singleton.mp he
    exact ⟨not_false, not_false⟩
  constructor
  · exact hrem.mem_of_mem hk.holder
  · intro who' hmem hne
    rcases hrem.mem_or_eq hmem with hmem | rfl
    · exact hold.crew who' hmem hne
    · exact ⟨code, hcode, since_last (Or.inr rfl)⟩
  · exact hold.guests
  · exact hrem.length_le hk.crewCap
  · exact hk.guestCap

theorem guestEntered {who : Trader} {code : ℕ} {guests : List Trader} (hk : Keyed log id h)
    (hcode : h.lock.guestCode = some code)
    (hrem : guests = h.lock.guests ∨ Remembers h.lock.guests who BeforeColony.guestCap guests) :
    Keyed (log ++ [(id, .guestEntered who code)]) id
      { h with lock := { h.lock with guests, misses := 0, shutUntil := 0 } } := by
  have hold : Keyed (log ++ [(id, .guestEntered who code)]) id h := by
    refine hk.append fun e he => ?_
    cases List.mem_singleton.mp he
    exact ⟨not_false, not_false⟩
  rcases hrem with rfl | hrem
  · exact ⟨hold.holder, hold.crew, hold.guests, hold.crewCap, hold.guestCap⟩
  · constructor
    · exact hold.holder
    · exact hold.crew
    · intro who' hmem
      rcases hrem.mem_or_eq hmem with hmem | rfl
      · exact hold.guests who' hmem
      · exact ⟨code, hcode, since_last rfl⟩
    · exact hk.crewCap
    · exact hrem.length_le hk.guestCap

theorem codeSet {who : Trader} {code : ℕ} (log : KeyLog) (id : ℕ) {h' : Held}
    (hcode : h'.lock.code = some code)
    (hcrew : Remembers [h'.holder] who BeforeColony.crewCap h'.lock.crew)
    (hguests : h'.lock.guests = []) : Keyed (log ++ [(id, .codeSet who code)]) id h' := by
  constructor
  · exact hcrew.mem_of_mem (List.mem_singleton.mpr rfl)
  · intro who' hmem hne
    rcases hcrew.mem_or_eq hmem with hmem | rfl
    · exact absurd (List.mem_singleton.mp hmem) hne
    · exact ⟨code, hcode, since_last (Or.inl rfl)⟩
  · intro who' hmem
    rw [hguests] at hmem
    cases hmem
  · exact hcrew.length_le (Nat.succ_le_succ (Nat.zero_le 9))
  · rw [hguests]
    exact Nat.zero_le _

theorem guestCodeSet {code : Option ℕ} (hk : Keyed log id h) :
    Keyed (log ++ [(id, .guestCodeSet code)]) id
      { h with lock := { h.lock with guestCode := code, guests := [] } } := by
  constructor
  · exact hk.holder
  · intro who' hmem hne
    obtain ⟨code', hcode, hsince⟩ := hk.crew who' hmem hne
    refine ⟨code', hcode, hsince.append fun e he => ?_⟩
    cases List.mem_singleton.mp he
    exact not_false
  · intro who' hmem
    cases hmem
  · exact hk.crewCap
  · exact Nat.zero_le _

end Keyed

namespace Homes

/-- Every lock knows only whom it should. -/
def AllKeyed (log : KeyLog) (r : Homes) : Prop :=
  ∀ id h, r.held.get? id = some h → Keyed log id h

variable {log : KeyLog} {r r' : Homes} {id : ℕ} {h' : Held}

theorem AllKeyed.insert {e : KeyEvent} (hr : AllKeyed log r)
    (hheld : r'.held = r.held.insert id h') (hk : Keyed (log ++ [(id, e)]) id h') :
    AllKeyed (log ++ [(id, e)]) r' := by
  intro k h hget
  rw [hheld, Table.get?_insert] at hget
  split at hget
  · rename_i hid
    cases hget
    exact hid ▸ hk
  · rename_i hid
    refine (hr k h hget).append fun e' he' => ?_
    -- What's done at one home resets nothing at another.
    cases List.mem_singleton.mp he'
    exact absurd rfl hid

/-- Whatever turns no key keeps the locks as they should be. -/
theorem AllKeyed.moves {act : HomesAct} (hr : AllKeyed log r) (hm : Moves act r r')
    (henter : ∀ who name now id code, act ≠ .serve who name now (.enterCode id code))
    (hset : ∀ who name now id guest code, act ≠ .serve who name now (.setCode id guest code)) :
    AllKeyed log r' := by
  intro k h' hget
  rcases hm k h' hget with ⟨h, hold, hc⟩ | ⟨-, who, name, tenure, now, rfl⟩
  · have hk := hr k h hold
    cases hc with
    | quiet hq => exact hk.quiet hq
    | entered hcode hrem => exact (henter _ _ _ _ _ rfl).elim
    | guestEntered hcode hrem => exact (henter _ _ _ _ _ rfl).elim
    | guestCodeSet => exact (hset _ _ _ _ _ _ rfl).elim
    | codeSet hcode hcrew hguests => exact (hset _ _ _ _ _ _ rfl).elim
    | crewLeft hholder =>
      refine hk.sublist rfl rfl rfl ?_ List.filter_sublist List.filter_sublist
      exact List.mem_filter.mpr ⟨hk.holder, by simpa using hholder⟩
    | crewCleared hcode hguestCode hcrew hguests =>
      refine hk.sublist rfl hcode hguestCode ?_ (hcrew ▸ List.filter_sublist)
        (hguests ▸ List.nil_sublist _)
      rw [hcrew]
      exact List.mem_filter.mpr ⟨hk.holder, by simp⟩
    | furnished hid hroom => exact ⟨hk.holder, hk.crew, hk.guests, hk.crewCap, hk.guestCap⟩
    | sold hfree => exact ⟨hk.holder, hk.crew, hk.guests, hk.crewCap, hk.guestCap⟩
    | woke => exact ⟨hk.holder, hk.crew, hk.guests, hk.crewCap, hk.guestCap⟩
    | slept hcrew hbed hkind hfree =>
      exact ⟨hk.holder, hk.crew, hk.guests, hk.crewCap, hk.guestCap⟩
  · exact Keyed.newlyHeld ..

theorem AllKeyed.fewer (hr : AllKeyed log r) (hf : Fewer r r') : AllKeyed log r' := by
  intro k h' hget
  obtain ⟨h, hold, hq⟩ := hf k h' hget
  exact (hr k h hold).quiet hq

theorem remembers_of_room {list : List Trader} {who : Trader} {cap : ℕ} (hroom : list.length < cap) :
    Remembers list who cap (remember list who cap).1 := by
  apply remembers_remember
  unfold remember
  split
  · rfl
  · rw [if_neg (Nat.not_le.mpr hroom)]

theorem keyed_enterCode (c : City) (hr : AllKeyed log r) (id : ℕ) (who : Trader) (code now : ℕ)
    (addr : String) :
    AllKeyed (log ++ happened c r who (.enterCode id code)
        (enteredText addr (r.enterCode id who code now).2)) (r.enterCode id who code now).1 := by
  have hspec := enters r id who code now
  generalize r.enterCode id who code now = o at hspec ⊢
  obtain ⟨r', entered⟩ := o
  dsimp only at hspec ⊢
  cases hspec with
  | refused why =>
    rw [enteredText, happened, List.append_nil]
    exact hr
  | shut hget hshut =>
    rw [enteredText, happened, List.append_nil]
    exact hr
  | keyed hget hopen hentry =>
    rename_i h lock
    have hk := hr id h hget
    cases hentry with
    | full why =>
      rw [enteredText, happened, List.append_nil]
      exact hr.fewer (fewer_setHeld hget (quiet_counters h _ _ _))
    | crew hcode hrem =>
      rw [enteredText, happened, keyEvents, hget, Option.elim_some, if_pos hcode]
      exact hr.insert rfl (hk.entered hcode hrem)
    | guest hnot hcode hrem =>
      rw [enteredText, happened, keyEvents, hget, Option.elim_some, if_neg hnot, if_pos hcode]
      exact hr.insert rfl (hk.guestEntered hcode (hrem.imp And.right And.right))
    | wrong hnot hguest hmisses =>
      have htext (shock : ℕ) (shut : Bool) :
          happened c r who (.enterCode id code) (enteredText addr (.ok (.wrong shock shut))) = [] := by
        cases shut <;> rfl
      rw [htext, List.append_nil]
      exact hr.fewer (fewer_setHeld hget (quiet_counters h _ _ _))

theorem keyed_setCode (c : City) (hr : AllKeyed log r) (id : ℕ) (who : Trader) (guest : Bool)
    (code : Option ℕ) :
    AllKeyed (log ++ happened c r who (.setCode id guest code) (r.setCode id who guest code).2)
      (r.setCode id who guest code).1 := by
  have hrefused (why : String) : AllKeyed (log ++ happened c r who (.setCode id guest code)
      (.error why)) r := by
    rw [happened, List.append_nil]
    exact hr
  unfold setCode
  split
  · exact hrefused _
  · split
    · exact hrefused _
    · rename_i h hcrew
      have hk := hr id h (crewOf_ok hcrew)
      cases guest with
      | true =>
        rw [if_pos rfl, happened, keyEvents]
        exact hr.insert rfl hk.guestCodeSet
      | false =>
        rw [if_neg Bool.false_ne_true]
        cases code with
        | none => exact hrefused _
        | some code =>
          rw [happened, keyEvents]
          exact hr.insert rfl (Keyed.codeSet log id rfl
            (remembers_of_room (Nat.succ_lt_succ (Nat.zero_lt_succ 8))) rfl)

theorem keyed_rent (c : City) (hr : AllKeyed log r) {id : ℕ} {home : Home}
    (hhome : c.home id = some home) (who : Trader) (name : String) (weeks : ℕ) (hangar : Hangar)
    (now : ℕ) {o : Homes × Hangar × Hangar.Done}
    (ho : r.rent c home who name weeks hangar now = some o) :
    AllKeyed (log ++ happened c r who (.rent id weeks) o.2.2) o.1 := by
  have hrefused (why : String) : AllKeyed (log ++ happened c r who (.rent id weeks) (.error why))
      r := by
    rw [happened, List.append_nil]
    exact hr
  unfold rent at ho
  split at ho
  · cases ho
    exact hrefused _
  · split at ho
    · cases ho
      exact hrefused _
    · dsimp only at ho
      split at ho
      · cases ho
        exact hrefused _
      · obtain ⟨credits, -, ho⟩ := Option.bind_eq_some_iff.mp ho
        cases ho
        rw [happened, keyEvents, hhome, Option.elim_some]
        exact hr.insert rfl (Keyed.newlyHeld ..)

theorem keyed_buy (c : City) (hr : AllKeyed log r) {id : ℕ} {home : Home}
    (hhome : c.home id = some home) (who : Trader) (name : String) (hangar : Hangar) (now : ℕ)
    {o : Homes × Hangar × Hangar.Done} (ho : r.buy c home who name hangar now = some o) :
    AllKeyed (log ++ happened c r who (.buy id) o.2.2) o.1 := by
  have hrefused (why : String) : AllKeyed (log ++ happened c r who (.buy id) (.error why)) r := by
    rw [happened, List.append_nil]
    exact hr
  unfold buy at ho
  split at ho
  · cases ho
    exact hrefused _
  · split at ho
    · cases ho
      exact hrefused _
    · dsimp only at ho
      split at ho
      · cases ho
        exact hrefused _
      · obtain ⟨credits, -, ho⟩ := Option.bind_eq_some_iff.mp ho
        cases ho
        rw [happened, keyEvents, hhome, Option.elim_some]
        exact hr.insert rfl (Keyed.newlyHeld ..)

def TurnsKey : HomeRequest → Prop
  | .rent _ _ | .buy _ | .enterCode _ _ | .setCode _ _ _ => True
  | _ => False

theorem happened_of_not_turns (c : City) (r : Homes) (who : Trader) {req : HomeRequest}
    (h : ¬ TurnsKey req) (done : Hangar.Done) : happened c r who req done = [] := by
  cases done with
  | error why => rfl
  | ok text =>
    cases req with
    | rent => exact (h trivial).elim
    | buy => exact (h trivial).elim
    | enterCode => exact (h trivial).elim
    | setCode => exact (h trivial).elim
    | _ => rfl

theorem keyed_serve (c : City) (hr : AllKeyed log r) (req : HomeRequest) (hangar : Hangar)
    (who : Trader) (name : String) (now : ℕ) {o : Homes × Hangar × Hangar.Done}
    (ho : r.serve c req hangar who name now = some o) :
    AllKeyed (log ++ happened c r who req o.2.2) o.1 := by
  have hmoves := moves_serve c req hangar r who name now ho
  by_cases hturns : TurnsKey req
  · unfold serve at ho
    split at ho
    · cases ho
      rw [happened, List.append_nil]
      exact hr
    · rename_i home hhome
      cases req with
      | rent id weeks => exact keyed_rent c hr hhome who name weeks hangar now ho
      | buy id => exact keyed_buy c hr hhome who name hangar now ho
      | enterCode id code =>
        cases ho
        exact keyed_enterCode c hr id who code now _
      | setCode id guest code =>
        cases ho
        exact keyed_setCode c hr id who guest code
      | _ => exact hturns.elim
  · rw [happened_of_not_turns c r who hturns, List.append_nil]
    refine hr.moves hmoves ?_ ?_
    · rintro who' name' now' id code ⟨⟩
      exact hturns trivial
    · rintro who' name' now' id guest code ⟨⟩
      exact hturns trivial

end Homes

namespace Tenancy

variable {log : KeyLog} {t t' : Tenancy}

theorem keyed_step (c : City) (ht : Homes.AllKeyed log t.reg) {act : HomesAct}
    (hstep : t.step c act = some t') : Homes.AllKeyed (log ++ t.happened c act) t'.reg := by
  have hother (hact : t.happened c act = [])
      (henter : ∀ who name now id code, act ≠ .serve who name now (.enterCode id code))
      (hset : ∀ who name now id guest code, act ≠ .serve who name now (.setCode id guest code)) :
      Homes.AllKeyed (log ++ t.happened c act) t'.reg := by
    obtain ⟨r, hm, hm'⟩ := moves_step c hstep
    rw [hact, List.append_nil]
    exact (ht.moves hm henter hset).moves hm' henter hset
  cases act with
  | serve who name now req =>
    obtain ⟨o, ho, hstep⟩ := Option.bind_eq_some_iff.mp hstep
    cases hstep
    rw [happened, ho, Option.elim_some]
    exact Homes.keyed_serve c ht req _ who name now ho
  | collect who => exact hother rfl nofun nofun
  | tick now => exact hother rfl nofun nofun
  | hold now => exact hother rfl nofun nofun
  | visited id who now => exact hother rfl nofun nofun
  | sleep id who name far => exact hother rfl nofun nofun
  | wake who => exact hother rfl nofun nofun

theorem keyed_run (c : City) (acts : List HomesAct) (ht : Homes.AllKeyed log t.reg)
    (hrun : t.run c acts = some t') : Homes.AllKeyed (log ++ t.keyLog c acts) t'.reg := by
  induction acts generalizing t log with
  | nil =>
    cases hrun
    rw [keyLog, List.append_nil]
    exact ht
  | cons act rest ih =>
    rw [run, List.foldlM_cons] at hrun
    obtain ⟨t₁, hstep, hrest⟩ := Option.bind_eq_some_iff.mp hrun
    rw [keyLog, hstep, Option.elim_some, ← List.append_assoc]
    exact ih (keyed_step c ht hstep) hrest

/-- Whatever is done from an empty register, each home's holder is on its crew, whoever else is set
its main code or entered it since, its guests entered its guest code since that was set, neither
list is too long, and a door shut and locked lets in the crew and the guests alone. -/
theorem crew_authorised (c : City) (hangars : Table Trader Hangar) (acts : List HomesAct) :
    ∃ t, run c ⟨hangars, Homes.new⟩ acts = some t ∧ ∀ id h, t.reg.held.get? id = some h →
      Keyed (keyLog c ⟨hangars, Homes.new⟩ acts) id h
        ∧ ∀ who, h.isOpen = false → h.lock.locked = true →
          (t.reg.mayEnter id who = true ↔ who ∈ h.lock.crew ∨ who ∈ h.lock.guests) := by
  obtain ⟨t, hrun⟩ := run_some c ⟨hangars, Homes.new⟩ acts
  refine ⟨t, hrun, fun id h hget => ⟨?_, fun who hshut hlocked => ?_⟩⟩
  · have hempty : Homes.AllKeyed [] (⟨hangars, Homes.new⟩ : Tenancy).reg := by
      intro id h hnone
      cases hnone
    exact keyed_run c acts hempty hrun id h hget
  · simp [Homes.mayEnter, hget, hshut, Lock.passes, hlocked, Lock.isCrew]

end Tenancy

end BeforeColony
