import Mathlib.Data.List.Nodup
import Mathlib.Data.List.Perm.Basic
import BeforeColony.Lib.Run

/-!
# The oracle's worker

Between a sector's rings and an outside oracle stands a worker: it keeps the freshest picture of each
pilot, has at most eight calls out, one a pilot, and hands their advice back. The oracle's calls
share a circuit breaker. The sector, the worker and each call go on in any order.
-/

set_option autoImplicit false

namespace BeforeColony.Oracle

open Lib

/-! ## The oracle -/

inductive OracleError where
  | timeout
  | unauthorized
  | badRequest (text : String)
  | rateLimited
  | overloaded (status : ℕ)
  | http (status : ℕ)
  | transport (text : String)
  | malformed (text : String)
  | circuitOpen
  deriving DecidableEq, Repr

/-- Whether it counts towards the breaker. -/
def OracleError.transient : OracleError → Bool
  | timeout | rateLimited | overloaded _ | http _ | transport _ => true
  | unauthorized | badRequest _ | malformed _ | circuitOpen => false

/-- What comes of a request to the oracle. -/
inductive Reply (A : Type) where
  | unsent (timedOut : Bool) (text : String)
  | status (code : ℕ) (body : String)
  | unread (timedOut : Bool) (text : String)
  | json (advice : Option A)

def Reply.result {A : Type} : Reply A → Except OracleError A
  | unsent timedOut text => .error (if timedOut then .timeout else .transport text)
  | status code body =>
    .error (if code = 401 then .unauthorized
      else if code = 422 then .badRequest body
      else if code = 429 then .rateLimited
      else if code = 529 ∨ code = 503 then .overloaded code
      else .http code)
  | unread timedOut text => .error (if timedOut then .timeout else .malformed text)
  | json none => .error (.malformed "no answers")
  | json (some a) => .ok a

def breakerThreshold : ℕ := 3

def breakerCooldown : ℕ := 10000000000

structure Breaker where
  failures : ℕ := 0
  openUntil : Option ℕ := none
  deriving DecidableEq, Repr

namespace Breaker

def isOpen (b : Breaker) (now : ℕ) : Bool := b.openUntil.any fun t => now < t

def record (b : Breaker) (now : ℕ) (ok : Bool) : Breaker :=
  if ok then ⟨0, none⟩
  else if breakerThreshold ≤ b.failures + 1 then ⟨0, some (now + breakerCooldown)⟩
  else { b with failures := b.failures + 1 }

end Breaker

/-- Whether a call's result counts as the oracle being well. -/
def wellBehaved {A : Type} : Except OracleError A → Bool
  | .ok _ => true
  | .error e => ! e.transient

/-! ## The worker -/

def maxInFlight : ℕ := 8

/-- How far a call is: not begun, with its request out, done, or panicked. -/
inductive Stage (A : Type) where
  | waiting
  | calling
  | done (result : Except OracleError A)
  | panicked

structure Task (P A : Type) where
  picture : P
  stage : Stage A

def Task.finished {P A : Type} (t : Task P A) : Bool :=
  match t.stage with
  | .done _ | .panicked => true
  | .waiting | .calling => false

inductive Phase where
  | draining
  | launching (ready : List ℕ)
  | joining
  deriving DecidableEq, Repr

/-- What can be seen of the calls from the oracle's side: a request let through, its outcome, or that
it was lost with its task. -/
inductive Mark where
  | sent (at_ : ℕ)
  | recorded (at_ : ℕ) (ok : Bool)
  | lost
  deriving DecidableEq, Repr

/-- The rings, the worker and the breaker; then, for what is proved, what happened so far. -/
structure Worker (P A : Type) where
  pictures : List P
  advice : List A
  latest : List P
  busy : List ℕ
  tasks : List (Task P A)
  phase : Phase
  calls : ℕ
  failures : ℕ
  warned : Bool
  breaker : Breaker
  now : ℕ
  pushed : List P
  called : List P
  answered : List A
  taken : List A
  forsaken : List ℕ
  marks : List Mark

inductive Act (P A : Type) where
  | pass (by_ : ℕ)
  /-- The sector hands in a picture, or takes advice. -/
  | push (p : P)
  | take
  | pop
  | collect (ready : List ℕ)
  | launch
  | launched
  | join (i : ℕ)
  | joined
  /-- A call begins, has its reply, or panics. -/
  | begin_ (i : ℕ)
  | reply (i : ℕ) (r : Reply A)
  | panic (i : ℕ)

namespace Worker

variable {P A : Type} (pilot : P → ℕ) (room : ℕ)

def start : Worker P A where
  pictures := []
  advice := []
  latest := []
  busy := []
  tasks := []
  phase := .draining
  calls := 0
  failures := 0
  warned := false
  breaker := {}
  now := 0
  pushed := []
  called := []
  answered := []
  taken := []
  forsaken := []
  marks := []

/-- Puts a picture in among the latest, over an older one of its pilot. -/
def insert (w : Worker P A) (p : P) : Worker P A :=
  { w with latest := p :: w.latest.filter fun q => pilot q ≠ pilot p }

/-- The pilots with a picture and no call out. -/
def ready (w : Worker P A) : List ℕ := (w.latest.map pilot).filter (· ∉ w.busy)

/-- A call for `k`, if there is a picture of theirs. -/
def spawn (k : ℕ) (rest : List ℕ) (w : Worker P A) : Worker P A :=
  match w.latest.find? (fun p => pilot p = k) with
  | none => { w with phase := .launching rest }
  | some p =>
    { w with
      phase := .launching rest
      latest := w.latest.filter fun q => pilot q ≠ k
      busy := k :: w.busy
      calls := w.calls + 1
      tasks := w.tasks ++ [⟨p, .waiting⟩]
      called := w.called ++ [p] }

def settle (w : Worker P A) (p : P) : Stage A → Worker P A
  | .done (.ok a) =>
    { w with
      busy := w.busy.filter (· ≠ pilot p)
      answered := w.answered ++ [a]
      advice := if w.advice.length < room then w.advice ++ [a] else w.advice }
  | .done (.error _) =>
    { w with busy := w.busy.filter (· ≠ pilot p), failures := w.failures + 1, warned := true }
  | .panicked => { w with forsaken := pilot p :: w.forsaken }
  | .waiting | .calling => w

/-- A call begins: its request goes out, unless the breaker is open. -/
def begun (w : Worker P A) (i : ℕ) (p : P) : Worker P A :=
  if w.breaker.isOpen w.now then
    { w with tasks := w.tasks.set i ⟨p, .done (.error .circuitOpen)⟩ }
  else { w with tasks := w.tasks.set i ⟨p, .calling⟩, marks := w.marks ++ [.sent w.now] }

def replied (w : Worker P A) (i : ℕ) (p : P) (r : Except OracleError A) : Worker P A :=
  { w with
    tasks := w.tasks.set i ⟨p, .done r⟩
    breaker := w.breaker.record w.now (wellBehaved r)
    marks := w.marks ++ [.recorded w.now (wellBehaved r)] }

def panicked (w : Worker P A) (i : ℕ) (t : Task P A) : Worker P A :=
  { w with
    tasks := w.tasks.set i ⟨t.picture, .panicked⟩
    marks := match t.stage with
      | .calling => w.marks ++ [.lost]
      | _ => w.marks }

def step (w : Worker P A) : Act P A → Worker P A
  | .pass by_ => { w with now := w.now + by_ }
  | .push p =>
    if w.pictures.length < room then
      { w with pictures := w.pictures ++ [p], pushed := w.pushed ++ [p] }
    else w
  | .take =>
    match w.advice with
    | [] => w
    | a :: rest => { w with advice := rest, taken := w.taken ++ [a] }
  | .pop =>
    match w.pictures with
    | [] => w
    | p :: rest => ({ w with pictures := rest } : Worker P A).insert pilot p
  | .collect ready => { w with phase := .launching ready }
  | .launch =>
    match w.phase with
    | .launching (k :: rest) => w.spawn pilot k rest
    | _ => w
  | .launched => { w with phase := .joining }
  | .join i =>
    match w.tasks[i]? with
    | none => w
    | some t => ({ w with tasks := w.tasks.eraseIdx i } : Worker P A).settle pilot room t.picture t.stage
  | .joined => { w with phase := .draining }
  | .begin_ i =>
    match w.tasks[i]? with
    | none => w
    | some t => w.begun i t.picture
  | .reply i r =>
    match w.tasks[i]? with
    | none => w
    | some t => w.replied i t.picture r.result
  | .panic i =>
    match w.tasks[i]? with
    | none => w
    | some t => w.panicked i t

/-- When an act can come: the loop's in the loop's order, the map's keys in any. -/
def Can (w : Worker P A) : Act P A → Prop
  | .pass _ | .push _ | .take => True
  | .pop => w.phase = .draining ∧ w.pictures ≠ []
  | .collect ready => w.phase = .draining ∧ w.pictures = [] ∧ ready.Perm (w.ready pilot)
  | .launch => ∃ k rest, w.phase = .launching (k :: rest) ∧ w.tasks.length < maxInFlight
  | .launched => ∃ ready, w.phase = .launching ready ∧ (ready = [] ∨ maxInFlight ≤ w.tasks.length)
  | .join i => w.phase = .joining ∧ ∃ t, w.tasks[i]? = some t ∧ t.finished = true
  | .joined => w.phase = .joining ∧ ∀ t ∈ w.tasks, t.finished = false
  | .begin_ i => ∃ p, w.tasks[i]? = some ⟨p, .waiting⟩
  | .reply i _ => ∃ p, w.tasks[i]? = some ⟨p, .calling⟩
  | .panic i => ∃ p, w.tasks[i]? = some ⟨p, .waiting⟩ ∨ w.tasks[i]? = some ⟨p, .calling⟩

/-! ## One call a pilot -/

def pilots (w : Worker P A) : List ℕ := w.tasks.map fun t => pilot t.picture

/-- What the worker's maps say of its calls. -/
structure Kept (w : Worker P A) : Prop where
  few : (w.pilots pilot).length ≤ maxInFlight
  one : (w.pilots pilot).Nodup
  busy : ∀ k ∈ w.pilots pilot, k ∈ w.busy
  forsaken : ∀ k ∈ w.forsaken, k ∈ w.busy ∧ k ∉ w.pilots pilot
  ready : ∀ ready, w.phase = .launching ready → ready.Nodup ∧ ∀ k ∈ ready, k ∉ w.busy
  keys : (w.latest.map pilot).Nodup

variable {pilot room} {w : Worker P A}

theorem pilots_set {i : ℕ} {t : Task P A} (h : w.tasks[i]? = some t) (stage : Stage A) :
    (w.tasks.set i ⟨t.picture, stage⟩).map (fun t => pilot t.picture) = w.pilots pilot := by
  obtain ⟨hi, rfl⟩ := List.getElem?_eq_some_iff.mp h
  have hi' : i < (w.pilots pilot).length := by
    rw [pilots, List.length_map]
    exact hi
  have hsame : (w.pilots pilot)[i] = pilot w.tasks[i].picture := List.getElem_map _
  rw [List.map_set, ← hsame]
  exact List.set_getElem_self hi'

variable (pilot) in
theorem pilots_perm {i : ℕ} {t : Task P A} (h : w.tasks[i]? = some t) :
    (pilot t.picture :: (w.tasks.eraseIdx i).map fun t => pilot t.picture).Perm (w.pilots pilot) := by
  obtain ⟨hi, rfl⟩ := List.getElem?_eq_some_iff.mp h
  exact (List.getElem_cons_eraseIdx_perm hi).map fun t => pilot t.picture

theorem kept_start : (start : Worker P A).Kept pilot := by
  constructor
  · exact Nat.zero_le _
  · exact List.nodup_nil
  · exact fun k hk => absurd hk List.not_mem_nil
  · exact fun k hk => absurd hk List.not_mem_nil
  · exact nofun
  · exact List.nodup_nil

/-- What only moves calls on, or what isn't the worker's, keeps it. -/
theorem Kept.of_eq {w' : Worker P A} (h : w.Kept pilot) (hpilots : w'.pilots pilot = w.pilots pilot)
    (hbusy : w'.busy = w.busy) (hforsaken : w'.forsaken = w.forsaken)
    (hphase : ∀ ready, w'.phase = .launching ready → w.phase = .launching ready)
    (hlatest : w'.latest = w.latest) : w'.Kept pilot where
  few := hpilots ▸ h.few
  one := hpilots ▸ h.one
  busy := by
    rw [hpilots, hbusy]
    exact h.busy
  forsaken := by
    rw [hpilots, hbusy, hforsaken]
    exact h.forsaken
  ready ready hready := by
    rw [hbusy]
    exact h.ready ready (hphase ready hready)
  keys := hlatest ▸ h.keys

theorem Kept.moved {i : ℕ} {t : Task P A} (h : w.Kept pilot) (ht : w.tasks[i]? = some t)
    (stage : Stage A) {w' : Worker P A} (htasks : w'.tasks = w.tasks.set i ⟨t.picture, stage⟩)
    (hrest : w'.busy = w.busy ∧ w'.forsaken = w.forsaken ∧ w'.phase = w.phase
      ∧ w'.latest = w.latest) : w'.Kept pilot := by
  obtain ⟨hbusy, hforsaken, hphase, hlatest⟩ := hrest
  refine h.of_eq ?_ hbusy hforsaken (fun ready hready => hphase ▸ hready) hlatest
  rw [pilots, htasks]
  exact pilots_set ht stage

theorem Kept.insert (h : w.Kept pilot) (p : P) : (w.insert pilot p).Kept pilot := by
  refine { h with keys := ?_ }
  change (pilot p :: (w.latest.filter fun q => pilot q ≠ pilot p).map pilot).Nodup
  apply List.nodup_cons.mpr
  constructor
  · intro hmem
    obtain ⟨q, hq, hsame⟩ := List.mem_map.mp hmem
    have hne := (List.mem_filter.mp hq).2
    exact of_decide_eq_true hne hsame
  · exact h.keys.sublist (List.filter_sublist.map pilot)

theorem Kept.spawn {k : ℕ} {rest : List ℕ} (h : w.Kept pilot)
    (hphase : w.phase = .launching (k :: rest)) (hroom : w.tasks.length < maxInFlight) :
    (w.spawn pilot k rest).Kept pilot := by
  obtain ⟨hnodup, hfree⟩ := h.ready _ hphase
  obtain ⟨hk, hrest⟩ := List.nodup_cons.mp hnodup
  have hidle : k ∉ w.busy := hfree k List.mem_cons_self
  have hnone : k ∉ w.pilots pilot := fun hmem => hidle (h.busy k hmem)
  unfold Worker.spawn
  split
  · refine { h with ready := ?_ }
    rintro ready ⟨⟩
    exact ⟨hrest, fun j hj => hfree j (List.mem_cons_of_mem k hj)⟩
  · rename_i p hp
    have hsame : pilot p = k := by simpa using List.find?_some hp
    have hpilots : (w.tasks ++ [(⟨p, .waiting⟩ : Task P A)]).map (fun t => pilot t.picture)
        = w.pilots pilot ++ [k] := by
      rw [List.map_append, ← hsame]
      rfl
    constructor
    · change ((w.tasks ++ [(⟨p, .waiting⟩ : Task P A)]).map fun t => pilot t.picture).length ≤ _
      rw [List.length_map, List.length_append]
      exact hroom
    · change ((w.tasks ++ [(⟨p, .waiting⟩ : Task P A)]).map fun t => pilot t.picture).Nodup
      rw [hpilots]
      exact List.nodup_append.mpr ⟨h.one, List.nodup_singleton k, by
        rintro j hj j' hj' rfl
        rw [List.mem_singleton] at hj'
        exact hnone (hj' ▸ hj)⟩
    · intro j hj
      change j ∈ (w.tasks ++ [(⟨p, .waiting⟩ : Task P A)]).map fun t => pilot t.picture at hj
      rw [hpilots] at hj
      rcases List.mem_append.mp hj with hj | hj
      · exact List.mem_cons_of_mem k (h.busy j hj)
      · rw [List.mem_singleton.mp hj]
        exact List.mem_cons_self
    · intro j hj
      obtain ⟨hbusy, hout⟩ := h.forsaken j hj
      refine ⟨List.mem_cons_of_mem k hbusy, ?_⟩
      change j ∉ (w.tasks ++ [(⟨p, .waiting⟩ : Task P A)]).map fun t => pilot t.picture
      rw [hpilots]
      intro hmem
      rcases List.mem_append.mp hmem with hmem | hmem
      · exact hout hmem
      · exact hidle (List.mem_singleton.mp hmem ▸ hbusy)
    · rintro ready ⟨⟩
      refine ⟨hrest, fun j hj => ?_⟩
      intro hmem
      rcases List.mem_cons.mp hmem with rfl | hmem
      · exact hk hj
      · exact hfree j (List.mem_cons_of_mem k hj) hmem
    · exact h.keys.sublist (List.filter_sublist.map pilot)

theorem Kept.join {i : ℕ} {t : Task P A} (h : w.Kept pilot) (ht : w.tasks[i]? = some t)
    (hphase : w.phase = .joining) (hfinished : t.finished = true) :
    (({ w with tasks := w.tasks.eraseIdx i } : Worker P A).settle pilot room t.picture
      t.stage).Kept pilot := by
  have hperm := pilots_perm pilot ht
  obtain ⟨hgone, hone⟩ := List.nodup_cons.mp (hperm.nodup_iff.mpr h.one)
  have hsub : ∀ k ∈ (w.tasks.eraseIdx i).map (fun t => pilot t.picture), k ∈ w.pilots pilot :=
    fun k hk => hperm.subset (List.mem_cons_of_mem _ hk)
  have hfew : ((w.tasks.eraseIdx i).map fun t => pilot t.picture).length ≤ maxInFlight := by
    have hlength := hperm.length_eq
    have hfew := h.few
    rw [List.length_cons] at hlength
    omega
  have hothers : ∀ k ∈ (w.tasks.eraseIdx i).map (fun t => pilot t.picture),
      k ∈ w.busy.filter (· ≠ pilot t.picture) := by
    intro k hk
    apply List.mem_filter.mpr
    refine ⟨h.busy k (hsub k hk), decide_eq_true ?_⟩
    rintro rfl
    exact hgone hk
  have hleft : ∀ k ∈ w.forsaken, k ∈ w.busy.filter (· ≠ pilot t.picture)
      ∧ k ∉ (w.tasks.eraseIdx i).map fun t => pilot t.picture := by
    intro k hk
    obtain ⟨hbusy, hout⟩ := h.forsaken k hk
    refine ⟨List.mem_filter.mpr ⟨hbusy, decide_eq_true ?_⟩, fun hmem => hout (hsub k hmem)⟩
    rintro rfl
    exact hout (hperm.subset List.mem_cons_self)
  unfold settle
  split
  · exact ⟨hfew, hone, hothers, hleft, by rw [hphase]; exact nofun, h.keys⟩
  · exact ⟨hfew, hone, hothers, hleft, by rw [hphase]; exact nofun, h.keys⟩
  · refine ⟨hfew, hone, fun k hk => h.busy k (hsub k hk), ?_, h.ready, h.keys⟩
    intro k hk
    rcases List.mem_cons.mp hk with rfl | hk
    · exact ⟨h.busy _ (hperm.subset List.mem_cons_self), hgone⟩
    · exact ⟨(h.forsaken k hk).1, (hleft k hk).2⟩
  all_goals
    rename_i hstage
    rw [Task.finished, hstage] at hfinished
    cases hfinished

theorem Kept.step {act : Act P A} (h : w.Kept pilot) (hcan : w.Can pilot act) :
    (w.step pilot room act).Kept pilot := by
  cases act with
  | pass by_ => exact h.of_eq rfl rfl rfl (fun _ hready => hready) rfl
  | push p =>
    unfold Worker.step
    dsimp only
    split
    · exact h.of_eq rfl rfl rfl (fun _ hready => hready) rfl
    · exact h
  | take =>
    unfold Worker.step
    dsimp only
    split
    · exact h
    · exact h.of_eq rfl rfl rfl (fun _ hready => hready) rfl
  | pop =>
    unfold Worker.step
    dsimp only
    split
    · exact h
    · apply Kept.insert
      exact h.of_eq rfl rfl rfl (fun _ hready => hready) rfl
  | collect ready =>
    obtain ⟨-, -, hperm⟩ := hcan
    refine { h with ready := ?_ }
    rintro _ ⟨⟩
    constructor
    · exact hperm.nodup_iff.mpr (h.keys.filter _)
    · intro k hk
      have hmem := (List.mem_filter.mp (hperm.subset hk)).2
      exact of_decide_eq_true hmem
  | launch =>
    obtain ⟨k, rest, hphase, hroom⟩ := hcan
    have hstep : w.step pilot room .launch = w.spawn pilot k rest := by
      simp only [Worker.step, hphase]
    rw [hstep]
    exact h.spawn hphase hroom
  | launched => exact h.of_eq rfl rfl rfl nofun rfl
  | join i =>
    obtain ⟨hphase, t, ht, hfinished⟩ := hcan
    simp only [Worker.step, ht]
    exact h.join ht hphase hfinished
  | joined => exact h.of_eq rfl rfl rfl nofun rfl
  | begin_ i =>
    obtain ⟨p, ht⟩ := hcan
    simp only [Worker.step, ht, begun]
    split
    · exact h.moved ht (.done (.error .circuitOpen)) rfl ⟨rfl, rfl, rfl, rfl⟩
    · exact h.moved ht .calling rfl ⟨rfl, rfl, rfl, rfl⟩
  | reply i r =>
    obtain ⟨p, ht⟩ := hcan
    simp only [Worker.step, ht]
    exact h.moved ht (.done r.result) rfl ⟨rfl, rfl, rfl, rfl⟩
  | panic i =>
    obtain ⟨p, ht | ht⟩ := hcan
    · simp only [Worker.step, ht]
      exact h.moved ht .panicked rfl ⟨rfl, rfl, rfl, rfl⟩
    · simp only [Worker.step, ht]
      exact h.moved ht .panicked rfl ⟨rfl, rfl, rfl, rfl⟩

/-! ## The freshest picture, once -/

variable (pilot) in
def ofPilot (k : ℕ) (l : List P) : List P := l.filter fun p => pilot p = k

@[simp] theorem ofPilot_nil (k : ℕ) : ofPilot pilot k [] = [] := rfl

@[simp] theorem ofPilot_append (k : ℕ) (l l' : List P) :
    ofPilot pilot k (l ++ l') = ofPilot pilot k l ++ ofPilot pilot k l' := List.filter_append ..

theorem ofPilot_cons_self (p : P) (l : List P) :
    ofPilot pilot (pilot p) (p :: l) = p :: ofPilot pilot (pilot p) l := by
  simp [ofPilot]

theorem ofPilot_cons_ne {k : ℕ} {p : P} (h : pilot p ≠ k) (l : List P) :
    ofPilot pilot k (p :: l) = ofPilot pilot k l := by
  simp [ofPilot, h]

theorem ofPilot_filter_self (k : ℕ) (l : List P) :
    ofPilot pilot k (l.filter fun q => pilot q ≠ k) = [] := by
  simp [ofPilot, List.filter_filter]

theorem ofPilot_filter_ne {k j : ℕ} (h : k ≠ j) (l : List P) :
    ofPilot pilot k (l.filter fun q => pilot q ≠ j) = ofPilot pilot k l := by
  unfold ofPilot
  rw [List.filter_filter]
  apply List.filter_congr
  intro q _
  by_cases hq : pilot q = k
  · simp [hq, h]
  · simp [hq]

variable (pilot) in
/-- What became of the pictures handed in, pilot by pilot. -/
structure Ordered (w : Worker P A) : Prop where
  suffix : ∃ popped, w.pushed = popped ++ w.pictures
  newest : ∀ p ∈ w.latest, ∃ older,
    ofPilot pilot (pilot p) w.pushed = older ++ p :: ofPilot pilot (pilot p) w.pictures
  once : ∀ k, (ofPilot pilot k w.called ++ ofPilot pilot k w.latest
    ++ ofPilot pilot k w.pictures).Sublist (ofPilot pilot k w.pushed)

theorem Ordered.of_eq {w' : Worker P A} (h : w.Ordered pilot)
    (hpushed : w'.pushed = w.pushed) (hpictures : w'.pictures = w.pictures)
    (hlatest : w'.latest = w.latest) (hcalled : w'.called = w.called) :
    w'.Ordered pilot := by
  constructor
  · rw [hpushed, hpictures]
    exact h.suffix
  · rw [hlatest, hpushed, hpictures]
    exact h.newest
  · rw [hcalled, hlatest, hpictures, hpushed]
    exact h.once

theorem ordered_start : (start : Worker P A).Ordered pilot :=
  ⟨⟨[], rfl⟩, fun _ hp => absurd hp List.not_mem_nil, fun _ => List.Sublist.refl _⟩

theorem Ordered.push (h : w.Ordered pilot) (p : P) :
    ({ w with pictures := w.pictures ++ [p], pushed := w.pushed ++ [p] } : Worker P A).Ordered
      pilot := by
  obtain ⟨popped, hpopped⟩ := h.suffix
  constructor
  · exact ⟨popped, by rw [← List.append_assoc, ← hpopped]⟩
  · intro q hq
    obtain ⟨older, holder⟩ := h.newest q hq
    refine ⟨older, ?_⟩
    rw [ofPilot_append, ofPilot_append, holder]
    simp
  · intro k
    change (_ ++ ofPilot pilot k (w.pictures ++ [p])).Sublist (ofPilot pilot k (w.pushed ++ [p]))
    rw [ofPilot_append, ofPilot_append, ← List.append_assoc]
    exact (h.once k).append (List.Sublist.refl _)

theorem Ordered.pop {p : P} {rest : List P} (h : w.Ordered pilot) (hpictures : w.pictures = p :: rest) :
    (({ w with pictures := rest } : Worker P A).insert pilot p).Ordered pilot := by
  obtain ⟨popped, hpopped⟩ := h.suffix
  rw [hpictures] at hpopped
  constructor
  · exact ⟨popped ++ [p], by rw [List.append_assoc]; exact hpopped⟩
  · intro q hq
    change ∃ older, ofPilot pilot (pilot q) w.pushed = older ++ q :: ofPilot pilot (pilot q) rest
    rcases List.mem_cons.mp hq with rfl | hq
    · refine ⟨ofPilot pilot (pilot q) popped, ?_⟩
      rw [hpopped, ofPilot_append, ofPilot_cons_self]
    · obtain ⟨hq, hne⟩ := List.mem_filter.mp hq
      obtain ⟨older, holder⟩ := h.newest q hq
      have hne : pilot p ≠ pilot q := fun heq => of_decide_eq_true hne heq.symm
      rw [hpictures, ofPilot_cons_ne hne] at holder
      exact ⟨older, holder⟩
  · intro k
    have honce := h.once k
    rw [hpictures] at honce
    change (ofPilot pilot k w.called
      ++ ofPilot pilot k (p :: w.latest.filter fun q => pilot q ≠ pilot p)
      ++ ofPilot pilot k rest).Sublist (ofPilot pilot k w.pushed)
    by_cases hk : pilot p = k
    · subst hk
      rw [ofPilot_cons_self] at honce ⊢
      rw [ofPilot_filter_self]
      refine List.Sublist.trans ?_ honce
      rw [List.append_assoc, List.append_assoc]
      exact (List.Sublist.refl _).append (List.sublist_append_right _ _)
    · rw [ofPilot_cons_ne hk] at honce ⊢
      rw [ofPilot_filter_ne (Ne.symm hk)]
      exact honce

theorem Ordered.spawn {k : ℕ} {rest : List ℕ} (h : w.Ordered pilot) :
    (w.spawn pilot k rest).Ordered pilot := by
  unfold Worker.spawn
  split
  · exact h.of_eq rfl rfl rfl rfl
  · rename_i p hp
    have hsame : pilot p = k := by simpa using List.find?_some hp
    have hmem : p ∈ w.latest := List.mem_of_find?_eq_some hp
    constructor
    · exact h.suffix
    · intro q hq
      exact h.newest q (List.mem_filter.mp hq).1
    · intro j
      change (ofPilot pilot j (w.called ++ [p])
        ++ ofPilot pilot j (w.latest.filter fun q => pilot q ≠ k)
        ++ ofPilot pilot j w.pictures).Sublist (ofPilot pilot j w.pushed)
      refine List.Sublist.trans ?_ (h.once j)
      apply List.Sublist.append ?_ (List.Sublist.refl _)
      rw [ofPilot_append]
      by_cases hj : pilot p = j
      · have hone : [p].Sublist (ofPilot pilot j w.latest) :=
          List.singleton_sublist.mpr (List.mem_filter.mpr ⟨hmem, decide_eq_true hj⟩)
        rw [← hsame, hj, ofPilot_filter_self, List.append_nil, ← hj, ofPilot_cons_self, hj]
        exact (List.Sublist.refl _).append hone
      · have hjk : j ≠ k := fun heq => hj (hsame.trans heq.symm)
        rw [ofPilot_filter_ne hjk, ofPilot_cons_ne hj, ofPilot_nil, List.append_nil]

theorem Ordered.settle {p : P} {stage : Stage A} (h : w.Ordered pilot) :
    (w.settle pilot room p stage).Ordered pilot := by
  unfold Worker.settle
  split <;> exact h.of_eq rfl rfl rfl rfl

theorem Ordered.step {act : Act P A} (h : w.Ordered pilot) : (w.step pilot room act).Ordered pilot := by
  unfold Worker.step
  cases act with
  | push p =>
    dsimp only
    split
    · exact h.push p
    · exact h
  | pop =>
    dsimp only
    split
    · exact h
    · rename_i p rest hpictures
      exact h.pop hpictures
  | launch =>
    dsimp only
    split
    · exact h.spawn
    · exact h
  | join i =>
    dsimp only
    split
    · exact h
    · apply Ordered.settle
      exact h.of_eq rfl rfl rfl rfl
  | begin_ i =>
    dsimp only
    split
    · exact h
    · unfold begun
      split <;> exact h.of_eq rfl rfl rfl rfl
  | take =>
    dsimp only
    split
    · exact h
    · exact h.of_eq rfl rfl rfl rfl
  | reply i r =>
    dsimp only
    split
    · exact h
    · exact h.of_eq rfl rfl rfl rfl
  | panic i =>
    dsimp only
    split
    · exact h
    · exact h.of_eq rfl rfl rfl rfl
  | _ => exact h.of_eq rfl rfl rfl rfl

/-! ## The counts -/

/-- Every call is out, was answered, failed, or panicked; advice is handed on in order, once. -/
structure Counted (w : Worker P A) : Prop where
  calls : w.calls = w.tasks.length + w.answered.length + w.failures + w.forsaken.length
  called : w.called.length = w.calls
  advice : (w.taken ++ w.advice).Sublist w.answered

theorem counted_start : (start : Worker P A).Counted := ⟨rfl, rfl, List.Sublist.refl _⟩

theorem Counted.of_eq {w' : Worker P A} (h : w.Counted)
    (hcounts : w'.calls = w.calls ∧ w'.tasks.length = w.tasks.length ∧ w'.failures = w.failures)
    (hforsaken : w'.forsaken = w.forsaken) (hcalled : w'.called = w.called)
    (hadvice : w'.taken ++ w'.advice = w.taken ++ w.advice ∧ w'.answered = w.answered) :
    w'.Counted := by
  obtain ⟨hcalls, htasks, hfailures⟩ := hcounts
  constructor
  · rw [hcalls, htasks, hfailures, hforsaken, hadvice.2]
    exact h.calls
  · rw [hcalled, hcalls]
    exact h.called
  · rw [hadvice.1, hadvice.2]
    exact h.advice

theorem Counted.join {i : ℕ} {t : Task P A} (h : w.Counted) (ht : w.tasks[i]? = some t)
    (hfinished : t.finished = true) :
    (({ w with tasks := w.tasks.eraseIdx i } : Worker P A).settle pilot room t.picture
      t.stage).Counted := by
  obtain ⟨hi, -⟩ := List.getElem?_eq_some_iff.mp ht
  have hlength : (w.tasks.eraseIdx i).length + 1 = w.tasks.length := by
    rw [List.length_eraseIdx_of_lt hi]
    omega
  have hcalls := h.calls
  unfold Worker.settle
  split
  · rename_i a _
    constructor
    · change w.calls = (w.tasks.eraseIdx i).length + (w.answered ++ [a]).length + w.failures
        + w.forsaken.length
      rw [List.length_append, List.length_singleton]
      omega
    · exact h.called
    · change (w.taken ++ if w.advice.length < room then w.advice ++ [a] else w.advice).Sublist
        (w.answered ++ [a])
      split
      · rw [← List.append_assoc]
        exact h.advice.append (List.Sublist.refl _)
      · exact h.advice.trans (List.sublist_append_left _ _)
  · constructor
    · change w.calls = (w.tasks.eraseIdx i).length + w.answered.length + (w.failures + 1)
        + w.forsaken.length
      omega
    · exact h.called
    · exact h.advice
  · constructor
    · change w.calls = (w.tasks.eraseIdx i).length + w.answered.length + w.failures
        + (w.forsaken.length + 1)
      omega
    · exact h.called
    · exact h.advice
  all_goals
    rename_i hstage
    rw [Task.finished, hstage] at hfinished
    cases hfinished

theorem Counted.spawn {k : ℕ} {rest : List ℕ} (h : w.Counted) : (w.spawn pilot k rest).Counted := by
  have hcalls := h.calls
  have hcalled := h.called
  unfold Worker.spawn
  split
  · exact h.of_eq ⟨rfl, rfl, rfl⟩ rfl rfl ⟨rfl, rfl⟩
  · rename_i p _
    constructor
    · change w.calls + 1 = (w.tasks ++ [(⟨p, .waiting⟩ : Task P A)]).length + w.answered.length
        + w.failures + w.forsaken.length
      rw [List.length_append, List.length_singleton]
      omega
    · change (w.called ++ [p]).length = w.calls + 1
      rw [List.length_append, List.length_singleton]
      omega
    · exact h.advice

theorem Counted.step {act : Act P A} (h : w.Counted) (hcan : w.Can pilot act) :
    (w.step pilot room act).Counted := by
  have hset (i : ℕ) (t : Task P A) : (w.tasks.set i t).length = w.tasks.length := List.length_set
  cases act with
  | launch =>
    obtain ⟨k, rest, hphase, -⟩ := hcan
    simp only [Worker.step, hphase]
    exact h.spawn
  | join i =>
    obtain ⟨-, t, ht, hfinished⟩ := hcan
    simp only [Worker.step, ht]
    exact h.join ht hfinished
  | take =>
    unfold Worker.step
    dsimp only
    split
    · exact h
    · rename_i a rest hadvice
      refine h.of_eq ⟨rfl, rfl, rfl⟩ rfl rfl ⟨?_, rfl⟩
      rw [hadvice, List.append_assoc]
      rfl
  | push p =>
    unfold Worker.step
    dsimp only
    split
    · exact h.of_eq ⟨rfl, rfl, rfl⟩ rfl rfl ⟨rfl, rfl⟩
    · exact h
  | pop =>
    unfold Worker.step
    dsimp only
    split
    · exact h
    · exact h.of_eq ⟨rfl, rfl, rfl⟩ rfl rfl ⟨rfl, rfl⟩
  | begin_ i =>
    obtain ⟨p, ht⟩ := hcan
    simp only [Worker.step, ht, begun]
    split
    · exact h.of_eq ⟨rfl, hset _ _, rfl⟩ rfl rfl ⟨rfl, rfl⟩
    · exact h.of_eq ⟨rfl, hset _ _, rfl⟩ rfl rfl ⟨rfl, rfl⟩
  | reply i r =>
    obtain ⟨p, ht⟩ := hcan
    simp only [Worker.step, ht]
    exact h.of_eq ⟨rfl, hset _ _, rfl⟩ rfl rfl ⟨rfl, rfl⟩
  | panic i =>
    unfold Worker.step
    dsimp only
    split
    · exact h
    · exact h.of_eq ⟨rfl, hset _ _, rfl⟩ rfl rfl ⟨rfl, rfl⟩
  | _ => exact h.of_eq ⟨rfl, rfl, rfl⟩ rfl rfl ⟨rfl, rfl⟩

/-! ## Runs -/

variable (pilot) in
theorem spawn_called (w : Worker P A) (k : ℕ) (rest : List ℕ) : (w.spawn pilot k rest).called = w.called
    ∨ ∃ p ∈ w.latest, pilot p = k ∧ (w.spawn pilot k rest).called = w.called ++ [p] := by
  unfold Worker.spawn
  split
  · exact Or.inl rfl
  · rename_i p hp
    exact Or.inr ⟨p, List.mem_of_find?_eq_some hp, by simpa using List.find?_some hp, rfl⟩

variable (pilot room) in
theorem step_called (w : Worker P A) (act : Act P A) :
    (w.step pilot room act).called = w.called ∨ ∃ k rest, w.phase = .launching (k :: rest)
      ∧ act = .launch ∧ (w.step pilot room act).called = (w.spawn pilot k rest).called := by
  unfold Worker.step
  cases act with
  | launch =>
    dsimp only
    split
    · rename_i k rest hphase
      exact Or.inr ⟨k, rest, hphase, rfl, rfl⟩
    · exact Or.inl rfl
  | join i =>
    left
    dsimp only
    split
    · rfl
    · unfold settle
      split <;> rfl
  | begin_ i =>
    left
    dsimp only
    split
    · rfl
    · unfold begun
      split <;> rfl
  | push _ | take | pop | reply _ _ | panic _ =>
    left
    dsimp only
    split <;> rfl
  | _ => exact Or.inl rfl

theorem step_forsaken {k : ℕ} (act : Act P A) (hk : k ∈ w.forsaken) :
    k ∈ (w.step pilot room act).forsaken := by
  unfold Worker.step
  cases act with
  | launch =>
    dsimp only
    split
    · unfold spawn
      split <;> exact hk
    · exact hk
  | join i =>
    dsimp only
    split
    · exact hk
    · unfold settle
      split
      · exact hk
      · exact hk
      · exact List.mem_cons_of_mem _ hk
      · exact hk
      · exact hk
  | begin_ i =>
    dsimp only
    split
    · exact hk
    · unfold begun
      split <;> exact hk
  | push _ | take | pop | reply _ _ | panic _ =>
    dsimp only
    split <;> exact hk
  | _ => exact hk

theorem called_forsaken {act : Act P A} {k : ℕ} (h : w.Kept pilot) (hk : k ∈ w.forsaken) :
    ofPilot pilot k (w.step pilot room act).called = ofPilot pilot k w.called := by
  rcases step_called pilot room w act with hsame | ⟨j, rest, hphase, rfl, hcalled⟩
  · rw [hsame]
  · rw [hcalled]
    rcases spawn_called pilot w j rest with hsame | ⟨p, -, hp, hsame⟩
    · rw [hsame]
    · have hidle := (h.ready _ hphase).2 j List.mem_cons_self
      have hne : pilot p ≠ k := by
        rintro rfl
        exact hidle (hp ▸ (h.forsaken _ hk).1)
      rw [hsame, ofPilot_append, ofPilot_cons_ne hne, ofPilot_nil, List.append_nil]

variable (pilot room) in
def run (acts : List (Act P A)) (w : Worker P A) : Worker P A := acts.foldl (step pilot room) w

variable (pilot room) in
def Runs (w : Worker P A) (acts : List (Act P A)) : Prop :=
  Run.Along (step pilot room) (Can pilot) w acts

structure Sound (pilot : P → ℕ) (w : Worker P A) : Prop where
  kept : w.Kept pilot
  ordered : w.Ordered pilot
  counted : w.Counted

theorem sound_run {acts : List (Act P A)} (h : w.Sound pilot) (hacts : Runs pilot room w acts) :
    (run pilot room acts w).Sound pilot :=
  Run.invariant (fun _ _ hw hcan => ⟨hw.kept.step hcan, hw.ordered.step, hw.counted.step hcan⟩) h hacts

theorem run_forsaken {acts : List (Act P A)} {k : ℕ} (h : w.Kept pilot)
    (hacts : Runs pilot room w acts) (hk : k ∈ w.forsaken) :
    ofPilot pilot k (run pilot room acts w).called = ofPilot pilot k w.called := by
  induction acts generalizing w with
  | nil => rfl
  | cons act rest ih =>
    obtain ⟨hcan, hrest⟩ := hacts
    exact (ih (h.step hcan) hrest (step_forsaken act hk)).trans (called_forsaken h hk)

/-- In any run: at most eight calls are out, one a pilot; each pilot's pictures are asked about in
the order they came and once at most, each the newest taken off the ring; every call is out, was
answered, failed or panicked; advice goes on in order and once; and a pilot whose call panicked is
never asked about again. -/
theorem worker_asks {acts later : List (Act P A)} (hacts : Runs pilot room start acts)
    (hlater : Runs pilot room (run pilot room acts start) later) :
    ((run pilot room acts start).tasks.length ≤ maxInFlight
        ∧ ((run pilot room acts start).pilots pilot).Nodup)
      ∧ (∀ k, (ofPilot pilot k (run pilot room acts start).called).Sublist
        (ofPilot pilot k (run pilot room acts start).pushed))
      ∧ (∀ p, ((run pilot room acts start).step pilot room .launch).called
          = (run pilot room acts start).called ++ [p] →
        ∃ older, ofPilot pilot (pilot p) (run pilot room acts start).pushed
          = older ++ p :: ofPilot pilot (pilot p) (run pilot room acts start).pictures)
      ∧ (run pilot room acts start).called.length
        = (run pilot room acts start).tasks.length + (run pilot room acts start).answered.length
          + (run pilot room acts start).failures + (run pilot room acts start).forsaken.length
      ∧ ((run pilot room acts start).taken ++ (run pilot room acts start).advice).Sublist
        (run pilot room acts start).answered
      ∧ ∀ k ∈ (run pilot room acts start).forsaken,
        ofPilot pilot k (run pilot room later (run pilot room acts start)).called
          = ofPilot pilot k (run pilot room acts start).called := by
  obtain ⟨hkept, hordered, hcounted⟩ :=
    sound_run ⟨kept_start, ordered_start, counted_start⟩ hacts
  generalize run pilot room acts start = w at *
  refine ⟨⟨?_, hkept.one⟩, fun k => ?_, fun p hp => ?_, ?_, hcounted.advice, fun k hk => ?_⟩
  · have hfew := hkept.few
    rwa [pilots, List.length_map] at hfew
  · refine List.Sublist.trans ?_ (hordered.once k)
    rw [List.append_assoc]
    exact List.sublist_append_left _ _
  · have hmem : p ∈ w.latest := by
      rcases step_called pilot room w .launch with hsame | ⟨k, rest, -, -, hcalled⟩
      · rw [hsame] at hp
        have hlength := congrArg List.length hp
        rw [List.length_append, List.length_singleton] at hlength
        omega
      · rw [hcalled] at hp
        rcases spawn_called pilot w k rest with hsame | ⟨q, hq, -, hsame⟩
        · rw [hsame] at hp
          have hlength := congrArg List.length hp
          rw [List.length_append, List.length_singleton] at hlength
          omega
        · rw [hsame] at hp
          rw [← List.singleton_injective (List.append_cancel_left hp)]
          exact hq
    exact hordered.newest p hmem
  · rw [hcounted.called]
    exact hcounted.calls
  · exact run_forsaken hkept hlater hk

def lostCall : List (Act (ℕ × ℕ) ℕ) :=
  [.push (3, 10), .push (3, 11), .pop, .pop, .collect [3], .launch, .launched, .begin_ 0, .panic 0,
    .join 0]

theorem runs_lostCall : Runs Prod.fst 256 start lostCall := by
  refine ⟨trivial, trivial, ⟨rfl, nofun⟩, ⟨rfl, nofun⟩, ⟨rfl, rfl, .refl _⟩, ⟨3, [], rfl, by decide⟩,
    ⟨[], rfl, Or.inl rfl⟩, ⟨(3, 11), rfl⟩, ⟨(3, 11), Or.inr rfl⟩, ⟨rfl, ⟨(3, 11), .panicked⟩, rfl, rfl⟩,
    trivial⟩

theorem worker_asks_lostCall :
    ((run Prod.fst 256 lostCall start).tasks.length ≤ maxInFlight
        ∧ ((run Prod.fst 256 lostCall start).pilots Prod.fst).Nodup)
      ∧ (∀ k, (ofPilot Prod.fst k (run Prod.fst 256 lostCall start).called).Sublist
        (ofPilot Prod.fst k (run Prod.fst 256 lostCall start).pushed))
      ∧ (∀ p, ((run Prod.fst 256 lostCall start).step Prod.fst 256 .launch).called
          = (run Prod.fst 256 lostCall start).called ++ [p] →
        ∃ older, ofPilot Prod.fst p.1 (run Prod.fst 256 lostCall start).pushed
          = older ++ p :: ofPilot Prod.fst p.1 (run Prod.fst 256 lostCall start).pictures)
      ∧ (run Prod.fst 256 lostCall start).called.length
        = (run Prod.fst 256 lostCall start).tasks.length
          + (run Prod.fst 256 lostCall start).answered.length
          + (run Prod.fst 256 lostCall start).failures
          + (run Prod.fst 256 lostCall start).forsaken.length
      ∧ ((run Prod.fst 256 lostCall start).taken ++ (run Prod.fst 256 lostCall start).advice).Sublist
        (run Prod.fst 256 lostCall start).answered
      ∧ ∀ k ∈ (run Prod.fst 256 lostCall start).forsaken,
        ofPilot Prod.fst k (run Prod.fst 256 [.push (3, 12)] (run Prod.fst 256 lostCall start)).called
          = ofPilot Prod.fst k (run Prod.fst 256 lostCall start).called :=
  worker_asks runs_lostCall ⟨trivial, trivial⟩

end Worker

end BeforeColony.Oracle
