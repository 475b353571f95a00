import BeforeColony.Econ.Bay
import BeforeColony.Econ.Crafting

/-!
# How long a job still takes

The seconds a station shows for its queue, and a hangar's view for each job, against the clock that
runs them.
-/

set_option autoImplicit false

namespace BeforeColony

open Catalogue

/-- A `u32` subtraction, as the release build performs it. -/
def wrappingSub32 (a b : ℕ) : ℕ := if b ≤ a then a - b else a + 2 ^ 32 - b

/-- Seconds until the whole job is done, if it's at the head of the queue at `now`. -/
def Job.secsLeft (job : Job) (now : ℕ) : ℕ :=
  job.started + job.secs - now + (job.batches - (job.done + 1)) * job.secs

namespace Queue

/-- Seconds until everything queued is done. -/
def secsLeft (q : Queue) (now : ℕ) : ℕ :=
  match q with
  | [] => 0
  | job :: rest =>
    job.secsLeft now + (rest.map fun job => (job.batches - job.done) * job.secs).sum

end Queue

structure JobView where
  station : Station
  item : Item
  batches : ℕ
  done : ℕ
  secs : ℕ
  secsLeft : ℕ
  deriving DecidableEq, Repr

def JobView.of (station : Station) (job : Job) (secsLeft : ℕ) : JobView :=
  { station, item := job.recipe, batches := job.batches, done := job.done, secs := job.secs, secsLeft }

structure HangarView where
  credits : ℕ
  stock : List (Item × ℕ)
  parts : List PartUnit
  bay : Bay
  jobs : List JobView

namespace HangarView

/-- The jobs behind the one at the head, with so many seconds ahead of them. -/
def waiting (station : Station) : ℕ → List Job → List JobView
  | _, [] => []
  | ahead, job :: rest =>
    let ahead := ahead + wrappingSub32 job.batches job.done * job.secs
    .of station job ahead :: waiting station ahead rest

def jobsAt (station : Station) (q : Queue) (now : ℕ) : List JobView :=
  match q with
  | [] => []
  | job :: rest => .of station job (job.secsLeft now) :: waiting station (job.secsLeft now) rest

def of (h : PilotHangar) (now : ℕ) : HangarView where
  credits := h.credits
  stock := h.stores.stock.entries
  parts := h.stores.parts
  bay := h.bay
  jobs := [Station.fabricator, .foundry].flatMap fun station =>
    jobsAt station (h.works.queue station) now

end HangarView

/-! ## When a job goes -/

namespace Queue

def Made (q : Queue) : Prop := ∀ job ∈ q, (recipe job.recipe).isSome

instance (q : Queue) : Decidable q.Made := List.decidableBAll _ q

def Proper (q : Queue) : Prop := q.Made ∧ ∀ job ∈ q, job.done ≤ job.batches

def gone (q : Queue) (t : ℕ) : ℕ := q.length - (q.settle t).1.length

/-- What a job has left to do, in seconds. -/
def span (job : Job) : ℕ := (job.batches - job.done) * job.secs

variable {job : Job} {rest q : Queue} {t s k now : ℕ} {start : Option ℕ}

theorem Made.tail (h : Made (job :: rest)) : Made rest := fun j hj => h j (List.mem_cons_of_mem _ hj)

/-- A job with nothing ahead of it is still there, or is done and lets the next one start. -/
theorem settleFrom_cases (hmade : (recipe job.recipe).isSome) (t : ℕ) (start : Option ℕ)
    (rest : Queue) :
    (job.done < job.batches ∧ t < start.getD job.started + span job ∧
        ∃ n, (settleFrom t start (job :: rest) []).1 = (head start job).after n :: rest ∧
          t < start.getD job.started + (n + 1) * job.secs) ∨
      ((job.done < job.batches → start.getD job.started + span job ≤ t) ∧
        (settleFrom t start (job :: rest) []).1
          = (settleFrom t (some (start.getD job.started + span job)) rest []).1) := by
  obtain ⟨r, hr⟩ := Option.isSome_iff_exists.mp hmade
  obtain ⟨n, hn, heq, hdue, hnext⟩ :=
    Job.advance_eq t (job.batches - job.done) (head start job)
  rw [settleFrom_some hr]
  dsimp only
  rw [(runBatches_eq r t _ (head start job) []).1, heq]
  have hdone : ((head start job).after n).done = job.done + n := rfl
  rw [hdone]
  by_cases hleft : job.done + n < job.batches
  · left
    have hlate : t < start.getD job.started + (n + 1) * job.secs := hnext (by omega)
    have hspan : (n + 1) * job.secs ≤ span job := Nat.mul_le_mul_right _ (by omega)
    refine ⟨by omega, by omega, n, ?_, hlate⟩
    rw [if_pos hleft]
  · right
    rw [if_neg hleft]
    have hall : n = job.batches - job.done := by omega
    subst hall
    constructor
    · intro hlt
      exact hdue (by omega)
    · rw [(settleFrom_out t _ rest _).1]
      rfl

theorem length_settleFrom_le (t : ℕ) (start : Option ℕ) (q : Queue) :
    (settleFrom t start q []).1.length ≤ q.length := by
  induction q generalizing start with
  | nil => exact le_rfl
  | cons job rest ih =>
    cases hr : recipe job.recipe with
    | none =>
      rw [settleFrom_none hr]
      exact (ih none).trans (Nat.le_succ _)
    | some r =>
      have hmade : (recipe job.recipe).isSome := by rw [hr]; rfl
      rcases settleFrom_cases hmade t start rest with ⟨-, -, n, heq, -⟩ | ⟨-, heq⟩
      · rw [heq]
        exact le_rfl
      · rw [heq]
        exact (ih _).trans (Nat.le_succ _)

/-- The jobs behind one that finished at `s` leave in their order, each its own time after the one
before it. -/
theorem length_settleFrom (hmade : Made q) (hst : s ≤ t) (hk : k < q.length) :
    (settleFrom t (some s) q []).1.length ≤ q.length - (k + 1)
      ↔ s + ((q.take (k + 1)).map span).sum ≤ t := by
  induction q generalizing s k with
  | nil => exact absurd hk (Nat.not_lt_zero k)
  | cons job rest ih =>
    rw [List.take_succ_cons, List.map_cons, List.sum_cons, List.length_cons]
    rcases settleFrom_cases (hmade job List.mem_cons_self) t (some s) rest with
      ⟨-, hlate, n, heq, -⟩ | ⟨hdue, heq⟩
    · rw [Option.getD_some] at hlate
      rw [heq, List.length_cons]
      constructor
      · intro hle
        omega
      · intro hle
        omega
    · rw [Option.getD_some] at hdue heq
      have hspan : s + span job ≤ t := by
        rcases Nat.lt_or_ge job.done job.batches with hlt | hge
        · exact hdue hlt
        · rw [span, Nat.sub_eq_zero_of_le hge, Nat.zero_mul]
          exact hst
      rw [heq]
      cases k with
      | zero =>
        have hlen := length_settleFrom_le t (some (s + span job)) rest
        simp only [List.take_zero, List.map_nil, List.sum_nil]
        omega
      | succ k =>
        have hrest := ih hmade.tail hspan (Nat.lt_of_succ_lt_succ hk)
        rw [show rest.length + 1 - (k + 1 + 1) = rest.length - (k + 1) by omega, hrest]
        omega

theorem settled_head (hmade : (recipe job.recipe).isSome)
    (hsettled : (settle (job :: rest) now).1 = job :: rest) :
    job.done < job.batches ∧ now < job.started + job.secs := by
  rcases settleFrom_cases hmade now none rest with ⟨hlt, -, n, heq, hlate⟩ | ⟨-, heq⟩
  · have hjob : (head none job).after n = job := (List.cons.inj (heq.symm.trans hsettled)).1
    have hdone : job.done + n = job.done := congrArg Job.done hjob
    obtain rfl : n = 0 := by omega
    refine ⟨hlt, ?_⟩
    simpa using hlate
  · have hlen := length_settleFrom_le now (some ((none : Option ℕ).getD job.started + span job)) rest
    rw [← heq] at hlen
    have hsame := congrArg List.length hsettled
    rw [settle] at hsame
    rw [hsame, List.length_cons] at hlen
    omega

theorem now_add_secsLeft (hlt : job.done < job.batches) (hnow : now < job.started + job.secs) :
    now + job.secsLeft now = job.started + span job := by
  have hspan : span job = job.secs + (job.batches - (job.done + 1)) * job.secs := by
    rw [span, show job.batches - job.done = 1 + (job.batches - (job.done + 1)) by omega, Nat.add_mul,
      Nat.one_mul]
  rw [Job.secsLeft, hspan]
  omega

/-- The jobs of a settled queue leave in their order, at the times they are said to take. -/
theorem lt_gone_iff (hmade : Made (job :: rest))
    (hsettled : (settle (job :: rest) now).1 = job :: rest) (hk : k < (job :: rest).length) (d : ℕ) :
    k < gone (job :: rest) (now + d) ↔ job.secsLeft now + ((rest.take k).map span).sum ≤ d := by
  obtain ⟨hlt, hnow⟩ := settled_head (hmade job List.mem_cons_self) hsettled
  have hhead := now_add_secsLeft hlt hnow
  have hlen := length_settleFrom_le (now + d) none (job :: rest)
  rw [gone, settle]
  rcases settleFrom_cases (hmade job List.mem_cons_self) (now + d) none rest with
    ⟨-, hlate, n, heq, -⟩ | ⟨hdue, heq⟩
  · rw [Option.getD_none] at hlate
    rw [heq, List.length_cons, List.length_cons]
    constructor
    · intro hgone
      omega
    · intro hle
      omega
  · rw [Option.getD_none] at hdue heq
    have hdone := hdue hlt
    have hrest := length_settleFrom_le (now + d) (some (job.started + span job)) rest
    rw [heq] at hlen ⊢
    rw [List.length_cons] at hk hlen ⊢
    cases k with
    | zero =>
      simp only [List.take_zero, List.map_nil, List.sum_nil]
      omega
    | succ k =>
      have hiff := length_settleFrom hmade.tail hdone (Nat.lt_of_succ_lt_succ hk)
      constructor
      · intro hgone
        have hle := hiff.mp (by omega)
        omega
      · intro hle
        have hlen' := hiff.mpr (by omega)
        omega

/-- Nothing is left of a settled queue once the time it shows has passed. -/
theorem settle_eq_nil_iff (hmade : Made q) (hsettled : (q.settle now).1 = q) (d : ℕ) :
    (q.settle (now + d)).1 = [] ↔ q.secsLeft now ≤ d := by
  cases q with
  | nil => exact ⟨fun _ => Nat.zero_le d, fun _ => rfl⟩
  | cons job rest =>
    have hlast := lt_gone_iff hmade hsettled (k := rest.length) (Nat.lt_succ_self _) d
    rw [List.take_length] at hlast
    rw [← List.length_eq_zero_iff]
    refine Iff.trans ?_ hlast
    have hlen := length_settleFrom_le (now + d) none (job :: rest)
    rw [gone, settle, List.length_cons] at *
    omega

/-! ## The queues there are -/

theorem Proper.cons_iff : Proper (job :: rest) ↔
    ((recipe job.recipe).isSome ∧ job.done ≤ job.batches) ∧ Proper rest := by
  simp only [Proper, Made, List.forall_mem_cons]
  tauto

theorem Proper.push (h : Proper q) {item : Item} (hmade : (recipe item).isSome)
    (batches secs now feePct : ℕ) : Proper (q.push item batches secs now feePct) := by
  constructor
  · intro job hjob
    rcases List.mem_append.mp hjob with hold | hnew
    · exact h.1 job hold
    · rw [List.mem_singleton.mp hnew]
      exact hmade
  · intro job hjob
    rcases List.mem_append.mp hjob with hold | hnew
    · exact h.2 job hold
    · rw [List.mem_singleton.mp hnew]
      exact Nat.zero_le _

theorem Proper.settleFrom (h : Proper q) (t : ℕ) (start : Option ℕ) :
    Proper (settleFrom t start q []).1 := by
  induction q generalizing start with
  | nil => exact h
  | cons job rest ih =>
    obtain ⟨⟨hmade, hdone⟩, hrest⟩ := Proper.cons_iff.mp h
    obtain ⟨r, hr⟩ := Option.isSome_iff_exists.mp hmade
    obtain ⟨n, hn, heq, -, -⟩ := Job.advance_eq t (job.batches - job.done) (head start job)
    rw [settleFrom_some hr]
    dsimp only
    rw [(runBatches_eq r t _ (head start job) []).1, heq]
    split
    next hlt => exact Proper.cons_iff.mpr ⟨⟨hmade, hlt.le⟩, hrest⟩
    next =>
      rw [(settleFrom_out t _ rest _).1]
      exact ih hrest _

theorem Proper.cancel (h : Proper q) (index now : ℕ) : Proper (q.cancel index now).1 := by
  have hstart {next : Job} {more : Queue} (hl : Proper (next :: more)) :
      Proper ({ next with started := now } :: more) := by
    have hcons := Proper.cons_iff.mp hl
    exact Proper.cons_iff.mpr hcons
  have herase : Proper (q.eraseIdx index) :=
    ⟨fun job hjob => h.1 job (List.mem_of_mem_eraseIdx hjob),
      fun job hjob => h.2 job (List.mem_of_mem_eraseIdx hjob)⟩
  unfold Queue.cancel
  split
  · exact h
  · dsimp only
    split
    · dsimp only
      split
      next heq => exact hstart (heq ▸ herase)
      next => exact herase
    · dsimp only
      split
      next heq => exact hstart (heq ▸ herase)
      next => exact herase

end Queue

namespace HangarView

variable {station : Station} {q : Queue} {job : Job} {now k : ℕ}

theorem waiting_get (hdone : ∀ job ∈ q, job.done ≤ job.batches) (hjob : q[k]? = some job)
    (ahead : ℕ) : (waiting station ahead q)[k]?
      = some (.of station job (ahead + ((q.take (k + 1)).map Queue.span).sum)) := by
  induction q generalizing k ahead with
  | nil => cases hjob
  | cons first rest ih =>
    have hfirst : wrappingSub32 first.batches first.done = first.batches - first.done :=
      if_pos (hdone first List.mem_cons_self)
    rw [waiting, hfirst, List.take_succ_cons, List.map_cons, List.sum_cons]
    cases k with
    | zero =>
      obtain rfl := Option.some.inj hjob
      rfl
    | succ k =>
      have hrest := ih (fun j hj => hdone j (List.mem_cons_of_mem _ hj)) hjob
        (ahead + (first.batches - first.done) * first.secs)
      rw [Nat.add_assoc] at hrest
      exact hrest

/-- The time shown for a job of a settled queue is the first after which it's gone. -/
theorem jobsAt_get (hmade : q.Made) (hdone : ∀ job ∈ q, job.done ≤ job.batches)
    (hsettled : (q.settle now).1 = q) (hjob : q[k]? = some job) :
    ∃ secsLeft, (jobsAt station q now)[k]? = some (.of station job secsLeft) ∧
      IsLeast {d | k < q.gone (now + d)} secsLeft := by
  obtain ⟨hk, -⟩ := List.getElem?_eq_some_iff.mp hjob
  cases q with
  | nil => cases hjob
  | cons first rest =>
    have hgone := Queue.lt_gone_iff hmade hsettled hk
    refine ⟨first.secsLeft now + ((rest.take k).map Queue.span).sum, ?_, ?_, fun d hd => ?_⟩
    · cases k with
      | zero =>
        obtain rfl := Option.some.inj hjob
        rfl
      | succ k => exact waiting_get (fun j hj => hdone j (List.mem_cons_of_mem _ hj)) hjob _
    · exact (hgone _).mpr le_rfl
    · exact (hgone d).mp hd

theorem station_of_mem {v : JobView} (hv : v ∈ jobsAt station q now) : v.station = station := by
  have hwaiting (ahead : ℕ) (l : List Job) (hv : v ∈ waiting station ahead l) :
      v.station = station := by
    induction l generalizing ahead with
    | nil => cases hv
    | cons first rest ih =>
      rcases List.mem_cons.mp hv with rfl | hrest
      · rfl
      · exact ih _ hrest
  cases q with
  | nil => cases hv
  | cons first rest =>
    rcases List.mem_cons.mp hv with rfl | hrest
    · rfl
    · exact hwaiting _ _ hrest

theorem jobs_at (h : PilotHangar) (now : ℕ) (station : Station) :
    ((HangarView.of h now).jobs.filter fun v => v.station = station)
      = jobsAt station (h.works.queue station) now := by
  have hown (st : Station) : (jobsAt st (h.works.queue st) now).filter (fun v => v.station = station)
      = if st = station then jobsAt st (h.works.queue st) now else [] := by
    split
    next heq =>
      rw [List.filter_eq_self]
      intro v hv
      rw [station_of_mem hv, heq]
      exact decide_eq_true rfl
    next hne =>
      rw [List.filter_eq_nil_iff]
      intro v hv
      rw [station_of_mem hv]
      simpa using hne
  simp only [HangarView.of, List.flatMap_cons, List.flatMap_nil, List.append_nil, List.filter_append,
    hown]
  cases station <;> simp

end HangarView

/-- The time shown is the time it takes: a settled queue of jobs that can be made is empty just when
the seconds it says are left have passed, and the time a hangar's view shows for a job is the first
after which that job is gone. -/
theorem time_shown :
    (∀ (q : Queue) (now d : ℕ), q.Made → (q.settle now).1 = q →
      ((q.settle (now + d)).1 = [] ↔ q.secsLeft now ≤ d)) ∧
    ∀ (h : PilotHangar) (station : Station) (now k : ℕ) (job : Job),
      (h.works.queue station).Proper →
      ((h.works.queue station).settle now).1 = h.works.queue station →
      (h.works.queue station)[k]? = some job →
      ∃ secsLeft, ((HangarView.of h now).jobs.filter fun v => v.station = station)[k]?
          = some (.of station job secsLeft) ∧
        IsLeast {d | k < (h.works.queue station).gone (now + d)} secsLeft := by
  constructor
  · intro q now d hmade hsettled
    exact Queue.settle_eq_nil_iff hmade hsettled d
  · intro h station now k job hproper hsettled hjob
    rw [HangarView.jobs_at]
    exact HangarView.jobsAt_get hproper.1 hproper.2 hsettled hjob

theorem time_shown_steel :
    let q : Queue := [⟨steel, 3, 1, 20, 90, 100⟩, ⟨siderium, 2, 0, 180, 0, 100⟩]
    (q.settle (100 + 410)).1 = [] ↔ q.secsLeft 100 ≤ 410 :=
  time_shown.1 _ 100 410 (by decide) (by decide)

/-- A job nothing makes any more is counted, and dropped as soon as the one before it is done; one
with more batches done than it has is shown with what a `u32` makes of the difference. -/
theorem dropped_job_counted :
    let dropped : Queue := [⟨steel, 1, 0, 20, 90, 100⟩, ⟨.ore .nickelIron, 1, 0, 50, 0, 100⟩]
    let overdone : Queue := [⟨steel, 1, 0, 20, 90, 100⟩, ⟨steel, 1, 2, 20, 0, 100⟩]
    ((dropped.settle 100).1 = dropped ∧ (dropped.settle (100 + 10)).1 = [] ∧
      ¬ dropped.secsLeft 100 ≤ 10) ∧
    (overdone.settle 100).1 = overdone ∧ (overdone.settle (100 + 10)).1 = [] ∧
      (HangarView.of { PilotHangar.starter with works := ⟨overdone, []⟩ } 100).jobs.map
        JobView.secsLeft = [10, 10 + (2 ^ 32 - 1) * 20] := by
  decide

end BeforeColony
