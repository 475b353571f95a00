import BeforeColony.Econ.Catalogue

/-!
# The stations' queues

Each station runs its jobs one at a time, in order, on the wall clock. A job's inputs and
fee are taken when it is queued, each batch's output is delivered as it finishes, and a
cancelled job gives back what its unmade batches would have used.
-/

set_option autoImplicit false

namespace BeforeColony

open Catalogue

def maxJobs : ℕ := 8

structure Job where
  recipe : Item
  batches : ℕ
  done : ℕ
  secs : ℕ
  /-- When the batch under way started, at the head of the queue. -/
  started : ℕ
  feePct : ℕ
  deriving DecidableEq, Repr

abbrev Queue := List Job

namespace Queue

def isFull (q : Queue) : Bool := maxJobs ≤ q.length

def push (q : Queue) (recipe : Item) (batches secs now feePct : ℕ) : Queue :=
  let started := if q.isEmpty then now else 0
  q ++ [{ recipe, batches, done := 0, secs := max secs 1, started, feePct }]

/-- A batch delivered, added to the one before it if they are of one kind. -/
def deliver (out : List (Item × ℕ)) (item : Item) (makes : ℕ) : List (Item × ℕ) :=
  match out.getLast? with
  | some last =>
    if last.1 = item then out.dropLast ++ [(last.1, last.2 + makes)] else out ++ [(item, makes)]
  | none => [(item, makes)]

def runBatches (r : Recipe) (now : ℕ) : ℕ → Job → List (Item × ℕ) → Job × List (Item × ℕ)
  | 0, job, out => (job, out)
  | left + 1, job, out =>
    if job.started + job.secs ≤ now then
      runBatches r now left
        { job with started := job.started + job.secs, done := job.done + 1 }
        (deliver out r.output r.makes)
    else (job, out)

/-- Runs the clock to `now`. A job that finishes starts the next one at that moment
(`start`); one that nothing makes any more is dropped, and the next one's clock stands. -/
def settleFrom (now : ℕ) : Option ℕ → Queue → List (Item × ℕ) → Queue × List (Item × ℕ)
  | _, [], out => ([], out)
  | start, job :: rest, out =>
    match Catalogue.recipe job.recipe with
    | none => settleFrom now none rest out
    | some r =>
      let head := { job with started := start.getD job.started }
      let (job, out) := runBatches r now (head.batches - head.done) head out
      if job.done < job.batches then (job :: rest, out)
      else settleFrom now (some job.started) rest out

def settle (q : Queue) (now : ℕ) : Queue × List (Item × ℕ) := settleFrom now none q []

/-- Takes a job off the queue: what its unmade batches would have used, and their fees. The
job goes even when nothing is given back for it. -/
def cancel (q : Queue) (index now : ℕ) : Queue × Option (List (Item × ℕ) × ℕ) :=
  match q[index]? with
  | none => (q, none)
  | some job =>
    let rest := q.eraseIdx index
    let rest :=
      match index, rest with
      | 0, next :: more => { next with started := now } :: more
      | _, rest => rest
    let left := job.batches - job.done
    match Catalogue.recipe job.recipe with
    | none => (rest, none)
    | some r =>
      (rest, some (r.inputs.map fun e => (e.1, e.2 * left), r.fee * left * job.feePct / 100))

end Queue

structure Works where
  fabricator : Queue
  foundry : Queue
  deriving DecidableEq, Repr

namespace Works

def empty : Works := ⟨[], []⟩

def queue (w : Works) : Station → Queue
  | .fabricator => w.fabricator
  | .foundry => w.foundry

def setQueue (w : Works) (station : Station) (q : Queue) : Works :=
  match station with
  | .fabricator => { w with fabricator := q }
  | .foundry => { w with foundry := q }

def settle (w : Works) (now : ℕ) : Works × List (Item × ℕ) :=
  let (fabricator, made) := w.fabricator.settle now
  let (foundry, cast) := w.foundry.settle now
  (⟨fabricator, foundry⟩, made ++ cast)

end Works

end BeforeColony
