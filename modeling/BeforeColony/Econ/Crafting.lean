import BeforeColony.Econ.Fab

/-!
# Crafting on the clock

What a station's queue has made by a time, and what it still has to do, don't depend on how often
anyone looks. A job runs by whole batches; what it doesn't use of a time goes to the next job.
-/

set_option autoImplicit false

namespace BeforeColony

open Catalogue

def amountIn (item : Item) (goods : List (Item × ℕ)) : ℕ :=
  (goods.map fun e => if e.1 = item then e.2 else 0).sum

theorem amountIn_append (item : Item) (goods goods' : List (Item × ℕ)) :
    amountIn item (goods ++ goods') = amountIn item goods + amountIn item goods' := by
  rw [amountIn, List.map_append, List.sum_append]
  rfl

namespace Job

/-- The job at the head of a queue with so many batches left to make, run to `now`. -/
def advance (now : ℕ) : ℕ → Job → Job
  | 0, job => job
  | left + 1, job =>
    if job.started + job.secs ≤ now then
      advance now left { job with started := job.started + job.secs, done := job.done + 1 }
    else job

def after (job : Job) (n : ℕ) : Job :=
  { job with started := job.started + n * job.secs, done := job.done + n }

theorem after_zero (job : Job) : job.after 0 = job := by simp [after]

theorem after_succ (job : Job) (n : ℕ) :
    Job.after { job with started := job.started + job.secs, done := job.done + 1 } n
      = job.after (n + 1) := by
  simp only [after, Job.mk.injEq, true_and, and_true]
  constructor
  · omega
  · ring

theorem after_after (job : Job) (n m : ℕ) : (job.after n).after m = job.after (n + m) := by
  simp only [after, Job.mk.injEq, true_and, and_true]
  constructor
  · omega
  · ring

/-- The batches made by a time are all but those that weren't done yet. -/
theorem advance_eq (now left : ℕ) (job : Job) :
    ∃ n ≤ left, advance now left job = job.after n ∧ (0 < n → job.started + n * job.secs ≤ now) ∧
      (n < left → now < job.started + (n + 1) * job.secs) := by
  induction left generalizing job with
  | zero => exact ⟨0, le_rfl, job.after_zero.symm, nofun, nofun⟩
  | succ left ih =>
    rw [advance]
    split
    next hdue =>
      obtain ⟨n, hn, heq, hmade, hnext⟩ :=
        ih { job with started := job.started + job.secs, done := job.done + 1 }
      refine ⟨n + 1, Nat.succ_le_succ hn, heq.trans (job.after_succ n), fun _ => ?_, fun hlt => ?_⟩
      · rcases Nat.eq_zero_or_pos n with rfl | hpos
        · simpa using hdue
        · calc job.started + (n + 1) * job.secs = job.started + job.secs + n * job.secs := by ring
            _ ≤ now := hmade hpos
      · calc now < job.started + job.secs + (n + 1) * job.secs := hnext (Nat.lt_of_succ_lt_succ hlt)
          _ = job.started + (n + 1 + 1) * job.secs := by ring
    next hdue =>
      refine ⟨0, Nat.zero_le _, job.after_zero.symm, fun h => absurd h (lt_irrefl 0), fun _ => ?_⟩
      simpa using hdue

/-- Run to one time and then to a later one, a job is as if run to the later one at once. -/
theorem advance_advance {t₁ t₂ : ℕ} (h : t₁ ≤ t₂) (left : ℕ) (job : Job) :
    advance t₂ (left - ((advance t₁ left job).done - job.done)) (advance t₁ left job)
      = advance t₂ left job := by
  induction left generalizing job with
  | zero => simp [advance]
  | succ left ih =>
    rw [advance]
    split
    next hdue =>
      have hlater : job.started + job.secs ≤ t₂ := hdue.trans h
      have hnext := ih { job with started := job.started + job.secs, done := job.done + 1 }
      obtain ⟨n, hn, heq, -, -⟩ :=
        advance_eq t₁ left { job with started := job.started + job.secs, done := job.done + 1 }
      rw [heq] at hnext ⊢
      have hleft : left + 1 - ((after { job with
            started := job.started + job.secs, done := job.done + 1 } n).done - job.done)
          = left - ((after { job with
            started := job.started + job.secs, done := job.done + 1 } n).done - (job.done + 1)) := by
        simp only [after]
        omega
      rw [hleft, advance, if_pos hlater]
      exact hnext
    · rw [Nat.sub_self, Nat.sub_zero]

end Job

namespace Queue

theorem runBatches_eq (r : Recipe) (now left : ℕ) (job : Job) (out : List (Item × ℕ)) :
    (runBatches r now left job out).1 = job.advance now left ∧
      ∀ item, amountIn item (runBatches r now left job out).2 = amountIn item out +
        if r.output = item then r.makes * ((job.advance now left).done - job.done) else 0 := by
  have hdeliver (out : List (Item × ℕ)) (item : Item) :
      amountIn item (deliver out r.output r.makes) = amountIn item out +
        if r.output = item then r.makes else 0 := by
    unfold deliver
    split
    next last hlast =>
      obtain ⟨front, rfl⟩ := List.getLast?_eq_some_iff.mp hlast
      split
      next heq =>
        rw [List.dropLast_concat, amountIn_append, amountIn_append, ← heq, Nat.add_assoc]
        simp only [amountIn, List.map_cons, List.map_nil, List.sum_singleton]
        split <;> rfl
      · rw [amountIn_append]
        simp [amountIn]
    next hnone =>
      rw [List.getLast?_eq_none_iff.mp hnone]
      simp [amountIn]
  induction left generalizing job out with
  | zero => simp [runBatches, Job.advance]
  | succ left ih =>
    rw [runBatches, Job.advance]
    split
    next hdue =>
      obtain ⟨hjob, hout⟩ := ih { job with started := job.started + job.secs, done := job.done + 1 }
        (deliver out r.output r.makes)
      refine ⟨hjob, fun item => ?_⟩
      rw [hout, hdeliver]
      obtain ⟨n, -, heq, -, -⟩ :=
        Job.advance_eq now left { job with started := job.started + job.secs, done := job.done + 1 }
      rw [heq]
      simp only [Job.after]
      split
      · rw [show job.done + 1 + n - (job.done + 1) = n by omega,
          show job.done + 1 + n - job.done = n + 1 by omega]
        ring
      · rfl
    · simp

def head (start : Option ℕ) (job : Job) : Job := { job with started := start.getD job.started }

theorem settleFrom_none {job : Job} (h : recipe job.recipe = none) (now : ℕ) (start : Option ℕ)
    (rest : Queue) (out : List (Item × ℕ)) :
    settleFrom now start (job :: rest) out = settleFrom now none rest out := by
  rw [settleFrom, h]

theorem settleFrom_some {job : Job} {r : Recipe} (h : recipe job.recipe = some r) (now : ℕ)
    (start : Option ℕ) (rest : Queue) (out : List (Item × ℕ)) :
    settleFrom now start (job :: rest) out =
      let ran := runBatches r now (job.batches - job.done) (head start job) out
      if ran.1.done < job.batches then (ran.1 :: rest, ran.2)
      else settleFrom now (some ran.1.started) rest ran.2 := by
  have hbatches : (runBatches r now (job.batches - job.done) (head start job) out).1.batches
      = job.batches := by
    obtain ⟨n, -, heq, -, -⟩ := Job.advance_eq now (job.batches - job.done) (head start job)
    rw [(runBatches_eq r now _ (head start job) out).1, heq]
    rfl
  rw [settleFrom, h]
  simp only [head] at hbatches ⊢
  rw [hbatches]
  rfl

/-- What was delivered before is delivered, and changes nothing else. -/
theorem settleFrom_out (now : ℕ) (start : Option ℕ) (q : Queue) (out : List (Item × ℕ)) :
    (settleFrom now start q out).1 = (settleFrom now start q []).1 ∧
      ∀ item, amountIn item (settleFrom now start q out).2
        = amountIn item out + amountIn item (settleFrom now start q []).2 := by
  induction q generalizing start out with
  | nil => exact ⟨rfl, fun item => rfl⟩
  | cons job rest ih =>
    cases hr : recipe job.recipe with
    | none =>
      rw [settleFrom_none hr, settleFrom_none hr]
      exact ih none out
    | some r =>
      rw [settleFrom_some hr, settleFrom_some hr]
      obtain ⟨hjob, hout⟩ := runBatches_eq r now (job.batches - job.done) (head start job) out
      obtain ⟨hjob', hout'⟩ := runBatches_eq r now (job.batches - job.done) (head start job) []
      dsimp only
      rw [hjob, hjob']
      split
      · refine ⟨rfl, fun item => ?_⟩
        dsimp only
        rw [hout, hout']
        simp [amountIn]
      · obtain ⟨hq, hmade⟩ := ih (some ((head start job).advance now (job.batches - job.done)).started)
          (runBatches r now (job.batches - job.done) (head start job) out).2
        obtain ⟨hq', hmade'⟩ := ih (some ((head start job).advance now (job.batches - job.done)).started)
          (runBatches r now (job.batches - job.done) (head start job) []).2
        refine ⟨hq.trans hq'.symm, fun item => ?_⟩
        rw [hmade, hmade', hout, hout']
        simp [amountIn]
        ring

/-- Settled to one time and then to a later one, a queue is as if settled to the later one at once. -/
theorem settleFrom_settle {t₁ t₂ : ℕ} (h : t₁ ≤ t₂) (start : Option ℕ) (q : Queue) :
    ((settleFrom t₁ start q []).1.settle t₂).1 = (settleFrom t₂ start q []).1 ∧
      ∀ item, amountIn item (settleFrom t₁ start q []).2
          + amountIn item ((settleFrom t₁ start q []).1.settle t₂).2
        = amountIn item (settleFrom t₂ start q []).2 := by
  induction q generalizing start with
  | nil => exact ⟨rfl, fun item => rfl⟩
  | cons job rest ih =>
    cases hr : recipe job.recipe with
    | none =>
      rw [settleFrom_none hr, settleFrom_none hr]
      exact ih none
    | some r =>
      obtain ⟨n, -, hfirst, -, -⟩ :=
        Job.advance_eq t₁ (job.batches - job.done) (head start job)
      have hlater := Job.advance_advance h (job.batches - job.done) (head start job)
      obtain ⟨hjob₁, hout₁⟩ := runBatches_eq r t₁ (job.batches - job.done) (head start job) []
      obtain ⟨hjob₂, hout₂⟩ := runBatches_eq r t₂ (job.batches - job.done) (head start job) []
      rw [settleFrom_some hr, settleFrom_some hr]
      dsimp only
      rw [hjob₁, hjob₂]
      rw [hfirst] at hlater hjob₁ hout₁ ⊢
      have hbatches : ((head start job).after n).batches - ((head start job).after n).done
          = job.batches - job.done - (((head start job).after n).done - (head start job).done) := by
        simp only [Job.after, head]
        omega
      by_cases hleft : ((head start job).after n).done < job.batches
      · -- the job is still under way at the first time, and goes on from where it is
        rw [if_pos hleft]
        have hgo : recipe ((head start job).after n).recipe = some r := hr
        rw [settle, settleFrom_some hgo]
        obtain ⟨hjob₃, hout₃⟩ := runBatches_eq r t₂
          (((head start job).after n).batches - ((head start job).after n).done)
          (head none ((head start job).after n)) []
        have hhead : head none ((head start job).after n) = (head start job).after n := rfl
        rw [hhead, hbatches, hlater] at hjob₃ hout₃
        dsimp only
        rw [hhead, hbatches, hjob₃]
        have hitem (item : Item) : amountIn item
              (runBatches r t₁ (job.batches - job.done) (head start job) []).2 + amountIn item
              (runBatches r t₂ (job.batches - job.done
                - (((head start job).after n).done - (head start job).done))
                ((head start job).after n) []).2
            = amountIn item
              (runBatches r t₂ (job.batches - job.done) (head start job) []).2 := by
          obtain ⟨m, -, hsecond, -, -⟩ := Job.advance_eq t₂ (job.batches - job.done
            - (((head start job).after n).done - (head start job).done)) ((head start job).after n)
          rw [hout₁, hout₂, hout₃, ← hlater, hsecond, Job.after_after]
          simp only [Job.after, Nat.add_sub_cancel_left, Nat.add_sub_add_left, head, amountIn,
            List.map_nil, List.sum_nil, Nat.zero_add]
          split
          · ring
          · rfl
        rw [show ((head start job).after n).batches = job.batches from rfl]
        split
        · exact ⟨rfl, hitem⟩
        · obtain ⟨hq₁, hmade₁⟩ := settleFrom_out t₂
            (some ((head start job).advance t₂ (job.batches - job.done)).started) rest
            (runBatches r t₂ (job.batches - job.done
              - (((head start job).after n).done - (head start job).done))
              ((head start job).after n) []).2
          obtain ⟨hq₂, hmade₂⟩ := settleFrom_out t₂
            (some ((head start job).advance t₂ (job.batches - job.done)).started) rest
            (runBatches r t₂ (job.batches - job.done) (head start job) []).2
          refine ⟨hq₁.trans hq₂.symm, fun item => ?_⟩
          rw [hmade₁, hmade₂, ← hitem]
          ring
      · -- all of it is made by the first time, and so by the second
        have hsame : (head start job).advance t₂ (job.batches - job.done)
            = (head start job).after n := by
          rw [← hlater, ← hbatches, show ((head start job).after n).batches
            - ((head start job).after n).done = 0 from Nat.sub_eq_zero_of_le (not_lt.mp hleft)]
          rfl
        rw [hsame] at hout₂
        rw [if_neg hleft, hsame, if_neg hleft]
        obtain ⟨hq₁, hmade₁⟩ := settleFrom_out t₁ (some ((head start job).after n).started) rest
          (runBatches r t₁ (job.batches - job.done) (head start job) []).2
        obtain ⟨hq₂, hmade₂⟩ := settleFrom_out t₂ (some ((head start job).after n).started) rest
          (runBatches r t₂ (job.batches - job.done) (head start job) []).2
        obtain ⟨hq, hmade⟩ := ih (some ((head start job).after n).started)
        rw [hq₁, hq₂]
        refine ⟨hq, fun item => ?_⟩
        rw [hmade₁, hmade₂, hout₁, hout₂, ← hmade]
        ring

end Queue

/-- Crafting is additive in time: settled at one time and then at a later one, a queue has delivered
the same of every item and is left the same as if settled once at the later one; and so are a
pilot's two stations. -/
theorem settle_additive {t₁ t₂ : ℕ} (h : t₁ ≤ t₂) :
    (∀ q : Queue, ((q.settle t₁).1.settle t₂).1 = (q.settle t₂).1 ∧
      ∀ item, amountIn item (q.settle t₁).2 + amountIn item ((q.settle t₁).1.settle t₂).2
        = amountIn item (q.settle t₂).2) ∧
    ∀ w : Works, ((w.settle t₁).1.settle t₂).1 = (w.settle t₂).1 ∧
      ∀ item, amountIn item (w.settle t₁).2 + amountIn item ((w.settle t₁).1.settle t₂).2
        = amountIn item (w.settle t₂).2 := by
  have hqueue (q : Queue) := Queue.settleFrom_settle h none q
  refine ⟨hqueue, fun w => ?_⟩
  obtain ⟨hfab, hfabMade⟩ := hqueue w.fabricator
  obtain ⟨hfoundry, hfoundryMade⟩ := hqueue w.foundry
  refine ⟨congrArg₂ Works.mk hfab hfoundry, fun item => ?_⟩
  simp only [Works.settle, amountIn_append]
  calc _ = (amountIn item (w.fabricator.settle t₁).2
          + amountIn item ((w.fabricator.settle t₁).1.settle t₂).2)
        + (amountIn item (w.foundry.settle t₁).2
          + amountIn item ((w.foundry.settle t₁).1.settle t₂).2) := by ring
    _ = amountIn item (w.fabricator.settle t₂).2 + amountIn item (w.foundry.settle t₂).2 :=
        congrArg₂ (· + ·) (hfabMade item) (hfoundryMade item)

/-- Three batches of steel and one of siderium, looked at while the second is being made. -/
theorem settle_additive_looked_at :
    let works : Works := ⟨[⟨steel, 3, 0, 20, 0, 100⟩], [⟨siderium, 1, 0, 180, 0, 100⟩]⟩
    ((works.settle 50).1.settle 200).1 = (works.settle 200).1 ∧
      ∀ item, amountIn item (works.settle 50).2 + amountIn item ((works.settle 50).1.settle 200).2
        = amountIn item (works.settle 200).2 :=
  (settle_additive (by decide)).2 _

end BeforeColony
