import BeforeColony.Oracle.Worker

/-!
# The oracle's circuit breaker

What the calls have in common: three of them failing in a row open the breaker, and till it closes
none goes out. As at most eight are out at once, an oracle that is out of reach or overloaded is sent
at most ten requests in any ten seconds, however the calls come and go.
-/

set_option autoImplicit false

namespace BeforeColony.Oracle

open Lib

namespace Mark

def isSent : Mark → Bool
  | sent _ => true
  | _ => false

def isRecorded : Mark → Bool
  | recorded _ _ => true
  | _ => false

def isLost : Mark → Bool
  | lost => true
  | _ => false

def time : Mark → Option ℕ
  | sent t | recorded t _ => some t
  | lost => none

end Mark

namespace Breaker

def see (b : Breaker) : Mark → Breaker
  | .recorded t ok => b.record t ok
  | .sent _ | .lost => b

def replay (marks : List Mark) : Breaker := marks.foldl see {}

variable {b : Breaker} {l : List Mark}

theorem failures_see (h : b.failures < breakerThreshold) (m : Mark) :
    (b.see m).failures < breakerThreshold := by
  cases m with
  | sent t => exact h
  | lost => exact h
  | recorded t ok =>
    change (b.record t ok).failures < breakerThreshold
    unfold record
    split
    · exact Nat.zero_lt_succ _
    · split
      · exact Nat.zero_lt_succ _
      · rename_i hfew
        exact not_le.mp hfew

theorem failures_foldl (h : b.failures < breakerThreshold) (l : List Mark) :
    (l.foldl see b).failures < breakerThreshold := by
  induction l generalizing b with
  | nil => exact h
  | cons m rest ih => exact ih (failures_see h m)

theorem exists_opening (hbad : ∀ t, Mark.recorded t true ∉ l) (hb : b.failures < breakerThreshold)
    (hcount : breakerThreshold ≤ b.failures + l.countP Mark.isRecorded) :
    ∃ x t y, l = x ++ .recorded t false :: y
      ∧ breakerThreshold ≤ (x.foldl see b).failures + 1 := by
  induction l generalizing b with
  | nil =>
    rw [List.countP_nil] at hcount
    omega
  | cons m rest ih =>
    have hrest : ∀ t, Mark.recorded t true ∉ rest :=
      fun t hmem => hbad t (List.mem_cons_of_mem m hmem)
    have hlater (hsame : (b.see m).failures + rest.countP Mark.isRecorded
        = b.failures + (m :: rest).countP Mark.isRecorded) :
        ∃ x t y, m :: rest = x ++ .recorded t false :: y
          ∧ breakerThreshold ≤ (x.foldl see b).failures + 1 := by
      obtain ⟨x, t, y, heq, hfull⟩ := ih hrest (failures_see hb m) (hsame ▸ hcount)
      exact ⟨m :: x, t, y, by rw [heq]; rfl, hfull⟩
    cases m with
    | sent t => exact hlater rfl
    | lost => exact hlater rfl
    | recorded t ok =>
      cases ok with
      | true => exact absurd List.mem_cons_self (hbad t)
      | false =>
        by_cases hfull : breakerThreshold ≤ b.failures + 1
        · exact ⟨[], t, rest, rfl, hfull⟩
        · apply hlater
          have hsee : (b.see (.recorded t false)).failures = b.failures + 1 := by
            simp only [see, record, Bool.false_eq_true, if_false, if_neg hfull]
          have hone : (Mark.recorded t false :: rest).countP Mark.isRecorded
              = rest.countP Mark.isRecorded + 1 := List.countP_cons_of_pos rfl
          omega

/-- While nothing goes well it stays open for as long as it was opened for, at least. -/
theorem openUntil_foldl {u : ℕ} (hbad : ∀ t, Mark.recorded t true ∉ l)
    (hlater : ∀ t ok, Mark.recorded t ok ∈ l → u ≤ t + breakerCooldown)
    (hb : ∃ v, b.openUntil = some v ∧ u ≤ v) : ∃ v, (l.foldl see b).openUntil = some v ∧ u ≤ v := by
  induction l generalizing b with
  | nil => exact hb
  | cons m rest ih =>
    refine ih (fun t hmem => hbad t (List.mem_cons_of_mem m hmem))
      (fun t ok hmem => hlater t ok (List.mem_cons_of_mem m hmem)) ?_
    cases m with
    | sent t => exact hb
    | lost => exact hb
    | recorded t ok =>
      cases ok with
      | true => exact absurd List.mem_cons_self (hbad t)
      | false =>
        simp only [see, record, Bool.false_eq_true, if_false]
        split
        · exact ⟨t + breakerCooldown, rfl, hlater t false List.mem_cons_self⟩
        · exact hb

end Breaker

def Task.isCalling {P A : Type} (t : Task P A) : Bool :=
  match t.stage with
  | .calling => true
  | .waiting | .done _ | .panicked => false

namespace Worker

variable {P A : Type} {pilot : P → ℕ} {room : ℕ} {w : Worker P A}

def callingCount (w : Worker P A) : ℕ := w.tasks.countP Task.isCalling

/-- What the marks say of the breaker and the calls. -/
structure Marked (w : Worker P A) : Prop where
  replayed : Breaker.replay w.marks = w.breaker
  before : ∀ m ∈ w.marks, ∀ t, m.time = some t → t ≤ w.now
  sorted : w.marks.Pairwise fun m m' => ∀ t t', m.time = some t → m'.time = some t' → t ≤ t'
  closed : ∀ pre t post, w.marks = pre ++ .sent t :: post → (Breaker.replay pre).isOpen t = false
  out : w.marks.countP Mark.isSent
    = w.callingCount + (w.marks.countP Mark.isRecorded + w.marks.countP Mark.isLost)
  few : ∀ pre post, w.marks = pre ++ post →
    pre.countP Mark.isRecorded + pre.countP Mark.isLost ≤ pre.countP Mark.isSent
      ∧ pre.countP Mark.isSent
        ≤ maxInFlight + (pre.countP Mark.isRecorded + pre.countP Mark.isLost)

theorem callingCount_le (h : w.Kept pilot) : w.callingCount ≤ maxInFlight := by
  have hfew := h.few
  rw [pilots, List.length_map] at hfew
  exact List.countP_le_length.trans hfew

theorem marked_start : (start : Worker P A).Marked := by
  constructor
  · rfl
  · exact fun m hm => absurd hm List.not_mem_nil
  · exact List.Pairwise.nil
  · intro pre t post h
    exact absurd h (by cases pre <;> nofun)
  · rfl
  · intro pre post h
    have hpre : pre = [] := (List.append_eq_nil_iff.mp h.symm).1
    rw [hpre]
    exact ⟨le_rfl, Nat.zero_le _⟩

theorem Marked.of_eq {w' : Worker P A} (h : w.Marked) (hmarks : w'.marks = w.marks)
    (hbreaker : w'.breaker = w.breaker) (hnow : w.now ≤ w'.now)
    (hcalling : w'.callingCount = w.callingCount) : w'.Marked := by
  constructor
  · rw [hmarks, hbreaker]
    exact h.replayed
  · rw [hmarks]
    exact fun m hm t ht => (h.before m hm t ht).trans hnow
  · rw [hmarks]
    exact h.sorted
  · rw [hmarks]
    exact h.closed
  · rw [hmarks, hcalling]
    exact h.out
  · rw [hmarks]
    exact h.few

theorem Marked.snoc {w' : Worker P A} {m : Mark} (h : w.Marked) (hmarks : w'.marks = w.marks ++ [m])
    (hbreaker : w'.breaker = w.breaker.see m) (hnow : w'.now = w.now)
    (htime : ∀ t, m.time = some t → t = w.now)
    (hclosed : m.isSent = true → w.breaker.isOpen w.now = false)
    (hout : w'.marks.countP Mark.isSent
      = w'.callingCount + (w'.marks.countP Mark.isRecorded + w'.marks.countP Mark.isLost))
    (hcalling : w'.callingCount ≤ maxInFlight) : w'.Marked := by
  constructor
  · rw [hmarks, hbreaker, ← h.replayed, Breaker.replay, List.foldl_append]
    rfl
  · rw [hmarks, hnow]
    intro m' hm' t ht
    rcases List.mem_append.mp hm' with hm' | hm'
    · exact h.before m' hm' t ht
    · rw [List.mem_singleton.mp hm'] at ht
      exact (htime t ht).le
  · rw [hmarks]
    apply List.pairwise_append.mpr
    refine ⟨h.sorted, List.pairwise_singleton _ _, ?_⟩
    intro m' hm' m'' hm'' t t' ht ht'
    rw [List.mem_singleton.mp hm''] at ht'
    rw [htime t' ht']
    exact h.before m' hm' t ht
  · rw [hmarks]
    intro pre t post heq
    rcases List.eq_nil_or_concat post with rfl | ⟨post, last, rfl⟩
    · obtain ⟨hpre, hlast⟩ := List.append_inj' heq rfl
      have hm : m = .sent t := List.singleton_injective hlast
      subst hm
      rw [← hpre, h.replayed, htime t rfl]
      exact hclosed rfl
    · rw [List.concat_eq_append, ← List.cons_append, ← List.append_assoc] at heq
      exact h.closed pre t post (List.append_inj' heq rfl).1
  · exact hout
  · intro pre post heq
    rw [hmarks] at heq
    rcases List.eq_nil_or_concat post with rfl | ⟨post, last, rfl⟩
    · rw [List.append_nil] at heq
      rw [← heq, ← hmarks]
      omega
    · rw [List.concat_eq_append, ← List.append_assoc] at heq
      exact h.few pre post (List.append_inj' heq rfl).1

theorem calling_set {i : ℕ} {t : Task P A} (h : w.tasks[i]? = some t) (t' : Task P A) :
    (w.tasks.set i t').countP Task.isCalling + t.isCalling.toNat
      = w.callingCount + t'.isCalling.toNat := by
  obtain ⟨hi, rfl⟩ := List.getElem?_eq_some_iff.mp h
  have hpos : w.tasks[i].isCalling = true → 0 < w.tasks.countP Task.isCalling :=
    fun hcalling => List.countP_pos_iff.mpr ⟨_, List.getElem_mem hi, hcalling⟩
  rw [List.countP_set hi, callingCount]
  generalize w.tasks[i].isCalling = b at *
  generalize w.tasks.countP Task.isCalling = n at *
  cases b with
  | false => cases t'.isCalling <;> rfl
  | true =>
    have hn := hpos rfl
    cases t'.isCalling with
    | false => exact Nat.sub_add_cancel hn
    | true => exact congrArg Nat.succ (Nat.sub_add_cancel hn)

theorem calling_erase {i : ℕ} {t : Task P A} (h : w.tasks[i]? = some t)
    (hfinished : t.finished = true) : (w.tasks.eraseIdx i).countP Task.isCalling = w.callingCount := by
  obtain ⟨hi, rfl⟩ := List.getElem?_eq_some_iff.mp h
  have hperm := (List.getElem_cons_eraseIdx_perm hi).countP_eq Task.isCalling
  have hidle : w.tasks[i].isCalling = false := by
    revert hfinished
    unfold Task.finished Task.isCalling
    cases w.tasks[i].stage <;> simp
  rwa [List.countP_cons_of_neg (by rw [hidle]; decide)] at hperm

theorem Marked.begun {i : ℕ} {p : P} (h : w.Marked) (hkept : (w.begun i p).Kept pilot)
    (ht : w.tasks[i]? = some ⟨p, .waiting⟩) : (w.begun i p).Marked := by
  have hcount := calling_set ht
  have hfew := callingCount_le hkept
  have hout := h.out
  unfold Worker.begun at hfew ⊢
  split
  · exact h.of_eq rfl rfl le_rfl (hcount ⟨p, .done (.error .circuitOpen)⟩)
  · rename_i hclosed
    rw [if_neg hclosed] at hfew
    refine h.snoc rfl rfl rfl (fun t ht => (Option.some.inj ht).symm)
      (fun _ => Bool.eq_false_iff.mpr hclosed) ?_ hfew
    have hmore : (w.tasks.set i ⟨p, .calling⟩).countP Task.isCalling = w.callingCount + 1 :=
      hcount ⟨p, .calling⟩
    change (w.marks ++ [Mark.sent w.now]).countP Mark.isSent
      = (w.tasks.set i ⟨p, .calling⟩).countP Task.isCalling
        + ((w.marks ++ [Mark.sent w.now]).countP Mark.isRecorded
          + (w.marks ++ [Mark.sent w.now]).countP Mark.isLost)
    simp only [List.countP_append]
    have hsent : [Mark.sent w.now].countP Mark.isSent = 1 := rfl
    have hother : [Mark.sent w.now].countP Mark.isRecorded + [Mark.sent w.now].countP Mark.isLost = 0 :=
      rfl
    omega

theorem Marked.replied {i : ℕ} {p : P} {r : Except OracleError A} (h : w.Marked)
    (hkept : (w.replied i p r).Kept pilot) (ht : w.tasks[i]? = some ⟨p, .calling⟩) :
    (w.replied i p r).Marked := by
  have hless : (w.tasks.set i ⟨p, .done r⟩).countP Task.isCalling + 1 = w.callingCount :=
    calling_set ht ⟨p, .done r⟩
  have hout := h.out
  refine h.snoc rfl rfl rfl (fun t ht => (Option.some.inj ht).symm) nofun ?_ (callingCount_le hkept)
  change (w.marks ++ [Mark.recorded w.now (wellBehaved r)]).countP Mark.isSent
    = (w.tasks.set i ⟨p, .done r⟩).countP Task.isCalling
      + ((w.marks ++ [Mark.recorded w.now (wellBehaved r)]).countP Mark.isRecorded
        + (w.marks ++ [Mark.recorded w.now (wellBehaved r)]).countP Mark.isLost)
  simp only [List.countP_append]
  have hone : [Mark.recorded w.now (wellBehaved r)].countP Mark.isRecorded = 1 := rfl
  have hother : [Mark.recorded w.now (wellBehaved r)].countP Mark.isSent
      + [Mark.recorded w.now (wellBehaved r)].countP Mark.isLost = 0 := rfl
  omega

theorem Marked.panicked {i : ℕ} {t : Task P A} (h : w.Marked)
    (hkept : (w.panicked i t).Kept pilot) (ht : w.tasks[i]? = some t) (hlive : t.finished = false) :
    (w.panicked i t).Marked := by
  have hcount : (w.tasks.set i ⟨t.picture, .panicked⟩).countP Task.isCalling + t.isCalling.toNat
      = w.callingCount := calling_set ht ⟨t.picture, .panicked⟩
  have hout := h.out
  have hfew := callingCount_le hkept
  obtain ⟨p, stage⟩ := t
  cases stage with
  | waiting => exact h.of_eq rfl rfl le_rfl hcount
  | calling =>
    refine h.snoc rfl rfl rfl nofun nofun ?_ hfew
    change (w.marks ++ [Mark.lost]).countP Mark.isSent
      = (w.tasks.set i ⟨p, .panicked⟩).countP Task.isCalling
        + ((w.marks ++ [Mark.lost]).countP Mark.isRecorded + (w.marks ++ [Mark.lost]).countP Mark.isLost)
    have hless : (w.tasks.set i ⟨p, .panicked⟩).countP Task.isCalling + 1 = w.callingCount := hcount
    simp only [List.countP_append]
    have hone : [Mark.lost].countP Mark.isLost = 1 := rfl
    have hother : [Mark.lost].countP Mark.isSent + [Mark.lost].countP Mark.isRecorded = 0 := rfl
    omega
  | done r => cases hlive
  | panicked => cases hlive

theorem Marked.spawn {k : ℕ} {rest : List ℕ} (h : w.Marked) : (w.spawn pilot k rest).Marked := by
  unfold Worker.spawn
  split
  · exact h.of_eq rfl rfl le_rfl rfl
  · refine h.of_eq rfl rfl le_rfl ?_
    change (w.tasks ++ [_]).countP Task.isCalling = w.callingCount
    rw [List.countP_append]
    rfl

theorem Marked.join {i : ℕ} {t : Task P A} (h : w.Marked) (ht : w.tasks[i]? = some t)
    (hfinished : t.finished = true) :
    (({ w with tasks := w.tasks.eraseIdx i } : Worker P A).settle pilot room t.picture
      t.stage).Marked := by
  have hcount := calling_erase ht hfinished
  unfold Worker.settle
  split <;> exact h.of_eq rfl rfl le_rfl hcount

theorem Marked.step {act : Act P A} (h : w.Marked) (hkept : w.Kept pilot) (hcan : w.Can pilot act) :
    (w.step pilot room act).Marked := by
  have hkept' : (w.step pilot room act).Kept pilot := hkept.step hcan
  cases act with
  | pass by_ => exact h.of_eq rfl rfl (Nat.le_add_right _ _) rfl
  | launch =>
    obtain ⟨k, rest, hphase, -⟩ := hcan
    simp only [Worker.step, hphase]
    exact h.spawn
  | join i =>
    obtain ⟨-, t, ht, hfinished⟩ := hcan
    simp only [Worker.step, ht]
    exact h.join ht hfinished
  | begin_ i =>
    obtain ⟨p, ht⟩ := hcan
    simp only [Worker.step, ht] at hkept' ⊢
    exact h.begun hkept' ht
  | reply i r =>
    obtain ⟨p, ht⟩ := hcan
    simp only [Worker.step, ht] at hkept' ⊢
    exact h.replied hkept' ht
  | panic i =>
    obtain ⟨p, ht | ht⟩ := hcan
    · simp only [Worker.step, ht] at hkept' ⊢
      exact h.panicked hkept' ht rfl
    · simp only [Worker.step, ht] at hkept' ⊢
      exact h.panicked hkept' ht rfl
  | push p =>
    unfold Worker.step
    dsimp only
    split
    · exact h.of_eq rfl rfl le_rfl rfl
    · exact h
  | take | pop =>
    unfold Worker.step
    dsimp only
    split
    · exact h
    · exact h.of_eq rfl rfl le_rfl rfl
  | _ => exact h.of_eq rfl rfl le_rfl rfl

theorem marked_run {acts : List (Act P A)} (hacts : Runs pilot room start acts) :
    (Worker.run pilot room acts start).Marked := by
  have hboth : (Worker.run pilot room acts start).Kept pilot
      ∧ (Worker.run pilot room acts start).Marked :=
    Run.invariant (I := fun w => w.Kept pilot ∧ w.Marked)
      (fun _ _ hw hcan => ⟨hw.1.step hcan, hw.2.step hw.1 hcan⟩) ⟨kept_start, marked_start⟩ hacts
  exact hboth.2

/-! ## What goes out -/

/-- Once a third failure opens the breaker, nothing goes out for its cooldown unless something goes
well in between. -/
theorem shut {pre mid post : List Mark} {t t' : ℕ} (h : w.Marked)
    (hmarks : w.marks = pre ++ .recorded t false :: (mid ++ .sent t' :: post))
    (hopens : breakerThreshold ≤ (Breaker.replay pre).failures + 1)
    (hbad : ∀ s, Mark.recorded s true ∉ mid) : t + breakerCooldown ≤ t' := by
  have hclosed := h.closed (pre ++ .recorded t false :: mid) t' post (by rw [hmarks]; simp)
  have hsorted := h.sorted
  rw [hmarks] at hsorted
  have hlater : ∀ s ok, Mark.recorded s ok ∈ mid → t + breakerCooldown ≤ s + breakerCooldown := by
    intro s ok hs
    have hafter := (List.pairwise_cons.mp (List.pairwise_append.mp hsorted).2.1).1
      (.recorded s ok) (List.mem_append_left _ hs)
    exact Nat.add_le_add_right (hafter t s rfl rfl) _
  have hopened : (Breaker.replay (pre ++ [.recorded t false])).openUntil = some (t + breakerCooldown) := by
    rw [Breaker.replay, List.foldl_append]
    change ((Breaker.replay pre).record t false).openUntil = _
    simp only [Breaker.record, Bool.false_eq_true, if_false, if_pos hopens]
  obtain ⟨v, hv, hle⟩ := Breaker.openUntil_foldl hbad hlater ⟨_, hopened, le_rfl⟩
  have hwhole : Breaker.replay (pre ++ .recorded t false :: mid)
      = mid.foldl Breaker.see (Breaker.replay (pre ++ [.recorded t false])) := by
    simp only [Breaker.replay, List.foldl_append, List.foldl_cons, List.foldl_nil]
  rw [hwhole, Breaker.isOpen, hv] at hclosed
  have hnot : ¬ t' < v := of_decide_eq_false hclosed
  omega

theorem exists_first {l : List Mark} (h : 0 < l.countP Mark.isSent) :
    ∃ a t b, l = a ++ .sent t :: b ∧ a.countP Mark.isSent = 0 := by
  induction l with
  | nil => exact absurd h (lt_irrefl 0)
  | cons m rest ih =>
    cases m with
    | sent t => exact ⟨[], t, rest, rfl, rfl⟩
    | recorded s ok =>
      obtain ⟨a, t, b, heq, hnone⟩ := ih h
      exact ⟨.recorded s ok :: a, t, b, by rw [heq]; rfl, hnone⟩
    | lost =>
      obtain ⟨a, t, b, heq, hnone⟩ := ih h
      exact ⟨.lost :: a, t, b, by rw [heq]; rfl, hnone⟩

theorem exists_last {l : List Mark} (h : 0 < l.countP Mark.isSent) :
    ∃ a t b, l = a ++ .sent t :: b ∧ b.countP Mark.isSent = 0 := by
  obtain ⟨a, t, b, heq, hnone⟩ := exists_first (l := l.reverse) (by rwa [List.countP_reverse])
  refine ⟨b.reverse, t, a.reverse, ?_, by rwa [List.countP_reverse]⟩
  rw [← List.reverse_reverse l, heq]
  simp

/-- From one request to another less than a cooldown later, with nothing going well in between, no
more than two failures come in. -/
theorem few_recorded {pre seg post : List Mark} {t t' : ℕ} (h : w.Marked)
    (hmarks : w.marks = pre ++ (.sent t :: seg ++ .sent t' :: post))
    (hbad : ∀ s, Mark.recorded s true ∉ seg) (hnear : t' < t + breakerCooldown) :
    seg.countP Mark.isRecorded < breakerThreshold := by
  by_contra hmany
  obtain ⟨x, s, y, hseg, hopens⟩ := Breaker.exists_opening hbad
    (b := Breaker.replay (pre ++ [.sent t])) (Breaker.failures_foldl (by decide) _)
    (by omega)
  have hsplit : w.marks = (pre ++ .sent t :: x) ++ .recorded s false :: (y ++ .sent t' :: post) := by
    rw [hmarks, hseg]
    simp
  have hshut : s + breakerCooldown ≤ t' := by
    refine shut h hsplit ?_ ?_
    · rw [Breaker.replay, List.foldl_append] at hopens ⊢
      exact hopens
    · intro r hr
      apply hbad r
      rw [hseg]
      exact List.mem_append_right _ (List.mem_cons_of_mem _ hr)
  have hle : t ≤ s := by
    have hsorted := h.sorted
    rw [hmarks, hseg] at hsorted
    have hafter := (List.pairwise_cons.mp (List.pairwise_append.mp hsorted).2.1).1
      (.recorded s false) (by simp)
    exact hafter t s rfl rfl
  omega

/-- Between two moments no more goes out than comes back, is lost, or can be out. -/
theorem sent_le {pre seg post : List Mark} (h : w.Marked) (hmarks : w.marks = pre ++ (seg ++ post)) :
    seg.countP Mark.isSent
      ≤ maxInFlight + (seg.countP Mark.isRecorded + seg.countP Mark.isLost) := by
  have hpre := (h.few pre _ hmarks).1
  have hboth := (h.few (pre ++ seg) post (by rw [hmarks, List.append_assoc])).2
  simp only [List.countP_append] at hboth
  omega

/-- While no call ends in what the breaker takes for the oracle being well (advice, or a failure that
is not transient), at most ten requests go out in any ten seconds, but for the calls that were lost. -/
theorem outage_rate {acts : List (Act P A)} (hacts : Runs pilot room start acts)
    {pre mid post : List Mark} (hmarks : (Worker.run pilot room acts start).marks = pre ++ (mid ++ post))
    (hbad : ∀ t, Mark.recorded t true ∉ mid)
    (hnear : ∀ t t', Mark.sent t ∈ mid → Mark.sent t' ∈ mid → t' < t + breakerCooldown) :
    mid.countP Mark.isSent ≤ maxInFlight + 2 + mid.countP Mark.isLost := by
  have h := marked_run hacts
  generalize Worker.run pilot room acts start = w at *
  by_cases hsome : 0 < mid.countP Mark.isSent
  · obtain ⟨a, t, b, hmid, ha⟩ := exists_first hsome
    have hfirst : 0 < (Mark.sent t :: b).countP Mark.isSent := by
      rw [List.countP_cons_of_pos rfl]
      exact Nat.succ_pos _
    obtain ⟨c, t', d, hb, hd⟩ := exists_last hfirst
    have hcount : mid.countP Mark.isSent = (c ++ [Mark.sent t']).countP Mark.isSent := by
      rw [hmid, List.countP_append, ha, hb]
      simp only [List.countP_append, List.countP_cons, List.countP_nil, hd]
      omega
    have hlost : (c ++ [Mark.sent t']).countP Mark.isLost ≤ mid.countP Mark.isLost := by
      rw [hmid, hb]
      simp only [List.countP_append, List.countP_cons, List.countP_nil]
      omega
    have hwhole : w.marks = (pre ++ a) ++ ((c ++ [Mark.sent t']) ++ (d ++ post)) := by
      rw [hmarks, hmid, hb]
      simp
    have hle := sent_le h hwhole
    have hfew : (c ++ [Mark.sent t']).countP Mark.isRecorded < breakerThreshold := by
      cases c with
      | nil => exact Nat.zero_lt_succ _
      | cons m seg =>
        obtain ⟨rfl, hrest⟩ := List.cons.inj hb
        have hrest : b = seg ++ .sent t' :: d := hrest
        have hin : ∀ m, m ∈ seg ∨ m = .sent t' → m ∈ mid := by
          intro m hm
          rw [hmid, hrest]
          rcases hm with hm | rfl
          · simp [hm]
          · simp
        have hmarks' : w.marks = (pre ++ a) ++ (.sent t :: seg ++ .sent t' :: (d ++ post)) := by
          rw [hwhole]
          simp
        have hseg := few_recorded h hmarks' (fun s hs => hbad s (hin _ (Or.inl hs)))
          (hnear t t' (by rw [hmid]; simp) (hin _ (Or.inr rfl)))
        rw [List.countP_append, List.countP_cons_of_neg Bool.false_ne_true]
        exact hseg
    unfold breakerThreshold at hfew
    omega
  · omega

/-- Three calls go out and come back overloaded, and a fourth finds the breaker open. -/
def overloadedCalls : List (Act (ℕ × ℕ) ℕ) :=
  [.push (1, 10), .push (2, 10), .push (3, 10), .pop, .pop, .pop, .collect [3, 2, 1], .launch, .launch,
    .launch, .launched, .begin_ 0, .begin_ 1, .begin_ 2, .pass 5, .reply 0 (.status 503 ""),
    .reply 1 (.status 503 ""), .reply 2 (.status 503 ""), .join 0, .join 0, .join 0, .joined,
    .push (4, 20), .pop, .collect [4], .launch, .launched, .begin_ 0]

theorem runs_overloadedCalls : Runs Prod.fst 256 start overloadedCalls :=
  ⟨trivial, trivial, trivial, ⟨rfl, nofun⟩, ⟨rfl, nofun⟩, ⟨rfl, nofun⟩, ⟨rfl, rfl, .refl _⟩,
    ⟨3, [2, 1], rfl, by decide⟩, ⟨2, [1], rfl, by decide⟩, ⟨1, [], rfl, by decide⟩,
    ⟨[], rfl, Or.inl rfl⟩, ⟨(3, 10), rfl⟩, ⟨(2, 10), rfl⟩, ⟨(1, 10), rfl⟩, trivial, ⟨(3, 10), rfl⟩,
    ⟨(2, 10), rfl⟩, ⟨(1, 10), rfl⟩, ⟨rfl, _, rfl, rfl⟩, ⟨rfl, _, rfl, rfl⟩, ⟨rfl, _, rfl, rfl⟩,
    ⟨rfl, nofun⟩, trivial, ⟨rfl, nofun⟩, ⟨rfl, rfl, .refl _⟩, ⟨4, [], rfl, by decide⟩,
    ⟨[], rfl, Or.inl rfl⟩, ⟨(4, 20), rfl⟩, trivial⟩

theorem outage_rate_overloadedCalls :
    let marks := (run Prod.fst 256 overloadedCalls start).marks
    (Breaker.replay marks).isOpen 5 = true ∧ marks.countP Mark.isSent = 3
      ∧ marks.countP Mark.isSent ≤ maxInFlight + 2 + marks.countP Mark.isLost := by
  intro marks
  have hmarks : marks = [.sent 0, .sent 0, .sent 0, .recorded 5 false, .recorded 5 false,
      .recorded 5 false] := rfl
  have hall : marks = [] ++ (marks ++ []) := (List.append_nil _).symm
  refine ⟨by rw [hmarks]; rfl, by rw [hmarks]; rfl, outage_rate runs_overloadedCalls hall ?_ ?_⟩
  · intro t ht
    rw [hmarks] at ht
    simp at ht
  · intro t t' ht ht'
    rw [hmarks] at ht ht'
    simp at ht ht'
    rw [ht, ht']
    decide

end Worker

end BeforeColony.Oracle
