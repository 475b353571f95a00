import Mathlib.Data.List.Perm.Basic
import Mathlib.Tactic.Tauto
import BeforeColony.Server.ParkNews

/-!
# News of hidden suits is kept

News that was delivered is on its way, or settled: neither the stored record nor the session that
is online has its suit in a state it speaks against. As long as the steps of a run are clean, that
stays so.
-/

set_option autoImplicit false

namespace BeforeColony

open Lib

variable {S D R : Type} {run : ℕ} {new : PilotRecord S D R}

/-! ## What news says -/

/-- The news speaks against keeping the suit as it was at a tick. -/
def ParkNews.Bars : ParkNews S D → S → ℕ → Prop
  | .gone lost, suit, _ => suit = lost
  | .hit hurt at_ _, suit, tick => suit = hurt ∧ tick < at_

namespace ParkNews

variable {news : ParkNews S D} {suit : S} {tick tick' : ℕ}

theorem Bars.anti (h : news.Bars suit tick') (hle : tick ≤ tick') : news.Bars suit tick := by
  cases news with
  | gone _ => exact h
  | hit _ _ _ => exact ⟨h.1, hle.trans_lt h.2⟩

theorem Bars.suit_eq (h : news.Bars suit tick) : suit = news.suit := by
  cases news with
  | gone _ => exact h
  | hit _ _ _ => exact h.1

end ParkNews

namespace Parking

/-! ## What is held and on its way -/

/-- The session that is online flies the suit, or has left it somewhere, since a tick. -/
def Holds (s : Parking S D R) (suit : S) (since : ℕ) : Prop :=
  ∃ session pending claim record,
    s.online = some (session, pending) ∧ s.tasks session = .live claim record (some (suit, since))

def Settled (run : ℕ) (s : Parking S D R) (news : ParkNews S D) : Prop :=
  (∀ suit since, s.Holds suit since → ¬ news.Bars suit since) ∧
    ∀ suit kept, s.Stores run suit kept → ¬ news.Bars suit kept.tick

/-- A session's record keeps no suit but its own, as it left it after it took it. -/
def TaskSound (run : ℕ) (s : Parking S D R) (t : PilotTask S D R) : Prop :=
  ∀ claim record own, t = .live claim record own →
    claim ≤ s.claims ∧ (∀ suit since, own = some (suit, since) → since ≤ s.now) ∧
      ∀ r, record = some r → ∀ z, r.sleeper = some z → z.run = run ∧
        ∃ since, own = some (z.suit, since) ∧
          ∀ kept, r.parked = some kept → since ≤ kept.tick ∧ (z.suit, kept) ∈ s.parks

variable {s : Parking S D R}

theorem Stores.of_stored {s' : Parking S D R} {suit : S} {kept : ParkState D}
    (h : s'.Stores run suit kept) (hstored : s'.stored = s.stored) : s.Stores run suit kept := by
  obtain ⟨r, hr, hkeeps⟩ := h
  exact ⟨r, hstored ▸ hr, hkeeps⟩

theorem Settled.mono {s' : Parking S D R} {news : ParkNews S D} (h : s.Settled run news)
    (hstored : s'.stored = s.stored)
    (hholds : ∀ suit since, s'.Holds suit since → s.Holds suit since) : s'.Settled run news :=
  ⟨fun suit since hheld => h.1 suit since (hholds suit since hheld),
    fun suit kept hstores => h.2 suit kept (hstores.of_stored hstored)⟩

theorem TaskSound.mono {s' : Parking S D R} {t : PilotTask S D R} (h : s.TaskSound run t)
    (hnow : s.now ≤ s'.now) (hclaims : s.claims ≤ s'.claims)
    (hparks : ∀ p ∈ s.parks, p ∈ s'.parks) : s'.TaskSound run t := by
  intro claim record own ht
  obtain ⟨hclaim, hsince, hrecord⟩ := h claim record own ht
  refine ⟨hclaim.trans hclaims, fun suit since hown => (hsince suit since hown).trans hnow, ?_⟩
  intro r hr z hz
  obtain ⟨hrun, since, hown, hkept⟩ := hrecord r hr z hz
  exact ⟨hrun, since, hown, fun kept hk => ⟨(hkept kept hk).1, hparks _ (hkept kept hk).2⟩⟩

theorem carried_setTask {task : ℕ} {t : PilotTask S D R} (h : t.carried = (s.tasks task).carried)
    (task' : ℕ) : (s.setTask task t task').carried = (s.tasks task').carried := by
  rw [setTask, Function.update_apply]
  split
  · rename_i heq
    rw [heq, h]
  · rfl

/-- A session that isn't the one online any more, or flies what it flew, holds nothing new. -/
theorem holds_setTask {task : ℕ} {t : PilotTask S D R} {suit : S} {since : ℕ}
    (hlive : ∀ claim record own, t = .live claim record own →
      ∃ claim' record', s.tasks task = .live claim' record' own)
    (h : Holds { s with tasks := s.setTask task t } suit since) : s.Holds suit since := by
  obtain ⟨session, pending, claim, record, honline, htask⟩ := h
  simp only [setTask, Function.update_apply] at htask
  split at htask
  · rename_i heq
    obtain ⟨claim', record', htask'⟩ := hlive _ _ _ htask
    exact ⟨session, pending, claim', record', honline, heq ▸ htask'⟩
  · exact ⟨session, pending, claim, record, honline, htask⟩

theorem taskSound_claiming {t : PilotTask S D R} (ht : ∀ claim record own, t ≠ .live claim record own) :
    s.TaskSound run t := fun claim record own h => absurd h (ht claim record own)

theorem not_holds_of_offline {suit : S} {since : ℕ} (h : s.online = none) : ¬ s.Holds suit since := by
  rintro ⟨session, pending, claim, record, honline, -⟩
  rw [h] at honline
  cases honline

theorem carried_update {task : ℕ} {t : PilotTask S D R} {news : ParkNews S D} :
    (∃ task', news ∈ (s.setTask task t task').carried) ↔
      news ∈ t.carried ∨ ∃ task', task' ≠ task ∧ news ∈ (s.tasks task').carried := by
  constructor
  · rintro ⟨task', hnews⟩
    rw [setTask, Function.update_apply] at hnews
    split at hnews
    · exact .inl hnews
    · exact .inr ⟨task', ‹_›, hnews⟩
  · rintro (hnews | ⟨task', hne, hnews⟩)
    · exact ⟨task, by rwa [setTask, Function.update_self]⟩
    · exact ⟨task', by rwa [setTask, Function.update_of_ne hne]⟩

theorem carried_split {news : ParkNews S D} (task : ℕ) : (∃ task', news ∈ (s.tasks task').carried) ↔
    news ∈ (s.tasks task).carried ∨ ∃ task', task' ≠ task ∧ news ∈ (s.tasks task').carried := by
  rw [← carried_update]
  simp [setTask]

theorem online_iff {news : ParkNews S D} {session : ℕ} {pending : List (ParkNews S D)} :
    (∃ session' pending', some (session, pending) = some (session', pending') ∧ news ∈ pending') ↔
      news ∈ pending := by
  constructor
  · rintro ⟨_, _, ⟨⟩, hnews⟩
    exact hnews
  · exact fun hnews => ⟨session, pending, rfl, hnews⟩

theorem offline_iff {news : ParkNews S D} :
    (∃ session pending, (none : Option (ℕ × List (ParkNews S D))) = some (session, pending) ∧
      news ∈ pending) ↔ False := by
  simp

theorem mem_waiting_iff {i : ℕ} {news news' : ParkNews S D} (h : s.waiting[i]? = some news) :
    news' ∈ s.waiting ↔ news' = news ∨ news' ∈ s.waiting.eraseIdx i := by
  obtain ⟨hi, rfl⟩ := List.getElem?_eq_some_iff.mp h
  rw [← List.mem_cons]
  exact (List.getElem_cons_eraseIdx_perm hi).symm.mem_iff

end Parking

variable [DecidableEq S]

namespace PilotRecord

variable {news news' : ParkNews S D} {r r' : PilotRecord S D R} {suit : S} {kept : ParkState D}

theorem change_none (h : r.change run news = none) (hkeeps : r.Keeps run suit kept) :
    ¬ news.Bars suit kept.tick := by
  intro hbars
  obtain ⟨hsleeper, hparked⟩ := hkeeps
  cases hbars.suit_eq
  simp only [change, hsleeper, hparked, if_true] at h
  cases news with
  | gone _ => cases h
  | hit _ tick _ => exact absurd h (by simp [Nat.not_le.mpr hbars.2])

theorem change_some (h : r.change run news = some r') :
    r.sleeper = some ⟨run, news.suit⟩ ∧ r'.sleeper = r.sleeper ∧
      ∃ kept, r.parked = some kept ∧
        (r'.parked = none ∨ ∃ tick rec, news = .hit news.suit tick rec ∧ kept.tick < tick ∧
          r'.parked = some ⟨tick, kept.since, rec⟩) := by
  unfold change at h
  split at h
  · rename_i hsleeper
    cases hparked : r.parked with
    | none => simp [hparked] at h
    | some kept =>
      cases news with
      | gone _ =>
        simp only [hparked, Option.some.injEq] at h
        subst h
        exact ⟨hsleeper, rfl, kept, rfl, .inl rfl⟩
      | hit _ tick rec =>
        simp only [hparked] at h
        split at h
        · cases h
        · rename_i hlate
          simp only [Option.some.injEq] at h
          subst h
          exact ⟨hsleeper, rfl, kept, rfl, .inr ⟨tick, rec, rfl, Nat.not_le.mp hlate, rfl⟩⟩
  · cases h

theorem change_bars (h : r.change run news = some r') (hkeeps : r'.Keeps run suit kept) :
    ¬ news.Bars suit kept.tick := by
  obtain ⟨-, -, old, -, hparked | ⟨tick, rec, hnews, -, hparked⟩⟩ := change_some h
  · rw [hkeeps.2] at hparked
    cases hparked
  · rw [hkeeps.2] at hparked
    cases hparked
    rw [hnews]
    exact fun hbars => hbars.2.false

theorem change_keeps (h : r.change run news = some r') (hkeeps : r'.Keeps run suit kept) :
    ∃ old, r.Keeps run suit old ∧ old.tick ≤ kept.tick := by
  obtain ⟨-, hsleeper, old, hold, hparked | ⟨tick, rec, -, hlt, hparked⟩⟩ := change_some h
  · rw [hkeeps.2] at hparked
    cases hparked
  · rw [hkeeps.2] at hparked
    cases hparked
    exact ⟨old, ⟨hsleeper ▸ hkeeps.1, hold⟩, hlt.le⟩

theorem change_source (h : r.change run news = some r') (hkeeps : r'.Keeps run suit kept) :
    news = .hit suit kept.tick kept.rec_ := by
  obtain ⟨hnamed, hsleeper, old, hold, hparked | ⟨tick, rec, hnews, -, hparked⟩⟩ := change_some h
  · rw [hkeeps.2] at hparked
    cases hparked
  · rw [hkeeps.2] at hparked
    cases hparked
    have hsuit := hkeeps.1.symm.trans (hsleeper.trans hnamed)
    cases Option.some.inj hsuit
    exact hnews

end PilotRecord

namespace Parking

/-! ## The invariant -/

/-- A record that news is about to store is what it makes of the one stored, unless it's late. -/
def Made (run : ℕ) (s : Parking S D R) (news : ParkNews S D) : Applying S D R → Prop
  | .looked => True
  | .changed r loaded late | .clear r loaded late =>
    late = false → s.stored.bind (PilotRecord.change run news) = some r ∧ s.savedBy ≤ loaded

structure Sound (run : ℕ) (s : Parking S D R) : Prop where
  told : ∀ news ∈ s.delivered, s.InFlight news ∨ s.Settled run news
  flight : ∀ news, s.InFlight news → news ∈ s.delivered
  past : ∀ suit tick rec, .hit suit tick rec ∈ s.delivered → tick ≤ s.now
  tasks : ∀ task, s.TaskSound run (s.tasks task)
  saved : s.savedBy ≤ s.claims
  holds : ∀ news stage, s.applying = some (news, stage) →
    ∀ suit since, s.Holds suit since → ¬ news.Bars suit since
  made : ∀ news stage, s.applying = some (news, stage) → s.Made run news stage
  source : ∀ suit kept, s.Stores run suit kept →
    .hit suit kept.tick kept.rec_ ∈ s.delivered ∨ (suit, kept) ∈ s.parks
  applied : ∀ a ∈ s.applied, a.before.bind (PilotRecord.change run a.news) = some a.after ∧
    a.savedBy ≤ a.loaded

variable {s : Parking S D R}

theorem Sound.kept (hs : s.Sound run) : s.Kept run where
  gone hquiet suit hgone kept hstores :=
    ((hs.told _ hgone).resolve_left (hquiet _)).2 suit kept hstores rfl
  latest hquiet suit tick rec hhit kept hstores := by
    have hbars := ((hs.told _ hhit).resolve_left (hquiet _)).2 suit kept hstores
    by_contra hlt
    exact hbars ⟨rfl, Nat.not_le.mp hlt⟩
  source := hs.source
  applied := hs.applied

theorem sound_begin (now : ℕ) (stored : Option (PilotRecord S D R)) :
    (begin now stored).Sound run where
  told := nofun
  flight news h := by
    simp [InFlight, begin, PilotTask.carried] at h
  past := nofun
  tasks _ := nofun
  saved := Nat.le_refl 0
  holds := nofun
  made := nofun
  source suit kept h := by
    obtain ⟨r, hr, hsleeper, hparked⟩ := h
    simp only [begin] at hr
    subst hr
    right
    simp [begin, hsleeper, hparked]
  applied := nofun

/-! ## Steps that only move things -/

/-- Nothing is delivered or stored, no news is lost, and no suit is taken. -/
structure Moves (run : ℕ) (s s' : Parking S D R) : Prop where
  delivered : s'.delivered = s.delivered
  stored : s'.stored = s.stored
  savedBy : s'.savedBy = s.savedBy
  applied : s'.applied = s.applied
  now : s.now ≤ s'.now
  claims : s.claims ≤ s'.claims
  parks : ∀ p ∈ s.parks, p ∈ s'.parks
  flight : ∀ news, s'.InFlight news ↔ s.InFlight news
  holds : ∀ suit since, s'.Holds suit since → s.Holds suit since
  tasks : ∀ task, s'.TaskSound run (s'.tasks task)
  applying : ∀ news stage, s'.applying = some (news, stage) →
    (stage = .looked ∧ s'.online = none) ∨
      ∃ stage', s.applying = some (news, stage') ∧ (s.Made run news stage' → s.Made run news stage)

theorem Made.of_stored {s' : Parking S D R} {news : ParkNews S D} {stage : Applying S D R}
    (h : s.Made run news stage) (hstored : s'.stored = s.stored) (hsaved : s'.savedBy = s.savedBy) :
    s'.Made run news stage := by
  cases stage with
  | looked => trivial
  | changed r loaded late | clear r loaded late =>
    intro hlate
    rw [hstored, hsaved]
    exact h hlate

theorem Sound.moves {s' : Parking S D R} (hs : s.Sound run) (h : Moves run s s') :
    s'.Sound run where
  told news hnews := by
    rw [h.delivered] at hnews
    exact (hs.told news hnews).imp (h.flight news).mpr fun hsettled =>
      hsettled.mono h.stored h.holds
  flight news hnews := h.delivered ▸ hs.flight news ((h.flight news).mp hnews)
  past suit tick rec hhit := (hs.past suit tick rec (h.delivered ▸ hhit)).trans h.now
  tasks := h.tasks
  saved := h.savedBy ▸ hs.saved.trans h.claims
  holds news stage happlying suit since hheld := by
    rcases h.applying news stage happlying with ⟨-, hnone⟩ | ⟨stage', hstage', -⟩
    · obtain ⟨session, pending, claim, record, honline, -⟩ := hheld
      rw [hnone] at honline
      cases honline
    · exact hs.holds news stage' hstage' suit since (h.holds suit since hheld)
  made news stage happlying := by
    rcases h.applying news stage happlying with ⟨rfl, -⟩ | ⟨stage', hstage', hmade⟩
    · trivial
    · exact (hmade (hs.made news stage' hstage')).of_stored h.stored h.savedBy
  source suit kept hstores := by
    rw [h.delivered]
    exact (hs.source suit kept (hstores.of_stored h.stored)).imp_right (h.parks _)
  applied a ha := hs.applied a (h.applied ▸ ha)

/-- A session that goes on with the news it carries and the suit it flies. -/
theorem moves_setTask (hs : s.Sound run) {task : ℕ} {t : PilotTask S D R} {parks : List (S × ParkState D)}
    (hparks : ∀ p ∈ s.parks, p ∈ parks) (hcarried : t.carried = (s.tasks task).carried)
    (hsound : TaskSound run { s with parks := parks } t)
    (hlive : ∀ claim record own, t = .live claim record own →
      ∃ claim' record', s.tasks task = .live claim' record' own) :
    Moves run s { s with tasks := s.setTask task t, parks := parks } where
  delivered := rfl
  stored := rfl
  savedBy := rfl
  applied := rfl
  now := Nat.le_refl _
  claims := Nat.le_refl _
  parks := hparks
  flight news := by
    simp only [InFlight, carried_setTask hcarried]
  holds suit since := holds_setTask hlive
  tasks task' := by
    simp only [setTask, Function.update_apply]
    split
    · exact hsound
    · exact (hs.tasks task').mono (Nat.le_refl _) (Nat.le_refl _) hparks
  applying news stage h := .inr ⟨stage, h, id⟩

/-- A session whose record changes, but keeps no suit, or the same. -/
theorem Sound.setRecord (hs : s.Sound run) {task claim : ℕ} {record : Option (PilotRecord S D R)}
    {own : Option (S × ℕ)} (htask : s.tasks task = .live claim record own) {r : PilotRecord S D R}
    (hr : ∀ z, r.sleeper = some z → ∃ r', record = some r' ∧ r'.sleeper = some z ∧ r'.parked = r.parked) :
    Sound run { s with tasks := s.setTask task (.live claim (some r) own) } := by
  refine hs.moves (moves_setTask hs (fun _ hp => hp) (by rw [htask]; rfl) ?_ ?_)
  · intro claim' record' own' h
    cases h
    obtain ⟨hclaim, hsince, hrecord⟩ := hs.tasks task claim record own htask
    refine ⟨hclaim, hsince, ?_⟩
    rintro _ ⟨⟩ z hz
    obtain ⟨r', hr', hz', hparked⟩ := hr z hz
    rw [← hparked]
    exact hrecord r' hr' z hz'
  · intro claim' record' own' h
    cases h
    exact ⟨_, _, htask⟩

theorem Sound.claim (hs : s.Sound run) {task : ℕ} (htask : s.tasks task = .idle) :
    Sound run { s with tasks := s.setTask task (.claiming []) } :=
  hs.moves (moves_setTask hs (fun _ hp => hp) (by rw [htask]; rfl) (taskSound_claiming nofun) nofun)

theorem Sound.look (hs : s.Sound run) (task : ℕ) : (s.look task).Sound run := by
  unfold Parking.look
  split
  · rename_i carried htask _
    exact hs.moves (moves_setTask hs (fun _ hp => hp) (by rw [htask]; rfl) (taskSound_claiming nofun) nofun)
  · exact hs

theorem Sound.load (hs : s.Sound run) (task : ℕ) (ok : Bool) : (s.load new task ok).Sound run := by
  unfold Parking.load
  split
  · exact hs.setRecord ‹_› nofun
  · exact hs

theorem Sound.edit (hs : s.Sound run) (task : ℕ) (rest : R) : (s.edit task rest).Sound run := by
  unfold Parking.edit
  split
  · rename_i claim r own htask
    exact hs.setRecord htask fun z hz => ⟨r, rfl, hz, rfl⟩
  · exact hs

theorem Sound.park (hs : s.Sound run) (task since : ℕ) (rec : Option D) :
    (s.park run task since rec).Sound run := by
  unfold Parking.park
  split
  · rename_i claim r suit at_ htask
    obtain ⟨hclaim, hsince, -⟩ := hs.tasks task claim (some r) _ htask
    refine hs.moves (moves_setTask hs (fun p hp => List.mem_append_right _ hp) (by rw [htask]; rfl) ?_ ?_)
    · intro claim' record' own' h
      cases h
      refine ⟨hclaim, hsince, ?_⟩
      rintro _ ⟨⟩ z hz
      cases hz
      refine ⟨rfl, at_, rfl, fun kept hkept => ?_⟩
      obtain ⟨state, rfl, rfl⟩ := Option.map_eq_some_iff.mp hkept
      exact ⟨hsince suit at_ rfl, by simp⟩
    · intro claim' record' own' h
      cases h
      exact ⟨_, _, htask⟩
  · exact hs

theorem Sound.setTask_sound (hs : s.Sound run) {task : ℕ} {t : PilotTask S D R} (ht : s.TaskSound run t)
    (task' : ℕ) : s.TaskSound run (s.setTask task t task') := by
  rw [setTask, Function.update_apply]
  split
  · exact ht
  · exact hs.tasks task'

/-- The news kept for a session that is forgotten goes on with the one that waited. -/
theorem Sound.forget (hs : s.Sound run) (task : ℕ) : (s.forget task).Sound run := by
  unfold Parking.forget
  split
  · rename_i carried session pending htask honline
    refine hs.moves ?_
    exact {
      delivered := rfl
      stored := rfl
      savedBy := rfl
      applied := rfl
      now := Nat.le_refl _
      claims := Nat.le_refl _
      parks := fun _ hp => hp
      flight := fun news => by
        simp only [InFlight]
        rw [carried_update, carried_split task, htask, honline]
        simp only [PilotTask.carried_claiming, List.mem_append, online_iff, offline_iff]
        grind
      holds := fun suit since h => absurd h (not_holds_of_offline rfl)
      tasks := hs.setTask_sound (taskSound_claiming nofun)
      applying := fun news stage h => .inr ⟨stage, h, id⟩ }
  · exact hs

theorem Sound.insert (hs : s.Sound run) (task : ℕ) (hclean : s.Clean run (.insert task)) :
    (s.insert task).Sound run := by
  unfold Parking.insert
  split
  · rename_i carried htask
    refine hs.moves ?_
    exact {
      delivered := rfl
      stored := rfl
      savedBy := rfl
      applied := rfl
      now := Nat.le_refl _
      claims := Nat.le_succ _
      parks := fun _ hp => hp
      flight := fun news => by
        have hnone : ¬ ∃ session pending, s.online = some (session, pending) ∧ news ∈ pending := by
          rintro ⟨session, pending, honline, hmem⟩
          rw [hclean session pending honline] at hmem
          cases hmem
        simp only [InFlight]
        rw [carried_update, carried_split task, htask, iff_false_intro hnone]
        simp only [PilotTask.carried_clear, PilotTask.carried_live, online_iff, List.not_mem_nil]
        grind
      holds := fun suit since h => by
        obtain ⟨session, pending, claim, record, honline, hlive⟩ := h
        cases honline
        simp [setTask] at hlive
      tasks := fun task' => by
        have hnew : TaskSound run { s with claims := s.claims + 1 }
            (.live (s.claims + 1) none none : PilotTask S D R) := by
          intro claim record own h
          cases h
          exact ⟨Nat.le_refl _, nofun, nofun⟩
        simp only [setTask, Function.update_apply]
        split
        · exact hnew
        · exact (hs.tasks task').mono (Nat.le_refl _) (Nat.le_succ _) fun _ hp => hp
      applying := fun news stage h => .inr ⟨stage, h, id⟩ }
  · exact hs

theorem Sound.release (hs : s.Sound run) (task : ℕ) : (s.release task).Sound run := by
  unfold Parking.release
  split
  · rename_i claim record own htask
    have hidle : Sound run { s with tasks := s.setTask task .idle } :=
      hs.moves (moves_setTask hs (fun _ hp => hp) (by rw [htask]; rfl) (taskSound_claiming nofun) nofun)
    split
    · rename_i session pending honline
      split
      · refine hs.moves ?_
        exact {
          delivered := rfl
          stored := rfl
          savedBy := rfl
          applied := rfl
          now := Nat.le_refl _
          claims := Nat.le_refl _
          parks := fun _ hp => hp
          flight := fun news => by
            simp only [InFlight]
            rw [carried_update, carried_split task, htask, honline]
            simp only [PilotTask.carried_live, PilotTask.carried_idle, List.mem_append, online_iff, offline_iff,
              List.not_mem_nil]
            grind
          holds := fun suit since h => absurd h (not_holds_of_offline rfl)
          tasks := hs.setTask_sound (taskSound_claiming nofun)
          applying := fun news stage h => .inr ⟨stage, h, id⟩ }
      · exact hidle
    · exact hidle
  · exact hs

theorem Sound.tick (hs : s.Sound run) : Sound run { s with now := s.now + 1 } :=
  hs.moves {
    delivered := rfl
    stored := rfl
    savedBy := rfl
    applied := rfl
    now := Nat.le_succ _
    claims := Nat.le_refl _
    parks := fun _ hp => hp
    flight := fun _ => Iff.rfl
    holds := fun _ _ h => h
    tasks := fun task => (hs.tasks task).mono (Nat.le_succ _) (Nat.le_refl _) fun _ hp => hp
    applying := fun _ stage h => .inr ⟨stage, h, id⟩ }

/-- A piece of news the first look has taken up is kept, or goes on. -/
theorem Sound.start (hs : s.Sound run) (i : ℕ) : (s.start i).Sound run := by
  unfold Parking.start
  split
  · rename_i news happlying hnews
    dsimp only
    split
    · rename_i session pending honline
      refine hs.moves ?_
      exact {
        delivered := rfl
        stored := rfl
        savedBy := rfl
        applied := rfl
        now := Nat.le_refl _
        claims := Nat.le_refl _
        parks := fun _ hp => hp
        flight := fun news' => by
          simp only [InFlight, keep, mem_waiting_iff hnews]
          rw [honline, happlying, online_iff, online_iff, List.mem_append, List.mem_singleton]
          grind
        holds := fun suit since h => by
          obtain ⟨session', pending', claim, record, honline', hlive⟩ := h
          cases honline'
          exact ⟨session, pending, claim, record, honline, hlive⟩
        tasks := hs.tasks
        applying := nofun }
    · rename_i honline
      refine hs.moves ?_
      exact {
        delivered := rfl
        stored := rfl
        savedBy := rfl
        applied := rfl
        now := Nat.le_refl _
        claims := Nat.le_refl _
        parks := fun _ hp => hp
        flight := fun news' => by
          simp only [InFlight, mem_waiting_iff hnews, happlying, Option.some.injEq, Prod.mk.injEq,
            exists_and_left, exists_eq', and_true, reduceCtorEq, exists_false, false_or,
            @eq_comm _ news]
          rw [or_assoc, or_left_comm]
        holds := fun _ _ h => h
        tasks := hs.tasks
        applying := fun news' stage h => by
          cases h
          exact .inl ⟨rfl, honline⟩ }
  · exact hs

theorem Sound.recheck (hs : s.Sound run) : s.recheck.Sound run := by
  unfold Parking.recheck
  split
  · rename_i news r loaded late happlying
    split
    · rename_i session pending honline
      refine hs.moves ?_
      exact {
        delivered := rfl
        stored := rfl
        savedBy := rfl
        applied := rfl
        now := Nat.le_refl _
        claims := Nat.le_refl _
        parks := fun _ hp => hp
        flight := fun news' => by
          simp only [InFlight, keep]
          rw [honline, happlying, online_iff, online_iff, List.mem_append, List.mem_singleton]
          simp only [Option.some.injEq, Prod.mk.injEq, exists_and_left, exists_eq', and_true,
            reduceCtorEq, exists_false, false_or, @eq_comm _ news]
          grind
        holds := fun suit since h => by
          obtain ⟨session', pending', claim, record, honline', hlive⟩ := h
          cases honline'
          exact ⟨session, pending, claim, record, honline, hlive⟩
        tasks := hs.tasks
        applying := nofun }
    · refine hs.moves ?_
      exact {
        delivered := rfl
        stored := rfl
        savedBy := rfl
        applied := rfl
        now := Nat.le_refl _
        claims := Nat.le_refl _
        parks := fun _ hp => hp
        flight := fun news' => by
          simp only [InFlight, happlying, Option.some.injEq, Prod.mk.injEq, exists_and_left,
            exists_eq', and_true]
        holds := fun _ _ h => h
        tasks := hs.tasks
        applying := fun news' stage h => by
          cases h
          exact .inr ⟨_, happlying, id⟩ }
  · exact hs

/-! ## Steps that deliver, take, or store -/

theorem Sound.delivered (hs : s.Sound run) {news : ParkNews S D}
    (hpast : ∀ suit tick rec, news = .hit suit tick rec → tick ≤ s.now) :
    Sound run { s with waiting := s.waiting ++ [news], delivered := news :: s.delivered } where
  told news' hnews := by
    rcases List.mem_cons.mp hnews with rfl | hnews
    · exact .inl (.inl (by simp))
    · exact (hs.told news' hnews).imp_left fun h => h.imp_left (List.mem_append_left _)
  flight news' h := by
    rcases h with h | h
    · rcases List.mem_append.mp h with h | h
      · exact List.mem_cons_of_mem _ (hs.flight news' (.inl h))
      · rw [List.mem_singleton.mp h]
        exact List.mem_cons_self
    · exact List.mem_cons_of_mem _ (hs.flight news' (.inr h))
  past suit tick rec h := by
    rcases List.mem_cons.mp h with h | h
    · exact hpast suit tick rec h.symm
    · exact hs.past suit tick rec h
  tasks := hs.tasks
  saved := hs.saved
  holds := hs.holds
  made := hs.made
  source suit kept h := (hs.source suit kept h).imp_left (List.mem_cons_of_mem _)
  applied := hs.applied

theorem Sound.deliver (hs : s.Sound run) (news : ParkNews S D) : (s.deliver news).Sound run := by
  unfold Parking.deliver
  split
  · exact hs.delivered nofun
  · split
    · rename_i suit tick rec hpast
      refine hs.delivered fun suit' tick' rec' h => ?_
      cases h
      exact hpast
    · exact hs

/-- What a session takes isn't gone, and no hit on it is later. -/
theorem Sound.take [DecidableEq D] (hs : s.Sound run) (task : ℕ) (suit : S) :
    (s.take task suit).Sound run := by
  unfold Parking.take
  split
  · rename_i claim r own htask
    split
    · rename_i hfree
      obtain ⟨hsleeper, hgone⟩ := hfree
      have hnew (news : ParkNews S D) (hnews : news ∈ s.delivered) : ¬ news.Bars suit s.now := by
        cases news with
        | gone lost =>
          rintro rfl
          exact hgone hnews
        | hit hurt tick rec => exact fun hbars => hbars.2.not_ge (hs.past hurt tick rec hnews)
      have hholds {x : S} {since : ℕ} (h : Holds
          { s with tasks := s.setTask task (.live claim (some r) (some (suit, s.now))) } x since) :
          s.Holds x since ∨ (x = suit ∧ since = s.now) := by
        obtain ⟨session, pending, claim', record', honline, hlive⟩ := h
        simp only [setTask, Function.update_apply] at hlive
        split at hlive
        · cases hlive
          exact .inr ⟨rfl, rfl⟩
        · exact .inl ⟨session, pending, claim', record', honline, hlive⟩
      have hcarried : ∀ task', (s.setTask task (.live claim (some r) (some (suit, s.now))) task').carried =
          (s.tasks task').carried := carried_setTask (by rw [htask]; rfl)
      obtain ⟨hclaim, -, -⟩ := hs.tasks task claim (some r) own htask
      exact {
        told := fun news hnews => (hs.told news hnews).imp
          (fun h => by simpa only [InFlight, hcarried] using h) fun h => by
            refine ⟨fun x since hheld => ?_, h.2⟩
            rcases hholds hheld with hheld | ⟨rfl, rfl⟩
            · exact h.1 x since hheld
            · exact hnew news hnews
        flight := fun news h => hs.flight news (by simpa only [InFlight, hcarried] using h)
        past := hs.past
        tasks := fun task' => by
          simp only [setTask, Function.update_apply]
          split
          · intro claim' record' own' h
            cases h
            refine ⟨hclaim, fun x since h => by cases h; exact Nat.le_refl _, ?_⟩
            rintro _ ⟨⟩ z hz
            rw [hsleeper] at hz
            cases hz
          · exact hs.tasks task'
        saved := hs.saved
        holds := fun news stage happlying x since hheld => by
          rcases hholds hheld with hheld | ⟨rfl, rfl⟩
          · exact hs.holds news stage happlying x since hheld
          · exact hnew news (hs.flight news (.inr (.inl ⟨stage, happlying⟩)))
        made := hs.made
        source := hs.source
        applied := hs.applied }
    · exact hs
  · exact hs

/-- A session stores what it has left of its suit, which nothing that was applied speaks against. -/
theorem Sound.save (hs : s.Sound run) (task : ℕ) (ok : Bool) (hclean : s.Clean run (.save task ok)) :
    (s.save task ok).Sound run := by
  unfold Parking.save
  split
  · rename_i claim r own htask
    obtain ⟨hclaim, hsince, hrecord⟩ := hs.tasks task claim (some r) own htask
    have happlying (news : ParkNews S D) :
        (∃ stage, (s.applying.map fun a => (a.1, Applying.overtake a.2)) = some (news, stage)) ↔
          ∃ stage, s.applying = some (news, stage) := by
      cases s.applying with
      | none => simp
      | some a => simp [Prod.ext_iff]
    have hflight (news : ParkNews S D) : InFlight { s with
        stored := some r, savedBy := claim
        applying := s.applying.map fun a => (a.1, Applying.overtake a.2) } news ↔ s.InFlight news := by
      simp only [InFlight, happlying]
    exact {
      told := fun news hnews => (hs.told news hnews).imp (hflight news).mpr fun h => by
        refine ⟨h.1, fun suit kept hstores hbars => ?_⟩
        obtain ⟨_, ⟨⟩, hsleeper, hparked⟩ := hstores
        obtain ⟨-, since, hown, hkept⟩ := hrecord r rfl _ hsleeper
        by_cases hours : ∃ pending, s.online = some (task, pending)
        · obtain ⟨pending, honline⟩ := hours
          exact h.1 suit since ⟨task, pending, claim, some r, honline, hown ▸ htask⟩
            (hbars.anti (hkept kept hparked).1)
        · rw [hbars.suit_eq] at hsleeper
          exact hclean rfl claim r own htask (not_exists.mp hours) news hnews hsleeper
      flight := fun news h => hs.flight news ((hflight news).mp h)
      past := hs.past
      tasks := hs.tasks
      saved := hclaim
      holds := fun news stage h => by
        obtain ⟨stage', h'⟩ := (happlying news).mp ⟨stage, h⟩
        exact hs.holds news stage' h'
      made := fun news stage h => by
        obtain ⟨⟨news', stage'⟩, -, heq⟩ := Option.map_eq_some_iff.mp h
        cases heq
        cases stage' with
        | looked => trivial
        | changed _ _ _ | clear _ _ _ => exact nofun
      source := fun suit kept hstores => by
        obtain ⟨_, ⟨⟩, hsleeper, hparked⟩ := hstores
        obtain ⟨-, since, -, hkept⟩ := hrecord r rfl _ hsleeper
        exact .inr (hkept kept hparked).2
      applied := hs.applied }
  · exact hs

/-- News that isn't for the record that is stored is dropped. -/
theorem Sound.applyLoad (hs : s.Sound run) : (s.applyLoad run true).Sound run := by
  unfold Parking.applyLoad
  split
  · rename_i news happlying
    simp only [if_true]
    split
    · rename_i hnone
      have hother (news' : ParkNews S D) (h : s.InFlight news') :
          InFlight { s with applying := none } news' ∨ news' = news := by
        rcases h with h | ⟨stage, h⟩ | h
        · exact .inl (.inl h)
        · rw [happlying] at h
          cases h
          exact .inr rfl
        · exact .inl (.inr (.inr h))
      have hsettled : Settled run { s with applying := none } news := by
        refine ⟨hs.holds news _ happlying, ?_⟩
        rintro suit kept ⟨r, hr, hkeeps⟩
        have hstored : s.stored = some r := hr
        rw [hstored, Option.bind_some] at hnone
        exact PilotRecord.change_none hnone hkeeps
      exact {
        told := fun news' hnews => by
          rcases hs.told news' hnews with h | h
          · rcases hother news' h with h | rfl
            · exact .inl h
            · exact .inr hsettled
          · exact .inr h
        flight := fun news' h => by
          refine hs.flight news' ?_
          rcases h with h | ⟨stage, ⟨⟩⟩ | h
          · exact .inl h
          · exact .inr (.inr h)
        past := hs.past
        tasks := hs.tasks
        saved := hs.saved
        holds := nofun
        made := nofun
        source := hs.source
        applied := hs.applied }
    · rename_i r hsome
      refine hs.moves ?_
      exact {
        delivered := rfl
        stored := rfl
        savedBy := rfl
        applied := rfl
        now := Nat.le_refl _
        claims := Nat.le_refl _
        parks := fun _ hp => hp
        flight := fun news' => by
          simp only [InFlight, happlying, Option.some.injEq, Prod.mk.injEq, exists_and_left,
            exists_eq', and_true]
        holds := fun _ _ h => h
        tasks := hs.tasks
        applying := fun news' stage h => by
          cases h
          exact .inr ⟨_, happlying, fun _ _ => ⟨hsome, hs.saved⟩⟩ }
  · exact hs

/-- The save makes of what is stored what the news says. -/
theorem Sound.applySave (hs : s.Sound run) (hclean : s.Clean run (.applySave true)) :
    (s.applySave true).Sound run := by
  unfold Parking.applySave
  split
  · rename_i news r loaded late happlying
    rw [if_pos rfl]
    obtain ⟨hmade, hloaded⟩ :=
      hs.made news _ happlying (hclean.2 news r loaded late happlying)
    obtain ⟨old, hold, hchange⟩ := Option.bind_eq_some_iff.mp hmade
    have hnews : news ∈ s.delivered := hs.flight news (.inr (.inl ⟨_, happlying⟩))
    exact {
      told := fun news' hnews' => by
        by_cases heq : news' = news
        · subst heq
          refine .inr ⟨hs.holds news' _ happlying, ?_⟩
          rintro suit kept ⟨_, ⟨⟩, hkeeps⟩
          exact PilotRecord.change_bars hchange hkeeps
        · refine (hs.told news' hnews').imp (fun h => ?_) fun h => ⟨h.1, ?_⟩
          · rcases h with h | ⟨stage, h⟩ | h
            · exact .inl h
            · rw [happlying] at h
              cases h
              exact absurd rfl heq
            · exact .inr (.inr h)
          · rintro suit kept ⟨_, ⟨⟩, hkeeps⟩ hbars
            obtain ⟨before, hbefore, hle⟩ := PilotRecord.change_keeps hchange hkeeps
            exact h.2 suit before ⟨old, hold, hbefore⟩ (hbars.anti hle)
      flight := fun news' h => by
        refine hs.flight news' ?_
        rcases h with h | ⟨stage, ⟨⟩⟩ | h
        · exact .inl h
        · exact .inr (.inr h)
      past := hs.past
      tasks := hs.tasks
      saved := hs.saved
      holds := nofun
      made := nofun
      source := by
        rintro suit kept ⟨_, ⟨⟩, hkeeps⟩
        exact .inl (PilotRecord.change_source hchange hkeeps ▸ hnews)
      applied := List.forall_mem_cons.mpr ⟨⟨hmade, hloaded⟩, hs.applied⟩ }
  · exact hs

theorem Sound.step [DecidableEq D] (hs : s.Sound run) (act : Act S D R) (hclean : s.Clean run act) :
    (s.step run new act).Sound run := by
  cases act with
  | tick => exact hs.tick
  | deliver news => exact hs.deliver news
  | claim task =>
    rw [Parking.step]
    split
    · exact hs.claim ‹_›
    · exact hs
  | look task => exact hs.look task
  | forget task => exact hs.forget task
  | insert task => exact hs.insert task hclean
  | load task ok => exact hs.load task ok
  | take task suit => exact hs.take task suit
  | park task since rec => exact hs.park task since rec
  | edit task rest => exact hs.edit task rest
  | save task ok => exact hs.save task ok hclean
  | release task => exact hs.release task
  | start i => exact hs.start i
  | applyLoad ok =>
    cases (hclean : ok = true)
    exact hs.applyLoad
  | recheck => exact hs.recheck
  | applySave ok =>
    obtain ⟨rfl, -⟩ := id hclean
    exact hs.applySave hclean

end Parking

/-- In a run of clean steps no news of a hidden suit is lost or undone. -/
theorem Parking.kept_of_clean [DecidableEq D] (now : ℕ) (stored : Option (PilotRecord S D R))
    (acts : List (Act S D R))
    (hclean : Run.Along (step run new) (Clean run) (begin now stored) acts) (n : ℕ) :
    ((acts.take n).foldl (step run new) (begin now stored)).Kept run := by
  rw [← List.take_append_drop n acts, Run.along_append] at hclean
  exact (Run.invariant (fun s act hs hact => hs.step act hact) (sound_begin now stored)
    hclean.1).kept

/-- A hit, applied while nobody is online. -/
theorem Parking.kept_hit :
    (([.deliver (.hit 7 5 1), .start 0, .applyLoad true, .recheck, .applySave true].take 5).foldl
      (step 0 ⟨none, none, 0⟩) (begin 5 (some ⟨some ⟨0, 7⟩, some ⟨2, 1, 0⟩, 0⟩))).Kept 0 :=
  kept_of_clean (S := ℕ) (D := ℕ) (R := ℕ) 5 (some ⟨some ⟨0, 7⟩, some ⟨2, 1, 0⟩, 0⟩)
    [.deliver (.hit 7 5 1), .start 0, .applyLoad true, .recheck, .applySave true]
    ⟨trivial, trivial, rfl, trivial, ⟨rfl, by rintro _ _ _ _ ⟨⟩; rfl⟩, trivial⟩ 5

/-- A hit is applied as far as past its second look. A session begins, saves the record, its suit no
longer in a hide spot, and ends; then the hit is stored, and the session's save is lost. -/
theorem Parking.save_lost :
    let s := [Act.deliver (.hit 7 5 1), .start 0, .applyLoad true, .recheck, .claim 0, .look 0,
      .insert 0, .load 0 true, .edit 0 9, .save 0 true, .release 0, .applySave true].foldl
      (step 0 ⟨none, none, 0⟩) (begin 5 (some ⟨some ⟨0, 7⟩, some ⟨2, 1, 0⟩, 0⟩))
    s.stored = some ⟨some ⟨0, 7⟩, some ⟨5, 1, 1⟩, 0⟩ ∧ ¬ s.Kept 0 := by
  refine ⟨by decide, fun h => ?_⟩
  exact absurd (h.applied _ List.mem_cons_self).2 (by decide)

end BeforeColony
