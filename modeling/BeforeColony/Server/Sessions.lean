import BeforeColony.Lib.Run
import BeforeColony.Server.Pilots

/-!
# One session a pilot

Between the look that finds a pilot free and the section that makes them a session's, another claim
may do both; and a claim that has waited long enough forgets whatever session is there by then. While
neither happens, every session that is live is its pilot's, or was told to go long enough ago.
-/

set_option autoImplicit false

namespace BeforeColony

open Lib

namespace Server

variable {News : Type} {s s' : Server News} {act : Act}

/-- What each section does, and when it can be done. -/
inductive Does (s : Server News) : Act → Server News → Prop
  | claim {task : ℕ} {address : PlayerId} (hnone : s.tasks.get? task = none) :
      Does s (.claim task address) { s with tasks := s.setStage task address (.checking []) }
  | taken {task : ℕ} {address : PlayerId} {carried : List News} {o : Online News}
      (htask : s.tasks.get? task = some ⟨address, .checking carried⟩)
      (honline : s.pilots.online.get? address = some o) :
      Does s (.check task) { s with
        pilots := { s.pilots with
          online := s.pilots.online.insert address { o with kick := false } }
        told := s.tell (some o)
        tasks := s.setStage task address (.waiting o.session s.now carried) }
  | clear {task : ℕ} {address : PlayerId} {carried : List News}
      (htask : s.tasks.get? task = some ⟨address, .checking carried⟩)
      (honline : s.pilots.online.get? address = none) :
      Does s (.check task) { s with tasks := s.setStage task address (.clear carried) }
  | wake {task : ℕ} {address : PlayerId} {on since : ℕ} {carried : List News}
      (htask : s.tasks.get? task = some ⟨address, .waiting on since carried⟩) (hgone : on ∈ s.gone) :
      Does s (.wake task) { s with
        gone := s.gone.erase on
        tasks := s.setStage task address (.checking carried) }
  | timeout {task : ℕ} {address : PlayerId} {on since : ℕ} {carried carried' : List News}
      (htask : s.tasks.get? task = some ⟨address, .waiting on since carried⟩)
      (htime : since + takeoverWait ≤ s.now) :
      Does s (.timeout task) { s with
        pilots := { s.pilots with online := s.pilots.online.erase address }
        told := s.tell (s.pilots.online.get? address)
        tasks := s.setStage task address (.checking carried') }
  | number {task : ℕ} {address : PlayerId} {carried : List News}
      (htask : s.tasks.get? task = some ⟨address, .clear carried⟩) :
      Does s (.number task) { s with
        pilots := { s.pilots with nextSession := s.pilots.nextSession + 1 }
        tasks := s.setStage task address (.numbered s.pilots.nextSession carried) }
  | insert {task : ℕ} {address : PlayerId} {session : ℕ} {carried : List News}
      (htask : s.tasks.get? task = some ⟨address, .numbered session carried⟩) :
      Does s (.insert task) { s with
        pilots := { s.pilots with
          online := s.pilots.online.insert address ⟨session, true, carried⟩ }
        told := s.tell (s.pilots.online.get? address)
        tasks := s.setStage task address (.live session) }
  | issue {task token : ℕ} {address : PlayerId} {session : ℕ}
      (htask : s.tasks.get? task = some ⟨address, .live session⟩) :
      Does s (.issue task token) { s with
        pilots := s.pilots.issueToken address token s.now
        issued := ⟨token, address, task⟩ :: s.issued }
  | freed {task : ℕ} {address : PlayerId} {session : ℕ} {o : Online News}
      (htask : s.tasks.get? task = some ⟨address, .live session⟩)
      (honline : s.pilots.online.get? address = some o) (hown : o.session = session) :
      Does s (.free task) { s with
        pilots := { s.pilots with online := s.pilots.online.erase address }
        gone := session :: s.gone
        tasks := s.setStage task address (.leaving session) }
  | left {task : ℕ} {address : PlayerId} {session : ℕ}
      (htask : s.tasks.get? task = some ⟨address, .live session⟩)
      (hnot : ∀ o, s.pilots.online.get? address = some o → o.session ≠ session) :
      Does s (.free task) { s with tasks := s.setStage task address (.leaving session) }
  | age {task : ℕ} {address : PlayerId} {session : ℕ}
      (htask : s.tasks.get? task = some ⟨address, .leaving session⟩) :
      Does s (.age task) { s with
        pilots := s.pilots.age address s.now
        tasks := s.setStage task address (.released session s.now) }
  | redeem {token : ℕ} :
      Does s (.redeem token) { s with
        pilots := (s.pilots.redeem token s.now).1
        spent := if s.pilots.tokens.contains token then token :: s.spent else s.spent }
  | pass {time : ℕ} : Does s (.pass time) { s with now := s.now + time }

theorem free_own {p : Pilots News} {address : PlayerId} {session : ℕ} {o : Online News}
    (honline : p.online.get? address = some o) (hown : o.session = session) :
    p.free address session = ({ p with online := p.online.erase address }, some o) := by
  unfold Pilots.free
  rw [honline]
  exact if_pos hown

theorem free_other {p : Pilots News} {address : PlayerId} {session : ℕ}
    (hnot : ∀ o, p.online.get? address = some o → o.session ≠ session) :
    p.free address session = (p, none) := by
  unfold Pilots.free
  split
  · rename_i o ho
    exact if_neg (hnot o ho)
  · rfl

theorem does_of_step (h : s.step act = some s') : Does s act s' := by
  cases act with
  | claim task address =>
    simp only [step] at h
    split at h
    · cases h
      exact .claim (by assumption)
    · cases h
  | check task =>
    simp only [step] at h
    split at h
    · rename_i address carried htask
      simp only [Pilots.check] at h
      cases honline : s.pilots.online.get? address with
      | none =>
        rw [honline] at h
        cases h
        exact .clear htask honline
      | some o =>
        rw [honline] at h
        cases h
        exact .taken htask honline
    · cases h
  | wake task =>
    simp only [step] at h
    split at h
    · split at h
      · cases h
        exact .wake (by assumption) (by assumption)
      · cases h
    · cases h
  | timeout task =>
    simp only [step, Pilots.forget] at h
    split at h
    · split at h
      · cases h
        exact .timeout (by assumption) (by assumption)
      · cases h
    · cases h
  | number task =>
    simp only [step, Pilots.number] at h
    split at h
    · cases h
      exact .number (by assumption)
    · cases h
  | insert task =>
    simp only [step, Pilots.insert] at h
    split at h
    · cases h
      exact .insert (by assumption)
    · cases h
  | issue task token =>
    simp only [step] at h
    split at h
    · cases h
      exact .issue (by assumption)
    · cases h
  | free task =>
    simp only [step] at h
    split at h
    · rename_i address session htask
      by_cases hown : ∃ o, s.pilots.online.get? address = some o ∧ o.session = session
      · obtain ⟨o, honline, hown⟩ := hown
        rw [free_own honline hown] at h
        cases h
        exact .freed htask honline hown
      · have hnot : ∀ o, s.pilots.online.get? address = some o → o.session ≠ session :=
          fun o ho heq => hown ⟨o, ho, heq⟩
        rw [free_other hnot] at h
        cases h
        exact .left htask hnot
    · cases h
  | age task =>
    simp only [step] at h
    split at h
    · cases h
      exact .age (by assumption)
    · cases h
  | redeem token =>
    cases h
    exact .redeem
  | pass time =>
    cases h
    exact .pass

end Server

/-- The number a connection has, from the section that draws it on. -/
def Stage.session? {News : Type} : Stage News → Option ℕ
  | .numbered session _ | .live session | .leaving session | .released session _ => some session
  | _ => none

namespace Server

variable {News : Type} {s s' : Server News} {act : Act}

theorem get?_setStage (s : Server News) (task : ℕ) (address : PlayerId) (stage : Stage News)
    (k : ℕ) : (s.setStage task address stage).get? k
      = if k = task then some ⟨address, stage⟩ else s.tasks.get? k :=
  Table.get?_insert ..

/-- Numbers are drawn in order, and no two connections have one. -/
structure Numbered (s : Server News) : Prop where
  lt : ∀ task t n, s.tasks.get? task = some t → t.stage.session? = some n →
    n < s.pilots.nextSession
  apart : ∀ task task' t t' n, s.tasks.get? task = some t → s.tasks.get? task' = some t' →
    t.stage.session? = some n → t'.stage.session? = some n → task = task'

namespace Numbered

theorem mono (hs : Numbered s) (htasks : s'.tasks = s.tasks)
    (hnext : s'.pilots.nextSession = s.pilots.nextSession) : Numbered s' where
  lt := by
    rw [htasks, hnext]
    exact hs.lt
  apart := by
    rw [htasks]
    exact hs.apart

/-- A connection that goes on with the number it has, or none. -/
theorem setStage (hs : Numbered s) {task : ℕ} {address : PlayerId} {stage : Stage News}
    (htasks : s'.tasks = s.setStage task address stage)
    (hnext : s'.pilots.nextSession = s.pilots.nextSession)
    (hstage : ∀ n, stage.session? = some n →
      ∃ t, s.tasks.get? task = some t ∧ t.stage.session? = some n) : Numbered s' := by
  -- Whoever has a number had it before.
  have hold {k : ℕ} {t : Connection News} {n : ℕ} (hget : s'.tasks.get? k = some t)
      (hn : t.stage.session? = some n) :
      ∃ t₀, s.tasks.get? k = some t₀ ∧ t₀.stage.session? = some n := by
    rw [htasks, get?_setStage] at hget
    split at hget
    · rename_i hk
      cases hget
      exact hk ▸ hstage n hn
    · exact ⟨t, hget, hn⟩
  constructor
  · intro k t n hget hn
    obtain ⟨t₀, hget₀, hn₀⟩ := hold hget hn
    rw [hnext]
    exact hs.lt k t₀ n hget₀ hn₀
  · intro k k' t t' n hget hget' hn hn'
    obtain ⟨t₀, hget₀, hn₀⟩ := hold hget hn
    obtain ⟨t₁, hget₁, hn₁⟩ := hold hget' hn'
    exact hs.apart k k' t₀ t₁ n hget₀ hget₁ hn₀ hn₁

theorem draw (hs : Numbered s) {task : ℕ} {address : PlayerId} {carried : List News}
    (htasks : s'.tasks = s.setStage task address (.numbered s.pilots.nextSession carried))
    (hnext : s'.pilots.nextSession = s.pilots.nextSession + 1) : Numbered s' := by
  have hold {k : ℕ} {t : Connection News} {n : ℕ} (hget : s'.tasks.get? k = some t)
      (hn : t.stage.session? = some n) :
      (k = task ∧ n = s.pilots.nextSession) ∨ (s.tasks.get? k = some t ∧ n < s.pilots.nextSession) := by
    rw [htasks, get?_setStage] at hget
    split at hget
    · rename_i hk
      cases hget
      exact Or.inl ⟨hk, (Option.some.inj hn).symm⟩
    · exact Or.inr ⟨hget, hs.lt k t n hget hn⟩
  constructor
  · intro k t n hget hn
    rw [hnext]
    rcases hold hget hn with ⟨-, rfl⟩ | ⟨-, hlt⟩ <;> omega
  · intro k k' t t' n hget hget' hn hn'
    rcases hold hget hn with ⟨rfl, hn₀⟩ | ⟨hget₀, hlt⟩
    · rcases hold hget' hn' with ⟨rfl, -⟩ | ⟨-, hlt⟩
      · rfl
      · omega
    · rcases hold hget' hn' with ⟨rfl, hn₀⟩ | ⟨hget₁, -⟩
      · omega
      · exact hs.apart k k' t t' n hget₀ hget₁ hn hn'

theorem step (hs : Numbered s) (hd : Does s act s') : Numbered s' := by
  cases hd with
  | claim hnone => exact hs.setStage rfl rfl nofun
  | taken htask honline => exact hs.setStage rfl rfl nofun
  | clear htask honline => exact hs.setStage rfl rfl nofun
  | wake htask hgone => exact hs.setStage rfl rfl nofun
  | timeout htask htime => exact hs.setStage rfl rfl nofun
  | number htask => exact hs.draw rfl rfl
  | insert htask => exact hs.setStage rfl rfl fun n hn => ⟨_, htask, hn⟩
  | issue htask => exact hs.mono rfl rfl
  | freed htask honline hown => exact hs.setStage rfl rfl fun n hn => ⟨_, htask, hn⟩
  | left htask hnot => exact hs.setStage rfl rfl fun n hn => ⟨_, htask, hn⟩
  | age htask => exact hs.setStage rfl rfl fun n hn => ⟨_, htask, hn⟩
  | redeem =>
    refine hs.mono rfl ?_
    simp only [Pilots.redeem]
    split <;> rfl
  | pass => exact hs.mono rfl rfl

end Numbered

/-- A session is the pilot's, and can be told to go if it hasn't been; or it was told to go, and has
had its time. -/
def Holds (s : Server News) (address : PlayerId) (session : ℕ) : Prop :=
  (∃ o, s.pilots.online.get? address = some o ∧ o.session = session
      ∧ (o.kick = true ↔ s.told.get? session = none))
    ∨ ∃ k, s.told.get? session = some k ∧ k + takeoverWait ≤ s.now

/-- A claim finds its pilot's slot as it last saw it: a session is put where there is none, and one
that hasn't gone in time is forgotten only if it's the one waited for. -/
def Orderly (s : Server News) : Act → Prop
  | .insert task => ∀ address session carried,
    s.tasks.get? task = some ⟨address, .numbered session carried⟩ →
    s.pilots.online.get? address = none
  | .timeout task => ∀ address on since carried o,
    s.tasks.get? task = some ⟨address, .waiting on since carried⟩ →
    s.pilots.online.get? address = some o → o.session = on
  | _ => True

def isOrderly (s : Server News) : Act → Bool
  | .insert task =>
    match s.tasks.get? task with
    | some ⟨address, .numbered _ _⟩ => (s.pilots.online.get? address).isNone
    | _ => true
  | .timeout task =>
    match s.tasks.get? task with
    | some ⟨address, .waiting on _ _⟩ =>
      (s.pilots.online.get? address).all fun o => o.session = on
    | _ => true
  | _ => true

theorem orderly_iff (s : Server News) (act : Act) : isOrderly s act = true ↔ Orderly s act := by
  cases act with
  | insert task =>
    simp only [isOrderly, Orderly]
    split
    · rename_i address session carried htask
      rw [Option.isNone_iff_eq_none, htask]
      constructor
      · rintro hnone b n c ⟨⟩
        exact hnone
      · exact fun h => h _ _ _ rfl
    · rename_i hnot
      exact iff_of_true rfl fun b n c hget => (hnot b n c hget).elim
  | timeout task =>
    simp only [isOrderly, Orderly]
    split
    · rename_i address on since carried htask
      rw [htask]
      cases honline : s.pilots.online.get? address with
      | none =>
        refine iff_of_true rfl ?_
        rintro b on' since' c o ⟨⟩ ho
        cases honline.symm.trans ho
      | some o =>
        simp only [Option.all_some, decide_eq_true_eq]
        constructor
        · rintro hon b on' since' c o' ⟨⟩ ho
          cases honline.symm.trans ho
          exact hon
        · exact fun h => h _ _ _ _ o rfl honline
    · rename_i hnot
      exact iff_of_true rfl fun b on since c o hget => (hnot b on since c hget).elim
  | _ => exact iff_of_true rfl trivial

instance (s : Server News) (act : Act) : Decidable (Orderly s act) :=
  decidable_of_iff _ (orderly_iff s act)

/-- What is so of a server whose claims have all been orderly. -/
structure Sound (s : Server News) : Prop where
  numbered : Numbered s
  entry : ∀ address o, s.pilots.online.get? address = some o →
    ∃ task, s.tasks.get? task = some ⟨address, .live o.session⟩
      ∧ (o.kick = true ↔ s.told.get? o.session = none)
  told : ∀ n k, s.told.get? n = some k → k ≤ s.now ∧ n < s.pilots.nextSession
    ∧ ∀ task address carried, s.tasks.get? task ≠ some ⟨address, .numbered n carried⟩
  waits : ∀ task address on since carried,
    s.tasks.get? task = some ⟨address, .waiting on since carried⟩ →
    ∃ k, s.told.get? on = some k ∧ k ≤ since
  live : ∀ task address n, s.tasks.get? task = some ⟨address, .live n⟩ → Holds s address n

namespace Sound

variable {task : ℕ} {address : PlayerId} {stage : Stage News}

theorem mono (hs : Sound s) (hn : Numbered s') (htasks : s'.tasks = s.tasks)
    (honline : s'.pilots.online = s.pilots.online) (htold : s'.told = s.told)
    (hnow : s.now ≤ s'.now) (hnext : s'.pilots.nextSession = s.pilots.nextSession) : Sound s' where
  numbered := hn
  entry := by
    rw [honline, htasks, htold]
    exact hs.entry
  told n k hk := by
    rw [htold] at hk
    rw [htasks, hnext]
    obtain ⟨hle, hlt, hnot⟩ := hs.told n k hk
    exact ⟨hle.trans hnow, hlt, hnot⟩
  waits := by
    rw [htasks, htold]
    exact hs.waits
  live task address n hget := by
    rw [htasks] at hget
    unfold Holds
    rw [honline, htold]
    exact (hs.live task address n hget).imp_right fun ⟨k, hk, hlong⟩ => ⟨k, hk, hlong.trans hnow⟩

/-- A connection goes on that holds no pilot, and doesn't wait. -/
theorem aside (hs : Sound s) (hn : Numbered s') (htasks : s'.tasks = s.setStage task address stage)
    (honline : s'.pilots.online = s.pilots.online) (htold : s'.told = s.told)
    (hnow : s'.now = s.now) (hnext : s.pilots.nextSession ≤ s'.pilots.nextSession)
    (hold : ∀ b n, s.tasks.get? task ≠ some ⟨b, .live n⟩) (hlive : ∀ n, stage ≠ .live n)
    (hwaits : ∀ on since carried, stage ≠ .waiting on since carried)
    (hfresh : ∀ n carried, stage = .numbered n carried → s.told.get? n = none) : Sound s' where
  numbered := hn
  entry a o ho := by
    rw [honline] at ho
    obtain ⟨k, hk, hkick⟩ := hs.entry a o ho
    refine ⟨k, ?_, htold ▸ hkick⟩
    rw [htasks, get?_setStage, if_neg]
    · exact hk
    · rintro rfl
      exact hold _ _ hk
  told n k hk := by
    rw [htold] at hk
    obtain ⟨hle, hlt, hnot⟩ := hs.told n k hk
    refine ⟨hnow ▸ hle, hlt.trans_le hnext, fun t b carried => ?_⟩
    rw [htasks, get?_setStage]
    split
    · intro heq
      cases heq
      rw [hfresh n carried rfl] at hk
      cases hk
    · exact hnot t b carried
  waits t b on since carried hget := by
    rw [htasks, get?_setStage] at hget
    rw [htold]
    split at hget
    · cases hget
      exact (hwaits _ _ _ rfl).elim
    · exact hs.waits t b on since carried hget
  live t b n hget := by
    rw [htasks, get?_setStage] at hget
    unfold Holds
    rw [honline, htold, hnow]
    split at hget
    · cases hget
      exact (hlive n rfl).elim
    · exact hs.live t b n hget

/-- The sessions of two connections of one number are one. -/
theorem same_task (hs : Sound s) {task' : ℕ} {address' : PlayerId} {n : ℕ}
    (hget : s.tasks.get? task = some ⟨address, .live n⟩)
    (hget' : s.tasks.get? task' = some ⟨address', .live n⟩) : address = address' := by
  have hsame := hs.numbered.apart task task' _ _ n hget hget' rfl rfl
  rw [hsame, hget'] at hget
  cases hget
  rfl

theorem get?_tell (s : Server News) (o : Online News) (n : ℕ) :
    (s.tell (some o)).get? n
      = if n = o.session ∧ o.kick = true then some s.now else s.told.get? n := by
  rw [tell]
  split
  · rename_i hyes
    rw [Table.get?_insert]
    simp only [hyes, and_true]
  · rename_i hno
    rw [if_neg fun h => hno h.2]

/-- A claim finds its pilot's session, tells it to go, and waits. -/
theorem of_taken {carried : List News} {o : Online News} (hs : Sound s) (hn : Numbered s')
    (hold : ∀ b n, s.tasks.get? task ≠ some ⟨b, .live n⟩)
    (ho : s.pilots.online.get? address = some o)
    (htasks : s'.tasks = s.setStage task address (.waiting o.session s.now carried))
    (honline : s'.pilots.online = s.pilots.online.insert address { o with kick := false })
    (htold : s'.told = s.tell (some o)) (hnow : s'.now = s.now)
    (hnext : s'.pilots.nextSession = s.pilots.nextSession) : Sound s' := by
  obtain ⟨holder, hholder, hkick⟩ := hs.entry address o ho
  -- The session found has been told, now or before; of any other nothing changes.
  have hfound : ∃ k, s'.told.get? o.session = some k ∧ k ≤ s.now := by
    rw [htold, get?_tell]
    split
    · exact ⟨s.now, rfl, le_rfl⟩
    · rename_i hno
      have hsome : s.told.get? o.session ≠ none := fun hnone => hno ⟨rfl, hkick.mpr hnone⟩
      obtain ⟨k, hk⟩ := Option.ne_none_iff_exists'.mp hsome
      exact ⟨k, hk, (hs.told _ k hk).1⟩
  have hkept {n k : ℕ} (hk : s.told.get? n = some k) : s'.told.get? n = some k := by
    rw [htold, get?_tell, if_neg]
    · exact hk
    · rintro ⟨rfl, hyes⟩
      rw [hkick.mp hyes] at hk
      cases hk
  have hother {n : ℕ} (hne : n ≠ o.session) : s'.told.get? n = s.told.get? n := by
    rw [htold, get?_tell, if_neg fun h => hne h.1]
  have hlive {k : ℕ} {b : PlayerId} {n : ℕ} (hget : s'.tasks.get? k = some ⟨b, .live n⟩) :
      s.tasks.get? k = some ⟨b, .live n⟩ := by
    rw [htasks, get?_setStage] at hget
    split at hget
    · cases hget
    · exact hget
  refine ⟨hn, ?_, ?_, ?_, ?_⟩
  · intro b o' ho'
    rw [honline, Table.get?_insert] at ho'
    have hentry : ∃ t, s.tasks.get? t = some ⟨b, .live o'.session⟩
        ∧ (o'.kick = true ↔ s'.told.get? o'.session = none) := by
      split at ho'
      · rename_i hb
        cases ho'
        obtain ⟨k, hk, -⟩ := hfound
        refine ⟨holder, hb ▸ hholder, ?_⟩
        simp [hk]
      · rename_i hb
        obtain ⟨t, ht, hkick'⟩ := hs.entry b o' ho'
        refine ⟨t, ht, ?_⟩
        rw [hother fun heq => hb (hs.same_task (heq ▸ ht) hholder)]
        exact hkick'
    obtain ⟨t, ht, hkick'⟩ := hentry
    refine ⟨t, ?_, hkick'⟩
    rw [htasks, get?_setStage, if_neg]
    · exact ht
    · rintro rfl
      exact hold _ _ ht
  · intro n k hk
    have hnumbered (t : ℕ) (b : PlayerId) (c : List News)
        (hnot : s.tasks.get? t ≠ some ⟨b, .numbered n c⟩) :
        s'.tasks.get? t ≠ some ⟨b, .numbered n c⟩ := by
      rw [htasks, get?_setStage]
      split
      · nofun
      · exact hnot
    rw [hnow, hnext]
    rw [htold, get?_tell] at hk
    split at hk
    · rename_i hyes
      cases hk
      refine ⟨le_rfl, hs.numbered.lt holder _ n hholder (by rw [hyes.1]; rfl), fun t b c => ?_⟩
      apply hnumbered
      intro hget
      have hsame := hs.numbered.apart t holder _ _ n hget hholder rfl (by rw [hyes.1]; rfl)
      rw [hsame, hholder] at hget
      cases hget
    · obtain ⟨hle, hlt, hnot⟩ := hs.told n k hk
      exact ⟨hle, hlt, fun t b c => hnumbered t b c (hnot t b c)⟩
  · intro t b on since carried' hget
    rw [htasks, get?_setStage] at hget
    split at hget
    · cases hget
      exact hfound
    · obtain ⟨k, hk, hle⟩ := hs.waits t b on since carried' hget
      exact ⟨k, hkept hk, hle⟩
  · intro t b n hget
    unfold Holds
    rw [honline, Table.get?_insert, hnow]
    rcases hs.live t b n (hlive hget) with ⟨o', ho', hsession, hkick'⟩ | ⟨k, hk, hlong⟩
    · refine Or.inl ?_
      by_cases hb : b = address
      · rw [if_pos hb]
        rw [hb, ho] at ho'
        cases ho'
        obtain ⟨k, hk, -⟩ := hfound
        refine ⟨_, rfl, hsession, ?_⟩
        simp [← hsession, hk]
      · rw [if_neg hb]
        refine ⟨o', ho', hsession, ?_⟩
        rw [hother fun heq => hb (hs.same_task (heq ▸ hlive hget) hholder)]
        exact hkick'
    · exact Or.inr ⟨k, hkept hk, hlong⟩

/-- The pilot's session is forgotten, told long enough ago. -/
theorem forgotten {carried : List News} (hs : Sound s) (hn : Numbered s')
    (hold : ∀ b n, s.tasks.get? task ≠ some ⟨b, .live n⟩)
    (hdue : ∀ o, s.pilots.online.get? address = some o →
      ∃ k, s.told.get? o.session = some k ∧ k + takeoverWait ≤ s.now)
    (htasks : s'.tasks = s.setStage task address (.checking carried))
    (honline : s'.pilots.online = s.pilots.online.erase address) (htold : s'.told = s.told)
    (hnow : s'.now = s.now) (hnext : s'.pilots.nextSession = s.pilots.nextSession) : Sound s' := by
  have haside : Sound { s with
      tasks := s.setStage task address (.checking carried) } :=
    hs.aside (hn.mono htasks.symm hnext.symm) rfl rfl rfl rfl le_rfl hold nofun nofun nofun
  refine ⟨hn, ?_, ?_, ?_, ?_⟩
  · intro b o ho
    rw [honline, Table.get?_erase] at ho
    split at ho
    · cases ho
    · rw [htasks, htold]
      exact haside.entry b o ho
  · rw [htasks, htold, hnow, hnext]
    exact haside.told
  · rw [htasks, htold]
    exact haside.waits
  · rw [htasks]
    intro t b n hget
    unfold Holds
    rw [honline, htold, hnow, Table.get?_erase]
    rcases haside.live t b n hget with ⟨o, ho, hsession, hkick⟩ | hlong
    · by_cases hb : b = address
      · obtain ⟨k, hk, hlong⟩ := hdue o (hb ▸ ho)
        exact Or.inr ⟨k, hsession ▸ hk, hlong⟩
      · rw [if_neg hb]
        exact Or.inl ⟨o, ho, hsession, hkick⟩
    · exact Or.inr hlong

theorem inserted {session : ℕ} {carried : List News} (hs : Sound s) (hn : Numbered s')
    (htask : s.tasks.get? task = some ⟨address, .numbered session carried⟩)
    (hfree : s.pilots.online.get? address = none)
    (htasks : s'.tasks = s.setStage task address (.live session))
    (honline : s'.pilots.online = s.pilots.online.insert address ⟨session, true, carried⟩)
    (htold : s'.told = s.told) (hnow : s'.now = s.now)
    (hnext : s'.pilots.nextSession = s.pilots.nextSession) : Sound s' := by
  have hfresh : s.told.get? session = none := by
    rw [Option.eq_none_iff_forall_not_mem]
    intro k hk
    exact (hs.told session k hk).2.2 task address carried htask
  have hkeep {k : ℕ} {b : PlayerId} {stage : Stage News} (hget : s.tasks.get? k = some ⟨b, stage⟩)
      (hne : ∀ c, stage ≠ .numbered session c) : s'.tasks.get? k = some ⟨b, stage⟩ := by
    rw [htasks, get?_setStage, if_neg]
    · exact hget
    · rintro rfl
      rw [htask] at hget
      cases hget
      exact hne carried rfl
  refine ⟨hn, ?_, ?_, ?_, ?_⟩
  · intro b o ho
    rw [honline, Table.get?_insert] at ho
    rw [htold]
    split at ho
    · rename_i hb
      cases ho
      refine ⟨task, ?_, by simp [hfresh]⟩
      rw [htasks, get?_setStage, if_pos rfl, hb]
    · obtain ⟨t, ht, hkick⟩ := hs.entry b o ho
      exact ⟨t, hkeep ht nofun, hkick⟩
  · intro n k hk
    rw [htold] at hk
    obtain ⟨hle, hlt, hnot⟩ := hs.told n k hk
    refine ⟨hnow ▸ hle, hnext ▸ hlt, fun t b c => ?_⟩
    rw [htasks, get?_setStage]
    split
    · nofun
    · exact hnot t b c
  · intro t b on since c hget
    rw [htasks, get?_setStage] at hget
    rw [htold]
    split at hget
    · cases hget
    · exact hs.waits t b on since c hget
  · intro t b n hget
    rw [htasks, get?_setStage] at hget
    unfold Holds
    rw [honline, htold, hnow, Table.get?_insert]
    split at hget
    · cases hget
      exact Or.inl ⟨_, if_pos rfl, rfl, by simp [hfresh]⟩
    · rcases hs.live t b n hget with ⟨o, ho, hsession, hkick⟩ | hlong
      · refine Or.inl ⟨o, ?_, hsession, hkick⟩
        rw [if_neg]
        · exact ho
        · rintro rfl
          cases hfree.symm.trans ho
      · exact Or.inr hlong

/-- A session lets its pilot go, and the pilot is free if it was theirs. -/
theorem freed {session : ℕ} (hs : Sound s) (hn : Numbered s')
    (htask : s.tasks.get? task = some ⟨address, .live session⟩)
    (htasks : s'.tasks = s.setStage task address (.leaving session))
    (honline : ∀ b, s'.pilots.online.get? b
      = if b = address ∧ ∃ o, s.pilots.online.get? address = some o ∧ o.session = session then none
        else s.pilots.online.get? b)
    (htold : s'.told = s.told) (hnow : s'.now = s.now)
    (hnext : s'.pilots.nextSession = s.pilots.nextSession) : Sound s' := by
  refine ⟨hn, ?_, ?_, ?_, ?_⟩
  · intro b o ho
    rw [honline] at ho
    split at ho
    · cases ho
    · rename_i hnot
      obtain ⟨t, ht, hkick⟩ := hs.entry b o ho
      refine ⟨t, ?_, htold ▸ hkick⟩
      rw [htasks, get?_setStage, if_neg]
      · exact ht
      · rintro rfl
        rw [htask] at ht
        cases ht
        exact hnot ⟨rfl, o, ho, rfl⟩
  · intro n k hk
    rw [htold] at hk
    obtain ⟨hle, hlt, hnot⟩ := hs.told n k hk
    refine ⟨hnow ▸ hle, hnext ▸ hlt, fun t b c => ?_⟩
    rw [htasks, get?_setStage]
    split
    · nofun
    · exact hnot t b c
  · intro t b on since c hget
    rw [htasks, get?_setStage] at hget
    rw [htold]
    split at hget
    · cases hget
    · exact hs.waits t b on since c hget
  · intro t b n hget
    rw [htasks, get?_setStage] at hget
    unfold Holds
    rw [honline, htold, hnow]
    split at hget
    · cases hget
    · rename_i hne
      rcases hs.live t b n hget with ⟨o, ho, hsession, hkick⟩ | hlong
      · refine Or.inl ⟨o, ?_, hsession, hkick⟩
        rw [if_neg]
        · exact ho
        · rintro ⟨rfl, o', ho', hsession'⟩
          cases ho.symm.trans ho'
          rw [← hsession', hsession] at htask
          exact hne (hs.numbered.apart t task _ _ n hget htask rfl rfl)
      · exact Or.inr hlong

theorem not_live {stage : Stage News} (htask : s.tasks.get? task = some ⟨address, stage⟩)
    (hstage : ∀ n, stage ≠ .live n) (b : PlayerId) (n : ℕ) :
    s.tasks.get? task ≠ some ⟨b, .live n⟩ := by
  rw [htask]
  intro heq
  cases heq
  exact hstage n rfl

theorem step (hs : Sound s) (horderly : Orderly s act) (hd : Does s act s') : Sound s' := by
  have hn := hs.numbered.step hd
  cases hd with
  | claim hnone =>
    refine hs.aside hn rfl rfl rfl rfl le_rfl ?_ nofun nofun nofun
    intro b n
    rw [hnone]
    nofun
  | taken htask honline =>
    exact hs.of_taken hn (not_live htask nofun) honline rfl rfl rfl rfl rfl
  | clear htask honline =>
    exact hs.aside hn rfl rfl rfl rfl le_rfl (not_live htask nofun) nofun nofun nofun
  | wake htask hgone =>
    exact hs.aside hn rfl rfl rfl rfl le_rfl (not_live htask nofun) nofun nofun nofun
  | timeout htask htime =>
    rename_i task address on since carried carried'
    obtain ⟨k, hk, hle⟩ := hs.waits task address on since carried htask
    -- The session there, if any, is the one waited for: told before the wait, and not again.
    have hthere : ∀ o, s.pilots.online.get? address = some o → o.session = on :=
      fun o ho => horderly address on since carried o htask ho
    have htell : s.tell (s.pilots.online.get? address) = s.told := by
      cases ho : s.pilots.online.get? address with
      | none => rfl
      | some o =>
        obtain ⟨holder, -, hkick⟩ := hs.entry address o ho
        have htold : ¬ o.kick = true := by
          rw [hkick, hthere o ho, hk]
          nofun
        exact if_neg htold
    refine hs.forgotten hn (not_live htask nofun) ?_ rfl rfl htell rfl rfl
    intro o ho
    exact ⟨k, hthere o ho ▸ hk, (Nat.add_le_add_right hle _).trans htime⟩
  | number htask =>
    refine hs.aside hn rfl rfl rfl rfl (Nat.le_succ _) (not_live htask nofun) nofun nofun ?_
    rintro n c ⟨⟩
    rw [Option.eq_none_iff_forall_not_mem]
    intro k hk
    exact (hs.told _ k hk).2.1.false
  | insert htask =>
    have hfree := horderly _ _ _ htask
    exact hs.inserted hn htask hfree rfl rfl (by rw [hfree]; rfl) rfl rfl
  | issue htask => exact hs.mono hn rfl rfl rfl le_rfl rfl
  | freed htask honline hown =>
    refine hs.freed hn htask rfl ?_ rfl rfl rfl
    intro b
    rw [Table.get?_erase]
    simp only [honline, Option.some.injEq, exists_eq_left', hown, and_true]
  | left htask hnot =>
    refine hs.freed hn htask rfl ?_ rfl rfl rfl
    intro b
    rw [if_neg]
    rintro ⟨-, o, ho, hsession⟩
    exact hnot o ho hsession
  | age htask => exact hs.aside hn rfl rfl rfl rfl le_rfl (not_live htask nofun) nofun nofun nofun
  | redeem =>
    have honline : ∀ p : Pilots News, ∀ token now, (p.redeem token now).1.online = p.online
        ∧ (p.redeem token now).1.nextSession = p.nextSession := by
      intro p token now
      unfold Pilots.redeem
      split <;> exact ⟨rfl, rfl⟩
    exact hs.mono hn rfl (honline _ _ _).1 rfl le_rfl (honline _ _ _).2
  | pass => exact hs.mono hn rfl rfl rfl (Nat.le_add_right _ _) rfl

theorem new (ttl : ℕ) : Sound (Server.new ttl : Server News) where
  numbered := ⟨nofun, nofun⟩
  entry := nofun
  told := nofun
  waits := nofun
  live := nofun

end Sound

/-- Over any run of a server whose claims all find their pilot's slot as they last saw it, every live
session is its pilot's and can be told to go, or was told and has had its time; so a claim comes back
only when no session of the pilot is live but such as those. -/
theorem one_session (ttl : ℕ) (acts : List Act) (s : Server News)
    (hrun : (Server.new ttl).run acts = some s)
    (horderly : Run.AlongSome step Orderly (Server.new ttl : Server News) acts) :
    (∀ task address n, s.tasks.get? task = some ⟨address, .live n⟩ → Holds s address n)
      ∧ ∀ task address n carried, s.tasks.get? task = some ⟨address, .numbered n carried⟩ →
        Orderly s (.insert task) → ∀ other n', s.tasks.get? other = some ⟨address, .live n'⟩ →
        ∃ k, s.told.get? n' = some k ∧ k + takeoverWait ≤ s.now := by
  have hs : Sound s := Run.invariant_some
    (fun _ _ _ hs ho hstep => hs.step ho (does_of_step hstep)) (Sound.new ttl) horderly hrun
  refine ⟨hs.live, fun task address n carried htask ho other n' hother => ?_⟩
  rcases hs.live other address n' hother with ⟨o, honline, -⟩ | hlong
  · cases (ho address n carried htask).symm.trans honline
  · exact hlong

/-- A pilot's first session is taken over by a second, once it has let them go. -/
def takeover : List Act :=
  [.claim 0 "0xa", .check 0, .number 0, .insert 0, .claim 1 "0xa", .check 1, .free 0, .wake 1,
    .check 1, .number 1, .insert 1]

def afterTakeover : Server Unit := ((Server.new 200).run takeover).getD (Server.new 200)

theorem takeover_one_session :
    (∀ task address n, afterTakeover.tasks.get? task = some ⟨address, .live n⟩ →
        Holds afterTakeover address n)
      ∧ ∀ task address n carried, afterTakeover.tasks.get? task = some ⟨address, .numbered n carried⟩ →
        Orderly afterTakeover (.insert task) → ∀ other n',
        afterTakeover.tasks.get? other = some ⟨address, .live n'⟩ →
        ∃ k, afterTakeover.told.get? n' = some k ∧ k + takeoverWait ≤ afterTakeover.now := by
  have hrun : (Server.new 200 : Server Unit).run takeover = some afterTakeover := by
    have hsome : ((Server.new 200 : Server Unit).run takeover).isSome := by decide +kernel
    obtain ⟨s, hs⟩ := Option.isSome_iff_exists.mp hsome
    rw [afterTakeover, hs, Option.getD_some]
  exact one_session 200 takeover afterTakeover hrun (by decide +kernel)

/-- Two claims at once: both find the pilot free, and both make them theirs. -/
def race : List Act :=
  [.claim 0 "0xa", .claim 1 "0xa", .check 0, .check 1, .number 0, .number 1, .insert 0, .insert 1]

/-- The first of them is live, no longer its pilot's, and was told to go just now. -/
theorem both_hold_pilot :
    ¬ ∀ (ttl : ℕ) (acts : List Act) (s : Server Unit), (Server.new ttl).run acts = some s →
      ∀ task address n, s.tasks.get? task = some ⟨address, .live n⟩ → Holds s address n := by
  intro hclaim
  have hrace : ((Server.new 200 : Server Unit).run race).map (fun s =>
      (s.tasks.get? 0, (s.pilots.online.get? "0xa").map Online.session, s.told.get? 1, s.now))
      = some (some ⟨"0xa", .live 1⟩, some 2, some 0, 0) := by decide +kernel
  obtain ⟨s, hrun, hfacts⟩ := Option.map_eq_some_iff.mp hrace
  simp only [Prod.mk.injEq] at hfacts
  obtain ⟨htask, honline, htold, hnow⟩ := hfacts
  rcases hclaim 200 race s hrun 0 "0xa" 1 htask with ⟨o, ho, hsession, -⟩ | ⟨k, hk, hlong⟩
  · rw [ho, Option.map_some, hsession] at honline
    cases honline
  · rw [htold] at hk
    cases hk
    rw [hnow] at hlong
    exact absurd hlong (by decide)

end Server

end BeforeColony
