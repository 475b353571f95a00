import BeforeColony.Server.Sessions

/-!
# Resume tokens

A token is good once, for the pilot it was issued to, and only their newest is; it ages from when
its session ends. While no other session's release ages it, it doesn't before.
-/

set_option autoImplicit false

namespace BeforeColony

open Lib

namespace Server

variable {News : Type} {s s' : Server News} {act : Act}

def newest (s : Server News) (address : PlayerId) : Option Issue :=
  s.issued.find? fun i => i.address = address

/-- The session a token was issued to is live, and its pilot's. -/
def LiveOwn (s : Server News) (i : Issue) : Prop :=
  ∃ n o, s.tasks.get? i.task = some ⟨i.address, .live n⟩
    ∧ s.pilots.online.get? i.address = some o ∧ o.session = n

def isLiveOwn (s : Server News) (i : Issue) : Bool :=
  match s.tasks.get? i.task, s.pilots.online.get? i.address with
  | some ⟨address, .live n⟩, some o => address = i.address ∧ o.session = n
  | _, _ => false

theorem liveOwn_iff (s : Server News) (i : Issue) : isLiveOwn s i = true ↔ LiveOwn s i := by
  simp only [isLiveOwn, LiveOwn]
  split
  · rename_i address n o htask honline
    rw [htask, honline]
    simp only [decide_eq_true_eq]
    constructor
    · rintro ⟨rfl, hsession⟩
      exact ⟨n, o, rfl, rfl, hsession⟩
    · rintro ⟨n', o', heq, heq', hsession⟩
      cases heq
      cases heq'
      exact ⟨rfl, hsession⟩
  · rename_i hnot
    refine iff_of_false Bool.false_ne_true ?_
    rintro ⟨n, o, htask, honline, -⟩
    exact hnot _ n o htask honline

instance (s : Server News) (i : Issue) : Decidable (LiveOwn s i) :=
  decidable_of_iff _ (liveOwn_iff s i)

/-- What tokens promise. One that redeems was issued to that pilot, last of all theirs, hasn't been
handed back before, and isn't past its time if its session has been released; and one not handed
back redeems while its session is its pilot's. -/
structure Promised (s : Server News) : Prop where
  redeems : ∀ token address, (s.pilots.redeem token s.now).2 = some address →
    ∃ task, s.newest address = some ⟨token, address, task⟩ ∧ token ∉ s.spent
      ∧ ∀ b n since, s.tasks.get? task = some ⟨b, .released n since⟩ → s.now < since + s.pilots.ttl
  lasts : ∀ i, s.newest i.address = some i → i.token ∉ s.spent → LiveOwn s i →
    (s.pilots.redeem i.token s.now).2 = some i.address

def Drawn (s : Server News) : Act → Prop
  | .issue _ token => token ∉ s.issued.map Issue.token
  | _ => True

/-- No release ages a token of another session that is the pilot's. -/
def AgesOwn (s : Server News) : Act → Prop
  | .age task => ∀ address session, s.tasks.get? task = some ⟨address, .leaving session⟩ →
    ∀ i, s.newest address = some i → i.token ∉ s.spent → ¬ LiveOwn s i
  | _ => True

instance (s : Server News) : (act : Act) → Decidable (Drawn s act)
  | .issue _ token => inferInstanceAs (Decidable (token ∉ s.issued.map Issue.token))
  | .claim .. | .check _ | .wake _ | .timeout _ | .number _ | .insert _ | .free _ | .age _
  | .redeem _ | .pass _ => isTrue trivial

def agesOwn (s : Server News) : Act → Bool
  | .age task =>
    match s.tasks.get? task with
    | some ⟨address, .leaving _⟩ =>
      (s.newest address).all fun i => i.token ∈ s.spent ∨ ¬ LiveOwn s i
    | _ => true
  | _ => true

theorem agesOwn_iff (s : Server News) (act : Act) : agesOwn s act = true ↔ AgesOwn s act := by
  cases act with
  | age task =>
    simp only [agesOwn, AgesOwn]
    split
    · rename_i address session htask
      rw [htask]
      cases hnewest : s.newest address with
      | none =>
        refine iff_of_true rfl ?_
        rintro b n ⟨⟩ i hi
        cases hnewest.symm.trans hi
      | some i =>
        simp only [Option.all_some, decide_eq_true_eq]
        constructor
        · rintro himp b n ⟨⟩ i' hi
          cases hnewest.symm.trans hi
          exact fun hspent => himp.resolve_left hspent
        · intro h
          exact Decidable.or_iff_not_imp_left.mpr (h _ _ rfl i hnewest)
    · rename_i hnot
      exact iff_of_true rfl fun b n hget => (hnot b n hget).elim
  | _ => exact iff_of_true rfl trivial

instance (s : Server News) (act : Act) : Decidable (AgesOwn s act) :=
  decidable_of_iff _ (agesOwn_iff s act)

end Server

/-- Whether a connection has come to hold its pilot. -/
def Stage.Began {News : Type} : Stage News → Prop
  | .live _ | .leaving _ | .released _ _ => True
  | _ => False

namespace Server

variable {News : Type} {s s' : Server News} {act : Act}

theorem began_setStage {task : ℕ} {address : PlayerId} {stage₀ stage : Stage News}
    (hold : s.tasks.get? task = some ⟨address, stage₀⟩) (hbegan : stage₀.Began → stage.Began)
    {k : ℕ} {b : PlayerId} {stage₁ : Stage News} (hget : s.tasks.get? k = some ⟨b, stage₁⟩)
    (hk : stage₁.Began) :
    ∃ stage₂, (s.setStage task address stage).get? k = some ⟨b, stage₂⟩ ∧ stage₂.Began := by
  rw [get?_setStage]
  split
  · rename_i hkt
    rw [hkt, hold] at hget
    cases hget
    exact ⟨stage, rfl, hbegan hk⟩
  · exact ⟨stage₁, hget, hk⟩

/-- Once a connection has held its pilot it has for good. -/
theorem began_step (hd : Does s act s') {k : ℕ} {b : PlayerId} {stage : Stage News}
    (hget : s.tasks.get? k = some ⟨b, stage⟩) (hk : stage.Began) :
    ∃ stage', s'.tasks.get? k = some ⟨b, stage'⟩ ∧ stage'.Began := by
  cases hd with
  | claim hnone =>
    refine ⟨stage, ?_, hk⟩
    rw [get?_setStage, if_neg]
    · exact hget
    · rintro rfl
      cases hnone.symm.trans hget
  | taken htask honline => exact began_setStage htask nofun hget hk
  | clear htask honline => exact began_setStage htask nofun hget hk
  | wake htask hgone => exact began_setStage htask nofun hget hk
  | timeout htask htime => exact began_setStage htask nofun hget hk
  | number htask => exact began_setStage htask nofun hget hk
  | insert htask => exact began_setStage htask nofun hget hk
  | issue htask => exact ⟨stage, hget, hk⟩
  | freed htask honline hown =>
    refine began_setStage htask ?_ hget hk
    exact fun _ => trivial
  | left htask hnot =>
    refine began_setStage htask ?_ hget hk
    exact fun _ => trivial
  | age htask =>
    refine began_setStage htask ?_ hget hk
    exact fun _ => trivial
  | redeem => exact ⟨stage, hget, hk⟩
  | pass => exact ⟨stage, hget, hk⟩

theorem released_setStage {task : ℕ} {address : PlayerId} {stage : Stage News}
    {k : ℕ} {b : PlayerId} {n since : ℕ}
    (hget : (s.setStage task address stage).get? k = some ⟨b, .released n since⟩)
    (hstage : ∀ n since, stage ≠ .released n since) :
    s.tasks.get? k = some ⟨b, .released n since⟩ := by
  rw [get?_setStage] at hget
  split at hget
  · cases hget
    exact (hstage n since rfl).elim
  · exact hget

theorem released_step (hd : Does s act s') {k : ℕ} {b : PlayerId} {n since : ℕ}
    (hget : s'.tasks.get? k = some ⟨b, .released n since⟩) :
    s.tasks.get? k = some ⟨b, .released n since⟩
      ∨ act = .age k ∧ since = s.now ∧ s.tasks.get? k = some ⟨b, .leaving n⟩ := by
  cases hd with
  | claim hnone => exact Or.inl (released_setStage hget nofun)
  | taken htask honline => exact Or.inl (released_setStage hget nofun)
  | clear htask honline => exact Or.inl (released_setStage hget nofun)
  | wake htask hgone => exact Or.inl (released_setStage hget nofun)
  | timeout htask htime => exact Or.inl (released_setStage hget nofun)
  | number htask => exact Or.inl (released_setStage hget nofun)
  | insert htask => exact Or.inl (released_setStage hget nofun)
  | issue htask => exact Or.inl hget
  | freed htask honline hown => exact Or.inl (released_setStage hget nofun)
  | left htask hnot => exact Or.inl (released_setStage hget nofun)
  | age htask =>
    rw [get?_setStage] at hget
    split at hget
    · rename_i hk
      cases hget
      exact Or.inr ⟨by rw [hk], rfl, hk ▸ htask⟩
    · exact Or.inl hget
  | redeem => exact Or.inl hget
  | pass => exact Or.inl hget

theorem live_setStage {task : ℕ} {address : PlayerId} {stage : Stage News} {k : ℕ} {b : PlayerId}
    {n : ℕ} (hget : (s.setStage task address stage).get? k = some ⟨b, .live n⟩)
    (hstage : ∀ n, stage ≠ .live n) : s.tasks.get? k = some ⟨b, .live n⟩ := by
  rw [get?_setStage] at hget
  split at hget
  · cases hget
    exact (hstage n rfl).elim
  · exact hget

/-- A session that isn't its pilot's any more never is again. -/
theorem liveOwn_step (hn : Numbered s) (hd : Does s act s') {i : Issue}
    (hbegan : ∃ stage, s.tasks.get? i.task = some ⟨i.address, stage⟩ ∧ stage.Began)
    (hlive : LiveOwn s' i) : LiveOwn s i := by
  obtain ⟨n, o, hget, honline, hown⟩ := hlive
  cases hd with
  | claim hnone => exact ⟨n, o, live_setStage hget nofun, honline, hown⟩
  | taken htask ho =>
    rename_i o₀
    have hget := live_setStage hget nofun
    rw [Table.get?_insert] at honline
    split at honline
    · rename_i ha
      rw [Option.some.injEq] at honline
      exact ⟨n, o₀, hget, ha ▸ ho, by rw [← hown, ← honline]⟩
    · exact ⟨n, o, hget, honline, hown⟩
  | clear htask ho => exact ⟨n, o, live_setStage hget nofun, honline, hown⟩
  | wake htask hgone => exact ⟨n, o, live_setStage hget nofun, honline, hown⟩
  | timeout htask htime =>
    rw [Table.get?_erase] at honline
    split at honline
    · cases honline
    · exact ⟨n, o, live_setStage hget nofun, honline, hown⟩
  | number htask => exact ⟨n, o, live_setStage hget nofun, honline, hown⟩
  | insert htask =>
    rename_i task address session carried
    obtain ⟨stage, hstage, hbegan⟩ := hbegan
    rw [get?_setStage] at hget
    split at hget
    · -- Whoever a session is only now made isn't one a token was issued to.
      rename_i hi
      rw [hi, htask] at hstage
      cases hstage
      exact hbegan.elim
    · rename_i hi
      rw [Table.get?_insert] at honline
      split at honline
      · cases honline
        cases hown
        exact (hi (hn.apart i.task task _ _ session hget htask rfl rfl)).elim
      · exact ⟨n, o, hget, honline, hown⟩
  | issue htask => exact ⟨n, o, hget, honline, hown⟩
  | freed htask ho hown' =>
    rw [Table.get?_erase] at honline
    split at honline
    · cases honline
    · exact ⟨n, o, live_setStage hget nofun, honline, hown⟩
  | left htask hnot => exact ⟨n, o, live_setStage hget nofun, honline, hown⟩
  | age htask => exact ⟨n, o, live_setStage hget nofun, honline, hown⟩
  | redeem =>
    refine ⟨n, o, hget, ?_, hown⟩
    simp only [Pilots.redeem] at honline
    split at honline <;> exact honline
  | pass => exact ⟨n, o, hget, honline, hown⟩

structure Tokened (s : Server News) : Prop where
  numbered : Numbered s
  issuers : ∀ i ∈ s.issued, ∃ stage, s.tasks.get? i.task = some ⟨i.address, stage⟩ ∧ stage.Began
  spent : ∀ token ∈ s.spent, token ∈ s.issued.map Issue.token
  known : ∀ token t, s.pilots.tokens.get? token = some t →
    ∃ task, s.newest t.address = some ⟨token, t.address, task⟩ ∧ token ∉ s.spent
      ∧ (∀ e, t.expires = some e → e ≤ s.now + s.pilots.ttl)
      ∧ ∀ b n since, s.tasks.get? task = some ⟨b, .released n since⟩ →
        ∃ e, t.expires = some e ∧ e ≤ since + s.pilots.ttl
  lasting : ∀ i, s.newest i.address = some i → i.token ∉ s.spent → LiveOwn s i →
    s.pilots.tokens.get? i.token = some ⟨i.address, none⟩

namespace Tokened

theorem new (ttl : ℕ) : Tokened (Server.new ttl : Server News) where
  numbered := ⟨nofun, nofun⟩
  issuers := nofun
  spent := nofun
  known := nofun
  lasting := nofun

theorem promised (hs : Tokened s) : Promised s where
  redeems token address hredeem := by
    simp only [Pilots.redeem] at hredeem
    split at hredeem
    · cases hredeem
    · rename_i t hget
      obtain ⟨task, hnewest, hspent, -, hreleased⟩ := hs.known token t hget
      dsimp only at hredeem
      split at hredeem
      · rename_i hgood
        cases hredeem
        refine ⟨task, hnewest, hspent, fun b n since hrel => ?_⟩
        obtain ⟨e, he, hle⟩ := hreleased b n since hrel
        rw [Pilots.good, he] at hgood
        simp only [Option.all_some, decide_eq_true_eq] at hgood
        exact hgood.trans_le hle
      · cases hredeem
  lasts i hnewest hspent hlive := by
    simp only [Pilots.redeem, hs.lasting i hnewest hspent hlive, Pilots.good, Option.all_none,
      if_true]

theorem kept (hs : Tokened s) (hd : Does s act s') (htokens : s'.pilots.tokens = s.pilots.tokens)
    (hissued : s'.issued = s.issued) (hspent : s'.spent = s.spent) (hnow : s.now ≤ s'.now)
    (httl : s'.pilots.ttl = s.pilots.ttl) (hact : ∀ task, act ≠ .age task) : Tokened s' where
  numbered := hs.numbered.step hd
  issuers i hi := by
    rw [hissued] at hi
    obtain ⟨stage, hstage, hbegan⟩ := hs.issuers i hi
    exact began_step hd hstage hbegan
  spent := by
    rw [hspent, hissued]
    exact hs.spent
  known token t hget := by
    rw [htokens] at hget
    obtain ⟨task, hnewest, hunspent, hle, hreleased⟩ := hs.known token t hget
    refine ⟨task, ?_, hspent ▸ hunspent, fun e he => ?_, fun b n since hrel => ?_⟩
    · rw [newest, hissued]
      exact hnewest
    · rw [httl]
      exact (hle e he).trans (Nat.add_le_add_right hnow _)
    · rw [httl]
      rcases released_step hd hrel with hrel | ⟨hage, -⟩
      · exact hreleased b n since hrel
      · exact (hact task hage).elim
  lasting i hnewest hunspent hlive := by
    rw [newest, hissued] at hnewest
    rw [hspent] at hunspent
    rw [htokens]
    have hissuer := hs.issuers i (List.mem_of_find?_eq_some hnewest)
    exact hs.lasting i hnewest hunspent (liveOwn_step hs.numbered hd hissuer hlive)

theorem get?_age (p : Pilots News) (address : PlayerId) (now token : ℕ) :
    (p.age address now).tokens.get? token = (p.tokens.get? token).map fun t =>
      if t.address = address ∧ t.expires = none then { t with expires := some (now + p.ttl) }
      else t :=
  Table.get?_mapVal ..

theorem age {task session : ℕ} {address : PlayerId} (hs : Tokened s)
    (htask : s.tasks.get? task = some ⟨address, .leaving session⟩)
    (hown : AgesOwn s (.age task)) (hd : Does s (.age task) { s with
      pilots := s.pilots.age address s.now
      tasks := s.setStage task address (.released session s.now) }) :
    Tokened { s with
      pilots := s.pilots.age address s.now
      tasks := s.setStage task address (.released session s.now) } where
  numbered := hs.numbered.step hd
  issuers i hi := by
    obtain ⟨stage, hstage, hbegan⟩ := hs.issuers i hi
    exact began_step hd hstage hbegan
  spent := hs.spent
  known token t hget := by
    rw [get?_age, Option.map_eq_some_iff] at hget
    obtain ⟨t₀, hget₀, ht⟩ := hget
    obtain ⟨issuer, hnewest, hunspent, hle, hreleased⟩ := hs.known token t₀ hget₀
    have haddress : t.address = t₀.address := by
      rw [← ht]
      split <;> rfl
    rw [haddress]
    refine ⟨issuer, hnewest, hunspent, fun e he => ?_, fun b n since hrel => ?_⟩
    · split at ht
      · cases ht
        cases he
        exact le_rfl
      · cases ht
        exact hle e he
    · rcases released_step hd hrel with hrel | ⟨hage, rfl, hleaving⟩
      · obtain ⟨e, he, hbound⟩ := hreleased b n since hrel
        refine ⟨e, ?_, hbound⟩
        rw [← ht, if_neg]
        · exact he
        · rintro ⟨-, hnone⟩
          rw [hnone] at he
          cases he
      · -- The token is of the session released, aged now if not before.
        obtain ⟨stage, hstage, -⟩ := hs.issuers _ (List.mem_of_find?_eq_some hnewest)
        cases hage
        rw [hleaving] at hstage htask
        cases htask
        have hsame : t₀.address = address := by
          cases hstage
          rfl
        cases hexpires : t₀.expires with
        | none =>
          refine ⟨s.now + s.pilots.ttl, ?_, le_rfl⟩
          rw [← ht, if_pos ⟨hsame, hexpires⟩]
        | some e =>
          refine ⟨e, ?_, hle e hexpires⟩
          rw [← ht, if_neg]
          · exact hexpires
          · rintro ⟨-, hnone⟩
            rw [hexpires] at hnone
            cases hnone
  lasting i hnewest hunspent hlive := by
    have hissuer := hs.issuers i (List.mem_of_find?_eq_some hnewest)
    have hbefore : LiveOwn s i := liveOwn_step hs.numbered hd hissuer hlive
    rw [get?_age, hs.lasting i hnewest hunspent hbefore, Option.map_some, if_neg]
    rintro ⟨hsame, -⟩
    dsimp only at hsame
    subst hsame
    exact hown _ session htask i hnewest hunspent hbefore

theorem redeem (hs : Tokened s) (token : ℕ) (hd : Does s (.redeem token) { s with
      pilots := (s.pilots.redeem token s.now).1
      spent := if s.pilots.tokens.contains token then token :: s.spent else s.spent }) :
    Tokened { s with
      pilots := (s.pilots.redeem token s.now).1
      spent := if s.pilots.tokens.contains token then token :: s.spent else s.spent } := by
  cases hget : s.pilots.tokens.get? token with
  | none =>
    have hsame : s.pilots.redeem token s.now = (s.pilots, none) := by
      rw [Pilots.redeem, hget]
    have hnot : s.pilots.tokens.contains token = false := by
      rw [Table.contains, hget]
      rfl
    rw [hsame, hnot] at hd ⊢
    refine hs.kept hd rfl rfl rfl le_rfl rfl ?_
    intro task heq
    cases heq
  | some t =>
    have herase : (s.pilots.redeem token s.now).1
        = { s.pilots with tokens := s.pilots.tokens.erase token } := by
      rw [Pilots.redeem, hget]
    have hyes : s.pilots.tokens.contains token = true := by
      rw [Table.contains, hget]
      rfl
    rw [herase, hyes] at hd ⊢
    obtain ⟨task, hnewest, -⟩ := hs.known token t hget
    refine ⟨hs.numbered.step hd, fun i hi => ?_, ?_, ?_, ?_⟩
    · obtain ⟨stage, hstage, hbegan⟩ := hs.issuers i hi
      exact began_step hd hstage hbegan
    · intro other hother
      rcases List.mem_cons.mp hother with rfl | hother
      · exact List.mem_map.mpr ⟨_, List.mem_of_find?_eq_some hnewest, rfl⟩
      · exact hs.spent other hother
    · intro other t' hget'
      rw [Table.get?_erase] at hget'
      split at hget'
      · cases hget'
      · rename_i hne
        obtain ⟨task', hnewest', hunspent, hle, hreleased⟩ := hs.known other t' hget'
        exact ⟨task', hnewest', List.not_mem_cons_of_ne_of_not_mem hne hunspent, hle, hreleased⟩
    · intro i hnewest' hunspent hlive
      obtain ⟨hne, hunspent⟩ := List.ne_and_not_mem_of_not_mem_cons hunspent
      have hissuer := hs.issuers i (List.mem_of_find?_eq_some hnewest')
      rw [Table.get?_erase, if_neg hne]
      exact hs.lasting i hnewest' hunspent (liveOwn_step hs.numbered hd hissuer hlive)

theorem newest_issue (s : Server News) (i : Issue) (address : PlayerId) :
    ({ s with issued := i :: s.issued } : Server News).newest address
      = if i.address = address then some i else s.newest address := by
  rw [newest, List.find?_cons]
  by_cases h : i.address = address
  · simp [h]
  · simp only [h, decide_false, if_false]
    rfl

theorem get?_issueToken (p : Pilots News) (address : PlayerId) (token now other : ℕ) :
    (p.issueToken address token now).tokens.get? other
      = if other = token then some ⟨address, none⟩
        else (p.tokens.get? other).bind fun t =>
          if t.address ≠ address ∧ Pilots.good t now then some t else none := by
  simp only [Pilots.issueToken, Table.get?_insert, Table.get?_filterMapVal]

theorem issue {task token session : ℕ} {address : PlayerId} (hs : Tokened s)
    (htask : s.tasks.get? task = some ⟨address, .live session⟩)
    (hdrawn : token ∉ s.issued.map Issue.token) (hd : Does s (.issue task token) { s with
      pilots := s.pilots.issueToken address token s.now
      issued := ⟨token, address, task⟩ :: s.issued }) :
    Tokened { s with
      pilots := s.pilots.issueToken address token s.now
      issued := ⟨token, address, task⟩ :: s.issued } := by
  refine ⟨hs.numbered.step hd, ?_, ?_, ?_, ?_⟩
  · intro i hi
    rcases List.mem_cons.mp hi with rfl | hi
    · exact ⟨_, htask, trivial⟩
    · exact hs.issuers i hi
  · intro other hother
    exact List.mem_cons_of_mem _ (hs.spent other hother)
  · intro other t hget
    rw [get?_issueToken] at hget
    split at hget
    · rename_i hsame
      cases hget
      refine ⟨task, (newest_issue s _ _).trans (if_pos rfl) |>.trans (by rw [hsame]), ?_, nofun, ?_⟩
      · exact fun hspent => hdrawn (hsame ▸ hs.spent other hspent)
      · intro b n since hrel
        rw [htask] at hrel
        cases hrel
    · obtain ⟨t₀, hget₀, ht⟩ := Option.bind_eq_some_iff.mp hget
      split at ht
      · rename_i hkept
        cases ht
        obtain ⟨issuer, hnewest, hunspent, hle, hreleased⟩ := hs.known other t hget₀
        refine ⟨issuer, ?_, hunspent, hle, hreleased⟩
        exact (newest_issue s _ _).trans ((if_neg fun h => hkept.1 h.symm).trans hnewest)
      · cases ht
  · intro i hnewest hunspent hlive
    replace hnewest := (newest_issue s _ _).symm.trans hnewest
    rw [get?_issueToken]
    split at hnewest
    · cases hnewest
      exact if_pos rfl
    · rename_i hother
      have hmem := List.mem_of_find?_eq_some hnewest
      have hget := hs.lasting i hnewest hunspent
        (liveOwn_step hs.numbered hd (hs.issuers i hmem) hlive)
      have hne : i.token ≠ token := fun heq => hdrawn (heq ▸ List.mem_map_of_mem hmem)
      rw [if_neg hne, hget, Option.bind_some, if_pos]
      exact ⟨fun heq => hother heq.symm, rfl⟩

theorem step (hs : Tokened s) (hdrawn : Drawn s act) (hown : AgesOwn s act) (hd : Does s act s') :
    Tokened s' := by
  have hd' := hd
  cases hd with
  | issue htask => exact hs.issue htask hdrawn hd'
  | age htask => exact hs.age htask hown hd'
  | redeem => exact hs.redeem _ hd'
  | pass => exact hs.kept hd' rfl rfl rfl (Nat.le_add_right _ _) rfl nofun
  | _ => exact hs.kept hd' rfl rfl rfl le_rfl rfl nofun

end Tokened

/-- Over any run of a server that draws every token's bytes anew and ages no token of a session that
is still its pilot's, tokens keep what they promise. -/
theorem tokens_promised (ttl : ℕ) (acts : List Act) (s : Server News)
    (hrun : (Server.new ttl).run acts = some s)
    (hdrawn : Run.AlongSome step Drawn (Server.new ttl : Server News) acts)
    (hown : Run.AlongSome step AgesOwn (Server.new ttl : Server News) acts) : Promised s := by
  have hboth := Run.alongSome_and hdrawn hown
  have hs : Tokened s := Run.invariant_some
    (fun _ _ _ hs h hstep => hs.step h.1 h.2 (does_of_step hstep)) (Tokened.new ttl) hboth hrun
  exact hs.promised

/-- A pilot's session is taken over once it has let them go, and each has its token. -/
def handover : List Act :=
  [.claim 0 "0xa", .check 0, .number 0, .insert 0, .issue 0 100, .claim 1 "0xa", .check 1, .free 0,
    .age 0, .wake 1, .check 1, .number 1, .insert 1, .issue 1 101, .pass 300]

def afterHandover : Server Unit := ((Server.new 200).run handover).getD (Server.new 200)

theorem handover_promised : Promised afterHandover := by
  have hrun : (Server.new 200 : Server Unit).run handover = some afterHandover := by
    have hsome : ((Server.new 200 : Server Unit).run handover).isSome := by decide +kernel
    obtain ⟨s, hs⟩ := Option.isSome_iff_exists.mp hsome
    rw [afterHandover, hs, Option.getD_some]
  exact tokens_promised 200 handover afterHandover hrun (by decide +kernel) (by decide +kernel)

/-- A session that didn't go in time is forgotten, and its pilot's next has its token before the
first is let go. -/
def lateRelease : List Act :=
  [.claim 0 "0xa", .check 0, .number 0, .insert 0, .issue 0 100, .claim 1 "0xa", .check 1,
    .pass 5000, .timeout 1, .check 1, .number 1, .insert 1, .issue 1 101, .free 0, .age 0, .pass 200]

/-- The next session is live and its pilot's, its token not handed back: it no longer redeems. -/
theorem live_token_aged :
    ¬ ∀ (ttl : ℕ) (acts : List Act) (s : Server Unit), (Server.new ttl).run acts = some s →
      Run.AlongSome step Drawn (Server.new ttl : Server Unit) acts → Promised s := by
  intro hclaim
  have hfacts : ((Server.new 200 : Server Unit).run lateRelease).map (fun s =>
      (s.newest "0xa", s.spent, isLiveOwn s ⟨101, "0xa", 1⟩, (s.pilots.redeem 101 s.now).2))
      = some (some ⟨101, "0xa", 1⟩, [], true, none) := by decide +kernel
  obtain ⟨s, hrun, hfacts⟩ := Option.map_eq_some_iff.mp hfacts
  simp only [Prod.mk.injEq] at hfacts
  obtain ⟨hnewest, hspent, hlive, hredeem⟩ := hfacts
  have hpromised := hclaim 200 lateRelease s hrun (by decide +kernel)
  have hlasts := hpromised.lasts ⟨101, "0xa", 1⟩ hnewest (by rw [hspent]; nofun)
    ((liveOwn_iff s _).mp hlive)
  cases hlasts.symm.trans hredeem

end Server

end BeforeColony
