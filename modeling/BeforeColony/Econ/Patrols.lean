import BeforeColony.Econ.Contracts

/-!
# Patrols, works and the charter vote

A pilot holds one patrol at a time, and a patrol pays its holder as it comes off the board. The
great works take in what they need and no more, and the charter is adopted by pilots of standing
once the other works are done.
-/

set_option autoImplicit false

namespace BeforeColony

open Lib Catalogue

def Work.needOf (work : Work) (item : Item) : ℕ :=
  (work.needs.find? fun e => e.1 = item).elim 0 Prod.snd

namespace Board

variable {p : Platform} {b b' b'' : Board}

def workHas (b : Board) (work : Work) (item : Item) : ℕ := (b.progress work).delivered.getD item 0

/-! ## Patrols -/

def OneEach (b : Board) : Prop :=
  ∀ id id' c c' t, b.contracts.get? id = some c → b.contracts.get? id' = some c' →
    c.holder = some t → c'.holder = some t → id = id'

theorem OneEach.sub (h : b.OneEach)
    (hsub : ∀ id c, b'.contracts.get? id = some c → c.holder ≠ none →
      ∃ c₀, b.contracts.get? id = some c₀ ∧ c₀.holder = c.holder) : b'.OneEach := by
  intro id id' c c' t hget hget' hheld hheld'
  obtain ⟨c₀, hget₀, hc₀⟩ := hsub id c hget (by rw [hheld]; exact Option.some_ne_none _)
  obtain ⟨c₀', hget₀', hc₀'⟩ := hsub id' c' hget' (by rw [hheld']; exact Option.some_ne_none _)
  exact h id id' c₀ c₀' t hget₀ hget₀' (hc₀.trans hheld) (hc₀'.trans hheld')

/-- A changed contract that keeps its holder, or loses it, takes nobody's patrol. -/
theorem OneEach.touched {id : ℕ} {x : Option Contract} (h : b.OneEach) (ht : Touched b b' id x)
    (hx : ∀ c, x = some c → c.holder ≠ none →
      ∃ c₀, b.contracts.get? id = some c₀ ∧ c₀.holder = c.holder) : b'.OneEach := by
  refine h.sub fun id' c hget hheld => ?_
  rw [ht.get] at hget
  split at hget
  · rename_i heq
    rw [heq]
    exact hx c hget hheld
  · exact ⟨c, hget, rfl⟩

theorem OneEach.taken {id : ℕ} {c : Contract} {who : Trader} (h : b.OneEach)
    (hfree : ∀ id' c', b.contracts.get? id' = some c' → c'.holder ≠ some who)
    (ht : Touched b b' id (some c)) (hc : c.holder = some who) : b'.OneEach := by
  have hholder (id' : ℕ) (c' : Contract) (hget : b'.contracts.get? id' = some c')
      (hheld : c'.holder = some who) : id' = id := by
    by_contra hne
    rw [ht.get, if_neg hne] at hget
    exact hfree id' c' hget hheld
  have hother {id' : ℕ} {c' : Contract} {t : Trader} (ht' : t ≠ who)
      (hget : b'.contracts.get? id' = some c') (hheld : c'.holder = some t) :
      b.contracts.get? id' = some c' := by
    rw [ht.get] at hget
    split at hget
    · rw [← Option.some.inj hget, hc] at hheld
      exact absurd (Option.some.inj hheld).symm ht'
    · exact hget
  intro id₁ id₂ c₁ c₂ t hget₁ hget₂ hheld₁ hheld₂
  by_cases heq : t = who
  · subst heq
    exact (hholder id₁ c₁ hget₁ hheld₁).trans (hholder id₂ c₂ hget₂ hheld₂).symm
  · exact h id₁ id₂ c₁ c₂ t (hother heq hget₁ hheld₁) (hother heq hget₂ hheld₂) hheld₁ hheld₂

theorem oneEach_step (hb : b.Fair) (h : b.OneEach) (act : BoardAct) : (b.step p act).OneEach := by
  cases act with
  | aceOut k => exact h
  | tick now ex =>
    have hticked := ticked_step p hb.sound now ex
    refine h.sub fun id c hget hheld => ?_
    rcases Nat.lt_or_ge id b.nextId with hlt | hge
    · obtain ⟨hold, -⟩ := Option.filter_eq_some_iff.mp ((hticked.old id hlt).symm.trans hget)
      exact ⟨c, hold, rfl⟩
    · exact absurd (hticked.new id c hge hget).holder hheld
  | serve h' ex who name now request =>
    have hturn := turn (p := p) (b := b) (.serve h' ex who name now request)
      fun _ _ heq => by cases heq
    cases hturn with
    | refused board hangar =>
      rw [board]
      exact h
    | still quiet contracts next given =>
      refine h.sub fun id c hget _ => ⟨c, ?_, rfl⟩
      rwa [contracts] at hget
    | posted ok contracts next escrowed given =>
      refine h.sub fun id c hget hheld => ?_
      rw [contracts, Table.get?_insert] at hget
      split at hget
      · rw [← Option.some.inj hget] at hheld
        exact absurd rfl hheld
      · exact ⟨c, hget, rfl⟩
    | withdrawn get issuer touched back others => exact h.touched touched fun _ hx => by cases hx
    | delivered get task other live pos fits touched given paid balances =>
      refine h.touched touched fun c' hx _ => ?_
      split at hx
      · cases hx
      · rw [← Option.some.inj hx]
        exact ⟨_, get, rfl⟩
    | taken free get task holder touched balances => exact h.taken free touched rfl
    | dropped get holder touched balances =>
      refine h.touched touched fun c' hx hheld => ?_
      rw [← Option.some.inj hx] at hheld
      exact absurd rfl hheld
    | counted get holder live task short touched balances hangar =>
      refine h.touched touched fun c' hx _ => ?_
      rw [← Option.some.inj hx]
      exact ⟨_, get, rfl⟩
    | flown get holder live task full touched paid others hangar =>
      exact h.touched (touched (hb.sound.contract _ _ get).id_eq) fun _ hx => by cases hx

theorem oneEach_run (p : Platform) (acts : List BoardAct) (htyped : ∀ a ∈ acts, a.Typed) :
    (run p acts).OneEach := by
  induction acts using List.reverseRecOn with
  | nil =>
    intro id id' c c' t hget
    cases hget
  | append_singleton acts act ih =>
    have hbefore : ∀ a ∈ acts, a.Typed := fun a ha => htyped a (List.mem_append_left _ ha)
    rw [run_concat]
    exact oneEach_step (fair_run p acts hbefore) (ih hbefore) act

/-- A sortie's bounties pay nobody, or they pay the reward of a patrol to the pilot who flew it, and
it comes off the board. -/
theorem bounties_cases (p : Platform) (hb : b.Fair) {act : BoardAct} {h : Hangar} {ex : Exchange}
    {who : Trader} {name : String} {now bounty : ℕ} {atDesk : Bool}
    (hact : act = .serve h ex who name now (.bounties bounty atDesk)) :
    (b.hangarAfter p act).credits = h.credits
      ∧ (∀ t, t ≠ who → (b.step p act).balance t = b.balance t
        ∧ (b.step p act).deskBalance t = b.deskBalance t)
      ∧ ((b.step p act).balance who = b.balance who
          ∧ (b.step p act).deskBalance who = b.deskBalance who
        ∨ ∃ id c target earned, b.contracts.get? id = some c ∧ c.holder = some who
          ∧ now < c.expires ∧ c.task = .patrol target earned ∧ target ≤ earned + bounty
          ∧ (b.step p act).contracts.get? id = none
          ∧ (b.step p act).balance who + (b.step p act).deskBalance who
            = b.balance who + b.deskBalance who + c.reward) := by
  have hturn : Turn b (b.step p act) (b.hangarAfter p act) act := by
    rw [hact]
    exact turn_bounties bounty atDesk
  cases hturn with
  | refused board hangar =>
    rw [board, hangar, hact]
    exact ⟨rfl, fun _ _ => ⟨rfl, rfl⟩, Or.inl ⟨rfl, rfl⟩⟩
  | still quiet contracts next given =>
    rw [hact] at quiet
    cases quiet
  | counted get holder live task short touched balances hangar =>
    cases hact
    exact ⟨hangar, fun t _ => balances t, Or.inl (balances who)⟩
  | flown get holder live task full touched paid others hangar =>
    cases hact
    have htouched := touched (hb.sound.contract _ _ get).id_eq
    refine ⟨hangar, others, Or.inr ⟨_, _, _, _, get, holder, live, task, full, ?_, paid⟩⟩
    rw [htouched.get, if_pos rfl]
  | posted => cases hact
  | withdrawn => cases hact
  | delivered => cases hact
  | taken => cases hact
  | dropped => cases hact

/-! ## What leaves the works alone -/

/-- The works, the signatures and the era are as they were, and nobody's standing fell. -/
structure Steady (b b' : Board) : Prop where
  works : b'.works = b.works
  signatures : b'.signatures = b.signatures
  era : b'.era = b.era
  standing : ∀ t, b.standingOf t ≤ b'.standingOf t

theorem Steady.refl (b : Board) : Steady b b := ⟨rfl, rfl, rfl, fun _ => le_rfl⟩

theorem Steady.trans (h : Steady b b') (h' : Steady b' b'') : Steady b b'' where
  works := h'.works.trans h.works
  signatures := h'.signatures.trans h.signatures
  era := h'.era.trans h.era
  standing t := (h.standing t).trans (h'.standing t)

/-- Contracts, accounts, names and notices are nothing to the works. -/
theorem Steady.of_eq (hw : b'.works = b.works) (hs : b'.signatures = b.signatures)
    (he : b'.era = b.era) (hst : b'.standing = b.standing) : Steady b b' := by
  refine ⟨hw, hs, he, fun t => ?_⟩
  rw [standingOf, standingOf, hst]

theorem steady_rename (b : Board) (t : Trader) (name : String) : Steady b (b.rename t name) := by
  obtain ⟨names, h⟩ := rename_frame b t name
  rw [h]
  exact .of_eq rfl rfl rfl rfl

theorem steady_contracts (b : Board) (x : Table ℕ Contract) :
    Steady b { b with contracts := x } :=
  .of_eq rfl rfl rfl rfl

theorem steady_colonyPays (b : Board) (t : Trader) (n : ℕ) : Steady b (b.colonyPays t n) := by
  refine ⟨rfl, rfl, rfl, fun u => ?_⟩
  simp only [standingOf, colonyPays, Table.getD_update]
  split
  · rename_i heq
    rw [heq]
    exact Nat.le_add_right _ _
  · exact le_rfl

theorem steady_close (b : Board) (id : ℕ) (why : String) : Steady b (b.close id why) := by
  unfold close
  split
  · exact Steady.refl b
  · unfold tellHolder giveBack
    split <;> split <;> (try split) <;> exact .of_eq rfl rfl rfl rfl

theorem steady_closed (ids : List ℕ) (b : Board) : Steady b (b.closed ids) := by
  induction ids generalizing b with
  | nil => exact Steady.refl b
  | cons id rest ih => exact (steady_close b id "EXPIRED").trans (ih _)

theorem steady_tick (b : Board) (now : ℕ) (ex : Exchange) : Steady b (b.tick now ex).1 := by
  refine tick_posts (Q := Steady b) now ex (fun b₁ b₂ h hpost => ?_) (steady_closed _ b)
  cases hpost with
  | supply job => exact ⟨h.works, h.signatures, h.era, h.standing⟩
  | patrol => exact ⟨h.works, h.signatures, h.era, h.standing⟩

section Requests

variable {h : Hangar} {ex : Exchange} {who : Trader} {name : String} {now : ℕ}

theorem steady_post (item : Item) (qty reward hours : ℕ) :
    Steady b (b.post p h who name item qty reward hours now).1 := by
  unfold post
  split
  · exact Steady.refl b
  · exact (steady_rename b who name).trans (.of_eq rfl rfl rfl rfl)

theorem steady_collect (b : Board) (h : Hangar) (who : Trader) :
    Steady b (b.collect h who).1 := by
  unfold collect
  split <;> exact .of_eq rfl rfl rfl rfl

theorem steady_withdraw (id : ℕ) : Steady b (b.withdraw h who id).1 := by
  unfold withdraw
  split
  · exact Steady.refl b
  · split
    · exact Steady.refl b
    · exact (steady_close b id "WITHDRAWN").trans (steady_collect _ h who)

theorem steady_passOn (p : Platform) (b : Board) (ex : Exchange) (id : ℕ) (c : Contract)
    (who : Trader) (name : String) (item : Item) (n pay : ℕ) :
    Steady b (passOn p b ex id c who name item n pay).1 := by
  unfold passOn
  split
  · exact steady_colonyPays b who pay
  · exact .of_eq rfl rfl rfl rfl

theorem steady_retire (b : Board) (id : ℕ) (c : Contract) : Steady b (b.retire id c) := by
  unfold retire
  split <;> exact .of_eq rfl rfl rfl rfl

theorem steady_deliver (id qty : ℕ) : Steady b (b.deliver p h ex who name id qty now).1 := by
  unfold deliver
  split
  · exact Steady.refl b
  · split
    · exact Steady.refl b
    · split
      · exact Steady.refl b
      · split
        · exact Steady.refl b
        · simp only
          split
          · exact Steady.refl b
          · split
            · exact Steady.refl b
            · have hset (x : Table ℕ Contract) (c : Contract) (item : Item) (n pay : ℕ) :=
                ((steady_contracts b x).trans (steady_rename _ who name)).trans
                  (steady_passOn p _ ex id c who name item n pay)
              split
              · exact (hset _ _ _ _ _).trans (steady_retire _ id _)
              · exact hset _ _ _ _ _

theorem steady_take (id : ℕ) : Steady b (b.take who name id now).1 := by
  unfold take
  split
  · exact Steady.refl b
  · split
    · exact Steady.refl b
    · split
      · exact Steady.refl b
      · split
        · exact Steady.refl b
        · exact (steady_contracts b _).trans (steady_rename _ who name)

theorem steady_drop (id : ℕ) : Steady b (b.dropPatrol who id now).1 := by
  unfold dropPatrol
  split
  · exact Steady.refl b
  · split <;> exact .of_eq rfl rfl rfl rfl

theorem steady_bounties (bounty : ℕ) (atDesk : Bool) :
    Steady b (b.bounties p h who bounty now atDesk).1 := by
  unfold bounties
  split
  · exact Steady.refl b
  · split
    · exact Steady.refl b
    · split
      · exact Steady.refl b
      · simp only
        split
        · exact .of_eq rfl rfl rfl rfl
        · have hpaid (x : Table ℕ Contract) (n : ℕ) :=
            (steady_contracts b x).trans (steady_colonyPays _ who n)
          split
          · exact (hpaid _ _).trans (.of_eq rfl rfl rfl rfl)
          · exact (hpaid _ _).trans (.of_eq rfl rfl rfl rfl)

theorem steady_payAce (k : ℕ) (atDesk : Bool) : Steady b (b.payAce h k who atDesk).1 := by
  unfold payAce
  simp only
  split
  · exact steady_colonyPays b who _
  · exact (steady_colonyPays b who _).trans (.of_eq rfl rfl rfl rfl)

theorem steady_certify : Steady b (b.certify h who ex).1 := by
  unfold certify
  split
  · exact Steady.refl b
  · simp only
    split <;> exact .of_eq rfl rfl rfl rfl

theorem steady_setTerms (salvage : Bool) : Steady b (b.setTerms who salvage).1 := by
  unfold setTerms
  split
  · split <;> exact .of_eq rfl rfl rfl rfl
  · exact .of_eq rfl rfl rfl rfl

theorem steady_collectAtDesk : Steady b (b.collectAtDesk h who).1 := by
  unfold collectAtDesk
  split <;> exact .of_eq rfl rfl rfl rfl

theorem steady_aceDowned (k : ℕ) : Steady b (b.aceDowned p k who name now).1 := by
  have hname := steady_rename b who name
  exact ⟨hname.works, hname.signatures, hname.era, hname.standing⟩

end Requests

/-! ## The works and the vote -/

/-- Only a work's progress has changed, and nobody's standing fell. -/
structure Raised (b b' : Board) (work : Work) (pr : Progress) : Prop where
  here : b'.progress work = pr
  there : ∀ w, w ≠ work → b'.progress w = b.progress w
  signatures : b'.signatures = b.signatures
  era : b'.era = b.era
  standing : ∀ t, b.standingOf t ≤ b'.standingOf t

theorem raised_insert (work : Work) (pr : Progress) (h : Steady b b') :
    Raised b { b' with works := b'.works.insert work pr } work pr := by
  refine ⟨?_, fun w hne => ?_, h.signatures, h.era, h.standing⟩
  · rw [progress, Table.getD_insert, if_pos rfl]
  · rw [progress, Table.getD_insert, if_neg hne, h.works, progress]

theorem raised_refl (work : Work) (h : Steady b b') : Raised b b' work (b.progress work) := by
  refine ⟨?_, fun w _ => ?_, h.signatures, h.era, h.standing⟩
  · rw [progress, h.works, progress]
  · rw [progress, h.works, progress]

theorem raised_done {work : Work} {pr : Progress} (h : Raised b b' work pr) (now : ℕ) :
    Raised b { b' with
      works := b'.works.update work Progress.empty fun pr => { pr with done := some now } } work
      { pr with done := some now } := by
  refine ⟨?_, fun w hne => ?_, h.signatures, h.era, h.standing⟩
  · rw [progress, Table.getD_update, if_pos rfl, ← h.here, progress]
  · rw [progress, Table.getD_update, if_neg hne, ← h.there w hne, progress]

theorem raised_finish {work : Work} {pr : Progress} (h : Raised b b' work pr) (now : ℕ) :
    Raised b (b'.finish work now) work { pr with done := some now } := by
  have hdone := raised_done h now
  unfold finish
  simp only
  split <;> exact ⟨hdone.here, hdone.there, hdone.signatures, hdone.era, hdone.standing⟩

def complete (work : Work) (pr : Progress) : Bool :=
  work.needs.all fun e => e.2 ≤ pr.delivered.getD e.1 0

/-- What a step does to the works and the vote. -/
inductive Civil (b b' : Board) : Prop where
  | steady (h : Steady b b')
  | contributed (who : Trader) (pay now : ℕ) {work : Work} {item : Item} {need n : ℕ}
      (undone : b.done work = false)
      (needs : work.needs.find? (fun e => e.1 = item) = some (item, need))
      (fits : n ≤ need - b.workHas work item)
      (raised : Raised b b' work { contributed (b.progress work) who item n pay with
        done := if complete work (contributed (b.progress work) who item n pay) then some now
          else none })
  | signed (who : Trader) (now : ℕ) (ballot : b.voteOpen = true) (standing : 0 < b.standingOf who)
      (new : who ∉ b.signatures) (signatures : b'.signatures = b.signatures ++ [who])
      (still : b.signatures.length + 1 < signaturesNeeded → b'.works = b.works ∧ b'.era = b.era)
      (adopted : signaturesNeeded ≤ b.signatures.length + 1 → b'.era = 1
        ∧ b'.progress .charterVote = { b.progress .charterVote with done := some now }
        ∧ ∀ w, w ≠ .charterVote → b'.progress w = b.progress w)
      (fame : ∀ t, b.standingOf t ≤ b'.standingOf t)

theorem civil_contribute (p : Platform) (b : Board) (h : Hangar) (who : Trader) (name : String)
    (work : Work) (item : Item) (qty now : ℕ) :
    Civil b (b.contribute p h who name work item qty now).1 := by
  unfold contribute
  split
  · exact .steady (Steady.refl b)
  · rename_i hopen
    have hdone := (not_or.mp hopen).2
    rw [Bool.not_eq_true] at hdone
    split
    · exact .steady (Steady.refl b)
    · rename_i item' need hfind
      simp only
      split
      · exact .steady (Steady.refl b)
      · split
        · exact .steady (Steady.refl b)
        · have hitem : item' = item := by simpa using List.find?_some hfind
          subst hitem
          have hnone : (b.progress work).done = none := by
            rw [done, Option.isSome_eq_false_iff, Option.isNone_iff_eq_none] at hdone
            exact hdone
          have hle : min (min qty (need - (b.progress work).delivered.getD item' 0))
              (h.stores.get item') ≤ need - b.workHas work item' :=
            (min_le_left _ _).trans (min_le_right _ _)
          generalize min (min qty (need - (b.progress work).delivered.getD item' 0))
            (h.stores.get item') = n at hle ⊢
          generalize priced item' n worksPct = pay
          have hpaid := (steady_rename b who name).trans (steady_colonyPays _ who pay)
          have hprogress : ((b.rename who name).colonyPays who pay).progress work
              = b.progress work := by
            rw [progress, hpaid.works, progress]
          have hraised := raised_insert work (Board.contributed (b.progress work) who item' n pay)
            hpaid
          refine .contributed who pay now hdone hfind hle ?_
          rw [hprogress]
          split
          · rename_i hall
            rw [complete, if_pos hall]
            exact raised_finish hraised now
          · rename_i hall
            have hpr : (Board.contributed (b.progress work) who item' n pay).done = none := hnone
            rw [complete, if_neg hall, ← hpr]
            exact hraised

theorem civil_sign (b : Board) (who : Trader) (name : String) (now : ℕ) :
    Civil b (b.sign who name now).1 := by
  unfold sign
  split
  · exact .steady (Steady.refl b)
  · split
    · exact .steady (Steady.refl b)
    · rename_i hballot
      split
      · exact .steady (Steady.refl b)
      · rename_i hstanding
        split
        · exact .steady (Steady.refl b)
        · rename_i hnew
          have hname := steady_rename b who name
          have hlength : ((b.rename who name).signatures ++ [who]).length
              = b.signatures.length + 1 := by
            rw [hname.signatures, List.length_append, List.length_singleton]
          have hsigned : (b.rename who name).signatures ++ [who] = b.signatures ++ [who] := by
            rw [hname.signatures]
          simp only
          split
          · rename_i hfew
            exact .signed who now (not_not.mp hballot) (Nat.pos_of_ne_zero hstanding) hnew hsigned
              (fun _ => ⟨hname.works, hname.era⟩)
              (fun hmany => absurd (hlength ▸ hfew) hmany.not_gt) hname.standing
          · rename_i hmany
            have hadopted := raised_done (raised_refl .charterVote hname) now
            exact .signed who now (not_not.mp hballot) (Nat.pos_of_ne_zero hstanding) hnew hsigned
              (fun hfew => absurd (hlength ▸ hfew) hmany)
              (fun _ => ⟨rfl, hadopted.here, hadopted.there⟩) hname.standing

theorem civil_step (p : Platform) (b : Board) (act : BoardAct) : Civil b (b.step p act) := by
  cases act with
  | tick now ex => exact .steady (steady_tick b now ex)
  | aceOut k => exact .steady (.of_eq rfl rfl rfl rfl)
  | serve h ex who name now request =>
    cases request with
    | trade item side price qty rest => exact .steady (Steady.refl b)
    | collect => exact .steady (Steady.refl b)
    | cancel id => exact .steady (Steady.refl b)
    | cancelAll => exact .steady (Steady.refl b)
    | post item qty reward hours => exact .steady (steady_post item qty reward hours)
    | withdraw id => exact .steady (steady_withdraw id)
    | deliver id qty => exact .steady (steady_deliver id qty)
    | contribute work item qty => exact civil_contribute p b h who name work item qty now
    | boardCollect => exact .steady (steady_collect b h who)
    | collectAtDesk => exact .steady steady_collectAtDesk
    | payAce k atDesk => exact .steady (steady_payAce k atDesk)
    | certify => exact .steady steady_certify
    | take id => exact .steady (steady_take id)
    | dropPatrol id => exact .steady (steady_drop id)
    | bounties bounty atDesk => exact .steady (steady_bounties bounty atDesk)
    | sign => exact civil_sign b who name now
    | setTerms salvage => exact .steady (steady_setTerms salvage)
    | aceDowned k => exact .steady (steady_aceDowned k)

/-- The works' and the vote's part of a reachable Board. -/
structure Civic (b : Board) : Prop where
  enough : ∀ work item, b.workHas work item ≤ work.needOf item
  done_iff : ∀ work, work ≠ .charterVote →
    (b.done work = true ↔ complete work (b.progress work) = true)
  distinct : b.signatures.Nodup
  standing : ∀ t ∈ b.signatures, 0 < b.standingOf t
  quorum : b.signatures.length ≤ signaturesNeeded
  adopted : b.done .charterVote = true ↔ b.signatures.length = signaturesNeeded
  others : b.signatures ≠ [] → ∀ work, work ≠ .charterVote → b.done work = true
  era : b.era = if b.done .charterVote = true then 1 else 0

theorem civic_new : new.Civic := by
  have hprogress (work : Work) : new.progress work = Progress.empty := by cases work <;> rfl
  refine ⟨fun work item => ?_, fun work hwork => ?_, List.nodup_nil, fun t ht => ?_,
    Nat.zero_le _, ?_, fun h => absurd rfl h, rfl⟩
  · rw [workHas, hprogress]
    exact Nat.zero_le _
  · cases work with
    | charterVote => exact absurd rfl hwork
    | secondFoundry => decide
    | militiaHangar => decide
  · cases ht
  · decide

theorem civic_steady (h : b.Civic) (hs : Steady b b') : b'.Civic := by
  have hprogress (work : Work) : b'.progress work = b.progress work := by
    rw [progress, hs.works, progress]
  have hdone (work : Work) : b'.done work = b.done work := by rw [done, hprogress, done]
  constructor
  · intro work item
    rw [workHas, hprogress]
    exact h.enough work item
  · intro work hwork
    rw [hdone, hprogress]
    exact h.done_iff work hwork
  · rw [hs.signatures]
    exact h.distinct
  · intro t ht
    rw [hs.signatures] at ht
    exact (h.standing t ht).trans_le (hs.standing t)
  · rw [hs.signatures]
    exact h.quorum
  · rw [hdone, hs.signatures]
    exact h.adopted
  · intro hne work hwork
    rw [hs.signatures] at hne
    rw [hdone]
    exact h.others hne work hwork
  · rw [hs.era, hdone]
    exact h.era

theorem needOf_of_find {work : Work} {item : Item} {need : ℕ}
    (h : work.needs.find? (fun e => e.1 = item) = some (item, need)) :
    work.needOf item = need := by
  rw [Work.needOf, h]
  rfl

theorem civic_contributed {who : Trader} {work : Work} {item : Item} {need n pay now : ℕ}
    (h : b.Civic) (undone : b.done work = false)
    (needs : work.needs.find? (fun e => e.1 = item) = some (item, need))
    (fits : n ≤ need - b.workHas work item)
    (raised : Raised b b' work { contributed (b.progress work) who item n pay with
      done := if complete work (contributed (b.progress work) who item n pay) then some now
        else none }) : b'.Civic := by
  have hwork : work ≠ .charterVote := by
    rintro rfl
    cases needs
  have hother (w : Work) (hne : w ≠ work) : b'.done w = b.done w := by
    rw [done, raised.there w hne, done]
  have hvote := hother .charterVote hwork.symm
  have hhas (w : Work) (item' : Item) (hne : w ≠ work) :
      b'.workHas w item' = b.workHas w item' := by
    rw [workHas, raised.there w hne, workHas]
  have hfill (item' : Item) : b'.workHas work item'
      = b.workHas work item' + if item' = item then n else 0 := by
    rw [workHas, raised.here, workHas, contributed, Table.getD_update]
    split
    · rename_i heq
      rw [heq]
    · rfl
  constructor
  · intro w item'
    by_cases heq : w = work
    · subst heq
      have hold := h.enough w item'
      rw [hfill]
      split
      · rename_i heq
        subst heq
        rw [needOf_of_find needs] at hold ⊢
        omega
      · exact hold
    · rw [hhas w item' heq]
      exact h.enough w item'
  · intro w hw
    by_cases heq : w = work
    · subst heq
      rw [done, raised.here]
      have hsame : complete w { contributed (b.progress w) who item n pay with
          done := if complete w (contributed (b.progress w) who item n pay) then some now
            else none } = complete w (contributed (b.progress w) who item n pay) := rfl
      rw [hsame]
      cases complete w (contributed (b.progress w) who item n pay) <;> simp
    · rw [hother w heq, raised.there w heq]
      exact h.done_iff w hw
  · rw [raised.signatures]
    exact h.distinct
  · intro t ht
    rw [raised.signatures] at ht
    exact (h.standing t ht).trans_le (raised.standing t)
  · rw [raised.signatures]
    exact h.quorum
  · rw [hvote, raised.signatures]
    exact h.adopted
  · intro hne w hw
    rw [raised.signatures] at hne
    have hopen := h.others hne work hwork
    rw [undone] at hopen
    cases hopen
  · rw [raised.era, hvote]
    exact h.era

theorem voteOpen_done (h : b.Civic) (hopen : b.voteOpen = true) :
    b.done .charterVote = false ∧ ∀ work, work ≠ .charterVote → b.done work = true := by
  simp only [voteOpen, Bool.and_eq_true, Bool.not_eq_true', List.all_eq_true, List.mem_filter] at hopen
  obtain ⟨hall, hvote⟩ := hopen
  have hera := h.era
  rw [hvote] at hera
  refine ⟨hvote, fun work hwork => hall work ⟨?_, ?_⟩⟩
  · cases work <;> decide
  · simp [hwork, Work.era, hera]

theorem civic_signed {who : Trader} {now : ℕ} (h : b.Civic) (ballot : b.voteOpen = true)
    (standing : 0 < b.standingOf who) (new : who ∉ b.signatures)
    (signatures : b'.signatures = b.signatures ++ [who])
    (still : b.signatures.length + 1 < signaturesNeeded → b'.works = b.works ∧ b'.era = b.era)
    (adopted : signaturesNeeded ≤ b.signatures.length + 1 → b'.era = 1
      ∧ b'.progress .charterVote = { b.progress .charterVote with done := some now }
      ∧ ∀ w, w ≠ .charterVote → b'.progress w = b.progress w)
    (fame : ∀ t, b.standingOf t ≤ b'.standingOf t) : b'.Civic := by
  obtain ⟨hvote, hothers⟩ := voteOpen_done h ballot
  have hlength : b'.signatures.length = b.signatures.length + 1 := by
    rw [signatures, List.length_append, List.length_singleton]
  have hshort : b.signatures.length < signaturesNeeded := by
    refine lt_of_le_of_ne h.quorum fun heq => ?_
    rw [h.adopted.mpr heq] at hvote
    cases hvote
  have hother (w : Work) (hw : w ≠ .charterVote) : b'.progress w = b.progress w := by
    rcases Nat.lt_or_ge (b.signatures.length + 1) signaturesNeeded with hfew | hmany
    · rw [progress, (still hfew).1, progress]
    · exact (adopted hmany).2.2 w hw
  have hdelivered (w : Work) : (b'.progress w).delivered = (b.progress w).delivered := by
    by_cases hw : w = .charterVote
    · subst hw
      rcases Nat.lt_or_ge (b.signatures.length + 1) signaturesNeeded with hfew | hmany
      · rw [progress, (still hfew).1, progress]
      · rw [(adopted hmany).2.1]
    · rw [hother w hw]
  have hdone (w : Work) (hw : w ≠ .charterVote) : b'.done w = b.done w := by
    rw [done, hother w hw, done]
  have hvoted : b'.done .charterVote = true ↔ signaturesNeeded ≤ b.signatures.length + 1 := by
    rcases Nat.lt_or_ge (b.signatures.length + 1) signaturesNeeded with hfew | hmany
    · rw [done, progress, (still hfew).1, ← progress, ← done, hvote]
      simp [hfew]
    · rw [done, (adopted hmany).2.1]
      simp [hmany]
  constructor
  · intro work item
    rw [workHas, hdelivered]
    exact h.enough work item
  · intro work hw
    rw [hdone work hw, hother work hw]
    exact h.done_iff work hw
  · rw [signatures, List.nodup_append]
    refine ⟨h.distinct, List.nodup_singleton who, fun t ht t' ht' heq => ?_⟩
    rw [List.mem_singleton.mp ht'] at heq
    exact new (heq ▸ ht)
  · intro t ht
    rw [signatures] at ht
    rcases List.mem_append.mp ht with ht | ht
    · exact (h.standing t ht).trans_le (fame t)
    · rw [List.mem_singleton.mp ht]
      exact standing.trans_le (fame who)
  · rw [hlength]
    exact hshort
  · rw [hvoted, hlength]
    omega
  · intro _ work hw
    rw [hdone work hw]
    exact hothers work hw
  · by_cases hmany : signaturesNeeded ≤ b.signatures.length + 1
    · rw [if_pos (hvoted.mpr hmany), (adopted hmany).1]
    · rw [if_neg fun hd => hmany (hvoted.mp hd), (still (not_le.mp hmany)).2, h.era, hvote]
      rfl

theorem civic_step (p : Platform) (h : b.Civic) (act : BoardAct) : (b.step p act).Civic := by
  cases civil_step p b act with
  | steady hs => exact civic_steady h hs
  | contributed who pay now undone needs fits raised => exact civic_contributed h undone needs fits raised
  | signed who now ballot standing new signatures still adopted fame =>
    exact civic_signed h ballot standing new signatures still adopted fame

theorem civic_run (p : Platform) (acts : List BoardAct) : (run p acts).Civic := by
  induction acts using List.reverseRecOn with
  | nil => exact civic_new
  | append_singleton acts act ih =>
    rw [run_concat]
    exact civic_step p ih act

/-- What the charter's adoption settled stays settled. -/
structure SameCharter (b b' : Board) : Prop where
  progress : b'.progress .charterVote = b.progress .charterVote
  signatures : b'.signatures = b.signatures
  era : b'.era = b.era

theorem charter_step (p : Platform) (h : b.Civic) (hdone : b.done .charterVote = true)
    (act : BoardAct) : SameCharter b (b.step p act) := by
  cases civil_step p b act with
  | steady hs => exact ⟨by rw [progress, hs.works, progress], hs.signatures, hs.era⟩
  | @contributed who pay now work item need n undone needs fits raised =>
    have hwork : Work.charterVote ≠ work := by
      rintro rfl
      cases needs
    exact ⟨raised.there _ hwork, raised.signatures, raised.era⟩
  | signed who now ballot standing new signatures still adopted fame =>
    have hopen := (voteOpen_done h ballot).1
    rw [hdone] at hopen
    cases hopen

theorem charter_run (p : Platform) (acts later : List BoardAct)
    (hdone : (run p acts).done .charterVote = true) :
    SameCharter (run p acts) (run p (acts ++ later)) := by
  induction later using List.reverseRecOn with
  | nil =>
    rw [List.append_nil]
    exact ⟨rfl, rfl, rfl⟩
  | append_singleton later act ih =>
    have hstill : (run p (acts ++ later)).done .charterVote = true := by
      rw [done, ih.progress, ← done]
      exact hdone
    have hstep := charter_step p (civic_run p (acts ++ later)) hstill act
    rw [← List.append_assoc, run_concat]
    exact ⟨hstep.progress.trans ih.progress, hstep.signatures.trans ih.signatures,
      hstep.era.trans ih.era⟩

/-- The charter vote needs nothing, and isn't done for that. -/
theorem charter_vote_needs_nothing :
    ¬ ∀ (p : Platform) (acts : List BoardAct) (work : Work), (∀ a ∈ acts, a.Typed) →
      ((run p acts).done work = true
        ↔ ∀ e ∈ work.needs, e.2 ≤ (run p acts).workHas work e.1) := by
  intro h
  have hvote := (h Platform.atRest [] .charterVote fun _ ha => by cases ha).mpr fun _ he => by
    cases he
  exact absurd hvote (by decide)

/-- At any moment a pilot holds one patrol at most, and only patrols are held. A sortie's bounties
pay a patrol's reward to its holder, once: nothing else pays on it, and it is gone for good. A
work has no more than it needs, and the works but the charter vote are done when they have it all.
The charter is adopted once the works are done, by so many pilots of standing, and for good. -/
theorem patrols_works_charter (p : Platform) (acts : List BoardAct)
    (htyped : ∀ a ∈ acts, a.Typed) :
    ((run p acts).OneEach ∧ ∀ id c, (run p acts).contracts.get? id = some c → c.holder ≠ none →
        c.task.isPatrol = true)
      ∧ (∀ id c, (run p acts).contracts.get? id = some c → c.task.isPatrol = true →
        c.issuer = none ∧ ∀ act, payOf p id (run p acts) act = 0)
      ∧ (∀ act h ex who name now bounty atDesk,
        act = .serve h ex who name now (.bounties bounty atDesk) →
          ((run p acts).hangarAfter p act).credits = h.credits
          ∧ (∀ t, t ≠ who → (run p (acts ++ [act])).balance t = (run p acts).balance t
            ∧ (run p (acts ++ [act])).deskBalance t = (run p acts).deskBalance t)
          ∧ ((run p (acts ++ [act])).balance who = (run p acts).balance who
              ∧ (run p (acts ++ [act])).deskBalance who = (run p acts).deskBalance who
            ∨ ∃ id c target earned, (run p acts).contracts.get? id = some c ∧ c.holder = some who
              ∧ now < c.expires ∧ c.task = .patrol target earned ∧ target ≤ earned + bounty
              ∧ (run p (acts ++ [act])).balance who + (run p (acts ++ [act])).deskBalance who
                = (run p acts).balance who + (run p acts).deskBalance who + c.reward
              ∧ ∀ later : List BoardAct, (∀ a ∈ later, a.Typed) →
                (run p (acts ++ [act] ++ later)).contracts.get? id = none))
      ∧ (∀ work, (∀ item, (run p acts).workHas work item ≤ work.needOf item)
        ∧ (work ≠ .charterVote → ((run p acts).done work = true
          ↔ ∀ e ∈ work.needs, e.2 ≤ (run p acts).workHas work e.1)))
      ∧ (run p acts).signatures.Nodup
      ∧ (∀ t ∈ (run p acts).signatures, 0 < (run p acts).standingOf t)
      ∧ ((run p acts).done .charterVote = true
        ↔ (run p acts).signatures.length = signaturesNeeded)
      ∧ ((run p acts).done .charterVote = true →
        (∀ work, work ≠ .charterVote → (run p acts).done work = true)
          ∧ ∀ later, SameCharter (run p acts) (run p (acts ++ later))) := by
  have hfair := fair_run p acts htyped
  have hcivic := civic_run p acts
  refine ⟨⟨oneEach_run p acts htyped, fun id c hget => (hfair.plain id c hget).held⟩,
    fun id c hget hpatrol => ⟨(hfair.sound.contract id c hget).patrol hpatrol, fun act => ?_⟩,
    fun act h ex who name now bounty atDesk hact => ?_, fun work => ⟨hcivic.enough work, ?_⟩,
    hcivic.distinct, hcivic.standing, hcivic.adopted, fun hdone => ⟨hcivic.others ?_, fun later => ?_⟩⟩
  · rcases delivery_cases p (run p acts) act id with ⟨hnone, -⟩ | hpaid
    · exact hnone
    · obtain ⟨c', item, wanted, had, n, -, hget', htask, -⟩ := hpaid
      rw [hget] at hget'
      rw [Option.some.inj hget', htask] at hpatrol
      cases hpatrol
  · obtain ⟨hhangar, hothers, hpaid⟩ := bounties_cases p hfair hact
    rw [run_concat]
    refine ⟨hhangar, hothers, hpaid.imp_right ?_⟩
    rintro ⟨id, c, target, earned, hget, hholder, hlive, htask, hfull, hgone, hreward⟩
    refine ⟨id, c, target, earned, hget, hholder, hlive, htask, hfull, hreward,
      fun later hlater => ?_⟩
    rw [← run_concat] at hgone
    have hall : ∀ a ∈ acts ++ [act] ++ later, a.Typed := by
      intro a ha
      rcases List.mem_append.mp ha with ha | ha
      · rcases List.mem_append.mp ha with ha | ha
        · exact htyped a ha
        · rw [List.mem_singleton.mp ha, hact]
          trivial
      · exact hlater a ha
    have hborn : id < (run p (acts ++ [act])).nextId := by
      rw [run_concat]
      exact (hfair.sound.fresh id c hget).trans_le (nextId_step hfair act)
    exact (gone_run later hall hborn hgone).1
  · intro hwork
    rw [hcivic.done_iff work hwork, complete, List.all_eq_true]
    simp only [decide_eq_true_eq, workHas]
  · intro hnil
    have hlength := hcivic.adopted.mp hdone
    rw [hnil] at hlength
    cases hlength
  · exact charter_run p acts later hdone

def donate (who : Trader) (work : Work) (item : Item) : BoardAct :=
  .serve { World.hoard 0 0 with stores := ⟨Table.ofList [(item, 15000)], []⟩ } Exchange.new who who 0
    (.contribute work item 15000)

def signs (who : Trader) : BoardAct := .serve Hangar.empty Exchange.new who who 0 .sign

/-- Three pilots build both works and sign the charter; the militia posts its patrols, and one of
the pilots takes one. -/
def founding : List BoardAct :=
  [donate "cygnus" .secondFoundry steel]
    ++ (Work.secondFoundry.needs.map fun e => donate "lyra" .secondFoundry e.1)
    ++ (Work.militiaHangar.needs.map fun e => donate "auriga" .militiaHangar e.1)
    ++ [signs "cygnus", signs "lyra", signs "auriga", .tick 10 Exchange.new,
      .serve Hangar.empty Exchange.new "lyra" "LYRA" 20 (.take 5)]

def sortie : BoardAct :=
  .serve Hangar.empty Exchange.new "lyra" "LYRA" 30 (.bounties 1200 false)

theorem patrols_works_charter_founding :
    (run Platform.atRest founding).OneEach
      ∧ ((run Platform.atRest (founding ++ [sortie])).balance "lyra"
            + (run Platform.atRest (founding ++ [sortie])).deskBalance "lyra"
          = (run Platform.atRest founding).balance "lyra"
            + (run Platform.atRest founding).deskBalance "lyra" + patrolReward
        ∧ (run Platform.atRest (founding ++ [sortie] ++ [sortie])).contracts.get? 5 = none)
      ∧ (run Platform.atRest founding).signatures.length = signaturesNeeded
      ∧ SameCharter (run Platform.atRest founding)
        (run Platform.atRest (founding ++ [signs "lyra"])) := by
  have htyped : ∀ a ∈ founding, a.Typed := by
    simp only [founding, List.forall_mem_append, List.forall_mem_map, List.forall_mem_cons]
    exact ⟨⟨⟨⟨trivial, List.forall_mem_nil _⟩, fun _ _ => trivial⟩, fun _ _ => trivial⟩,
      trivial, trivial, trivial, trivial, trivial, List.forall_mem_nil _⟩
  have hsortie : ∀ a ∈ [sortie], a.Typed := by
    simp [sortie, BoardAct.Typed]
  -- One run of the kernel answers all three.
  obtain ⟨hdone, hrose, hheld⟩ : (run Platform.atRest founding).done .charterVote = true
      ∧ (run Platform.atRest (founding ++ [sortie])).balance "lyra"
        ≠ (run Platform.atRest founding).balance "lyra"
      ∧ ∀ e ∈ (run Platform.atRest founding).contracts.entries,
        e.2.holder = some "lyra" → e.1 = 5 ∧ e.2.reward = patrolReward := by decide +kernel
  obtain ⟨⟨hone, -⟩, -, hflown, -, -, -, hadopted, hstays⟩ :=
    patrols_works_charter Platform.atRest founding htyped
  obtain ⟨-, -, hpaid⟩ := hflown sortie Hangar.empty Exchange.new "lyra" "LYRA" 30 1200 false rfl
  refine ⟨hone, ?_, hadopted.mp hdone, (hstays hdone).2 _⟩
  rcases hpaid with ⟨hsame, -⟩ | ⟨id, c, target, earned, hget, hholder, -, -, -, hreward, hgone⟩
  · exact absurd hsame hrose
  · obtain ⟨rfl, hr⟩ := hheld (id, c) (Table.mem_entries_iff.mpr hget) hholder
    rw [hr] at hreward
    exact ⟨hreward, hgone [sortie] hsortie⟩

end Board

end BeforeColony
