import BeforeColony.Econ.BoardSteps

/-!
# What a contract pays

A contract pays what was delivered of it, to the credit, however the deliveries were split; it
is closed once, and its poster then has back what it hasn't paid.
-/

set_option autoImplicit false

namespace BeforeColony

open Lib Catalogue

namespace Board

variable {p : Platform} {b b' : Board}

/-- What a step pays a pilot for delivering to contract `id`. -/
def payOf (p : Platform) (id : ℕ) (b : Board) (act : BoardAct) : ℕ :=
  if act.delivers = some id then (b.hangarAfter p act).credits - act.hangar.credits else 0

/-- What a step takes from a pilot's stores for contract `id`. -/
def givenOf (p : Platform) (id : ℕ) (item : Item) (b : Board) (act : BoardAct) : ℕ :=
  if act.delivers = some id then
    act.hangar.stores.get item - (b.hangarAfter p act).stores.get item
  else 0

def paidOut (p : Platform) (id : ℕ) (acts : List BoardAct) : ℕ :=
  Run.total (step p) (payOf p id) new acts

/-- What was delivered to contract `id` over a run. -/
def givenTo (p : Platform) (id : ℕ) (item : Item) (acts : List BoardAct) : ℕ :=
  Run.total (step p) (givenOf p id item) new acts

theorem run_concat (p : Platform) (acts : List BoardAct) (act : BoardAct) :
    run p (acts ++ [act]) = (run p acts).step p act :=
  List.foldl_concat ..

theorem paidOut_concat (id : ℕ) (acts : List BoardAct) (act : BoardAct) :
    paidOut p id (acts ++ [act]) = paidOut p id acts + payOf p id (run p acts) act :=
  Run.total_concat ..

theorem givenTo_concat (id : ℕ) (item : Item) (acts : List BoardAct) (act : BoardAct) :
    givenTo p id item (acts ++ [act])
      = givenTo p id item acts + givenOf p id item (run p acts) act :=
  Run.total_concat ..

/-- A reward is a `u64`, and only patrols are held. -/
structure Plain (c : Contract) : Prop where
  reward_le : c.reward ≤ u64Max
  held : c.holder ≠ none → c.task.isPatrol = true

structure Fair (b : Board) : Prop where
  sound : b.Sound
  plain : ∀ id c, b.contracts.get? id = some c → Plain c

theorem fair_new : new.Fair :=
  ⟨sound_new, fun _ _ h => by cases h⟩

theorem Fair.congr (h : b.Fair) (hc : b'.contracts = b.contracts) (hn : b'.nextId = b.nextId) :
    b'.Fair := by
  refine ⟨h.sound.congr hc hn, ?_⟩
  rw [hc]
  exact h.plain

theorem Fair.touched {id : ℕ} {x : Option Contract} (h : b.Fair) (ht : Touched b b' id x)
    (hlt : id < b.nextId) (hx : ∀ c, x = some c → ContractOk id c ∧ Plain c) : b'.Fair := by
  have hget (id' : ℕ) (c : Contract) (hopen : b'.contracts.get? id' = some c) :
      ContractOk id' c ∧ Plain c ∧ id' < b.nextId := by
    rw [ht.get] at hopen
    split at hopen
    · rename_i heq
      obtain ⟨hok, hplain⟩ := hx c hopen
      rw [heq]
      exact ⟨hok, hplain, hlt⟩
    · exact ⟨h.sound.contract id' c hopen, h.plain id' c hopen, h.sound.fresh id' c hopen⟩
  refine ⟨⟨fun id' c hopen => (hget id' c hopen).1, fun id' c hopen => ?_⟩,
    fun id' c hopen => (hget id' c hopen).2.1⟩
  rw [ht.next]
  exact (hget id' c hopen).2.2

/-- A delivery keeps what a contract has paid in step with what it was given. -/
theorem deliveredTo_ok {id : ℕ} {c : Contract} {item : Item} {wanted had n : ℕ}
    (hok : ContractOk id c) (htask : c.task = .supply item wanted had) (hn : n ≤ wanted - had)
    (hshort : had + n ≠ wanted) :
    ContractOk id
      (deliveredTo c item wanted had n (c.payFor (had + n) wanted - c.payFor had wanted)) := by
  obtain ⟨hlt, hpaid⟩ := hok.supply item wanted had htask
  constructor
  · exact hok.id_eq
  · intro item' wanted' had' h
    obtain ⟨rfl, rfl, rfl⟩ := Task.supply.inj h
    have hmono : c.payFor had wanted ≤ c.payFor (had + n) wanted :=
      payFor_mono (Nat.le_add_right had n)
    refine ⟨by omega, ?_⟩
    simp only [deliveredTo, hpaid]
    exact Nat.add_sub_cancel' hmono
  · intro h
    cases h
  · exact hok.reward_le
  · intro item' wanted' had' h hissuer
    obtain ⟨rfl, rfl, rfl⟩ := Task.supply.inj h
    exact hok.dealt _ _ _ htask hissuer

@[simp] theorem unearned_isPatrol (task : Task) : (unearned task).isPatrol = task.isPatrol := by
  cases task <;> rfl

theorem patrol_ok {id : ℕ} {c c' : Contract} (hok : ContractOk id c) (hplain : Plain c)
    (hpatrol : c.task.isPatrol = true) (hid : c'.id = c.id) (hissuer : c'.issuer = c.issuer)
    (hreward : c'.reward = c.reward) (hpatrol' : c'.task.isPatrol = true) :
    ContractOk id c' ∧ Plain c' := by
  have hcolony := hissuer.trans (hok.patrol hpatrol)
  have hnot (item : Item) (qty delivered : ℕ) : c'.task ≠ .supply item qty delivered := by
    intro hs
    rw [hs] at hpatrol'
    cases hpatrol'
  refine ⟨⟨hid.trans hok.id_eq, ?_, fun _ => hcolony, ?_, ?_⟩, ?_, fun _ => hpatrol'⟩
  · intro item qty delivered hs
    exact absurd hs (hnot _ _ _)
  · intro hsome
    rw [hcolony] at hsome
    cases hsome
  · intro item qty delivered hs
    exact absurd hs (hnot _ _ _)
  · rw [hreward]
    exact hplain.reward_le

theorem fair_posted {h : Hangar} {who : Trader} {name : String} {item : Item}
    {qty reward hours now : ℕ} (hb : b.Fair) (hle : reward ≤ u64Max)
    (hok : b.postRefusal h who item qty reward hours = none)
    (hc : b'.contracts = b.contracts.insert b.nextId
      { id := b.nextId, issuer := some who, issuerName := name, task := .supply item qty 0
        reward, paid := 0, posted := now, expires := now + hours * 3600, holder := none })
    (hn : b'.nextId = b.nextId + 1) : b'.Fair := by
  obtain ⟨hq, -⟩ := Room.postRefusal_none hok
  refine ⟨hb.sound.insert hc ⟨rfl, ?_, ?_, fun _ => hle, ?_⟩ (by omega) (by omega),
    fun id c hopen => ?_⟩
  · intro item' qty' delivered h
    obtain ⟨rfl, rfl, rfl⟩ := Task.supply.inj h
    exact ⟨hq, by simp [Contract.payFor]⟩
  · intro h
    cases h
  · intro item' qty' delivered h hissuer
    cases hissuer
  · rw [hc, Table.get?_insert] at hopen
    split at hopen
    · rw [← Option.some.inj hopen]
      exact ⟨hle, fun h => absurd rfl h⟩
    · exact hb.plain id c hopen

theorem fair_turn {h' : Hangar} {act : BoardAct} (h : b.Fair) (htyped : act.Typed)
    (hturn : Turn b b' h' act) : b'.Fair := by
  cases hturn with
  | refused board hangar => exact h.congr (by rw [board]) (by rw [board])
  | still quiet contracts next given => exact h.congr contracts next
  | posted ok contracts next escrowed given => exact fair_posted h htyped ok contracts next
  | withdrawn get issuer touched back others =>
    exact h.touched touched (h.sound.fresh _ _ get) fun _ hx => by cases hx
  | delivered get task other live pos fits touched given paid balances =>
    refine h.touched touched (h.sound.fresh _ _ get) fun c' hx => ?_
    split at hx
    · cases hx
    · rename_i hshort
      rw [← Option.some.inj hx]
      have hplain := h.plain _ _ get
      refine ⟨deliveredTo_ok (h.sound.contract _ _ get) task fits hshort, hplain.reward_le,
        fun hheld => ?_⟩
      have hpatrol := hplain.held hheld
      rw [task] at hpatrol
      cases hpatrol
  | taken free get task holder touched balances =>
    refine h.touched touched (h.sound.fresh _ _ get) fun c' hx => ?_
    rw [← Option.some.inj hx]
    have hpatrol : Task.isPatrol _ = true := congrArg Task.isPatrol task
    exact patrol_ok (h.sound.contract _ _ get) (h.plain _ _ get) hpatrol rfl rfl rfl hpatrol
  | dropped get holder touched balances =>
    refine h.touched touched (h.sound.fresh _ _ get) fun c' hx => ?_
    rw [← Option.some.inj hx]
    have hplain := h.plain _ _ get
    have hpatrol := hplain.held (by rw [holder]; exact Option.some_ne_none _)
    exact patrol_ok (h.sound.contract _ _ get) hplain hpatrol rfl rfl rfl
      ((unearned_isPatrol _).trans hpatrol)
  | counted get holder live task short touched balances hangar =>
    refine h.touched touched (h.sound.fresh _ _ get) fun c' hx => ?_
    rw [← Option.some.inj hx]
    have hpatrol : Task.isPatrol _ = true := congrArg Task.isPatrol task
    exact patrol_ok (h.sound.contract _ _ get) (h.plain _ _ get) hpatrol rfl rfl rfl rfl
  | flown get holder live task full touched paid others hangar =>
    exact h.touched (touched (h.sound.contract _ _ get).id_eq) (h.sound.fresh _ _ get)
      fun _ hx => by cases hx

theorem fair_tick (h : b.Fair) (now : ℕ) (ex : Exchange) : (b.tick now ex).1.Fair := by
  have hticked := ticked h.sound now ex
  refine ⟨(same_tick now ex h.sound).sound h.sound, fun id c hopen => ?_⟩
  rcases Nat.lt_or_ge id b.nextId with hlt | hge
  · rw [hticked.old id hlt] at hopen
    obtain ⟨hold, -⟩ := Option.filter_eq_some_iff.mp hopen
    exact h.plain id c hold
  · have hnew := hticked.new id c hge hopen
    exact ⟨hnew.reward_le, fun hheld => absurd hnew.holder hheld⟩

theorem fair_step (h : b.Fair) (act : BoardAct) (htyped : act.Typed) : (b.step p act).Fair := by
  cases act with
  | tick now ex => exact fair_tick h now ex
  | aceOut k => exact h.congr rfl rfl
  | serve h' ex who name now request =>
    exact fair_turn h htyped (turn _ fun _ _ heq => by cases heq)

theorem fair_run (p : Platform) (acts : List BoardAct) (htyped : ∀ a ∈ acts, a.Typed) :
    (run p acts).Fair := by
  induction acts using List.reverseRecOn with
  | nil => exact fair_new
  | append_singleton acts act ih =>
    rw [run_concat]
    exact fair_step (ih fun a ha => htyped a (List.mem_append_left _ ha)) act
      (htyped act (List.mem_append_right _ (List.mem_singleton_self _)))

/-! ## What is paid for what is given -/

theorem payOf_quiet {id : ℕ} {act : BoardAct} (hquiet : act.delivers ≠ some id) :
    payOf p id b act = 0 ∧ ∀ item, givenOf p id item b act = 0 := by
  refine ⟨if_neg hquiet, fun item => if_neg hquiet⟩

theorem payOf_refused {id : ℕ} {act : BoardAct} (hrefused : b.hangarAfter p act = act.hangar) :
    payOf p id b act = 0 ∧ ∀ item, givenOf p id item b act = 0 := by
  constructor
  · rw [payOf, hrefused, Nat.sub_self, ite_self]
  · intro item
    rw [givenOf, hrefused, Nat.sub_self, ite_self]

theorem payOf_delivered {id n : ℕ} {act : BoardAct} (hd : act.delivers = some id)
    (hpaid : (b.hangarAfter p act).credits = act.hangar.credits + n) : payOf p id b act = n := by
  rw [payOf, if_pos hd, hpaid]
  exact Nat.add_sub_cancel_left ..

theorem givenOf_delivered {id n : ℕ} {item : Item} {act : BoardAct} (hd : act.delivers = some id)
    (hgiven : (b.hangarAfter p act).stores.get item + n = act.hangar.stores.get item) :
    givenOf p id item b act = n := by
  rw [givenOf, if_pos hd]
  exact Nat.sub_eq_of_eq_add' hgiven.symm

/-- A step pays nothing on contract `id`, or takes in goods for it and pays them. -/
theorem delivery_cases (p : Platform) (b : Board) (act : BoardAct) (id : ℕ) :
    (payOf p id b act = 0 ∧ ∀ item, givenOf p id item b act = 0)
      ∨ ∃ c item wanted had n, act.delivers = some id ∧ b.contracts.get? id = some c
        ∧ c.task = .supply item wanted had ∧ 0 < n ∧ n ≤ wanted - had
        ∧ Touched b (b.step p act) id (if had + n = wanted then none
          else some (deliveredTo c item wanted had n (c.payFor (had + n) wanted - c.payFor had wanted)))
        ∧ payOf p id b act = c.payFor (had + n) wanted - c.payFor had wanted
        ∧ givenOf p id item b act = n
        ∧ ∀ t, (b.step p act).balance t = b.balance t := by
  by_cases hd : act.delivers = some id
  · have hturn : Turn b (b.step p act) (b.hangarAfter p act) act := by
      refine turn act fun now ex heq => ?_
      rw [heq] at hd
      cases hd
    cases hturn with
    | refused board hangar => exact Or.inl (payOf_refused hangar)
    | still quiet contracts next given =>
      rw [BoardAct.delivers_of_quiet quiet] at hd
      cases hd
    | @delivered h ex who name now id' qty c item wanted had n get task other live pos fits touched
        given paid balances =>
      obtain rfl : id' = id := Option.some.inj hd
      exact Or.inr ⟨c, item, wanted, had, n, hd, get, task, pos, fits, touched,
        payOf_delivered hd paid, givenOf_delivered hd given, balances⟩
    | posted => cases hd
    | withdrawn => cases hd
    | taken => cases hd
    | dropped => cases hd
    | counted => cases hd
    | flown => cases hd
  · exact Or.inl (payOf_quiet hd)

theorem payOf_gone {id : ℕ} {act : BoardAct} (hgone : b.contracts.get? id = none) :
    payOf p id b act = 0 ∧ ∀ item, givenOf p id item b act = 0 := by
  rcases delivery_cases p b act id with hnone | ⟨c, item, wanted, had, n, -, hget, -⟩
  · exact hnone
  · rw [hgone] at hget
    cases hget

theorem nextId_step (hb : b.Fair) (act : BoardAct) : b.nextId ≤ (b.step p act).nextId := by
  cases act with
  | tick now ex => exact (ticked_step p hb.sound now ex).next
  | aceOut k => exact le_rfl
  | serve h ex who name now request =>
    have hturn := turn (p := p) (b := b) (.serve h ex who name now request)
      fun _ _ heq => by cases heq
    cases hturn with
    | refused board hangar => rw [board]
    | still quiet contracts next given => exact next.ge
    | posted ok contracts next escrowed given => omega
    | withdrawn get issuer touched back others => exact touched.next.ge
    | delivered get task other live pos fits touched given paid balances => exact touched.next.ge
    | taken free get task holder touched balances => exact touched.next.ge
    | dropped get holder touched balances => exact touched.next.ge
    | counted get holder live task short touched balances hangar => exact touched.next.ge
    | flown get holder live task full touched paid others hangar =>
      exact (touched (hb.sound.contract _ _ get).id_eq).next.ge

/-- A contract open after a step was open before it with the terms it has, but for patrols' holders
and what was delivered; or it is new. -/
structure Continues (p : Platform) (b : Board) (act : BoardAct) (id : ℕ) (c c' : Contract) : Prop
    where
  issuer : c'.issuer = c.issuer
  reward : c'.reward = c.reward
  supply : ∀ item qty had', c'.task = .supply item qty had' → ∃ had,
    c.task = .supply item qty had ∧ c'.paid = c.paid + payOf p id b act
      ∧ had' = had + givenOf p id item b act

theorem continues_same {act : BoardAct} {id : ℕ} {c' : Contract}
    (hpay : payOf p id b act = 0 ∧ ∀ item, givenOf p id item b act = 0)
    (hget : (b.step p act).contracts.get? id = b.contracts.get? id)
    (hopen : (b.step p act).contracts.get? id = some c') :
    ∃ c, b.contracts.get? id = some c ∧ Continues p b act id c c' := by
  refine ⟨c', hget.symm.trans hopen, rfl, rfl, fun item qty had' htask => ⟨had', htask, ?_, ?_⟩⟩
  · rw [hpay.1, Nat.add_zero]
  · rw [hpay.2, Nat.add_zero]

theorem continues_patrol {act : BoardAct} {id key : ℕ} {c x c' : Contract}
    (hquiet : act.delivers = none) (hget : b.contracts.get? key = some c)
    (htouched : Touched b (b.step p act) key (some x)) (hissuer : x.issuer = c.issuer)
    (hreward : x.reward = c.reward) (hpatrol : x.task.isPatrol = true)
    (hopen : (b.step p act).contracts.get? id = some c') :
    ∃ c, b.contracts.get? id = some c ∧ Continues p b act id c c' := by
  by_cases heq : id = key
  · rw [htouched.get, if_pos heq] at hopen
    rw [heq, ← Option.some.inj hopen]
    refine ⟨c, hget, hissuer, hreward, fun item qty had' htask => ?_⟩
    rw [htask] at hpatrol
    cases hpatrol
  · have hpay : payOf p id b act = 0 ∧ ∀ item, givenOf p id item b act = 0 :=
      payOf_quiet (by rw [hquiet]; nofun)
    refine continues_same hpay ?_ hopen
    rw [htouched.get, if_neg heq]

theorem continues_turn {h : Hangar} {ex : Exchange} {who : Trader} {name : String} {now : ℕ}
    {request : Request} {id : ℕ} {c' : Contract} (hb : b.Fair)
    (hopen : (b.step p (.serve h ex who name now request)).contracts.get? id = some c') :
    (b.nextId ≤ id ∧ c'.paid = 0 ∧ ∀ item qty had, c'.task = .supply item qty had → had = 0)
      ∨ ∃ c, b.contracts.get? id = some c
        ∧ Continues p b (.serve h ex who name now request) id c c' := by
  have hturn := turn (p := p) (b := b) (.serve h ex who name now request)
    fun _ _ heq => by cases heq
  generalize hact : BoardAct.serve h ex who name now request = act at hturn hopen ⊢
  have hsame (hpay : payOf p id b act = 0 ∧ ∀ item, givenOf p id item b act = 0)
      (hget : (b.step p act).contracts.get? id = b.contracts.get? id) :
      ∃ c, b.contracts.get? id = some c ∧ Continues p b act id c c' :=
    continues_same hpay hget hopen
  cases hturn with
  | refused board hangar =>
    exact Or.inr (hsame (payOf_refused hangar) (by rw [board]))
  | still quiet contracts next given =>
    exact Or.inr (hsame (payOf_quiet (by rw [BoardAct.delivers_of_quiet quiet]; nofun)) (by rw [contracts]))
  | posted ok contracts next escrowed given =>
    rw [contracts, Table.get?_insert] at hopen
    split at hopen
    · rename_i heq
      rw [← Option.some.inj hopen]
      refine Or.inl ⟨heq.ge, rfl, fun item' qty' had htask => ?_⟩
      exact (Task.supply.inj htask).2.2.symm
    · rename_i hne
      refine Or.inr (hsame (payOf_quiet nofun) ?_)
      rw [contracts, Table.get?_insert, if_neg hne]
  | @withdrawn _ _ _ _ _ key c get issuer touched back others =>
    rw [touched.get] at hopen
    split at hopen
    · cases hopen
    · rename_i hne
      refine Or.inr (hsame (payOf_quiet nofun) ?_)
      rw [touched.get, if_neg hne]
  | @delivered _ _ _ _ _ key _ c item wanted had n get task other live pos fits touched given paid
      balances =>
    by_cases heq : id = key
    · subst heq
      rw [touched.get, if_pos rfl] at hopen
      split at hopen
      · cases hopen
      · rw [← Option.some.inj hopen]
        refine Or.inr ⟨c, get, rfl, rfl, fun item' wanted' had' htask => ?_⟩
        obtain ⟨rfl, rfl, rfl⟩ := Task.supply.inj htask
        refine ⟨had, task, ?_, ?_⟩
        · rw [payOf_delivered rfl paid]
          rfl
        · rw [givenOf_delivered rfl given]
    · refine Or.inr (hsame (payOf_quiet fun h => heq (Option.some.inj h).symm) ?_)
      rw [touched.get, if_neg heq]
  | taken free get task holder touched balances =>
    exact Or.inr (continues_patrol rfl get touched rfl rfl (by rw [task]; rfl) hopen)
  | dropped get holder touched balances =>
    have hpatrol := (hb.plain _ _ get).held (by rw [holder]; exact Option.some_ne_none _)
    exact Or.inr (continues_patrol rfl get touched rfl rfl
      ((unearned_isPatrol _).trans hpatrol) hopen)
  | counted get holder live task short touched balances hangar =>
    exact Or.inr (continues_patrol rfl get touched rfl rfl rfl hopen)
  | flown get holder live task full touched paid others hangar =>
    have htouched := touched (hb.sound.contract _ _ get).id_eq
    rw [htouched.get] at hopen
    split at hopen
    · cases hopen
    · rename_i hne
      refine Or.inr (hsame (payOf_quiet nofun) ?_)
      rw [htouched.get, if_neg hne]

theorem continues_step (hb : b.Fair) (act : BoardAct) {id : ℕ} {c' : Contract}
    (hopen : (b.step p act).contracts.get? id = some c') :
    (b.nextId ≤ id ∧ c'.paid = 0 ∧ ∀ item qty had, c'.task = .supply item qty had → had = 0)
      ∨ ∃ c, b.contracts.get? id = some c ∧ Continues p b act id c c' := by
  cases act with
  | serve h ex who name now request => exact continues_turn hb hopen
  | aceOut k => exact Or.inr (continues_same (payOf_quiet nofun) rfl hopen)
  | tick now ex =>
    have hticked := ticked_step p hb.sound now ex
    rcases Nat.lt_or_ge id b.nextId with hlt | hge
    · refine Or.inr (continues_same (payOf_quiet nofun) ?_ hopen)
      have hold := hticked.old id hlt
      obtain ⟨hget, -⟩ := Option.filter_eq_some_iff.mp (hold.symm.trans hopen)
      rw [hget]
      exact hopen
    · have hnew := hticked.new id c' hge hopen
      exact Or.inl ⟨hge, hnew.paid, hnew.delivered⟩

/-- What a run has paid out, and taken in, for the contracts open after it. -/
structure Squared (p : Platform) (acts : List BoardAct) : Prop where
  paid : ∀ id c item qty had, (run p acts).contracts.get? id = some c →
    c.task = .supply item qty had → paidOut p id acts = c.paid ∧ givenTo p id item acts = had
  unborn : ∀ id, (run p acts).nextId ≤ id →
    paidOut p id acts = 0 ∧ ∀ item, givenTo p id item acts = 0

theorem squared_run (p : Platform) (acts : List BoardAct) (htyped : ∀ a ∈ acts, a.Typed) :
    Squared p acts := by
  induction acts using List.reverseRecOn with
  | nil =>
    refine ⟨fun _ _ _ _ _ hopen _ => ?_, fun _ _ => ⟨rfl, fun _ => rfl⟩⟩
    cases hopen
  | append_singleton acts act ih =>
    have hbefore : ∀ a ∈ acts, a.Typed := fun a ha => htyped a (List.mem_append_left _ ha)
    have hfair := fair_run p acts hbefore
    have hsquared := ih hbefore
    have hgone (id : ℕ) (hle : (run p acts).nextId ≤ id) :
        payOf p id (run p acts) act = 0 ∧ ∀ item, givenOf p id item (run p acts) act = 0 := by
      apply payOf_gone
      cases hget : (run p acts).contracts.get? id with
      | none => rfl
      | some c => exact absurd (hfair.sound.fresh id c hget) hle.not_gt
    have hnew (id : ℕ) (hle : (run p acts).nextId ≤ id) :
        paidOut p id (acts ++ [act]) = 0 ∧ ∀ item, givenTo p id item (acts ++ [act]) = 0 := by
      obtain ⟨hpaid, hgiven⟩ := hsquared.unborn id hle
      obtain ⟨hpay, hgive⟩ := hgone id hle
      refine ⟨?_, fun item => ?_⟩
      · rw [paidOut_concat, hpaid, hpay]
      · rw [givenTo_concat, hgiven, hgive]
    refine ⟨fun id c item qty had hopen htask => ?_, fun id hle => hnew id ?_⟩
    · rw [run_concat] at hopen
      rcases continues_step hfair act hopen with ⟨hle, hpaid, hhad⟩ | ⟨c₀, hget, hc⟩
      · rw [hpaid, hhad item qty had htask]
        exact ⟨(hnew id hle).1, (hnew id hle).2 item⟩
      · obtain ⟨had₀, htask₀, hpaid, hhad⟩ := hc.supply item qty had htask
        obtain ⟨hpaid₀, hgiven₀⟩ := hsquared.paid id c₀ item qty had₀ hget htask₀
        rw [paidOut_concat, givenTo_concat, hpaid₀, hgiven₀]
        exact ⟨hpaid.symm, hhad.symm⟩
    · rw [run_concat] at hle
      exact (nextId_step hfair act).trans hle

/-! ## How a contract closes -/

inductive Closing (p : Platform) (b : Board) (id : ℕ) (c : Contract) : BoardAct → Prop where
  | filled {act : BoardAct} {item : Item} {qty had : ℕ} (delivers : act.delivers = some id)
      (task : c.task = .supply item qty had) (all : had + givenOf p id item b act = qty)
      (whole : c.paid + payOf p id b act = c.reward)
      (balances : ∀ t, (b.step p act).balance t = b.balance t) : Closing p b id c act
  | withdrawn {h : Hangar} {ex : Exchange} {who : Trader} {name : String} {now : ℕ}
      (issuer : c.issuer = some who)
      (back : (b.hangarAfter p (.serve h ex who name now (.withdraw id))).credits
          + (b.step p (.serve h ex who name now (.withdraw id))).balance who
        = h.credits + b.balance who + c.unpaid) :
      Closing p b id c (.serve h ex who name now (.withdraw id))
  | expired {now : ℕ} {ex : Exchange} (late : c.expires ≤ now)
      (back : ∀ t, (b.step p (.tick now ex)).balance t = b.balance t + b.expiring now t) :
      Closing p b id c (.tick now ex)
  | flown {act : BoardAct} (patrol : c.task.isPatrol = true) (colony : c.issuer = none) :
      Closing p b id c act

theorem closing_step (hb : b.Fair) (act : BoardAct) {id : ℕ} {c : Contract}
    (hopen : b.contracts.get? id = some c) (hgone : (b.step p act).contracts.get? id = none) :
    Closing p b id c act := by
  have hkept (hget : (b.step p act).contracts.get? id = b.contracts.get? id) :
      Closing p b id c act := by
    rw [hget, hopen] at hgone
    cases hgone
  cases act with
  | aceOut k => exact hkept rfl
  | tick now ex =>
    have hticked := ticked_step p hb.sound now ex
    refine .expired ?_ hticked.back
    have hold : (b.step p (.tick now ex)).contracts.get? id = _ :=
      hticked.old id (hb.sound.fresh id c hopen)
    rw [hgone, hopen, Option.filter_some] at hold
    split at hold
    · cases hold
    · rename_i hlate
      simpa using hlate
  | serve h ex who name now request =>
    have hturn := turn (p := p) (b := b) (.serve h ex who name now request)
      fun _ _ heq => by cases heq
    have hset {key : ℕ} {x : Contract}
        (htouched : Touched b (b.step p (.serve h ex who name now request)) key (some x)) :
        Closing p b id c (.serve h ex who name now request) := by
      have hget := htouched.get id
      rw [hgone] at hget
      split at hget
      · cases hget
      · rw [hopen] at hget
        cases hget
    have herased {key : ℕ}
        (htouched : Touched b (b.step p (.serve h ex who name now request)) key none) :
        id = key := by
      by_contra hne
      have hget := htouched.get id
      rw [hgone, if_neg hne, hopen] at hget
      cases hget
    cases hturn with
    | refused board hangar => exact hkept (by rw [board])
    | still quiet contracts next given => exact hkept (by rw [contracts])
    | posted ok contracts next escrowed given =>
      rw [contracts, Table.get?_insert] at hgone
      split at hgone
      · cases hgone
      · rw [hopen] at hgone
        cases hgone
    | withdrawn get issuer touched back others =>
      obtain rfl := herased touched
      obtain rfl := Option.some.inj (get.symm.trans hopen)
      exact .withdrawn issuer back
    | @delivered _ _ _ _ _ _ _ c' item wanted had n get task other live pos fits touched given paid
        balances =>
      by_cases hfull : had + n = wanted
      · rw [if_pos hfull] at touched
        obtain rfl := herased touched
        obtain rfl := Option.some.inj (get.symm.trans hopen)
        obtain ⟨hlt, hpaid⟩ := (hb.sound.contract id c' get).supply item wanted had task
        have hmono : c'.payFor had wanted ≤ c'.payFor (had + n) wanted :=
          payFor_mono (Nat.le_add_right had n)
        refine .filled rfl task ?_ ?_ balances
        · rw [givenOf_delivered rfl given, hfull]
        · rw [payOf_delivered rfl paid, hpaid, Nat.add_sub_cancel' hmono, hfull]
          exact payFor_all (by omega) (hb.plain id c' get).reward_le
      · rw [if_neg hfull] at touched
        exact hset touched
    | taken free get task holder touched balances => exact hset touched
    | dropped get holder touched balances => exact hset touched
    | counted get holder live task short touched balances hangar => exact hset touched
    | flown get holder live task full touched paid others hangar =>
      have hok := hb.sound.contract _ _ get
      obtain rfl := herased (touched hok.id_eq)
      obtain rfl := Option.some.inj (get.symm.trans hopen)
      have hpatrol : Task.isPatrol _ = true := congrArg Task.isPatrol task
      exact .flown hpatrol (hok.patrol hpatrol)

theorem gone_run {acts : List BoardAct} {id : ℕ} (later : List BoardAct)
    (htyped : ∀ a ∈ acts ++ later, a.Typed) (hborn : id < (run p acts).nextId)
    (hgone : (run p acts).contracts.get? id = none) :
    (run p (acts ++ later)).contracts.get? id = none
      ∧ id < (run p (acts ++ later)).nextId
      ∧ paidOut p id (acts ++ later) = paidOut p id acts := by
  induction later using List.reverseRecOn with
  | nil =>
    rw [List.append_nil]
    exact ⟨hgone, hborn, rfl⟩
  | append_singleton later act ih =>
    rw [← List.append_assoc] at htyped ⊢
    have hbefore : ∀ a ∈ acts ++ later, a.Typed := fun a ha => htyped a (List.mem_append_left _ ha)
    have hfair := fair_run p (acts ++ later) hbefore
    obtain ⟨hnone, hlt, hpaid⟩ := ih hbefore
    refine ⟨?_, ?_, ?_⟩
    · cases hget : (run p (acts ++ later ++ [act])).contracts.get? id with
      | none => rfl
      | some c =>
        rw [run_concat] at hget
        rcases continues_step hfair act hget with ⟨hle, -⟩ | ⟨c', hget', -⟩
        · exact absurd hlt hle.not_gt
        · rw [hnone] at hget'
          cases hget'
    · rw [run_concat]
      exact hlt.trans_le (nextId_step hfair act)
    · rw [paidOut_concat, (payOf_gone hnone).1, hpaid, Nat.add_zero]

theorem given_step (hb : b.Fair) (act : BoardAct) (t : Trader)
    (hopen : ∀ id c, b.contracts.get? id = some c → c.issuer = some t →
      (b.step p act).contracts.get? id ≠ none)
    (hbounties : ∀ h ex name now bounty atDesk,
      act ≠ .serve h ex t name now (.bounties bounty atDesk)) :
    (b.step p act).balance t ≤ b.balance t := by
  cases act with
  | aceOut k => exact le_rfl
  | tick now ex =>
    have hticked := ticked_step p hb.sound now ex
    have hnone : b.expiring now t = 0 := by
      have hzero : b.expiring now t = Table.total (fun _ _ => 0) b.contracts := by
        refine Table.total_congr fun id c hget => if_neg ?_
        rintro ⟨hlate, hissuer⟩
        refine hopen id c hget hissuer ?_
        have hold : (b.step p (.tick now ex)).contracts.get? id = _ :=
          hticked.old id (hb.sound.fresh id c hget)
        rw [hold, hget, Option.filter_some]
        simp [hlate]
      rw [hzero, Table.total]
      simp
    exact ((hticked.back t).trans (by rw [hnone, Nat.add_zero])).le
  | serve h ex who name now request =>
    have hturn := turn (p := p) (b := b) (.serve h ex who name now request)
      fun _ _ heq => by cases heq
    cases hturn with
    | refused board hangar => rw [board]
    | still quiet contracts next given => exact given t
    | posted ok contracts next escrowed given => exact given t
    | withdrawn get issuer touched back others =>
      refine others t fun heq => hopen _ _ get (heq ▸ issuer) ?_
      rw [touched.get, if_pos rfl]
    | delivered get task other live pos fits touched given paid balances => exact (balances t).le
    | taken free get task holder touched balances => exact (balances t).le
    | dropped get holder touched balances => exact (balances t).le
    | counted get holder live task short touched balances hangar => exact (balances t).1.le
    | flown get holder live task full touched paid others hangar =>
      exact (others t fun heq => hbounties _ _ _ _ _ _ (by rw [heq])).1.le

/-- However its deliveries were split and interleaved, an open contract has paid out its share of
the reward for what was delivered, rounded down. When it closes, its poster is given back what it
hadn't paid, which is nothing if it was filled; it stays closed, and pays no more. A step that closes
none of a pilot's contracts gives them nothing back. -/
theorem contracts_pay_exactly (p : Platform) (acts : List BoardAct)
    (htyped : ∀ a ∈ acts, a.Typed) :
    (∀ id c item qty delivered, (run p acts).contracts.get? id = some c →
      c.task = .supply item qty delivered →
        givenTo p id item acts = delivered ∧ delivered ≤ qty ∧ paidOut p id acts = c.paid
          ∧ paidOut p id acts = c.reward * delivered / qty ∧ paidOut p id acts ≤ c.reward
          ∧ c.unpaid + paidOut p id acts = c.reward)
      ∧ (∀ id c act, (run p acts).contracts.get? id = some c → act.Typed →
        (run p (acts ++ [act])).contracts.get? id = none →
          Closing p (run p acts) id c act
            ∧ ∀ later : List BoardAct, (∀ a ∈ later, a.Typed) →
              (run p (acts ++ [act] ++ later)).contracts.get? id = none
                ∧ paidOut p id (acts ++ [act] ++ later) = paidOut p id (acts ++ [act]))
      ∧ ∀ act t, (∀ id c, (run p acts).contracts.get? id = some c → c.issuer = some t →
          (run p (acts ++ [act])).contracts.get? id ≠ none) →
        (∀ h ex name now bounty atDesk, act ≠ .serve h ex t name now (.bounties bounty atDesk)) →
          (run p (acts ++ [act])).balance t ≤ (run p acts).balance t := by
  have hfair := fair_run p acts htyped
  refine ⟨fun id c item qty delivered hopen htask => ?_,
    fun id c act hopen hact hgone => ⟨?_, fun later hlater => ?_⟩, fun act t hkept hbounties => ?_⟩
  · obtain ⟨hpaid, hgiven⟩ := (squared_run p acts htyped).paid id c item qty delivered hopen htask
    obtain ⟨hlt, hpay⟩ := (hfair.sound.contract id c hopen).supply item qty delivered htask
    have hle : c.paid ≤ c.reward := hpay.trans_le (payFor_le hlt.le)
    have hreward := (hfair.plain id c hopen).reward_le
    rw [hpaid]
    refine ⟨hgiven, hlt.le, rfl, ?_, hle, Nat.sub_add_cancel hle⟩
    have hshare : c.reward * delivered / qty ≤ c.reward := by
      refine Nat.div_le_of_le_mul ?_
      rw [Nat.mul_comm c.reward]
      exact Nat.mul_le_mul_right _ hlt.le
    rw [hpay, Contract.payFor, max_eq_left (Nat.one_le_of_lt hlt),
      min_eq_left (hshare.trans hreward)]
  · rw [run_concat] at hgone
    exact closing_step hfair act hopen hgone
  · have hall : ∀ a ∈ acts ++ [act] ++ later, a.Typed := by
      intro a ha
      rcases List.mem_append.mp ha with ha | ha
      · rcases List.mem_append.mp ha with ha | ha
        · exact htyped a ha
        · rw [List.mem_singleton.mp ha]
          exact hact
      · exact hlater a ha
    have hborn : id < (run p (acts ++ [act])).nextId := by
      rw [run_concat]
      exact (hfair.sound.fresh id c hopen).trans_le (nextId_step hfair act)
    obtain ⟨hnone, -, hpaid⟩ := gone_run later hall hborn hgone
    exact ⟨hnone, hpaid⟩
  · rw [run_concat] at hkept ⊢
    exact given_step hfair act t hkept hbounties

/-- Lyra asks for seven kilograms of steel for a hundred credits, and others bring her five. -/
def shipments : List BoardAct :=
  [.serve (World.hoard 100 0) Exchange.new "lyra" "LYRA" 0 (.post steel 7 100 1),
    .serve (World.hoard 0 9) Exchange.new "auriga" "AURIGA" 1 (.deliver 1 3),
    .serve (World.hoard 0 9) Exchange.new "cygnus" "CYGNUS" 2 (.deliver 1 2)]

def lastShipment : BoardAct :=
  .serve (World.hoard 0 9) Exchange.new "auriga" "AURIGA" 3 (.deliver 1 9)

theorem contracts_pay_exactly_shipments :
    (∀ c ∈ (run Platform.atRest shipments).contracts.get? 1,
      c.task = .supply steel 7 5 ∧ paidOut Platform.atRest 1 shipments = 100 * 5 / 7
        ∧ Closing Platform.atRest (run Platform.atRest shipments) 1 c lastShipment)
      ∧ (run Platform.atRest (shipments ++ [lastShipment] ++ [lastShipment])).contracts.get? 1
        = none := by
  have htyped : ∀ a ∈ shipments, a.Typed := by
    simp [shipments, BoardAct.Typed, u64Max]
  have hlast : ∀ a ∈ [lastShipment], a.Typed := by
    simp [lastShipment, BoardAct.Typed]
  obtain ⟨hopen, hclosing, -⟩ := contracts_pay_exactly Platform.atRest shipments htyped
  have hget : ∃ c ∈ (run Platform.atRest shipments).contracts.get? 1,
      c.task = .supply steel 7 5 ∧ c.reward = 100 := by decide +kernel
  have hgone : (run Platform.atRest (shipments ++ [lastShipment])).contracts.get? 1 = none := by
    decide +kernel
  obtain ⟨c, hc, htask, hreward⟩ := hget
  obtain ⟨hclosed, hstays⟩ := hclosing 1 c lastShipment hc (hlast _ (List.mem_singleton_self _)) hgone
  refine ⟨fun c' hc' => ?_, (hstays [lastShipment] hlast).1⟩
  obtain rfl := Option.mem_unique hc hc'
  obtain ⟨-, -, -, hpaid, -⟩ := hopen 1 c steel 7 5 hc htask
  rw [hreward] at hpaid
  exact ⟨htask, hpaid, hclosed⟩

end Board

end BeforeColony
