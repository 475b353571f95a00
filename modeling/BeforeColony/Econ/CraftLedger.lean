import BeforeColony.Econ.StoresShape
import BeforeColony.Econ.TimeLeft

/-!
# What crafting takes and gives

A job's inputs and fee are taken when it's queued, its batches' output delivered as they finish, and
what its unmade batches took given back when it's cancelled: over any run, credits and goods add up.
-/

set_option autoImplicit false

namespace BeforeColony

open Lib Catalogue

/-! ## The recipes -/

/-- A recipe's inputs are bulk goods, each named once and some of each. -/
structure Recipe.Sound (r : Recipe) : Prop where
  bulk : ∀ e ∈ r.inputs, ∀ line part, e.1 ≠ .part line part
  once : (r.inputs.map Prod.fst).Nodup
  pos : ∀ e ∈ r.inputs, 0 < e.2

namespace Catalogue

theorem sound_of_bulk {r : Recipe} (h : (∀ e ∈ r.inputs, e.1.bulk = true ∧ 0 < e.2) ∧
    (r.inputs.map Prod.fst).Nodup) : r.Sound where
  bulk := by
    intro e he line part heq
    have hbulk := (h.1 e he).1
    rw [heq] at hbulk
    cases hbulk
  once := h.2
  pos := fun e he => (h.1 e he).2

theorem tens_pos (kg : ℚ) : 0 < tens kg := by
  have hone : 1 ≤ max (round (kg / 10)) 1 := le_max_right _ _
  rw [tens]
  omega

theorem foldl_needs (needs : List (Item × ℚ)) (h : ∀ e ∈ needs, e.1.bulk = true)
    {t : Table Item ℕ} (ht : ∀ k n, t.get? k = some n → k.bulk = true ∧ 0 < n) (k : Item) (n : ℕ)
    (hn : (needs.foldl (fun need e => if 0 < e.2 then need.update e.1 0 (· + tens e.2) else need)
      t).get? k = some n) : k.bulk = true ∧ 0 < n := by
  induction needs generalizing t with
  | nil => exact ht k n hn
  | cons e rest ih =>
    refine ih (fun e he => h e (List.mem_cons_of_mem _ he)) ?_ hn
    intro k n hk
    dsimp only at hk
    split at hk
    · rw [Table.update, Table.get?_insert] at hk
      split at hk
      next heq =>
        rw [← Option.some.inj hk, heq]
        exact ⟨h e List.mem_cons_self, Nat.add_pos_right _ (tens_pos _)⟩
      next => exact ht k n hk
    · exact ht k n hk

theorem extras_bulk (line : FrameId) (part : Part) : ∀ e ∈ extras line part, e.1.bulk = true := by
  cases line <;> cases part <;> simp [extras, electronics, exotics, siderium, steel, Item.bulk]

theorem partRecipe_sound (line : FrameId) (part : Part) : (partRecipe line part).Sound := by
  refine sound_of_bulk ⟨?_, ?_⟩
  · intro e he
    simp only [partRecipe] at he
    refine foldl_needs _ ?_ (t := Table.empty) (fun k n hk => by cases hk) e.1 e.2
      (Table.mem_entries_iff.mp he)
    intro e he
    simp only [List.mem_append, List.mem_cons, List.not_mem_nil, or_false] at he
    rcases he with (((rfl | rfl | rfl) | hexotics) | hextra) | hwiring
    · dsimp only
      split <;> rfl
    · rfl
    · rfl
    · split at hexotics
      · rw [List.mem_singleton.mp hexotics]
        rfl
      · cases hexotics
    · exact extras_bulk line part e hextra
    · split at hwiring
      · rw [List.mem_singleton.mp hwiring]
        rfl
      · cases hwiring
  · exact Table.keys_nodup _

theorem recipe_sound {item : Item} {r : Recipe} (h : recipe item = some r) : r.Sound := by
  have hmem := List.mem_of_find?_eq_some h
  simp only [buildRecipes, List.mem_append] at hmem
  rcases hmem with (((hplain | hpart) | hweapon) | hmodule) | hkit
  · simp only [List.mem_cons, List.not_mem_nil, or_false] at hplain
    rcases hplain with rfl | rfl | rfl | rfl | rfl | rfl | rfl | rfl | rfl <;>
      exact sound_of_bulk (by decide)
  · obtain ⟨line, -, hr⟩ := List.mem_flatMap.mp hpart
    obtain ⟨part, -, rfl⟩ := List.mem_map.mp hr
    exact partRecipe_sound line part
  · obtain ⟨w, -, rfl⟩ := List.mem_map.mp hweapon
    cases w <;> exact sound_of_bulk (by decide)
  · obtain ⟨k, -, rfl⟩ := List.mem_map.mp hmodule
    cases k <;> exact sound_of_bulk (by decide)
  · obtain ⟨k, -, rfl⟩ := List.mem_map.mp hkit
    cases k <;> exact sound_of_bulk (by decide)

theorem output_of_recipe {item : Item} {r : Recipe} (h : recipe item = some r) : r.output = item := by
  simpa using List.find?_some h

theorem outputs_nodup : (buildRecipes.map Recipe.output).Nodup := by
  decide +kernel

end Catalogue

/-! ## What is taken for a job and given back -/

namespace Stores

variable {s s' : Stores} {item : Item} {qty times : ℕ}

theorem add_stock (hbulk : ∀ line part, item ≠ .part line part) (s : Stores) (qty : ℕ) :
    s.add item qty = if qty = 0 then s
      else { s with stock := s.stock.update item 0 (· + qty) } := by
  cases item with
  | part line part => exact absurd rfl (hbulk line part)
  | _ => rfl

theorem add_take_stock (hbulk : ∀ line part, item ≠ .part line part) (hpos : 0 < qty)
    (h : s.take item qty = some s') : s'.add item qty = s := by
  obtain ⟨hle, ⟨line, part, rfl, rfl⟩ | ⟨-, rfl, hget⟩⟩ := take_cases h
  · exact absurd rfl (hbulk line part)
  · rw [hget] at hle
    rw [add_stock hbulk, if_neg hpos.ne']
    dsimp only
    rw [update_takeStock hle hpos.ne']

theorem add_stock_comm {item' : Item} {qty' : ℕ} (hbulk : ∀ line part, item ≠ .part line part)
    (hbulk' : ∀ line part, item' ≠ .part line part) (s : Stores) :
    (s.add item qty).add item' qty' = (s.add item' qty').add item qty := by
  simp only [add_stock hbulk, add_stock hbulk']
  split
  · rfl
  · split
    · rfl
    · dsimp only
      rw [Table.update_comm fun n => Nat.add_right_comm n qty qty']

theorem addGoods_add {goods : List (Item × ℕ)} (hbulk : ∀ line part, item ≠ .part line part)
    (hgoods : ∀ e ∈ goods, ∀ line part, e.1 ≠ .part line part) (s : Stores) :
    (s.add item qty).addGoods goods = (s.addGoods goods).add item qty := by
  unfold addGoods
  induction goods generalizing s with
  | nil => rfl
  | cons e rest ih =>
    rw [List.foldl_cons, List.foldl_cons,
      add_stock_comm hbulk (hgoods e List.mem_cons_self),
      ih fun e he => hgoods e (List.mem_cons_of_mem _ he)]

theorem get_of_ne {item' : Item} (h : s.take item qty = some s') (hne : item' ≠ item) :
    s'.get item' = s.get item' := by
  have hget := get_take h item'
  rw [if_neg hne] at hget
  exact hget

theorem hasAll_iff {needs : List (Item × ℕ)} :
    s.hasAll needs times = true ↔ ∀ e ∈ needs, e.2 * times ≤ s.get e.1 := by
  simp [hasAll, has]

theorem takes_once {e : Item × ℕ} {needs : List (Item × ℕ)}
    (honce : ((e :: needs).map Prod.fst).Nodup)
    (h : ∀ e' ∈ e :: needs, e'.2 * times ≤ s.get e'.1) :
    ∃ s₁, s.take e.1 (e.2 * times) = some s₁ ∧ ∀ e' ∈ needs, e'.2 * times ≤ s₁.get e'.1 := by
  obtain ⟨s₁, hs₁⟩ := take_of_le (h e List.mem_cons_self)
  refine ⟨s₁, hs₁, fun e' he' => ?_⟩
  have hne : e'.1 ≠ e.1 := by
    intro heq
    have hmem := List.mem_map_of_mem (f := Prod.fst) he'
    rw [heq] at hmem
    exact (List.nodup_cons.mp honce).1 hmem
  rw [get_of_ne hs₁ hne]
  exact h e' (List.mem_cons_of_mem _ he')

theorem takeAll_some_iff {needs : List (Item × ℕ)} : s.takeAll needs times = some s' ↔
    (∀ e ∈ needs, e.2 * times ≤ s.get e.1) ∧
      needs.foldl (fun s e => (s.take e.1 (e.2 * times)).getD s) s = s' := by
  unfold takeAll
  split
  next hrefused =>
    rw [hasAll_iff] at hrefused
    constructor
    · intro h
      cases h
    · intro h
      exact absurd h.1 hrefused
  next hall =>
    rw [not_not, hasAll_iff] at hall
    constructor
    · intro h
      exact ⟨hall, Option.some.inj h⟩
    · intro h
      rw [h.2]

theorem get_takeAll {needs : List (Item × ℕ)} (honce : (needs.map Prod.fst).Nodup)
    (h : s.takeAll needs times = some s') (item : Item) :
    s'.get item + amountIn item needs * times = s.get item := by
  obtain ⟨hall, hfold⟩ := takeAll_some_iff.mp h
  clear h
  induction needs generalizing s with
  | nil =>
    obtain rfl : s = s' := hfold
    simp [amountIn]
  | cons e rest ih =>
    obtain ⟨s₁, hs₁, hrest⟩ := takes_once honce hall
    rw [List.foldl_cons, hs₁, Option.getD_some] at hfold
    have hgot := ih (List.nodup_cons.mp honce).2 hrest hfold
    have hfirst := get_take hs₁ item
    have hamount : amountIn item (e :: rest) = (if e.1 = item then e.2 else 0) + amountIn item rest := by
      simp [amountIn]
    rw [hamount, ← hfirst, ← hgot]
    by_cases heq : item = e.1
    · rw [if_pos heq, if_pos heq.symm]
      ring
    · rw [if_neg heq, if_neg (Ne.symm heq)]
      ring

theorem addGoods_takeAll {needs : List (Item × ℕ)}
    (hbulk : ∀ e ∈ needs, ∀ line part, e.1 ≠ .part line part)
    (honce : (needs.map Prod.fst).Nodup) (hsome : ∀ e ∈ needs, 0 < e.2) (htimes : 0 < times)
    (h : s.takeAll needs times = some s') :
    s'.addGoods (needs.map fun e => (e.1, e.2 * times)) = s := by
  obtain ⟨hall, hfold⟩ := takeAll_some_iff.mp h
  clear h
  induction needs generalizing s with
  | nil => exact hfold.symm
  | cons e rest ih =>
    obtain ⟨s₁, hs₁, hrest⟩ := takes_once honce hall
    rw [List.foldl_cons, hs₁, Option.getD_some] at hfold
    have hback := ih (fun e' he' => hbulk e' (List.mem_cons_of_mem _ he'))
      (List.nodup_cons.mp honce).2 (fun e' he' => hsome e' (List.mem_cons_of_mem _ he')) hrest hfold
    have hgoods (e' : Item × ℕ) (he' : e' ∈ rest.map fun e => (e.1, e.2 * times)) (line : FrameId)
        (part : Part) : e'.1 ≠ .part line part := by
      obtain ⟨e'', he'', rfl⟩ := List.mem_map.mp he'
      exact hbulk e'' (List.mem_cons_of_mem _ he'') line part
    have hone := hbulk e List.mem_cons_self
    have hfirst : s'.addGoods ((e :: rest).map fun e => (e.1, e.2 * times))
        = (s'.addGoods (rest.map fun e => (e.1, e.2 * times))).add e.1 (e.2 * times) := by
      rw [← addGoods_add hone hgoods]
      rfl
    rw [hfirst, hback]
    exact add_take_stock hone (Nat.mul_pos (hsome e List.mem_cons_self) htimes) hs₁

end Stores

/-! ## Crafting and cancelling at one time -/

namespace Queue

variable {q : Queue} {now : ℕ} {item : Item} {batches secs feePct : ℕ}

/-- There is nothing in the queue, or a batch under way. -/
def Waiting (q : Queue) (now : ℕ) : Prop :=
  q = [] ∨ ∃ job rest, q = job :: rest ∧ (recipe job.recipe).isSome ∧ job.done < job.batches ∧
    now < job.started + job.secs

theorem waiting_settleFrom (now : ℕ) (start : Option ℕ) (q : Queue) :
    Waiting (settleFrom now start q []).1 now := by
  induction q generalizing start with
  | nil => exact .inl rfl
  | cons job rest ih =>
    cases hr : recipe job.recipe with
    | none =>
      rw [settleFrom_none hr]
      exact ih none
    | some r =>
      obtain ⟨n, hn, heq, -, hnext⟩ :=
        Job.advance_eq now (job.batches - job.done) (head start job)
      rw [settleFrom_some hr]
      dsimp only
      rw [(runBatches_eq r now _ (head start job) []).1, heq]
      split
      next hlt =>
        have hdone : job.done + n < job.batches := hlt
        have hlate : now < (head start job).started + (n + 1) * job.secs := hnext (by omega)
        refine .inr ⟨_, rest, rfl, Option.isSome_iff_exists.mpr ⟨r, hr⟩, hdone, ?_⟩
        calc now < (head start job).started + (n + 1) * job.secs := hlate
          _ = (head start job).started + n * job.secs + job.secs := by ring
      next =>
        rw [(settleFrom_out now _ rest _).1]
        exact ih _

theorem Waiting.settle (h : q.Waiting now) : q.settle now = (q, []) := by
  rcases h with rfl | ⟨job, rest, rfl, hmade, hlt, hlate⟩
  · rfl
  · obtain ⟨r, hr⟩ := Option.isSome_iff_exists.mp hmade
    have hrun : runBatches r now (job.batches - job.done) (head none job) [] = (job, []) := by
      obtain ⟨left, hleft⟩ :=
        Nat.exists_eq_succ_of_ne_zero (n := job.batches - job.done) (by omega)
      have hhead : head none job = job := rfl
      rw [hleft, hhead, runBatches, if_neg (not_le.mpr hlate)]
    rw [Queue.settle, settleFrom_some hr, hrun]
    dsimp only
    rw [if_pos hlt]

theorem Waiting.push (h : q.Waiting now) (hmade : (recipe item).isSome) (hbatches : 0 < batches)
    (secs feePct : ℕ) : (q.push item batches secs now feePct).Waiting now := by
  rcases h with rfl | ⟨job, rest, rfl, hjob, hlt, hlate⟩
  · refine .inr ⟨_, [], rfl, hmade, hbatches, ?_⟩
    have hsecs : 1 ≤ max secs 1 := le_max_right _ _
    exact Nat.lt_add_of_pos_right hsecs
  · exact .inr ⟨job, _, rfl, hjob, hlt, hlate⟩

/-- A job cancelled as it was queued gives back what it takes, and leaves the queue as it was. -/
theorem cancel_push {r : Recipe} (hr : recipe item = some r) :
    (q.push item batches secs now feePct).cancel q.length now
      = (q, some (r.inputs.map fun e => (e.1, e.2 * batches), r.fee * batches * feePct / 100)) := by
  have hget : (q.push item batches secs now feePct)[q.length]? = some
      { recipe := item, batches, done := 0, secs := max secs 1
        started := if q.isEmpty then now else 0, feePct } := by
    simp [Queue.push]
  have hrest : (q.push item batches secs now feePct).eraseIdx q.length = q := by
    simp [Queue.push, List.eraseIdx_append_of_length_le]
  unfold Queue.cancel
  rw [hget]
  dsimp only
  rw [hr, hrest]
  cases q with
  | nil => rfl
  | cons job rest => rfl

end Queue

namespace PilotHangar

variable {h : PilotHangar} {now : ℕ}

theorem queue_setQueue (w : Works) (station : Station) (q : Queue) :
    (w.setQueue station q).queue station = q := by
  cases station <;> rfl

theorem setQueue_setQueue (w : Works) (station : Station) (q q' : Queue) :
    (w.setQueue station q).setQueue station q' = w.setQueue station q' := by
  cases station <;> rfl

theorem setQueue_queue (w : Works) (station : Station) :
    w.setQueue station (w.queue station) = w := by
  cases station <;> rfl

def Idle (w : Works) (now : ℕ) : Prop := ∀ station, (w.queue station).Waiting now

theorem idle_settle (w : Works) (now : ℕ) : Idle (w.settle now).1 now := by
  intro station
  cases station
  · exact Queue.waiting_settleFrom now none w.fabricator
  · exact Queue.waiting_settleFrom now none w.foundry

theorem Idle.settle {w : Works} (hw : Idle w now) : w.settle now = (w, []) := by
  have hfabricator := (hw .fabricator).settle
  have hfoundry := (hw .foundry).settle
  simp only [Works.queue] at hfabricator hfoundry
  simp [Works.settle, hfabricator, hfoundry]

theorem Idle.setQueue {w : Works} (hw : Idle w now) {station : Station} {q : Queue}
    (hq : q.Waiting now) : Idle (w.setQueue station q) now := by
  intro station'
  cases station <;> cases station'
  · exact hq
  · exact hw .foundry
  · exact hw .fabricator
  · exact hq

theorem settle_idle (hidle : Idle h.works now) : h.settle now = h := by
  rw [PilotHangar.settle, hidle.settle]
  rfl

/-- A request to craft is refused at once, or once the queues are settled, or a job is queued: paid for,
and waiting behind the settled ones. -/
theorem craft_cases (h : PilotHangar) (item : Item) (batches now : ℕ) (rules : Rules) :
    (((recipe item).isNone ∨ batches = 0 ∨ maxBatches < batches) ∧
      ∃ why, h.craft item batches now rules = (h, .error why)) ∨
    (¬ ((recipe item).isNone ∨ batches = 0 ∨ maxBatches < batches) ∧
      ∃ why, h.craft item batches now rules = (h.settle now, .error why)) ∨
    ¬ ((recipe item).isNone ∨ batches = 0 ∨ maxBatches < batches) ∧ ∃ r stores secs msg,
      recipe item = some r ∧
      r.fee * batches * rules.foundryFeePct / 100 ≤ (h.settle now).credits ∧
      (h.settle now).stores.takeAll r.inputs batches = some stores ∧
      h.craft item batches now rules = ({ h.settle now with
        credits := (h.settle now).credits - r.fee * batches * rules.foundryFeePct / 100
        stores := stores
        works := (h.settle now).works.setQueue r.station
          (((h.settle now).works.queue r.station).push item batches secs now rules.foundryFeePct) },
        .ok msg) := by
  unfold craft
  cases hr : recipe item with
  | none => exact .inl ⟨.inl rfl, _, rfl⟩
  | some r =>
    dsimp only
    split
    next hbatches => exact .inl ⟨.inr hbatches, _, rfl⟩
    next hbatches =>
      have hmade : ¬ ((some r).isNone = true ∨ batches = 0 ∨ maxBatches < batches) := by
        simpa using hbatches
      split
      · exact .inr (.inl ⟨hmade, _, rfl⟩)
      · split
        · exact .inr (.inl ⟨hmade, _, rfl⟩)
        next hfee =>
          split
          · exact .inr (.inl ⟨hmade, _, rfl⟩)
          next stores htaken =>
            exact .inr (.inr ⟨hmade, r, stores, _, _, rfl, not_lt.mp hfee, htaken, rfl⟩)

/-- A job cancelled at the time it was queued leaves the hangar as settling at that time does. -/
theorem cancel_craft {item : Item} {batches : ℕ} {rules : Rules} {msg : String}
    (hok : (h.craft item batches now rules).2 = .ok msg) : ∃ r, recipe item = some r ∧
      (h.craft item batches now rules).1.cancelJob r.station
        ((h.settle now).works.queue r.station).length now = (h.settle now, .ok "JOB CANCELLED") := by
  obtain ⟨-, why, hcraft⟩ | ⟨-, why, hcraft⟩ | ⟨hmade, r, stores, secs, done, hr, hfee, htaken, hcraft⟩ :=
    h.craft_cases item batches now rules
  · rw [hcraft] at hok
    cases hok
  · rw [hcraft] at hok
    cases hok
  have hbatches : 0 < batches := by
    rw [not_or, not_or] at hmade
    omega
  refine ⟨r, hr, ?_⟩
  have hsound := recipe_sound hr
  have hidle : Idle (h.settle now).works now := idle_settle h.works now
  have hpushed := @Idle.setQueue _ _ hidle r.station _
    ((hidle r.station).push (Option.isSome_iff_exists.mpr ⟨r, hr⟩) hbatches secs rules.foundryFeePct)
  rw [hcraft, cancelJob, settle_idle hpushed]
  dsimp only
  rw [queue_setQueue, Queue.cancel_push hr]
  dsimp only
  rw [setQueue_setQueue, setQueue_queue,
    Stores.addGoods_takeAll hsound.bulk hsound.once hsound.pos hbatches htaken,
    Nat.sub_add_cancel hfee]

end PilotHangar

/-! ## The ledger of a run -/

/-- The batches a job has still to make, of a recipe there is. -/
def Job.left (job : Job) : ℕ :=
  if (Catalogue.recipe job.recipe).isSome then job.batches - job.done else 0

/-- What cancelling a job gives back of its fee. -/
def Job.refundable (job : Job) : ℕ :=
  match Catalogue.recipe job.recipe with
  | none => 0
  | some r => r.fee * (job.batches - job.done) * job.feePct / 100

theorem Job.refundable_some (job : Job) {r : Recipe} (hr : Catalogue.recipe job.recipe = some r) :
    job.refundable = r.fee * (job.batches - job.done) * job.feePct / 100 := by
  rw [Job.refundable, hr]

theorem Job.left_some (job : Job) {r : Recipe} (hr : Catalogue.recipe job.recipe = some r) :
    job.left = job.batches - job.done := by
  rw [Job.left, hr]
  rfl

namespace Queue

/-- The batches of an item's recipe still to be made. -/
def left (q : Queue) (item : Item) : ℕ :=
  (q.map fun job => if job.recipe = item then job.left else 0).sum

def refundable (q : Queue) : ℕ := (q.map Job.refundable).sum

end Queue

def makes (item : Item) : ℕ := ((recipe item).map Recipe.makes).getD 0

/-- How much of an item so many batches of each recipe take. -/
def usedBy (n : Item → ℕ) (item : Item) : ℕ :=
  (buildRecipes.map fun r => n r.output * amountIn item r.inputs).sum

theorem usedBy_add (n n' : Item → ℕ) (item : Item) :
    usedBy (fun k => n k + n' k) item = usedBy n item + usedBy n' item := by
  unfold usedBy
  rw [← List.sum_map_add]
  simp only [Nat.add_mul]

theorem usedBy_single {item : Item} {r : Recipe} (hr : recipe item = some r) (b : ℕ) (item' : Item) :
    usedBy (fun k => if k = item then b else 0) item' = b * amountIn item' r.inputs := by
  have hmem := List.mem_of_find?_eq_some hr
  have hout := output_of_recipe hr
  have hnodup := outputs_nodup
  unfold usedBy
  subst hout
  generalize buildRecipes = l at hmem hnodup
  induction l with
  | nil => cases hmem
  | cons r' rest ih =>
    rw [List.map_cons, List.nodup_cons] at hnodup
    rw [List.map_cons, List.sum_cons]
    dsimp only at ih ⊢
    rcases List.mem_cons.mp hmem with rfl | hrest
    · have hzero : (rest.map fun r' => (if r'.output = r.output then b else 0)
          * amountIn item' r'.inputs).sum = 0 := by
        refine List.sum_eq_zero fun x hx => ?_
        obtain ⟨r', hr', rfl⟩ := List.mem_map.mp hx
        have hne : r'.output ≠ r.output :=
          fun heq => hnodup.1 (heq ▸ List.mem_map_of_mem hr')
        rw [if_neg hne, Nat.zero_mul]
      rw [if_pos rfl, hzero, Nat.add_zero]
    · have hne : r'.output ≠ r.output :=
        fun heq => hnodup.1 (heq ▸ List.mem_map_of_mem hrest)
      rw [if_neg hne, Nat.zero_mul, Nat.zero_add]
      exact ih hrest hnodup.2

namespace Queue

theorem left_cons (job : Job) (q : Queue) (item : Item) :
    left (job :: q) item = (if job.recipe = item then job.left else 0) + left q item := by
  rw [left, List.map_cons, List.sum_cons]
  rfl

/-- The job at the head runs so many of the batches it has left, and stays or lets the next one
start. -/
theorem settleFrom_ran {job : Job} {r : Recipe} (hr : recipe job.recipe = some r) (now : ℕ)
    (start : Option ℕ) (rest : Queue) : ∃ n ≤ job.batches - job.done,
      ((settleFrom now start (job :: rest) []).1 = (head start job).after n :: rest ∧
        ∀ item, amountIn item (settleFrom now start (job :: rest) []).2
          = if job.recipe = item then r.makes * n else 0) ∨
      n = job.batches - job.done ∧ ∃ started,
        (settleFrom now start (job :: rest) []).1 = (settleFrom now (some started) rest []).1 ∧
        ∀ item, amountIn item (settleFrom now start (job :: rest) []).2
          = (if job.recipe = item then r.makes * n else 0)
            + amountIn item (settleFrom now (some started) rest []).2 := by
  obtain ⟨n, hn, heq, -, -⟩ := Job.advance_eq now (job.batches - job.done) (head start job)
  obtain ⟨hjob, hout⟩ := runBatches_eq r now (job.batches - job.done) (head start job) []
  have hdone : ((head start job).after n).done = job.done + n := rfl
  have hstarted : (head start job).done = job.done := rfl
  have hempty (item : Item) : amountIn item [] = 0 := rfl
  rw [heq, hdone, hstarted, Nat.add_sub_cancel_left, output_of_recipe hr] at hout
  rw [settleFrom_some hr]
  dsimp only
  rw [hjob, heq, hdone]
  refine ⟨n, hn, ?_⟩
  split
  · refine .inl ⟨rfl, fun item => ?_⟩
    rw [hout, hempty, Nat.zero_add]
  · obtain ⟨hq, hmade⟩ := settleFrom_out now (some ((head start job).after n).started) rest
      (runBatches r now (job.batches - job.done) (head start job) []).2
    refine .inr ⟨by omega, _, hq, fun item => ?_⟩
    rw [hmade, hout, hempty, Nat.zero_add]

theorem settleFrom_made (now : ℕ) (start : Option ℕ) (q : Queue) (item : Item) :
    ∃ n, left q item = left (settleFrom now start q []).1 item + n ∧
      amountIn item (settleFrom now start q []).2 = makes item * n := by
  induction q generalizing start with
  | nil => exact ⟨0, rfl, rfl⟩
  | cons job rest ih =>
    cases hr : recipe job.recipe with
    | none =>
      obtain ⟨n, hleft, hmade⟩ := ih none
      have hjob : job.left = 0 := by
        rw [Job.left, hr]
        rfl
      refine ⟨n, ?_, ?_⟩
      · rw [settleFrom_none hr, left_cons, hjob, ite_self, Nat.zero_add, hleft]
      · rw [settleFrom_none hr, hmade]
    | some r =>
      have hjob := Job.left_some job hr
      have hmakes (n : ℕ) : (if job.recipe = item then r.makes * n else 0)
          = makes item * if job.recipe = item then n else 0 := by
        split
        next hitem =>
          rw [makes, ← hitem, hr]
          rfl
        next => rfl
      obtain ⟨n, hn, ⟨hq, hmade⟩ | ⟨hall, started, hq, hmade⟩⟩ := settleFrom_ran hr now start rest
      · have hafter : ((head start job).after n).left = job.batches - job.done - n := by
          rw [Job.left_some ((head start job).after n) hr, Nat.sub_sub]
          rfl
        have hrecipe : ((head start job).after n).recipe = job.recipe := rfl
        refine ⟨if job.recipe = item then n else 0, ?_, ?_⟩
        · rw [hq, left_cons, left_cons, hjob, hafter, hrecipe]
          split <;> omega
        · rw [hmade, hmakes]
      · obtain ⟨m, hleft, hrest⟩ := ih (some started)
        refine ⟨(if job.recipe = item then n else 0) + m, ?_, ?_⟩
        · rw [hq, left_cons, hjob, hleft, hall]
          omega
        · rw [hmade, hmakes, hrest, Nat.mul_add]

theorem refundable_settleFrom_le (now : ℕ) (start : Option ℕ) (q : Queue) :
    refundable (settleFrom now start q []).1 ≤ refundable q := by
  induction q generalizing start with
  | nil => exact le_rfl
  | cons job rest ih =>
    have hcons (job : Job) (q : Queue) : refundable (job :: q) = job.refundable + refundable q := by
      rw [refundable, List.map_cons, List.sum_cons]
      rfl
    cases hr : recipe job.recipe with
    | none =>
      rw [settleFrom_none hr, hcons]
      exact (ih none).trans (Nat.le_add_left _ _)
    | some r =>
      obtain ⟨n, hn, ⟨hq, -⟩ | ⟨-, started, hq, -⟩⟩ := settleFrom_ran hr now start rest
      · have hfee : ((head start job).after n).refundable ≤ job.refundable := by
          have hbatches : ((head start job).after n).batches - ((head start job).after n).done
              = job.batches - (job.done + n) := rfl
          rw [Job.refundable_some ((head start job).after n) hr, Job.refundable_some job hr,
            hbatches]
          refine Nat.div_le_div_right (Nat.mul_le_mul_right _ (Nat.mul_le_mul_left _ ?_))
          omega
        rw [hq, hcons, hcons]
        exact Nat.add_le_add_right hfee _
      · rw [hq, hcons]
        exact (ih _).trans (Nat.le_add_left _ _)

theorem push_eq (q : Queue) (item : Item) (batches secs now feePct : ℕ) : ∃ job : Job,
    q.push item batches secs now feePct = q ++ [job] ∧ job.recipe = item ∧ job.batches = batches ∧
      job.done = 0 ∧ job.feePct = feePct :=
  ⟨_, rfl, rfl, rfl, rfl, rfl⟩

/-- A job queued adds its batches, and its fee to what can come back. -/
theorem left_push (q : Queue) {item : Item} {r : Recipe} (hr : recipe item = some r)
    (batches secs now feePct : ℕ) (item' : Item) :
    left (q.push item batches secs now feePct) item'
      = left q item' + if item' = item then batches else 0 := by
  obtain ⟨job, hpush, hitem, hbatches, hdone, -⟩ := q.push_eq item batches secs now feePct
  rw [hpush, left, List.map_append, List.sum_append, List.map_singleton, List.sum_singleton,
    Job.left_some job (hitem ▸ hr), hbatches, hdone, hitem, Nat.sub_zero]
  simp only [@eq_comm Item item item']
  rfl

theorem refundable_push (q : Queue) {item : Item} {r : Recipe} (hr : recipe item = some r)
    (batches secs now feePct : ℕ) : refundable (q.push item batches secs now feePct)
      = refundable q + r.fee * batches * feePct / 100 := by
  obtain ⟨job, hpush, hitem, hbatches, hdone, hpct⟩ := q.push_eq item batches secs now feePct
  rw [hpush, refundable, List.map_append, List.sum_append, List.map_singleton, List.sum_singleton,
    Job.refundable_some job (hitem ▸ hr), hbatches, hdone, hpct, Nat.sub_zero]
  rfl

theorem cancel_get {q : Queue} {index : ℕ} {job : Job} (hjob : q[index]? = some job) (now : ℕ) :
    refundable (q.cancel index now).1 + job.refundable = refundable q ∧
      ∀ item, left (q.cancel index now).1 item + (if job.recipe = item then job.left else 0)
        = left q item := by
  have hsum (f : Job → ℕ) (hf : ∀ (job : Job) (started : ℕ), f { job with started } = f job) :
      ((q.cancel index now).1.map f).sum + f job = (q.map f).sum := by
    have hstart (next : Job) (more : Queue) :
        (({ next with started := now } :: more).map f).sum = ((next :: more).map f).sum := by
      rw [List.map_cons, List.map_cons, List.sum_cons, List.sum_cons, hf]
    have herase : ((q.eraseIdx index).map f).sum + f job = (q.map f).sum := by
      obtain ⟨hlt, hget⟩ := List.getElem?_eq_some_iff.mp hjob
      have hperm := List.getElem_cons_eraseIdx_perm hlt
      rw [hget] at hperm
      have hmap := (hperm.map f).sum_eq
      rw [List.map_cons, List.sum_cons] at hmap
      omega
    unfold Queue.cancel
    rw [hjob]
    dsimp only
    split
    · dsimp only
      split
      next heq => rw [hstart, ← heq, herase]
      next => exact herase
    · dsimp only
      split
      next heq => rw [hstart, ← heq, herase]
      next => exact herase
  exact ⟨hsum Job.refundable fun job started => rfl,
    fun item => hsum (fun job => if job.recipe = item then job.left else 0) fun job started => rfl⟩

theorem cancel_snd (q : Queue) (index now : ℕ) : (q.cancel index now).2
    = q[index]?.bind fun job => (recipe job.recipe).map fun r =>
      (r.inputs.map fun e => (e.1, e.2 * (job.batches - job.done)),
        r.fee * (job.batches - job.done) * job.feePct / 100) := by
  unfold Queue.cancel
  cases q[index]? with
  | none => rfl
  | some job =>
    rw [Option.bind_some]
    dsimp only
    cases recipe job.recipe with
    | none => rfl
    | some r => rfl

end Queue

namespace Works

def left (w : Works) (item : Item) : ℕ := w.fabricator.left item + w.foundry.left item

def refundable (w : Works) : ℕ := w.fabricator.refundable + w.foundry.refundable

theorem left_setQueue (w : Works) (station : Station) (q : Queue) (item : Item) :
    (w.setQueue station q).left item + (w.queue station).left item = w.left item + q.left item := by
  cases station <;> simp only [left, setQueue, queue] <;> omega

theorem refundable_setQueue (w : Works) (station : Station) (q : Queue) :
    (w.setQueue station q).refundable + (w.queue station).refundable
      = w.refundable + q.refundable := by
  cases station <;> simp only [refundable, setQueue, queue] <;> omega

end Works

/-- What a pilot asks of their stations, and when. -/
inductive CraftOp where
  | craft (item : Item) (batches now : ℕ) (rules : Rules)
  | settle (now : ℕ)
  | cancelJob (station : Station) (index now : ℕ)

namespace PilotHangar

def craftStep (h : PilotHangar) : CraftOp → PilotHangar
  | .craft item batches now rules => (h.craft item batches now rules).1
  | .settle now => h.settle now
  | .cancelJob station index now => (h.cancelJob station index now).1

/-- The hangar once what was due is delivered, before what was asked is done. -/
def due (h : PilotHangar) : CraftOp → PilotHangar
  | .craft item batches now _ =>
    if (recipe item).isNone ∨ batches = 0 ∨ maxBatches < batches then h else h.settle now
  | .settle now => h.settle now
  | .cancelJob _ _ now => h.settle now

def charged (h : PilotHangar) (op : CraftOp) : ℕ := (h.due op).credits - (h.craftStep op).credits

def refunded (h : PilotHangar) (op : CraftOp) : ℕ := (h.craftStep op).credits - (h.due op).credits

def delivered (item : Item) (h : PilotHangar) (op : CraftOp) : ℕ :=
  h.works.left item - (h.due op).works.left item

/-- How much of an item came into the stores as a delivery. -/
def made (item : Item) (h : PilotHangar) (op : CraftOp) : ℕ :=
  (h.due op).stores.get item - h.stores.get item

/-- How much of an item was taken from the stores. -/
def took (item : Item) (h : PilotHangar) (op : CraftOp) : ℕ :=
  (h.due op).stores.get item - (h.craftStep op).stores.get item

/-- How much of an item was given back to the stores. -/
def gave (item : Item) (h : PilotHangar) (op : CraftOp) : ℕ :=
  (h.craftStep op).stores.get item - (h.due op).stores.get item

variable {now : ℕ}

theorem amountIn_mul (item : Item) (goods : List (Item × ℕ)) (n : ℕ) :
    amountIn item (goods.map fun e => (e.1, e.2 * n)) = n * amountIn item goods := by
  unfold amountIn
  induction goods with
  | nil => rfl
  | cons e rest ih =>
    rw [List.map_cons, List.map_cons, List.map_cons, List.sum_cons, List.sum_cons, ih, Nat.mul_add]
    split
    · rw [Nat.mul_comm]
    · rfl

theorem get_addGoods (s : Stores) (goods : List (Item × ℕ)) (item : Item) :
    (s.addGoods goods).get item = s.get item + amountIn item goods := by
  unfold Stores.addGoods
  induction goods generalizing s with
  | nil => rfl
  | cons e rest ih =>
    have hamount : amountIn item (e :: rest) = (if e.1 = item then e.2 else 0) + amountIn item rest := by
      simp [amountIn]
    rw [List.foldl_cons, ih, Stores.get_add, hamount, Nat.add_assoc]
    simp only [@eq_comm Item item e.1]

/-- What is due is delivered: batches off the queues, and what they make in the stores. -/
theorem settle_delivers (h : PilotHangar) (now : ℕ) :
    (h.settle now).credits = h.credits ∧ (h.settle now).works.refundable ≤ h.works.refundable ∧
      ∀ item, ∃ n, h.works.left item = (h.settle now).works.left item + n ∧
        (h.settle now).stores.get item = h.stores.get item + makes item * n := by
  refine ⟨rfl, Nat.add_le_add (Queue.refundable_settleFrom_le now none h.works.fabricator)
    (Queue.refundable_settleFrom_le now none h.works.foundry), fun item => ?_⟩
  obtain ⟨n, hleft, hmade⟩ := Queue.settleFrom_made now none h.works.fabricator item
  obtain ⟨m, hleft', hmade'⟩ := Queue.settleFrom_made now none h.works.foundry item
  refine ⟨n + m, ?_, ?_⟩
  · have hsplit : (h.settle now).works.left item
        = (Queue.settleFrom now none h.works.fabricator []).1.left item
          + (Queue.settleFrom now none h.works.foundry []).1.left item := rfl
    rw [Works.left, hleft, hleft', hsplit]
    omega
  · have hstores : (h.settle now).stores = h.stores.addGoods
        ((Queue.settleFrom now none h.works.fabricator []).2
          ++ (Queue.settleFrom now none h.works.foundry []).2) := rfl
    rw [hstores, get_addGoods, amountIn_append, hmade, hmade', Nat.mul_add]

theorem due_delivers (h : PilotHangar) (op : CraftOp) :
    (h.due op).credits = h.credits ∧ (h.due op).works.refundable ≤ h.works.refundable ∧
      ∀ item, ∃ n, h.works.left item = (h.due op).works.left item + n ∧
        (h.due op).stores.get item = h.stores.get item + makes item * n := by
  cases op with
  | craft item batches now rules =>
    rw [due]
    split
    · exact ⟨rfl, le_rfl, fun item => ⟨0, rfl, rfl⟩⟩
    · exact h.settle_delivers now
  | settle now => exact h.settle_delivers now
  | cancelJob station index now => exact h.settle_delivers now

/-- A job's inputs and fee are taken, or given back. -/
inductive Trades (d : PilotHangar) (h' : PilotHangar) : Prop where
  | queued (fee : ℕ) (n : Item → ℕ) (credits : h'.credits + fee = d.credits)
      (fees : h'.works.refundable ≤ d.works.refundable + fee)
      (stores : ∀ item, h'.stores.get item + usedBy n item = d.stores.get item)
      (left : ∀ item, h'.works.left item = d.works.left item + n item)
  | cancelled (back : ℕ) (n : Item → ℕ) (credits : h'.credits = d.credits + back)
      (fees : h'.works.refundable + back ≤ d.works.refundable)
      (stores : ∀ item, h'.stores.get item = d.stores.get item + usedBy n item)
      (left : ∀ item, h'.works.left item + n item = d.works.left item)

theorem usedBy_zero (item : Item) : usedBy (fun _ => 0) item = 0 := by
  unfold usedBy
  simp

theorem Trades.same (h : PilotHangar) : Trades h h :=
  .queued 0 (fun _ => 0) rfl le_rfl (fun item => by rw [usedBy_zero, Nat.add_zero]) fun item => rfl

theorem trades_cancelJob (h : PilotHangar) (station : Station) (index now : ℕ) :
    Trades (h.settle now) (h.cancelJob station index now).1 := by
  have hsnd := Queue.cancel_snd ((h.settle now).works.queue station) index now
  cases hjob : ((h.settle now).works.queue station)[index]? with
  | none =>
    have hcancel : ((h.settle now).works.queue station).cancel index now
        = ((h.settle now).works.queue station, none) := by
      unfold Queue.cancel
      rw [hjob]
    rw [cancelJob]
    dsimp only
    rw [hcancel]
    dsimp only
    rw [setQueue_queue]
    exact .same _
  | some job =>
    obtain ⟨hfees, hleft⟩ := Queue.cancel_get hjob now
    have hset := Works.refundable_setQueue (h.settle now).works station
      (((h.settle now).works.queue station).cancel index now).1
    have hsetLeft (item : Item) := Works.left_setQueue (h.settle now).works station
      (((h.settle now).works.queue station).cancel index now).1 item
    rw [hjob, Option.bind_some] at hsnd
    cases hr : recipe job.recipe with
    | none =>
      have hnone : job.refundable = 0 ∧ job.left = 0 := by
        constructor
        · rw [Job.refundable, hr]
        · rw [Job.left, hr]
          rfl
      rw [hr, Option.map_none] at hsnd
      rw [cancelJob]
      dsimp only
      rw [hsnd]
      dsimp only
      refine .queued 0 (fun _ => 0) rfl ?_ (fun item => ?_) fun item => ?_
      · dsimp only
        omega
      · rw [usedBy_zero, Nat.add_zero]
      · have hitem := hleft item
        have hitem' := hsetLeft item
        rw [hnone.2, ite_self] at hitem
        dsimp only
        omega
    | some r =>
      rw [hr, Option.map_some, ← Job.left_some job hr] at hsnd
      have hback := Job.refundable_some job hr
      rw [← Job.left_some job hr] at hback
      rw [cancelJob]
      dsimp only
      rw [hsnd]
      dsimp only
      refine .cancelled job.refundable (fun k => if k = job.recipe then job.left else 0) ?_ ?_ ?_ ?_
      · rw [hback]
      · dsimp only
        omega
      · intro item
        dsimp only
        rw [get_addGoods, usedBy_single hr, amountIn_mul]
      · intro item
        have hitem := hleft item
        have hitem' := hsetLeft item
        simp only [@eq_comm Item job.recipe item] at hitem
        dsimp only
        omega

theorem trades (h : PilotHangar) (op : CraftOp) : Trades (h.due op) (h.craftStep op) := by
  cases op with
  | craft item batches now rules =>
    rw [due, craftStep]
    obtain ⟨hbad, why, hcraft⟩ | ⟨hgood, why, hcraft⟩ |
      ⟨hgood, r, stores, secs, msg, hr, hfee, htaken, hcraft⟩ := h.craft_cases item batches now rules
    · rw [hcraft, if_pos hbad]
      exact .same h
    · rw [hcraft, if_neg hgood]
      exact .same _
    · rw [hcraft, if_neg hgood]
      refine .queued (r.fee * batches * rules.foundryFeePct / 100)
        (fun k => if k = item then batches else 0) (Nat.sub_add_cancel hfee) ?_ ?_ ?_
      · have hset := Works.refundable_setQueue (h.settle now).works r.station
          (((h.settle now).works.queue r.station).push item batches secs now rules.foundryFeePct)
        rw [Queue.refundable_push _ hr] at hset
        dsimp only
        omega
      · intro item'
        dsimp only
        rw [usedBy_single hr, ← Stores.get_takeAll (recipe_sound hr).once htaken item', Nat.mul_comm]
      · intro item'
        have hset := Works.left_setQueue (h.settle now).works r.station
          (((h.settle now).works.queue r.station).push item batches secs now rules.foundryFeePct) item'
        rw [Queue.left_push _ hr] at hset
        dsimp only
        omega
  | settle now => exact .same _
  | cancelJob station index now => exact h.trades_cancelJob station index now

theorem credits_step (h : PilotHangar) (op : CraftOp) :
    (h.craftStep op).credits + h.charged op = h.credits + h.refunded op := by
  obtain ⟨hcredits, -, -⟩ := h.due_delivers op
  simp only [charged, refunded]
  omega

theorem fees_step (h : PilotHangar) (op : CraftOp) :
    (h.craftStep op).works.refundable + h.refunded op ≤ h.works.refundable + h.charged op := by
  obtain ⟨-, hfees, -⟩ := h.due_delivers op
  simp only [charged, refunded]
  cases h.trades op with
  | queued fee n hcredits hpaid hstores hleft => omega
  | cancelled back n hcredits hpaid hstores hleft => omega

theorem stores_step (item : Item) (h : PilotHangar) (op : CraftOp) :
    (h.craftStep op).stores.get item + took item h op
      = h.stores.get item + (gave item h op + made item h op) := by
  obtain ⟨-, -, hdue⟩ := h.due_delivers op
  obtain ⟨n, -, hmade⟩ := hdue item
  simp only [took, gave, made]
  omega

theorem made_step (item : Item) (h : PilotHangar) (op : CraftOp) :
    made item h op = makes item * delivered item h op := by
  obtain ⟨-, -, hdue⟩ := h.due_delivers op
  obtain ⟨n, hleft, hmade⟩ := hdue item
  simp only [made, delivered]
  rw [hleft, hmade, Nat.add_sub_cancel_left, Nat.add_sub_cancel_left]

theorem used_step (item : Item) (h : PilotHangar) (op : CraftOp) :
    usedBy (h.craftStep op).works.left item
        + (gave item h op + usedBy (fun k => delivered k h op) item)
      = usedBy h.works.left item + took item h op := by
  have hdue : usedBy h.works.left item
      = usedBy (h.due op).works.left item + usedBy (fun k => delivered k h op) item := by
    rw [← usedBy_add]
    refine congrArg (usedBy · item) (funext fun k => ?_)
    obtain ⟨-, -, hall⟩ := h.due_delivers op
    obtain ⟨n, hleft, -⟩ := hall k
    simp only [delivered]
    omega
  simp only [took, gave]
  cases h.trades op with
  | queued fee n hcredits hpaid hstores hleft =>
    have hused : usedBy (h.craftStep op).works.left item
        = usedBy (h.due op).works.left item + usedBy n item := by
      rw [← usedBy_add]
      exact congrArg (usedBy · item) (funext hleft)
    have hitem := hstores item
    omega
  | cancelled back n hcredits hpaid hstores hleft =>
    have hused : usedBy (h.craftStep op).works.left item + usedBy n item
        = usedBy (h.due op).works.left item := by
      rw [← usedBy_add]
      exact congrArg (usedBy · item) (funext hleft)
    have hitem := hstores item
    omega

theorem total_usedBy (item : Item) (h : PilotHangar) (ops : List CraftOp) :
    Run.total craftStep (fun h op => usedBy (fun k => delivered k h op) item) h ops
      = usedBy (fun k => Run.total craftStep (delivered k) h ops) item := by
  induction ops generalizing h with
  | nil =>
    simp only [Run.total]
    exact (usedBy_zero item).symm
  | cons op rest ih =>
    simp only [Run.total]
    rw [ih, ← usedBy_add]

/-- Cancelling undoes crafting: a job cancelled at the time it was queued leaves the hangar just as
settling at that time does. And over any run, whatever the foundry's fee was when, no more credits come
back than were charged, with what could come back for jobs queued before it; what was taken of an item
and not given back is what the batches delivered and those still queued use; and what was delivered of
it is what those batches make. -/
theorem crafting_adds_up :
    (∀ (h : PilotHangar) (item : Item) (batches now : ℕ) (rules : Rules) (msg : String),
      (h.craft item batches now rules).2 = .ok msg → ∃ r, recipe item = some r ∧
        (h.craft item batches now rules).1.cancelJob r.station
          ((h.settle now).works.queue r.station).length now = (h.settle now, .ok "JOB CANCELLED")) ∧
    ∀ (h : PilotHangar) (ops : List CraftOp),
      (ops.foldl craftStep h).credits + Run.total craftStep charged h ops
          = h.credits + Run.total craftStep refunded h ops ∧
      (ops.foldl craftStep h).works.refundable + Run.total craftStep refunded h ops
          ≤ h.works.refundable + Run.total craftStep charged h ops ∧
      (h.works = Works.empty →
        Run.total craftStep refunded h ops ≤ Run.total craftStep charged h ops) ∧
      ∀ item,
        (ops.foldl craftStep h).stores.get item + Run.total craftStep (took item) h ops
            = h.stores.get item + (Run.total craftStep (gave item) h ops
              + Run.total craftStep (made item) h ops) ∧
        usedBy (ops.foldl craftStep h).works.left item + (Run.total craftStep (gave item) h ops
              + usedBy (fun k => Run.total craftStep (delivered k) h ops) item)
            = usedBy h.works.left item + Run.total craftStep (took item) h ops ∧
        Run.total craftStep (made item) h ops
            = makes item * Run.total craftStep (delivered item) h ops := by
  constructor
  · intro h item batches now rules msg hok
    exact cancel_craft hok
  · intro h ops
    have hfees : (ops.foldl craftStep h).works.refundable + Run.total craftStep refunded h ops
        ≤ h.works.refundable + Run.total craftStep charged h ops :=
      Run.total_balance_le (fun h : PilotHangar => h.works.refundable) fees_step h ops
    refine ⟨Run.total_balance (fun h : PilotHangar => h.credits) credits_step h ops, hfees, ?_,
      fun item => ⟨?_, ?_, ?_⟩⟩
    · intro hempty
      have hnone : h.works.refundable = 0 := by
        rw [hempty]
        rfl
      omega
    · rw [← Run.total_add_fun]
      exact Run.total_balance (fun h : PilotHangar => h.stores.get item) (stores_step item) h ops
    · rw [← total_usedBy, ← Run.total_add_fun]
      exact Run.total_balance (fun h : PilotHangar => usedBy h.works.left item) (used_step item) h ops
    · clear hfees
      induction ops generalizing h with
      | nil => rfl
      | cons op rest ih =>
        have hrest := ih (h.craftStep op)
        simp only [Run.total]
        rw [hrest, made_step, Nat.mul_add]

/-- Two batches of steel, cancelled as they are queued. -/
theorem crafting_adds_up_steel : ∃ r, recipe steel = some r ∧
    let h : PilotHangar := { PilotHangar.starter with
      stores := Stores.empty.add (.ore .nickelIron) 250 }
    (h.craft steel 2 100 ⟨1, 100, 1⟩).1.cancelJob r.station
      ((h.settle 100).works.queue r.station).length 100 = (h.settle 100, .ok "JOB CANCELLED") :=
  crafting_adds_up.1 _ steel 2 100 ⟨1, 100, 1⟩ _ rfl

end PilotHangar

end BeforeColony
