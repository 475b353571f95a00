import BeforeColony.Lib.Run
import BeforeColony.Sim.Kills

/-!
# Whose kill it is

A kill is paid to the suit that made it as long as no slot is handed on while something in play, or a
client, remembers the last suit in it.
-/

set_option autoImplicit false

namespace BeforeColony.Kills

open Lib

namespace Sector

/-- Every suit that something in play remembers. -/
structure All (P : SuitId → Prop) (st : Sector) : Prop where
  inFlight : ∀ pool, ∀ id ∈ st.inFlight pool, P id
  damage : ∀ d ∈ st.damage, P d.shooter
  dooms : ∀ j, (st.slots j).alive = true → (st.slots j).doom.left ≠ 0 →
    ∀ id, (st.slots j).doom.killer = some id → P id
  unseen : ∀ e ∈ st.unseen, ∀ id, e.killer = some id → P id

/-- Nothing in play, and no client but `s`, remembers a suit in slot `k`. -/
structure Forgotten (k : ℕ) (s : Option ℕ) (st : Sector) : Prop where
  marks : st.All fun id => id.idx ≠ k
  clients : ∀ i c, st.clients[i]? = some c → some i ≠ s → c.active = true → c.suit.idx ≠ k

/-- A slot that a step hands on is forgotten. -/
def HandsOn (st : Sector) : Op → Prop
  | .join s _ _ _ => ∀ id, (st.vacate s).suits.allocate.2 = some id →
      (st.vacate s).Forgotten id.idx (some s)
  | .field _ _ | .putBack _ _ _ => ∀ id, st.suits.allocate.2 = some id → st.Forgotten id.idx none
  | _ => True

/-- `last k` is the last suit that was in slot `k`, and it's who is remembered. -/
structure Accounted (last : ℕ → ℕ) (st : Sector) : Prop where
  alive_used : ∀ j, (st.slots j).alive = true → st.suits.used j = true
  held : ∀ j, st.suits.used j = true → st.suits.generation j = last j
  marks : st.All fun id => id.generation = last id.idx
  clients : ∀ c ∈ st.clients, c.active = true → c.suit.generation = last c.suit.idx
  paid : ∀ c ∈ st.paid, c.Right

variable {cfg : Cfg} {last : ℕ → ℕ} {st : Sector} {j k : ℕ} {id shooter : SuitId}

/-! ## What keeps it -/

theorem accounted_start (cfg : Cfg) : (start cfg).Accounted fun _ => 0 where
  alive_used j hj := by cases hj
  held j hj := by cases hj
  marks := {
    inFlight := nofun
    damage := nofun
    dooms := fun j hj => by cases hj
    unseen := nofun }
  clients := by
    intro c hc hactive
    rw [List.eq_of_mem_replicate hc] at hactive
    cases hactive
  paid := nofun

theorem eq_of_last {id id' : SuitId} (h : id.generation = last id.idx) (h' : id'.generation = last id'.idx)
    (hidx : id.idx = id'.idx) : id = id' := by
  obtain ⟨i, g⟩ := id
  obtain ⟨i', g'⟩ := id'
  dsimp only at h h' hidx
  rw [h, h', hidx]

theorem allocate_cases {frame : FrameId} {pilot : PilotKind} {ace : Option ℕ} {credits : ℕ} {st' : Sector}
    (h : st.allocate frame pilot ace credits = some (id, st')) : st.suits.allocate.2 = some id
      ∧ st' = { st.setSlot id.idx { alive := true, frame, pilot, ace, credits } with suits := st.suits.allocate.1 }
      ∧ st'.suits.used = Function.update st.suits.used id.idx true
      ∧ st'.suits.generation = Function.update st.suits.generation id.idx id.generation := by
  unfold allocate Suits.allocate at *
  cases hfree : st.suits.free with
  | nil =>
    rw [hfree] at h
    cases h
  | cons k free =>
    rw [hfree] at h
    cases h
    exact ⟨rfl, rfl, rfl, rfl⟩

theorem queueDamage_suits (st : Sector) (j : ℕ) (shooter : SuitId) :
    (st.queueDamage cfg j shooter).suits = st.suits := by
  unfold queueDamage
  split
  · rfl
  · rfl

theorem runDown_alive {q : ℕ} (hne : q ≠ j) : ((st.runDown cfg j).slots q).alive = (st.slots q).alive := by
  have hset (st : Sector) (s : Suit) : (st.setSlot j s).slots q = st.slots q :=
    Function.update_of_ne hne _ _
  have hcredit (st : Sector) (k : SuitId) : ((st.credit cfg j k).slots q).alive = (st.slots q).alive := by
    rcases eq_or_ne q k.idx with rfl | hq
    · simp only [credit, setSlot, Function.update_self, paidFor]
    · simp only [credit, setSlot, Function.update_of_ne hq]
  have hdestroy (st : Sector) (killer : Option SuitId) :
      ((st.destroy cfg j killer).slots q).alive = (st.slots q).alive := by
    unfold destroy
    cases killer with
    | none => exact congrArg Suit.alive (hset st _)
    | some k =>
      dsimp only
      split
      · exact (hcredit _ k).trans (congrArg Suit.alive (hset st _))
      · exact congrArg Suit.alive (hset st _)
  unfold runDown
  dsimp only
  split
  · rfl
  · split
    · exact (hdestroy _ _).trans (congrArg Suit.alive (hset st _))
    · exact congrArg Suit.alive (hset st _)

namespace Accounted

theorem idOf (h : st.Accounted last) (hj : st.suits.used j = true) :
    (st.idOf j).generation = last (st.idOf j).idx := h.held j hj

theorem of_valid (h : st.Accounted last) (hid : st.valid id = true) : id.generation = last id.idx := by
  simp only [valid, Suits.valid, Bool.and_eq_true, decide_eq_true_eq] at hid
  exact hid.2.symm.trans (h.held id.idx hid.1.2)

theorem setSlot (h : st.Accounted last) {s : Suit} (halive : s.alive = true → st.suits.used j = true)
    (hdoom : s.alive = true → s.doom.left ≠ 0 →
      ∀ id, s.doom.killer = some id → id.generation = last id.idx) :
    (st.setSlot j s).Accounted last where
  alive_used q hq := by
    rcases eq_or_ne q j with rfl | hne
    · simp only [Sector.setSlot, Function.update_self] at hq
      exact halive hq
    · simp only [Sector.setSlot, Function.update_of_ne hne] at hq
      exact h.alive_used q hq
  held := h.held
  marks := {
    inFlight := h.marks.inFlight
    damage := h.marks.damage
    dooms := by
      intro q hq hleft id hid
      rcases eq_or_ne q j with rfl | hne
      · simp only [Sector.setSlot, Function.update_self] at hq hleft hid
        exact hdoom hq hleft id hid
      · simp only [Sector.setSlot, Function.update_of_ne hne] at hq hleft hid
        exact h.marks.dooms q hq hleft id hid
    unseen := h.marks.unseen }
  clients := h.clients
  paid := h.paid

theorem release (h : st.Accounted last) : (st.release j).Accounted last := by
  unfold Sector.release
  by_cases hused : st.suits.used j = true
  · rw [if_pos hused]
    have hset := h.setSlot (j := j) (s := { st.slots j with alive := false, sleeping := false })
      nofun nofun
    refine ⟨fun q hq => ?_, fun q hq => ?_, { hset.marks with }, hset.clients, hset.paid⟩
    · have hne : q ≠ j := by
        rintro rfl
        simp only [Sector.setSlot, Function.update_self] at hq
        cases hq
      simp only [Suits.release, if_pos hused, Function.update_of_ne hne]
      exact hset.alive_used q hq
    · rcases eq_or_ne q j with rfl | hne
      · simp only [Suits.release, if_pos hused, Function.update_self] at hq
        cases hq
      · simp only [Suits.release, if_pos hused, Function.update_of_ne hne] at hq ⊢
        exact h.held q hq
  · rw [if_neg hused]
    exact h

theorem leave (h : st.Accounted last) : (st.leave id).Accounted last := by
  unfold Sector.leave
  split
  · exact h.release
  · exact h

theorem queueDamage (h : st.Accounted last) (hshooter : shooter.generation = last shooter.idx) :
    (st.queueDamage cfg j shooter).Accounted last := by
  unfold Sector.queueDamage
  split
  · exact h
  · refine { h with marks := { h.marks with damage := fun d hd => ?_ } }
    rcases List.mem_append.mp hd with hd | hd
    · exact h.marks.damage d hd
    · rw [List.mem_singleton.mp hd]
      exact hshooter

/-- A kill is paid to the slot's last suit, if it's there. -/
theorem credit (h : st.Accounted last) (hkiller : id.generation = last id.idx) :
    (st.credit cfg j id).Accounted last := by
  have hset : (st.setSlot id.idx (st.paidFor cfg j id.idx)).Accounted last :=
    h.setSlot (h.alive_used id.idx) (h.marks.dooms id.idx)
  refine { hset with
    marks := { hset.marks with }
    paid := fun c hc => ?_ }
  rcases List.mem_cons.mp hc with rfl | hc
  · by_cases hused : st.suits.used id.idx = true
    · right
      simp only [if_pos hused]
      exact congrArg some (congrArg (SuitId.mk id.idx) ((h.held _ hused).trans hkiller.symm))
    · left
      simp only [if_neg hused]
  · exact h.paid c hc

theorem tell (h : st.Accounted last) {k : Kill}
    (hkiller : ∀ id, k.killer = some id → id.generation = last id.idx) :
    ({ st with unseen := st.unseen ++ [k] } : Sector).Accounted last := by
  refine { h with marks := { h.marks with unseen := fun e he => ?_ } }
  rcases List.mem_append.mp he with he | he
  · exact h.marks.unseen e he
  · rw [List.mem_singleton.mp he]
    exact hkiller

theorem destroy (h : st.Accounted last) {killer : Option SuitId}
    (hkiller : ∀ id, killer = some id → id.generation = last id.idx) :
    (st.destroy cfg j killer).Accounted last := by
  have hset := h.setSlot (j := j) (s := { st.slots j with alive := false, doom := .none }) nofun nofun
  refine Accounted.tell ?_ hkiller
  cases killer with
  | none => exact hset
  | some k =>
    dsimp only
    split
    · exact hset.credit (hkiller k rfl)
    · exact hset

theorem breach (h : st.Accounted last) {cut : ℕ} (hj : (st.slots j).alive = true)
    (hshooter : shooter.generation = last shooter.idx) :
    (st.breach cfg j cut shooter).Accounted last := by
  unfold Sector.breach
  dsimp only
  split
  · rename_i hdoomed
    have hknown := h.marks.dooms j hj hdoomed.ne'
    have hset : (st.setSlot j { st.slots j with
        doom := { (st.slots j).doom with left := (st.slots j).doom.left - cut } }).Accounted last :=
      h.setSlot (h.alive_used j) fun _ _ => hknown
    split
    · exact hset.destroy hknown
    · exact hset
  · split
    · refine h.setSlot (h.alive_used j) fun _ _ id hid => ?_
      rw [← Option.some.inj hid]
      exact hshooter
    · refine h.destroy fun id hid => ?_
      rw [← Option.some.inj hid]
      exact hshooter

theorem damageStep (h : st.Accounted last) (breached : ℕ → Option ℕ) :
    (st.damageStep cfg breached).Accounted last := by
  have hland : (st.damage.zipIdx.foldl (fun st d => st.land cfg d.1 (breached d.2)) st).Accounted last := by
    refine List.foldlRecOn _ _ h fun st' hst' d hd => ?_
    have hknown := h.marks.damage d.1 (List.fst_mem_of_mem_zipIdx hd)
    unfold Sector.land
    split
    · split
      · rename_i halive
        exact hst'.breach halive hknown
      · exact hst'
    · exact hst'
  exact { hland with marks := { hland.marks with damage := nofun } }

theorem runDown (h : st.Accounted last) (hj : (st.slots j).alive = true) :
    (st.runDown cfg j).Accounted last := by
  unfold Sector.runDown
  dsimp only
  split
  · exact h
  · rename_i hleft
    have hknown := h.marks.dooms j hj hleft
    have hset : (st.setSlot j { st.slots j with
        doom := { (st.slots j).doom with left := (st.slots j).doom.left - 1 } }).Accounted last :=
      h.setSlot (h.alive_used j) fun _ _ => hknown
    split
    · exact hset.destroy hknown
    · exact hset

theorem doomStep (h : st.Accounted last) : (st.doomStep cfg).Accounted last := by
  have hfold : ∀ (js : List ℕ) (st : Sector), js.Nodup → (∀ j ∈ js, (st.slots j).alive = true) →
      st.Accounted last → (js.foldl (Sector.runDown cfg) st).Accounted last := by
    intro js
    induction js with
    | nil => exact fun _ _ _ hst => hst
    | cons j rest ih =>
      intro st hnodup halive hst
      obtain ⟨hnotin, hrest⟩ := List.nodup_cons.mp hnodup
      refine ih _ hrest (fun q hq => ?_) (hst.runDown (halive j List.mem_cons_self))
      have hne : q ≠ j := by
        rintro rfl
        exact hnotin hq
      rw [runDown_alive hne]
      exact halive q (List.mem_cons_of_mem j hq)
  refine hfold _ st (List.nodup_range.filter _) (fun j hj => ?_) h
  simpa using (List.mem_filter.mp hj).2

theorem eject (h : st.Accounted last) (destruct : Bool) (near : List ℕ) :
    (st.eject cfg id destruct near).Accounted last := by
  unfold Sector.eject
  dsimp only
  split
  · exact h
  · rename_i hcan
    have halive : (st.slots id.idx).alive = true := by
      by_contra hdead
      exact hcan (by simp [hdead])
    have hused := h.alive_used _ halive
    split
    · split
      · exact h
      · rename_i hleft
        -- the blast's own blows are of a suit that is still there
        have hblast : (near.foldl (fun st q => st.queueDamage cfg q (st.idOf id.idx)) st).Accounted last
            ∧ (near.foldl (fun st q => st.queueDamage cfg q (st.idOf id.idx)) st).suits = st.suits := by
          refine List.foldlRecOn near _
            (motive := fun st' : Sector => st'.Accounted last ∧ st'.suits = st.suits) ⟨h, rfl⟩ fun st' hst' q _ => ?_
          have hused' : st'.suits.used id.idx = true := hst'.2 ▸ hused
          exact ⟨hst'.1.queueDamage (hst'.1.idOf hused'), (queueDamage_suits st' q _).trans hst'.2⟩
        exact hblast.1.destroy (h.marks.dooms _ halive hleft)
    · refine h.destroy fun killer hkiller => ?_
      split at hkiller
      · rename_i hdoomed
        exact h.marks.dooms _ halive hdoomed.ne' _ hkiller
      · cases hkiller

theorem setInFlight (h : st.Accounted last) {pool : Pool} {l : List SuitId}
    (hl : ∀ id ∈ l, id.generation = last id.idx) : (st.setInFlight pool l).Accounted last := by
  refine { h with marks := { h.marks with inFlight := fun p id hid => ?_ } }
  rcases eq_or_ne p pool with rfl | hne
  · simp only [Sector.setInFlight, Function.update_self] at hid
    exact hl id hid
  · simp only [Sector.setInFlight, Function.update_of_ne hne] at hid
    exact h.marks.inFlight p id hid

theorem sleepOrLeave (h : st.Accounted last) : (st.sleepOrLeave id).Accounted last := by
  unfold Sector.sleepOrLeave
  split
  · exact h.setSlot (h.alive_used id.idx) (h.marks.dooms id.idx)
  · exact h.leave

theorem waited (h : st.Accounted last) : (st.waited cfg j).Accounted last := by
  unfold Sector.waited
  dsimp only
  split
  · exact h
  · rename_i hwaits
    split
    · exact h.release
    · refine h.setSlot (fun _ => ?_) fun _ hleft => absurd rfl hleft
      by_contra hunused
      exact hwaits (by simp [hunused])

/-! ### Clients -/

theorem setClient (h : st.Accounted last) {s : ℕ} {c : Client}
    (hc : c.active = true → c.suit.generation = last c.suit.idx) : (st.setClient s c).Accounted last := by
  refine { h with marks := { h.marks with }, clients := fun c' hc' => ?_ }
  rcases List.mem_or_eq_of_mem_set hc' with hmem | rfl
  · exact h.clients c' hmem
  · exact hc

theorem vacate (h : st.Accounted last) (s : ℕ) : (st.vacate s).Accounted last := by
  unfold Sector.vacate
  split
  · split
    · exact h.leave
    · exact h
  · exact h

theorem unseat (h : st.Accounted last) (s : ℕ) {go : Sector → SuitId → Sector}
    (hgo : ∀ id, (go st id).Accounted last) : (st.unseat s go).Accounted last := by
  unfold Sector.unseat
  split
  · split
    · exact (hgo _).setClient nofun
    · exact h
  · exact h

theorem watchAce (h : st.Accounted last) {e : Kill}
    (he : ∀ id, e.killer = some id → id.generation = last id.idx) : (st.watchAce e).Accounted last := by
  unfold Sector.watchAce
  split
  · rename_i k _ hk
    split
    · rename_i c hc
      refine { h with marks := { h.marks with }, paid := fun c' hc' => ?_ }
      rcases List.mem_cons.mp hc' with rfl | hc'
      · have hfound := List.find?_some hc
        simp only [Bool.and_eq_true, decide_eq_true_eq] at hfound
        have hsuit := h.clients c (List.mem_of_find?_eq_some hc) hfound.1
        exact Or.inr (congrArg some (eq_of_last hsuit (he k hk) hfound.2))
      · exact h.paid c' hc'
    · exact h
  · exact h

theorem watchAces (h : st.Accounted last) : st.watchAces.Accounted last := by
  have hfold : (st.unseen.foldl Sector.watchAce st).Accounted last :=
    List.foldlRecOn _ _ h fun st' hst' e he => hst'.watchAce (h.marks.unseen e he)
  exact { hfold with marks := { hfold.marks with unseen := nofun } }

theorem watchLosses (h : st.Accounted last) : (st.watchLosses cfg).Accounted last := by
  unfold Sector.watchLosses
  split
  · refine { h with marks := { h.marks with }, clients := fun c hc hactive => ?_ }
    obtain ⟨c', hc', rfl⟩ := List.mem_map.mp hc
    exact h.clients c' hc' (Bool.and_eq_true _ _ |>.mp hactive).1
  · exact h

/-! ### Slots handed on -/

/-- A suit in a forgotten slot is the last there from then on. -/
theorem allocate (h : st.Accounted last) {frame : FrameId} {pilot : PilotKind} {ace : Option ℕ}
    {credits : ℕ} {st' : Sector} (hallocate : st.allocate frame pilot ace credits = some (id, st'))
    (hforgotten : st.All fun id' => id'.idx ≠ id.idx) (clients : List Client)
    (hclients : ∀ c ∈ clients, c.active = true →
      c.suit.generation = Function.update last id.idx id.generation c.suit.idx) :
    ({ st' with clients }).Accounted (Function.update last id.idx id.generation) := by
  obtain ⟨-, hst', hused, hgeneration⟩ := allocate_cases hallocate
  have hkept {id' : SuitId} (hlast : id'.generation = last id'.idx) (hne : id'.idx ≠ id.idx) :
      id'.generation = Function.update last id.idx id.generation id'.idx := by
    rw [Function.update_of_ne hne]
    exact hlast
  refine ⟨fun q hq => ?_, fun q hq => ?_, ⟨fun pool id' hid' => ?_, fun d hd => ?_, ?_, fun e he id' hid' => ?_⟩,
    hclients, ?_⟩
  · rw [hused]
    rcases eq_or_ne q id.idx with rfl | hne
    · exact Function.update_self _ _ _
    · rw [Function.update_of_ne hne]
      rw [hst'] at hq
      simp only [Sector.setSlot, Function.update_of_ne hne] at hq
      exact h.alive_used q hq
  · rw [hgeneration]
    rcases eq_or_ne q id.idx with rfl | hne
    · rw [Function.update_self, Function.update_self]
    · rw [hused, Function.update_of_ne hne] at hq
      rw [Function.update_of_ne hne, Function.update_of_ne hne]
      exact h.held q hq
  · rw [hst'] at hid'
    exact hkept (h.marks.inFlight pool id' hid') (hforgotten.inFlight pool id' hid')
  · rw [hst'] at hd
    exact hkept (h.marks.damage d hd) (hforgotten.damage d hd)
  · intro q hq hleft id' hid'
    rw [hst'] at hq hleft hid'
    rcases eq_or_ne q id.idx with rfl | hne
    · simp only [Sector.setSlot, Function.update_self] at hleft
      exact absurd rfl hleft
    · simp only [Sector.setSlot, Function.update_of_ne hne] at hq hleft hid'
      exact hkept (h.marks.dooms q hq hleft id' hid') (hforgotten.dooms q hq hleft id' hid')
  · rw [hst'] at he
    exact hkept (h.marks.unseen e he id' hid') (hforgotten.unseen e he id' hid')
  · rw [hst']
    exact h.paid

theorem join (h : st.Accounted last) {frame : FrameId} {pilot : PilotKind} {credits s : ℕ}
    (hforgotten : ∀ id, st.suits.allocate.2 = some id → st.Forgotten id.idx (some s)) :
    ∃ last', (st.seat s (st.allocate frame pilot none credits)).Accounted last' := by
  cases hallocate : st.allocate frame pilot none credits with
  | none => exact ⟨last, h⟩
  | some found =>
    obtain ⟨id, st'⟩ := found
    obtain ⟨hid, hst', -, -⟩ := allocate_cases hallocate
    have hforgot := hforgotten id hid
    refine ⟨Function.update last id.idx id.generation,
      h.allocate hallocate hforgot.marks (st'.clients.set s ⟨true, id⟩) fun c hc hactive => ?_⟩
    obtain ⟨i, hi⟩ := List.getElem?_of_mem hc
    rw [List.getElem?_set] at hi
    split at hi
    · split at hi
      · rw [← Option.some.inj hi]
        exact (Function.update_self id.idx id.generation last).symm
      · cases hi
    · rename_i hne
      rw [hst'] at hi
      have hother : c.suit.idx ≠ id.idx :=
        hforgot.clients i c hi (fun heq => hne (Option.some.inj heq).symm) hactive
      rw [Function.update_of_ne hother]
      exact h.clients c (List.mem_of_getElem? hi) hactive

theorem field (h : st.Accounted last) {frame : FrameId} {pilot : PilotKind} {ace : Option ℕ} {credits : ℕ} {st' : Sector}
    (hallocate : st.allocate frame pilot ace credits = some (id, st')) (hforgotten : st.Forgotten id.idx none) :
    ∃ last', st'.Accounted last' := by
  obtain ⟨-, hst', -, -⟩ := allocate_cases hallocate
  refine ⟨Function.update last id.idx id.generation,
    h.allocate hallocate hforgotten.marks st'.clients fun c hc hactive => ?_⟩
  rw [hst'] at hc
  obtain ⟨i, hi⟩ := List.getElem?_of_mem hc
  have hother : c.suit.idx ≠ id.idx := hforgotten.clients i c hi nofun hactive
  rw [Function.update_of_ne hother]
  exact h.clients c hc hactive

theorem woken (h : st.Accounted last) {s : ℕ} : (st.seat s (st.woken id)).Accounted last := by
  unfold Sector.woken
  split
  · rename_i hwakes
    obtain ⟨⟨hvalid, -⟩, -⟩ := by simpa only [wakeable, Bool.and_eq_true] using hwakes
    have hset := h.setSlot (j := id.idx) (s := { st.slots id.idx with sleeping := false })
      (h.alive_used id.idx) (h.marks.dooms id.idx)
    exact hset.setClient fun _ => h.of_valid hvalid
  · exact h

theorem step (h : st.Accounted last) {op : Op} (hop : st.HandsOn op) :
    ∃ last', (st.step cfg op).Accounted last' := by
  cases op with
  | join s frame pilot credits =>
    unfold Sector.step
    dsimp only
    split
    · exact (h.vacate s).join hop
    · exact ⟨last, h⟩
  | wake s id =>
    refine ⟨last, ?_⟩
    unfold Sector.step
    dsimp only
    split
    · exact (h.vacate s).woken
    · exact h
  | refused s =>
    refine ⟨last, ?_⟩
    unfold Sector.step
    dsimp only
    split
    · exact h.vacate s
    · exact h
  | leave s => exact ⟨last, h.unseat s fun _ => h.leave⟩
  | sleep s => exact ⟨last, h.unseat s fun _ => h.sleepOrLeave⟩
  | dock s =>
    refine ⟨last, ?_⟩
    unfold Sector.step
    dsimp only
    split
    · split
      · exact h.unseat s fun _ => h.leave
      · exact h
    · exact h
  | strand s => exact ⟨last, h.unseat s fun _ => h⟩
  | evict id =>
    refine ⟨last, ?_⟩
    unfold Sector.step
    dsimp only
    split
    · exact h.release
    · exact h
  | field frame ace =>
    unfold Sector.step
    cases hallocate : st.allocate frame .drone ace 0 with
    | none => exact ⟨last, by simpa only [hallocate] using h⟩
    | some found =>
      obtain ⟨last', hst'⟩ := h.field hallocate (hop _ (allocate_cases hallocate).1)
      exact ⟨last', by simpa only [hallocate] using hst'⟩
  | putBack frame pilot credits =>
    unfold Sector.step
    cases hallocate : st.allocate frame pilot none credits with
    | none => exact ⟨last, by simpa only [hallocate] using h⟩
    | some found =>
      obtain ⟨id, st'⟩ := found
      obtain ⟨last', hst'⟩ := h.field hallocate (hop _ (allocate_cases hallocate).1)
      refine ⟨last', ?_⟩
      simp only [hallocate]
      exact hst'.setSlot (hst'.alive_used id.idx) (hst'.marks.dooms id.idx)
  | fire pool i =>
    refine ⟨last, ?_⟩
    unfold Sector.step
    dsimp only
    split
    · rename_i halive
      refine h.setInFlight fun id hid => ?_
      rcases List.mem_cons.mp hid with rfl | hid
      · exact h.idOf (h.alive_used i halive)
      · exact h.marks.inFlight pool id hid
    · exact h
  | spent pool k =>
    exact ⟨last, h.setInFlight fun id hid => h.marks.inFlight pool id (List.mem_of_mem_eraseIdx hid)⟩
  | hit pool k target =>
    refine ⟨last, ?_⟩
    unfold Sector.step
    dsimp only
    split
    · rename_i shooter hshooter
      have hknown := h.marks.inFlight pool shooter (List.mem_of_getElem? hshooter)
      exact (h.queueDamage hknown).setInFlight
        fun id hid => h.marks.inFlight pool id (List.mem_of_mem_eraseIdx hid)
    · exact h
  | strike i target =>
    refine ⟨last, ?_⟩
    unfold Sector.step
    dsimp only
    split
    · rename_i halive
      exact h.queueDamage (h.idOf (h.alive_used i halive))
    · exact h
  | damage breached => exact ⟨last, h.damageStep breached⟩
  | doom => exact ⟨last, h.doomStep⟩
  | eject id destruct near => exact ⟨last, h.eject destruct near⟩
  | waited j => exact ⟨last, h.waited⟩
  | watchAces => exact ⟨last, h.watchAces⟩
  | watchLosses => exact ⟨last, h.watchLosses⟩
  | overwrite =>
    refine ⟨last, { h with marks := { h.marks with unseen := fun e he => ?_ } }⟩
    exact h.marks.unseen e (List.mem_of_mem_tail he)

end Accounted

/-- In a run that hands on no slot while a round, a missile, a blow, a doom, a kill not yet looked at
or a client remembers its last suit, every kill, bounty and ace is paid to the suit that made the kill,
or to nobody. -/
theorem paid_to_killer (cfg : Cfg) (ops : List Op)
    (h : Run.Along (Sector.step cfg) HandsOn (start cfg) ops) : ∀ c ∈ ((start cfg).run cfg ops).paid, c.Right := by
  obtain ⟨last, hlast⟩ : ∃ last, ((start cfg).run cfg ops).Accounted last :=
    Run.invariant (I := fun st => ∃ last, Accounted last st) (fun _ _ hst hop => hst.choose_spec.step hop)
      ⟨_, accounted_start cfg⟩ h
  exact hlast.paid

/-! ## Two pilots and an ace -/

/-- A sector of three suits and two clients. -/
def small : Cfg := ⟨3, 2, 8, true, false⟩

/-- The first client's suit fires on an ace. -/
def shot : List Op := [.join 0 .argo .human 0, .field .sagittarius (some 0), .fire .projectiles 0]

/-- The round gets there, and is the end of it. -/
def downed : List Op := [.hit .projectiles 0 1, .damage fun _ => some 0, .watchAces]

/-- Nothing in play remembers a suit where nothing is. -/
theorem all_quiet {P : SuitId → Prop} (hinFlight : ∀ pool, st.inFlight pool = []) (hdamage : st.damage = [])
    (hdoom : ∀ j, (st.slots j).doom.left = 0) (hunseen : st.unseen = []) : st.All P where
  inFlight pool id hid := by
    rw [hinFlight] at hid
    cases hid
  damage d hd := by
    rw [hdamage] at hd
    cases hd
  dooms j _ hleft := absurd (hdoom j) hleft
  unseen e he := by
    rw [hunseen] at he
    cases he

theorem along_shot (rest : List Op)
    (hrest : Run.Along (Sector.step small) HandsOn ((start small).run small shot) rest) :
    Run.Along (Sector.step small) HandsOn (start small) (shot ++ rest) := by
  refine ⟨fun id _ => ⟨all_quiet (fun _ => rfl) rfl (fun _ => rfl) rfl, ?_⟩, fun id hid => ⟨?_, ?_⟩, trivial, hrest⟩
  · intro i c hc _ hactive
    have hmem : c ∈ List.replicate 2 (⟨false, 0, 0⟩ : Client) := List.mem_of_getElem? hc
    rw [List.eq_of_mem_replicate hmem] at hactive
    cases hactive
  · refine all_quiet (fun _ => rfl) rfl (fun j => ?_) rfl
    rcases eq_or_ne j 0 with rfl | hne
    · rfl
    · change (Function.update (fun _ => ({} : Suit)) 0 _ j).doom.left = 0
      rw [Function.update_of_ne hne]
      rfl
  · intro i c hc _ hactive
    have hclients : c ∈ [(⟨true, 0, 1⟩ : Client), ⟨false, 0, 0⟩] := List.mem_of_getElem? hc
    rw [← Option.some.inj hid]
    rcases List.mem_pair.mp hclients with rfl | rfl
    · decide
    · cases hactive

theorem paid_to_killer_shot : (∀ c ∈ ((start small).run small (shot ++ downed)).paid, c.Right)
    ∧ ((start small).run small (shot ++ downed)).paid
      = [⟨some ⟨0, 1⟩, 0, 1⟩, ⟨some ⟨0, 1⟩, 0, 1⟩] :=
  ⟨paid_to_killer small (shot ++ downed) (along_shot downed ⟨trivial, trivial, trivial, trivial⟩), by decide⟩

/-- In between, the first client docks and the second joins. -/
def swapped : List Op := shot ++ [.dock 0, .join 1 .argo .human 0] ++ downed

theorem slot_handed_on : ¬ ∀ (cfg : Cfg) (ops : List Op), ∀ c ∈ ((start cfg).run cfg ops).paid, c.Right := by
  intro h
  have hright : Credit.Right ⟨some ⟨0, 3⟩, 0, 1⟩ := h small swapped _ (by decide)
  rcases hright with hnone | hsome
  · cases hnone
  · cases hsome

end Sector

end BeforeColony.Kills
