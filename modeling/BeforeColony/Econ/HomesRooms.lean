import Mathlib.Data.List.Nodup
import BeforeColony.Econ.HomesSteps
import BeforeColony.Lib.Run

/-!
# Beds and furniture

Who sleeps in a home sleeps in a bed of it that nobody else sleeps in, is on its crew, and sleeps
nowhere else. A piece is named by its id: two pieces of a home are never named alike while no piece
is bought under a number still in use.
-/

set_option autoImplicit false

namespace BeforeColony

open Lib

/-! ## Beds -/

/-- Whoever is asleep has a bed to themselves, and is crew. -/
structure Beds (h : Held) : Prop where
  alone : (h.asleep.map Asleep.piece).Nodup
  bed : ∀ a ∈ h.asleep, ∃ p ∈ h.pieces, p.id = a.piece ∧ p.kind = .bed
  crew : ∀ a ∈ h.asleep, a.who ∈ h.lock.crew

namespace Beds

variable {h h' : Held}

theorem newlyHeld (who : Trader) (name : String) (tenure : Tenure) (now : ℕ) :
    Beds (Homes.newlyHeld who name tenure now) where
  alone := List.nodup_nil
  bed a ha := by cases ha
  crew a ha := by cases ha

theorem fewer (hb : Beds h) (hasleep : h'.asleep.Sublist h.asleep) (hpieces : h'.pieces = h.pieces)
    (hcrew : ∀ a ∈ h'.asleep, a.who ∈ h'.lock.crew) : Beds h' where
  alone := hb.alone.sublist (hasleep.map _)
  bed a ha := by
    rw [hpieces]
    exact hb.bed a (hasleep.subset ha)
  crew := hcrew

theorem quiet (hb : Beds h) (hq : h.Quiet h') : Beds h' where
  alone := by
    rw [hq.asleep]
    exact hb.alone
  bed a ha := by
    obtain ⟨p, hp, hid, hkind⟩ := hb.bed a (hq.asleep ▸ ha)
    have htag : (a.piece, Furniture.bed) ∈ h'.pieces.map Piece.tag := by
      rw [hq.pieces]
      exact List.mem_map.mpr ⟨p, hp, by rw [Piece.tag, hid, hkind]⟩
    obtain ⟨p', hp', htag⟩ := List.mem_map.mp htag
    rw [Piece.tag, Prod.mk.injEq] at htag
    exact ⟨p', hp', htag.1, htag.2⟩
  crew a ha := by
    rw [hq.crew]
    exact hb.crew a (hq.asleep ▸ ha)

/-- Whatever is done to a home, whoever it displaces is woken. -/
theorem change {id : ℕ} {act : HomesAct} (hb : Beds h) (hc : Change id act h h') : Beds h' := by
  cases hc with
  | quiet hq => exact hb.quiet hq
  | entered hcode hrem => exact ⟨hb.alone, hb.bed, fun a ha => hrem.mem_of_mem (hb.crew a ha)⟩
  | guestEntered hcode hrem => exact ⟨hb.alone, hb.bed, hb.crew⟩
  | guestCodeSet => exact ⟨hb.alone, hb.bed, hb.crew⟩
  | codeSet hcode hcrew hguests =>
    refine hb.fewer List.filter_sublist rfl fun a ha => ?_
    simpa [Lock.isCrew] using (List.mem_filter.mp ha).2
  | crewLeft hholder =>
    refine hb.fewer List.filter_sublist rfl fun a ha => ?_
    obtain ⟨hmem, hother⟩ := List.mem_filter.mp ha
    exact List.mem_filter.mpr ⟨hb.crew a hmem, hother⟩
  | crewCleared hcode hguestCode hcrew hguests =>
    refine hb.fewer List.filter_sublist rfl fun a ha => ?_
    simpa [Lock.isCrew] using (List.mem_filter.mp ha).2
  | furnished hid hroom =>
    refine ⟨hb.alone, fun a ha => ?_, hb.crew⟩
    obtain ⟨p, hp, hbed⟩ := hb.bed a ha
    exact ⟨p, List.mem_append_left _ hp, hbed⟩
  | sold hfree =>
    refine ⟨hb.alone, fun a ha => ?_, hb.crew⟩
    obtain ⟨p, hp, hid, hkind⟩ := hb.bed a ha
    -- Nobody sleeps in what is sold.
    have hother := hfree a ha
    exact ⟨p, (List.mem_eraseP_of_neg (by simpa [hid] using hother)).mpr hp, hid, hkind⟩
  | woke =>
    exact hb.fewer List.eraseP_sublist rfl fun a ha => hb.crew a (List.eraseP_subset ha)
  | slept hcrew hbed hkind hfree =>
    constructor
    · rw [List.map_append, List.nodup_append]
      refine ⟨hb.alone, List.nodup_singleton _, ?_⟩
      intro x hx y hy
      obtain ⟨a, ha, rfl⟩ := List.mem_map.mp hx
      rw [List.mem_singleton.mp hy]
      exact hfree a ha
    · intro a ha
      rcases List.mem_append.mp ha with ha | ha
      · exact hb.bed a ha
      · rw [List.mem_singleton.mp ha]
        exact ⟨_, hbed, rfl, hkind⟩
    · intro a ha
      rcases List.mem_append.mp ha with ha | ha
      · exact hb.crew a ha
      · rw [List.mem_singleton.mp ha]
        exact hcrew

end Beds

namespace Homes

structure OneBed (r : Homes) : Prop where
  once : ∀ id h, r.held.get? id = some h → (h.asleep.map Asleep.who).Nodup
  apart : ∀ id h id' h', r.held.get? id = some h → r.held.get? id' = some h' →
    ∀ a ∈ h.asleep, ∀ a' ∈ h'.asleep, a.who = a'.who → id = id'

def Awake (r : Homes) (who : Trader) : Prop :=
  ∀ id h, r.held.get? id = some h → ∀ a ∈ h.asleep, a.who ≠ who

def NoMoreAsleep (r r' : Homes) : Prop :=
  ∀ id h', r'.held.get? id = some h' →
    (∃ h, r.held.get? id = some h ∧ h'.asleep.Sublist h.asleep) ∨ h'.asleep = []

variable {r r' : Homes}

theorem OneBed.fewer (hr : OneBed r) (hf : NoMoreAsleep r r') : OneBed r' where
  once id h' hget := by
    rcases hf id h' hget with ⟨h, hold, hsub⟩ | hnone
    · exact (hr.once id h hold).sublist (hsub.map _)
    · rw [hnone]
      exact List.nodup_nil
  apart id h' id' h'' hget hget' a ha a' ha' hsame := by
    rcases hf id h' hget with ⟨h, hold, hsub⟩ | hnone
    · rcases hf id' h'' hget' with ⟨h₀, hold', hsub'⟩ | hnone
      · exact hr.apart id h id' h₀ hold hold' a (hsub.subset ha) a' (hsub'.subset ha') hsame
      · rw [hnone] at ha'
        cases ha'
    · rw [hnone] at ha
      cases ha

theorem Moves.noMoreAsleep {act : HomesAct} (hm : Moves act r r')
    (hact : ∀ id who name far, act ≠ .sleep id who name far) : NoMoreAsleep r r' := by
  intro id h' hget
  rcases hm id h' hget with ⟨h, hold, hc⟩ | ⟨-, who, name, tenure, now, rfl⟩
  · refine Or.inl ⟨h, hold, ?_⟩
    cases hc with
    | quiet hq => exact hq.asleep ▸ List.Sublist.refl _
    | entered hcode hrem => exact List.Sublist.refl _
    | guestEntered hcode hrem => exact List.Sublist.refl _
    | guestCodeSet => exact List.Sublist.refl _
    | codeSet hcode hcrew hguests => exact List.filter_sublist
    | crewLeft hholder => exact List.filter_sublist
    | crewCleared hcode hguestCode hcrew hguests => exact List.filter_sublist
    | furnished hid hroom => exact List.Sublist.refl _
    | sold hfree => exact List.Sublist.refl _
    | woke => exact List.eraseP_sublist
    | slept hcrew hbed hkind hfree => exact (hact _ _ _ _ rfl).elim
  · exact Or.inr rfl

/-- Where everyone is once, taking who is asleep out leaves them out. -/
theorem ne_of_mem_eraseP {list : List Asleep} (hlist : (list.map Asleep.who).Nodup) {who : Trader}
    {a : Asleep} (ha : a ∈ list.eraseP fun a => a.who = who) : a.who ≠ who := by
  induction list with
  | nil => cases ha
  | cons x rest ih =>
    rw [List.map_cons, List.nodup_cons] at hlist
    by_cases hx : x.who = who
    · rw [List.eraseP_cons_of_pos (by simpa using hx)] at ha
      intro hwho
      exact hlist.1 (hx.trans hwho.symm ▸ List.mem_map_of_mem ha)
    · rw [List.eraseP_cons_of_neg (by simpa using hx)] at ha
      rcases List.mem_cons.mp ha with rfl | ha
      · exact hx
      · exact ih hlist.2 ha

/-- Whoever sleeps once at most is asleep nowhere once woken. -/
theorem awake_wake (hr : OneBed r) (who : Trader) : Awake (r.wake who).1 who := by
  unfold wake
  split
  · rename_i hnone
    intro id h hget a ha hwho
    have hnot := List.find?_eq_none.mp hnone (id, h) (Table.mem_entries_iff.mpr hget)
    simp only [List.any_eq_true, decide_eq_true_eq, not_exists, not_and] at hnot
    exact hnot a ha hwho
  · rename_i id h hfind
    have hget : r.held.get? id = some h :=
      Table.mem_entries_iff.mp (List.mem_of_find?_eq_some hfind)
    have hany := List.find?_some hfind
    simp only [List.any_eq_true, decide_eq_true_eq] at hany
    obtain ⟨a₀, ha₀, hwho₀⟩ := hany
    split
    · rename_i hnone
      exact absurd (by simpa using hwho₀) (List.find?_eq_none.mp hnone a₀ ha₀)
    · intro k h' hk a ha hwho
      rw [get?_setHeld] at hk
      split at hk
      · cases hk
        exact ne_of_mem_eraseP (hr.once id h hget) ha hwho
      · rename_i hne
        exact hne (hr.apart k h' id h hk hget a ha a₀ ha₀ (hwho.trans hwho₀.symm))

/-- What logging out at home can do to who is asleep in a home: nobody more, or there one. -/
theorem Moves.asleep_sleep {id : ℕ} {who : Trader} {name : String} {far : Piece → ℚ}
    (hm : Moves (.sleep id who name far) r r') {k : ℕ} {h' : Held}
    (hget : r'.held.get? k = some h') :
    (∃ h, r.held.get? k = some h ∧ (h'.asleep.Sublist h.asleep
      ∨ k = id ∧ ∃ a, a.who = who ∧ h'.asleep = h.asleep ++ [a])) ∨ h'.asleep = [] := by
  rcases hm k h' hget with ⟨h, hold, hc⟩ | ⟨-, who, name, tenure, now, rfl⟩
  · refine Or.inl ⟨h, hold, ?_⟩
    cases hc with
    | quiet hq => exact Or.inl (hq.asleep ▸ List.Sublist.refl _)
    | woke => exact Or.inl List.eraseP_sublist
    | slept hcrew hbed hkind hfree => exact Or.inr ⟨rfl, _, rfl, rfl⟩
  · exact Or.inr rfl

/-- Whoever was asleep nowhere may sleep in one home. -/
theorem OneBed.slept {id : ℕ} {who : Trader} {name : String} {far : Piece → ℚ} (hr : OneBed r)
    (hawake : Awake r who) (hm : Moves (.sleep id who name far) r r') : OneBed r' := by
  -- Everyone asleep was already asleep there, or is the one who logs out.
  have hfrom {k : ℕ} {h' : Held} (hget : r'.held.get? k = some h') {a : Asleep}
      (ha : a ∈ h'.asleep) :
      (∃ h, r.held.get? k = some h ∧ a ∈ h.asleep) ∨ a.who = who ∧ k = id := by
    rcases hm.asleep_sleep hget with ⟨h, hold, hsub | ⟨hid, x, hx, hmore⟩⟩ | hnone
    · exact Or.inl ⟨h, hold, hsub.subset ha⟩
    · rw [hmore, List.mem_append, List.mem_singleton] at ha
      rcases ha with ha | rfl
      · exact Or.inl ⟨h, hold, ha⟩
      · exact Or.inr ⟨hx, hid⟩
    · rw [hnone] at ha
      cases ha
  constructor
  · intro k h' hget
    rcases hm.asleep_sleep hget with ⟨h, hold, hsub | ⟨-, x, rfl, hmore⟩⟩ | hnone
    · exact (hr.once k h hold).sublist (hsub.map _)
    · rw [hmore, List.map_append, List.nodup_append]
      refine ⟨hr.once k h hold, List.nodup_singleton _, ?_⟩
      intro y hy z hz
      obtain ⟨a, ha, rfl⟩ := List.mem_map.mp hy
      rw [List.mem_singleton.mp hz]
      exact hawake k h hold a ha
    · rw [hnone]
      exact List.nodup_nil
  · intro k h' k' h'' hget hget' a ha a' ha' hsame
    rcases hfrom hget ha with ⟨h, hold, ha⟩ | ⟨hwho, hid⟩
    · rcases hfrom hget' ha' with ⟨h₀, hold', ha'⟩ | ⟨hwho', -⟩
      · exact hr.apart k h k' h₀ hold hold' a ha a' ha' hsame
      · exact absurd (hsame.trans hwho') (hawake k h hold a ha)
    · rcases hfrom hget' ha' with ⟨h₀, hold', ha'⟩ | ⟨-, hid'⟩
      · exact absurd (hsame.symm.trans hwho) (hawake k' h₀ hold' a' ha')
      · exact hid.trans hid'.symm

/-- Whoever logs out at home sleeps there, and nowhere else. -/
theorem OneBed.sleep (hr : OneBed r) (id : ℕ) (who : Trader) (name : String) (far : Piece → ℚ) :
    OneBed (r.sleep id who name far).1 := by
  have hwoken : OneBed (r.wake who).1 :=
    hr.fewer ((@moves_wake (.wake who) r who).noMoreAsleep nofun)
  exact hwoken.slept (awake_wake hr who) (moves_sleep r id who name far)

end Homes

namespace Tenancy

open Homes

theorem oneBed_step (c : City) {t t' : Tenancy} (ht : OneBed t.reg) {act : HomesAct}
    (hstep : t.step c act = some t') : OneBed t'.reg := by
  have hother (hact : ∀ id who name far, act ≠ .sleep id who name far) : OneBed t'.reg := by
    obtain ⟨r, hm, hm'⟩ := moves_step c hstep
    exact (ht.fewer (hm.noMoreAsleep hact)).fewer (hm'.noMoreAsleep hact)
  cases act with
  | sleep id who name far =>
    cases hstep
    exact ht.sleep id who name far
  | _ => exact hother nofun

theorem oneBed_run (c : City) (acts : List HomesAct) {t t' : Tenancy} (ht : OneBed t.reg)
    (hrun : t.run c acts = some t') : OneBed t'.reg := by
  induction acts generalizing t with
  | nil =>
    cases hrun
    exact ht
  | cons act rest ih =>
    rw [run, List.foldlM_cons] at hrun
    obtain ⟨t₁, hstep, hrest⟩ := Option.bind_eq_some_iff.mp hrun
    exact ih (oneBed_step c ht hstep) hrest

/-- Whatever is done from an empty register, everyone asleep is asleep once, in a bed of a home
whose crew they are on, and alone in it. -/
theorem sleepers_have_beds (c : City) (hangars : Table Trader Hangar) (acts : List HomesAct) :
    ∃ t, run c ⟨hangars, Homes.new⟩ acts = some t ∧ OneBed t.reg
      ∧ ∀ id h, t.reg.held.get? id = some h → Beds h := by
  obtain ⟨t, hrun⟩ := run_some c ⟨hangars, Homes.new⟩ acts
  refine ⟨t, hrun, oneBed_run c acts ⟨?_, ?_⟩ hrun, ?_⟩
  · intro id h hget
    cases hget
  · intro id h id' h' hget
    cases hget
  · refine held_invariant c (P := fun _ h => Beds h) ?_ ?_ acts hrun ?_
    · exact fun id who name tenure now => Beds.newlyHeld who name tenure now
    · exact fun id act h h' hb hc => hb.change hc
    · intro id h hget
      cases hget

end Tenancy

/-! ## Furniture -/

namespace Homes

structure Furnishes (c : City) (r : Homes) (id : ℕ) (who : Trader) (kind : Furniture)
    (s x turn storey : ℕ) (hangar : Hangar) (h : Held) : Prop where
  get : r.held.get? id = some h
  crew : who ∈ h.lock.crew
  room : h.pieces.length < maxPieces
  placed : c.placed id h ⟨h.nextPiece, kind, s, x, turn % 4, storey, []⟩ none = .ok ()
  pays : kind.price ≤ hangar.credits

def furnished (h : Held) (kind : Furniture) (s x turn storey : ℕ) : Held :=
  { h with
    nextPiece := (h.nextPiece + 1) % 2 ^ 16
    pieces := h.pieces ++ [⟨h.nextPiece, kind, s, x, turn % 4, storey, []⟩] }

variable {r r' : Homes}

theorem crewOf_of_mem {id : ℕ} {who : Trader} {h : Held} (hget : r.held.get? id = some h)
    (hcrew : who ∈ h.lock.crew) : r.crewOf id who = .ok h := by
  unfold crewOf
  simp only [hget, Lock.isCrew, hcrew, decide_true, if_true]

theorem furnish_done {c : City} {id : ℕ} {who : Trader} {kind : Furniture} {s x turn storey : ℕ}
    {hangar : Hangar} {h : Held} (hf : Furnishes c r id who kind s x turn storey hangar h) :
    ∃ done, r.furnish c id who kind s x turn storey hangar
      = some ({ r.setHeld id (furnished h kind s x turn storey) with
          furnitureSold := r.furnitureSold + kind.price },
        { hangar with credits := hangar.credits - kind.price }, done) := by
  unfold furnish
  rw [crewOf_of_mem hf.get hf.crew]
  simp only [if_neg (Nat.not_le.mpr hf.room), hf.placed, if_neg (Nat.not_lt.mpr hf.pays),
    checkedSub_of_le hf.pays]
  exact ⟨_, rfl⟩

theorem furnish_refused {c : City} {id : ℕ} {who : Trader} {kind : Furniture}
    {s x turn storey : ℕ} {hangar : Hangar}
    (hnot : ∀ h, ¬ Furnishes c r id who kind s x turn storey hangar h) :
    ∃ why, r.furnish c id who kind s x turn storey hangar = some (r, hangar, .error why) := by
  unfold furnish
  split
  · exact ⟨_, rfl⟩
  · rename_i h hcrew
    split
    · exact ⟨_, rfl⟩
    · rename_i hroom
      dsimp only
      split
      · exact ⟨_, rfl⟩
      · rename_i hplaced
        split
        · exact ⟨_, rfl⟩
        · rename_i hpays
          obtain ⟨hget, hmem⟩ := crewOf_mem hcrew
          exact (hnot h ⟨hget, hmem, Nat.not_le.mp hroom, hplaced, Nat.not_lt.mp hpays⟩).elim

/-- In every home no two pieces have one id. -/
def IdsApart (r : Homes) : Prop :=
  ∀ id h, r.held.get? id = some h → (h.pieces.map Piece.id).Nodup

theorem map_id_of_tag {pieces pieces' : List Piece}
    (h : pieces'.map Piece.tag = pieces.map Piece.tag) :
    pieces'.map Piece.id = pieces.map Piece.id := by
  have hfst := congrArg (List.map Prod.fst) h
  rwa [List.map_map, List.map_map] at hfst

/-- Nothing but furniture bought gives a piece its id. -/
theorem IdsApart.moves {act : HomesAct} (hr : IdsApart r) (hm : Moves act r r')
    (hact : ∀ who name now id furniture s x turn storey,
      act ≠ .serve who name now (.furnish id furniture s x turn storey)) : IdsApart r' := by
  intro id h' hget
  rcases hm id h' hget with ⟨h, hold, hc⟩ | ⟨-, who, name, tenure, now, rfl⟩
  · have hapart := hr id h hold
    cases hc with
    | quiet hq => exact map_id_of_tag hq.pieces ▸ hapart
    | furnished hid hroom => exact (hact _ _ _ _ _ _ _ _ _ rfl).elim
    | sold hfree => exact hapart.sublist (List.eraseP_sublist.map _)
    | _ => exact hapart
  · exact List.nodup_nil

/-- A piece put down under a number is the only one of that number just when none had it. -/
theorem idsApart_furnished (hr : IdsApart r) {id : ℕ} {h : Held} (hget : r.held.get? id = some h)
    (kind : Furniture) (s x turn storey : ℕ)
    (hheld : r'.held = r.held.insert id (furnished h kind s x turn storey)) :
    IdsApart r' ↔ h.nextPiece ∉ h.pieces.map Piece.id := by
  have hids : (furnished h kind s x turn storey).pieces.map Piece.id
      = h.pieces.map Piece.id ++ [h.nextPiece] := List.map_append
  have hnodup : ((furnished h kind s x turn storey).pieces.map Piece.id).Nodup
      ↔ h.nextPiece ∉ h.pieces.map Piece.id := by
    rw [hids, List.nodup_append]
    constructor
    · intro hall hmem
      exact hall.2.2 _ hmem _ (List.mem_singleton.mpr rfl) rfl
    · intro hnot
      refine ⟨hr id h hget, List.nodup_singleton _, ?_⟩
      rintro y hy z hz rfl
      exact hnot (List.mem_singleton.mp hz ▸ hy)
  rw [← hnodup]
  constructor
  · intro hall
    exact hall id _ (by rw [hheld, Table.get?_insert, if_pos rfl])
  · intro hone k h' hk
    rw [hheld, Table.get?_insert] at hk
    split at hk
    · cases hk
      exact hone
    · exact hr k h' hk

end Homes

namespace Tenancy

open Homes

/-- No piece is bought under a number a piece of that home still has. -/
def FreshId (c : City) (t : Tenancy) : HomesAct → Prop
  | .serve who _ _ (.furnish id furniture s x turn storey) =>
    ∀ kind h, (c.home id).isSome → Furniture.ofSlug furniture = some kind →
      t.reg.Furnishes c id who kind s x turn storey (t.hangar who) h →
      h.nextPiece ∉ h.pieces.map Piece.id
  | _ => True

/-- One thing done, on a register no subtraction of which goes below zero. -/
def next (c : City) (t : Tenancy) (act : HomesAct) : Tenancy := (t.step c act).getD t

theorem step_eq_next (c : City) (t : Tenancy) (act : HomesAct) :
    t.step c act = some (t.next c act) := by
  obtain ⟨t', hstep, -⟩ := kept_step c t act
  rw [next, hstep, Option.getD_some]

theorem run_eq_foldl (c : City) (t : Tenancy) (acts : List HomesAct) :
    t.run c acts = some (acts.foldl (next c) t) := by
  induction acts generalizing t with
  | nil => rfl
  | cons act rest ih =>
    rw [run, List.foldlM_cons, step_eq_next]
    exact ih _

/-- What asking for furniture does to the ids: `FreshId`, of a register and a hangar. -/
theorem idsApart_serve (c : City) {r : Homes} (hr : IdsApart r) (hangar : Hangar) {who : Trader}
    {name furniture : String} {now id s x turn storey : ℕ} {o : Homes × Hangar × Hangar.Done}
    (ho : r.serve c (.furnish id furniture s x turn storey) hangar who name now = some o) :
    IdsApart o.1 ↔ ∀ kind h, (c.home id).isSome → Furniture.ofSlug furniture = some kind →
      r.Furnishes c id who kind s x turn storey hangar h →
      h.nextPiece ∉ h.pieces.map Piece.id := by
  unfold serve at ho
  simp only [HomeRequest.home] at ho
  cases hhome : c.home id with
  | none =>
    rw [hhome] at ho
    cases ho
    exact iff_of_true hr fun _ _ hsome => absurd hsome Bool.false_ne_true
  | some home =>
    rw [hhome] at ho
    dsimp only at ho
    cases hkind : Furniture.ofSlug furniture with
    | none =>
      rw [hkind] at ho
      cases ho
      exact iff_of_true hr fun _ _ _ hsome => absurd hsome.symm (Option.some_ne_none _)
    | some kind =>
      rw [hkind] at ho
      dsimp only at ho
      by_cases hf : ∃ h, r.Furnishes c id who kind s x turn storey hangar h
      · obtain ⟨h, hf⟩ := hf
        obtain ⟨done, hdone⟩ := furnish_done hf
        rw [hdone] at ho
        cases ho
        rw [idsApart_furnished hr hf.get kind s x turn storey rfl]
        constructor
        · rintro hfresh kind' h' - hkind' hf'
          have hsame : h = h' := Option.some.inj (hf.get.symm.trans hf'.get)
          exact hsame ▸ hfresh
        · intro hall
          exact hall kind h rfl rfl hf
      · obtain ⟨why, hwhy⟩ := furnish_refused (not_exists.mp hf)
        rw [hwhy] at ho
        cases ho
        refine iff_of_true hr ?_
        rintro kind' h' - hkind' hf'
        cases hkind'
        exact (hf ⟨h', hf'⟩).elim

theorem idsApart_step (c : City) {t : Tenancy} (ht : IdsApart t.reg) (act : HomesAct) :
    IdsApart (t.next c act).reg ↔ FreshId c t act := by
  have hstep := step_eq_next c t act
  have hother (hact : ∀ who name now id furniture s x turn storey,
      act ≠ .serve who name now (.furnish id furniture s x turn storey)) :
      IdsApart (t.next c act).reg := by
    obtain ⟨r, hm, hm'⟩ := moves_step c hstep
    exact (ht.moves hm hact).moves hm' hact
  cases act with
  | serve who name now req =>
    cases req with
    | furnish id furniture s x turn storey =>
      obtain ⟨o, ho, hnext⟩ := Option.bind_eq_some_iff.mp hstep
      rw [Option.some.injEq] at hnext
      rw [← hnext]
      exact idsApart_serve c ht _ ho
    | _ => exact iff_of_true (hother nofun) trivial
  | _ => exact iff_of_true (hother nofun) trivial

/-- Over a run from an empty register no two pieces of a home ever have one id just when no piece is
ever bought under a number still in use. -/
theorem piece_ids_apart_iff (c : City) (hangars : Table Trader Hangar) (acts : List HomesAct) :
    (∀ n t, run c ⟨hangars, Homes.new⟩ (acts.take n) = some t → IdsApart t.reg)
      ↔ Run.Along (next c) (FreshId c) ⟨hangars, Homes.new⟩ acts := by
  have hempty : IdsApart (⟨hangars, Homes.new⟩ : Tenancy).reg := by
    intro id h hget
    cases hget
  rw [← Run.forall_take_iff_along (I := fun t => IdsApart t.reg)
    (fun t act ht => idsApart_step c ht act) hempty]
  simp only [run_eq_foldl, Option.some.injEq, forall_eq']

def buyPlant : HomesAct := .serve "0xa" "ADA" 0 (.furnish 0 "plant" 20 20 0 0)

/-- A plant bought and sold again, so many times. -/
def plants (n : ℕ) : List HomesAct :=
  (List.range n).flatMap fun i => [buyPlant, .serve "0xa" "ADA" 0 (.sellPiece 0 (i + 1))]

structure OnePiece (t : Tenancy) (h : Held) (p : Piece) (nextId credits : ℕ) : Prop where
  get : t.reg.held.get? 0 = some h
  crew : "0xa" ∈ h.lock.crew
  pieces : h.pieces = [p]
  first : p.id = 0
  awake : h.asleep = []
  nextId : h.nextPiece = nextId
  credits : (t.hangar "0xa").credits = credits

theorem next_of_serve {c : City} {t : Tenancy} {who : Trader} {name : String} {now : ℕ}
    {req : HomeRequest} {r : Homes} {hangar : Hangar} {done : Hangar.Done}
    (ho : t.reg.serve c req (t.hangar who) who name now = some (r, hangar, done)) :
    t.next c (.serve who name now req) = ⟨t.hangars.insert who hangar, r⟩ := by
  have hstep := step_eq_next c t (.serve who name now req)
  rw [step, ho] at hstep
  exact (Option.some.inj hstep).symm

theorem hangar_insert (hangars : Table Trader Hangar) (who : Trader) (hangar : Hangar) (r : Homes) :
    (⟨hangars.insert who hangar, r⟩ : Tenancy).hangar who = hangar := by
  rw [Tenancy.hangar, Table.getD, Table.get?_insert, if_pos rfl, Option.getD_some]

theorem buy_plant {t : Tenancy} {h : Held} {p : Piece} {n credits : ℕ}
    (hone : OnePiece t h p n credits) (hpays : 60 ≤ credits) :
    (t.next oneFlat buyPlant).reg.held.get? 0 = some (furnished h .plant 20 20 0 0)
      ∧ ((t.next oneFlat buyPlant).hangar "0xa").credits = credits - 60 := by
  have hf : t.reg.Furnishes oneFlat 0 "0xa" .plant 20 20 0 0 (t.hangar "0xa") h := by
    refine ⟨hone.get, hone.crew, ?_, rfl, ?_⟩
    · rw [hone.pieces]
      exact Nat.lt_of_sub_eq_succ rfl
    · rw [hone.credits]
      exact hpays
  obtain ⟨done, hdone⟩ := furnish_done hf
  have hslug : Furniture.ofSlug "plant" = some .plant := by decide
  have hserve : t.reg.serve oneFlat (.furnish 0 "plant" 20 20 0 0) (t.hangar "0xa") "0xa" "ADA" 0
      = t.reg.furnish oneFlat 0 "0xa" .plant 20 20 0 0 (t.hangar "0xa") := by
    simp only [serve, HomeRequest.home, oneFlat, if_true, hslug]
  rw [buyPlant, next_of_serve (hserve.trans hdone)]
  constructor
  · exact (get?_setHeld ..).trans (if_pos rfl)
  · rw [hangar_insert, hone.credits]
    rfl

/-- A plant bought and sold leaves the flat as it was, but for the next id and 30 cr. -/
theorem plant_round {t : Tenancy} {h : Held} {p : Piece} {n credits : ℕ}
    (hone : OnePiece t h p n credits) (hn : n ≠ 0) (hpays : 60 ≤ credits) :
    ∃ h', OnePiece ((t.next oneFlat buyPlant).next oneFlat (.serve "0xa" "ADA" 0 (.sellPiece 0 n)))
      h' p ((n + 1) % 2 ^ 16) (credits - 30) := by
  obtain ⟨hget, hcredits⟩ := buy_plant hone hpays
  generalize t.next oneFlat buyPlant = t₁ at hget hcredits ⊢
  have hcrewOf : t₁.reg.crewOf 0 "0xa" = .ok _ := crewOf_of_mem hget hone.crew
  have hpieces : (furnished h .plant 20 20 0 0).pieces = [p, ⟨n, .plant, 20, 20, 0, 0, []⟩] := by
    rw [furnished, hone.pieces, hone.nextId]
    rfl
  have hsell : ∃ r hangar done,
      t₁.reg.sellPiece 0 "0xa" n (t₁.hangar "0xa") = some (r, hangar, done)
        ∧ r.held = t₁.reg.held.insert 0 { furnished h .plant 20 20 0 0 with pieces := [p] }
        ∧ hangar.credits = credits - 30 := by
    have hfirst : p.id ≠ n := by
      rw [hone.first]
      exact hn.symm
    have hback : (t₁.hangar "0xa").credits + Furniture.plant.back = credits - 30 := by
      have hplant : Furniture.plant.back = 30 := by decide
      omega
    unfold sellPiece
    rw [hcrewOf]
    simp only [hpieces, List.find?_cons, hfirst, decide_false, decide_true]
    simp only [furnished, hone.awake, List.isEmpty_nil, not_true_eq_false, if_false, List.any_nil,
      Bool.false_eq_true]
    refine ⟨_, _, _, rfl, ?_, hback⟩
    simp only [setHeld, hone.nextId, List.eraseP_cons, hfirst, decide_false, decide_true]
    rfl
  obtain ⟨r, hangar, done, hsell, hheld, hleft⟩ := hsell
  have hserve : t₁.reg.serve oneFlat (.sellPiece 0 n) (t₁.hangar "0xa") "0xa" "ADA" 0
      = t₁.reg.sellPiece 0 "0xa" n (t₁.hangar "0xa") := by
    simp only [serve, HomeRequest.home, oneFlat, if_true]
  rw [next_of_serve (hserve.trans hsell)]
  refine ⟨{ furnished h .plant 20 20 0 0 with pieces := [p] }, ?_, hone.crew, rfl, hone.first,
    hone.awake, ?_, ?_⟩
  · rw [hheld, Table.get?_insert, if_pos rfl]
  · rw [furnished, hone.nextId]
  · rw [hangar_insert, hleft]

theorem plant_rounds {t : Tenancy} {h : Held} {p : Piece} {credits n : ℕ}
    (hone : OnePiece t h p 1 credits) (hn : n < 2 ^ 16) (hpays : 30 * n + 30 ≤ credits) :
    ∃ h', OnePiece ((plants n).foldl (next oneFlat) t) h' p ((n + 1) % 2 ^ 16)
      (credits - 30 * n) := by
  induction n with
  | zero => exact ⟨h, hone⟩
  | succ n ih =>
    obtain ⟨h', hround⟩ := ih (by omega) (by omega)
    have hmod : (n + 1) % 2 ^ 16 = n + 1 := Nat.mod_eq_of_lt hn
    rw [hmod] at hround
    obtain ⟨h'', hnext⟩ := plant_round hround (Nat.succ_ne_zero n) (by omega)
    refine ⟨h'', ?_⟩
    have hplants : plants (n + 1)
        = plants n ++ [buyPlant, .serve "0xa" "ADA" 0 (.sellPiece 0 (n + 1))] := by
      rw [plants, List.range_succ, List.flatMap_append]
      rfl
    rw [hplants, List.foldl_append]
    have hspent : credits - 30 * n - 30 = credits - 30 * (n + 1) := by omega
    exact hspent ▸ hnext

/-- A pilot with credits enough for them all. -/
def rich : Tenancy :=
  ⟨Table.empty.insert "0xa" { Hangar.empty with credits := 10000000 }, Homes.new⟩

/-- The flat rented and a first plant bought, so many more bought and sold, and one bought. -/
def plantRun (n : ℕ) : List HomesAct :=
  .serve "0xa" "ADA" 0 (.rent 0 1) :: buyPlant :: (plants n ++ [buyPlant])

theorem rich_start :
    ∃ h p, OnePiece ((rich.next oneFlat (.serve "0xa" "ADA" 0 (.rent 0 1))).next oneFlat buyPlant)
      h p 1 9999840 := by
  let p : Piece := ⟨0, .plant, 20, 20, 0, 0, []⟩
  let h : Held := { newlyHeld "0xa" "ADA" (.lease 100 0 none) 0 with pieces := [p], nextPiece := 1 }
  refine ⟨h, p, by decide +kernel, by decide, rfl, rfl, rfl, rfl, by decide +kernel⟩

theorem plantRun_repeats {n : ℕ} (hn : n + 1 = 2 ^ 16) :
    ∃ t, run oneFlat rich (plantRun n) = some t ∧ ¬ IdsApart t.reg := by
  obtain ⟨h, p, hstart⟩ := rich_start
  obtain ⟨h', hend⟩ := plant_rounds hstart (n := n) (by omega) (by omega)
  obtain ⟨hget, -⟩ := buy_plant hend (by omega)
  refine ⟨_, run_eq_foldl oneFlat rich (plantRun n), fun hapart => ?_⟩
  simp only [plantRun, List.foldl_cons, List.foldl_append, List.foldl_nil] at hapart
  have hids := hapart 0 _ hget
  -- The counter is back at 0, the first plant's id.
  rw [furnished, hend.pieces, hend.nextId, hn] at hids
  simp [hend.first] at hids

/-- Two plants of one flat are both piece 0, once 65,535 more have been bought and sold. -/
theorem piece_id_comes_round :
    ¬ ∀ (c : City) (hangars : Table Trader Hangar) (acts : List HomesAct) (t : Tenancy),
      run c ⟨hangars, Homes.new⟩ acts = some t → IdsApart t.reg := by
  intro hclaim
  obtain ⟨t, hrun, hrepeats⟩ := plantRun_repeats (n := 65535) rfl
  exact hrepeats (hclaim oneFlat _ _ t hrun)

end Tenancy

end BeforeColony
