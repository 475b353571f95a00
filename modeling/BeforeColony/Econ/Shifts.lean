import BeforeColony.Lib.Run
import Mathlib.Data.List.Nodup
import Mathlib.Tactic.SplitIfs

/-!
# Seats

Every job in the colony is a seat at a post, worked by who sits down in it or, when nobody does, by
the colony's staff. A seat is its worker's till they get up or stay away ten minutes, and nobody has
two (`shift_kept`).
-/

set_option autoImplicit false

namespace BeforeColony.Shifts

open Lib

def shiftLapseS : ℕ := 10 * 60

abbrev Done := Except String String

inductive Job where
  | cook | barkeep | courier | customs | dockmaster | foundry | mechanic
deriving DecidableEq, Repr

namespace Job

def name : Job → String
  | cook => "Cook"
  | barkeep => "Barkeep"
  | courier => "Courier"
  | customs => "Customs officer"
  | dockmaster => "Dockmaster"
  | foundry => "Foundry operator"
  | mechanic => "Mechanic"

def tag : Job → String
  | cook => "COOK"
  | barkeep => "BARKEEP"
  | courier => "COURIER"
  | customs => "CUSTOMS"
  | dockmaster => "DOCKMASTER"
  | foundry => "FOUNDRY"
  | mechanic => "MECHANIC"

end Job

def stripNames : List String := ["CHARTER", "CANAL", "GARDENS"]

inductive Post where
  | arrival
  | streets
  | hubGate (strip : ℕ)
  | dock
  | foundry
  | bays
deriving DecidableEq, Repr

def Post.name : Post → String
  | arrival => "The Arrival"
  | streets => "the streets"
  | hubGate strip =>
    match stripNames[strip]? with
    | some s => s.toLower.capitalize ++ "'s Hub Gate"
    | none => "Hub Gate"
  | dock => "the dock"
  | foundry => "the foundry"
  | bays => "the bays"

/-- Who works a seat, when they sat down and when they were last at work. -/
structure Holder where
  who : String
  name : String
  since : ℕ
  seen : ℕ
deriving DecidableEq, Repr

/-- One job at one post; held by nobody, the colony's staff work it. -/
structure Seat where
  id : ℕ
  job : Job
  post : Post
  held : Option Holder
deriving DecidableEq, Repr

namespace Seat

def lapsed (s : Seat) (now : ℕ) : Bool := s.held.any fun h => h.seen + shiftLapseS ≤ now

def isHeldBy (s : Seat) (who : String) : Bool := s.held.any fun h => h.who = who

end Seat

def changeFirst {α : Type*} (p : α → Bool) (f : α → α) : List α → List α
  | [] => []
  | x :: rest => if p x then f x :: rest else x :: changeFirst p f rest

def colonySeats : List (Job × Post × ℕ) :=
  [(.cook, .arrival, 2), (.barkeep, .arrival, 1), (.courier, .streets, 6),
    (.customs, .hubGate 0, 1), (.customs, .hubGate 1, 1), (.customs, .hubGate 2, 1),
    (.dockmaster, .dock, 1), (.foundry, .foundry, 2), (.mechanic, .bays, 3)]

structure Seats where
  seats : List Seat
deriving DecidableEq, Repr

namespace Seats

def colony : Seats :=
  ⟨(colonySeats.flatMap fun (job, post, n) => List.replicate n (job, post)).mapIdx
    fun k (job, post) => ⟨k + 1, job, post, none⟩⟩

def seat (s : Seats) (id : ℕ) : Option Seat := s.seats.find? fun x => x.id = id

def heldBy (s : Seats) (who : String) : Option Seat := s.seats.find? fun x => x.isHeldBy who

def onShift (seat : Seat) : String :=
  "ON SHIFT · " ++ seat.job.tag ++ " AT " ++ seat.post.name.toUpper

def sit (s : Seats) (id : ℕ) (h : Holder) : Seats :=
  ⟨changeFirst (fun x => x.id = id) (fun x => { x with held := some h }) s.seats⟩

/-- `who` sits down in seat `id`: one the staff are working, or one whose shift has lapsed. -/
def take (s : Seats) (id : ℕ) (who name : String) (now : ℕ) : Seats × Done :=
  match s.heldBy who with
  | some mine =>
    (s, .error (if mine.id = id then "you're working it already"
      else "you're already on shift as " ++ mine.job.name.toLower ++ " at " ++ mine.post.name))
  | none =>
    match s.seat id with
    | none => (s, .error "there's no such seat")
    | some seat =>
      match seat.held with
      | some h =>
        if seat.lapsed now then (s.sit id ⟨who, name, now, now⟩, .ok (onShift seat))
        else (s, .error (h.name ++ " is working it"))
      | none => (s.sit id ⟨who, name, now, now⟩, .ok (onShift seat))

/-- `who` gets up from their seat, and the staff take it back. -/
def leave (s : Seats) (who : String) : Seats × Done :=
  match s.heldBy who with
  | none => (s, .error "you're not on shift")
  | some seat =>
    (⟨changeFirst (fun x => x.isHeldBy who) (fun x => { x with held := none }) s.seats⟩,
      .ok ("OFF SHIFT · THE COLONY'S STAFF TAKE OVER AS " ++ seat.job.tag))

def atWork (s : Seats) (who : String) (now : ℕ) : Seats × Bool :=
  (⟨changeFirst (fun x => x.isHeldBy who)
      (fun x => { x with held := x.held.map fun h => { h with seen := max h.seen now } }) s.seats⟩,
    (s.heldBy who).isSome)

/-- Hands back to the staff every seat whose shift has lapsed: who they were. -/
def lapse (s : Seats) (now : ℕ) : Seats × List String :=
  (⟨s.seats.map fun x => if x.lapsed now then { x with held := none } else x⟩,
    s.seats.filterMap fun x => if x.lapsed now then x.held.map Holder.who else none)

inductive Act where
  | take (id : ℕ) (who name : String) (now : ℕ)
  | leave (who : String)
  | atWork (who : String) (now : ℕ)
  | lapse (now : ℕ)

def step (s : Seats) : Act → Seats
  | .take id who name now => (s.take id who name now).1
  | .leave who => (s.leave who).1
  | .atWork who now => (s.atWork who now).1
  | .lapse now => (s.lapse now).1

def after (acts : List Act) : Seats := acts.foldl step colony

/-! ## What an act does to the seats -/

theorem changeFirst_spec {α : Type*} (p : α → Bool) (f : α → α) (l : List α) :
    (changeFirst p f l = l ∧ l.find? p = none)
      ∨ ∃ a x b, l = a ++ x :: b ∧ p x = true ∧ changeFirst p f l = a ++ f x :: b
        ∧ l.find? p = some x := by
  induction l with
  | nil => exact .inl ⟨rfl, rfl⟩
  | cons y rest ih =>
    rw [changeFirst]
    by_cases hy : p y = true
    · rw [if_pos hy]
      exact .inr ⟨[], y, rest, rfl, hy, rfl, List.find?_cons_of_pos hy⟩
    · rw [if_neg hy, List.find?_cons_of_neg hy]
      rcases ih with ⟨hsame, hnone⟩ | ⟨a, x, b, hrest, hx, hchange, hfind⟩
      · exact .inl ⟨by rw [hsame], hnone⟩
      · exact .inr ⟨y :: a, x, b, by rw [hrest]; rfl, hx, by rw [hchange]; rfl, hfind⟩

def place (x : Seat) : ℕ × Job × Post := (x.id, x.job, x.post)

def places (s : Seats) : List (ℕ × Job × Post) := s.seats.map place

def onShiftKeys (s : Seats) : List String := s.seats.filterMap fun x => x.held.map Holder.who

/-- The seats are the colony's, and nobody works two. -/
structure Orderly (s : Seats) : Prop where
  places : s.places = colony.places
  one : s.onShiftKeys.Nodup

theorem changed {s : Seats} {p : Seat → Bool} {f : Seat → Seat} (hplace : ∀ x, place (f x) = place x) :
    (⟨changeFirst p f s.seats⟩ : Seats).places = s.places := by
  rcases changeFirst_spec p f s.seats with ⟨hsame, -⟩ | ⟨a, x, b, hseats, -, hchange, -⟩
  · rw [places, hsame, places]
  · rw [places, hchange, places, hseats, List.map_append, List.map_append, List.map_cons,
      List.map_cons, hplace]

theorem keys_split (a : List Seat) (x : Seat) (b : List Seat) :
    (⟨a ++ x :: b⟩ : Seats).onShiftKeys = (⟨a⟩ : Seats).onShiftKeys
      ++ ((x.held.map Holder.who).toList ++ (⟨b⟩ : Seats).onShiftKeys) := by
  unfold onShiftKeys
  rw [List.filterMap_append, List.filterMap_cons]
  cases x.held with
  | none => rfl
  | some h => rfl

variable {s : Seats}

theorem not_mem_keys {who : String} (h : s.heldBy who = none) : who ∉ s.onShiftKeys := by
  intro hmem
  obtain ⟨x, hx, hwho⟩ := List.mem_filterMap.mp hmem
  have hnot := List.find?_eq_none.mp h x hx
  apply hnot
  cases hheld : x.held with
  | none =>
    rw [hheld] at hwho
    exact nomatch hwho
  | some h' =>
    rw [hheld] at hwho
    rw [Seat.isHeldBy, hheld, Option.any_some, decide_eq_true_eq]
    exact Option.some.inj hwho

theorem Orderly.sit (h : s.Orderly) (id : ℕ) {holder : Holder}
    (hnone : s.heldBy holder.who = none) : (s.sit id holder).Orderly := by
  have hplaces : (s.sit id holder).places = s.places := changed fun _ => rfl
  refine ⟨hplaces.trans h.places, ?_⟩
  have hone := h.one
  have hwho := not_mem_keys hnone
  rw [Seats.sit]
  rcases changeFirst_spec (fun x : Seat => x.id = id) (fun x => { x with held := some holder }) s.seats
    with ⟨hsame, -⟩ | ⟨a, x, b, hseats, -, hchange, -⟩
  · rw [hsame]
    exact hone
  · have hs : s = ⟨a ++ x :: b⟩ := by rw [← hseats]
    rw [hs, keys_split] at hone hwho
    rw [hchange, keys_split]
    apply List.nodup_middle.mpr
    constructor
    · intro other hmem heq
      subst heq
      rcases List.mem_append.mp hmem with hleft | hright
      · exact hwho (List.mem_append_left _ hleft)
      · exact hwho (List.mem_append_right _ (List.mem_append_right _ hright))
    · refine hone.sublist ?_
      apply List.Sublist.append_left
      exact List.sublist_append_right _ _

/-- The staff take a seat back, or its worker is seen at work. -/
theorem Orderly.change (h : s.Orderly) (p : Seat → Bool) {f : Seat → Seat}
    (hplace : ∀ x, place (f x) = place x)
    (hkey : ∀ x, (f x).held = none ∨ (f x).held.map Holder.who = x.held.map Holder.who) :
    (⟨changeFirst p f s.seats⟩ : Seats).Orderly := by
  refine ⟨(changed hplace).trans h.places, ?_⟩
  have hone := h.one
  rcases changeFirst_spec p f s.seats with ⟨hsame, -⟩ | ⟨a, x, b, hseats, -, hchange, -⟩
  · rw [hsame]
    exact hone
  · have hs : s = ⟨a ++ x :: b⟩ := by rw [← hseats]
    rw [hs, keys_split] at hone
    rw [hchange, keys_split]
    rcases hkey x with hnone | hsame
    · rw [hnone]
      refine hone.sublist ?_
      apply List.Sublist.append_left
      exact List.sublist_append_right _ _
    · rw [hsame]
      exact hone

theorem Orderly.lapse (h : s.Orderly) (now : ℕ) : (s.lapse now).1.Orderly := by
  constructor
  · refine Eq.trans ?_ h.places
    rw [Seats.lapse, Seats.places, Seats.places, List.map_map]
    apply List.map_congr_left
    intro x _
    rw [Function.comp_apply]
    split
    · rfl
    · rfl
  · refine h.one.sublist ?_
    rw [Seats.lapse, onShiftKeys, onShiftKeys, List.filterMap_map]
    generalize s.seats = l
    induction l with
    | nil => exact List.Sublist.refl _
    | cons x rest ih =>
      rw [List.filterMap_cons, List.filterMap_cons, Function.comp_apply]
      by_cases hlapsed : x.lapsed now = true
      · rw [if_pos hlapsed, Option.map_none]
        cases x.held with
        | none => exact ih
        | some holder => exact ih.cons _
      · rw [if_neg hlapsed]
        cases x.held with
        | none => exact ih
        | some holder => exact ih.cons_cons _

theorem Orderly.step (h : s.Orderly) (act : Act) : (s.step act).Orderly := by
  cases act with
  | take id who name now =>
    rw [Seats.step, Seats.take]
    split
    · exact h
    · rename_i hnone
      split
      · exact h
      · split
        · split
          · exact h.sit id hnone
          · exact h
        · exact h.sit id hnone
  | leave who =>
    rw [Seats.step, Seats.leave]
    split
    · exact h
    · exact h.change _ (fun _ => rfl) fun _ => .inl rfl
  | atWork who now =>
    refine h.change (fun x => x.isHeldBy who) (fun _ => ?_) fun x => .inr ?_
    · rfl
    · cases x.held with
      | none => rfl
      | some holder => rfl
  | lapse now => exact h.lapse now

theorem orderly_after (acts : List Act) : (after acts).Orderly := by
  have hrun : ∀ s : Seats, s.Orderly → (acts.foldl Seats.step s).Orderly := by
    induction acts with
    | nil => exact fun s h => h
    | cons act rest ih => exact fun s h => ih _ (h.step act)
  refine hrun colony ⟨rfl, ?_⟩
  decide

/-! ## A seat is its worker's -/

def Works (s : Seats) (id : ℕ) (h : Holder) : Prop :=
  ∃ x ∈ s.seats, x.id = id ∧ ∃ h', x.held = some h' ∧ h'.who = h.who ∧ h'.name = h.name
    ∧ h'.since = h.since ∧ h.seen ≤ h'.seen

/-- Nothing that puts its worker out: not their getting up, nor any act ten minutes after they were
last at work. -/
def Spares (h : Holder) : Act → Prop
  | .take _ _ _ now | .lapse now => now < h.seen + shiftLapseS
  | .leave who => who ≠ h.who
  | .atWork _ _ => True

theorem changeFirst_mem {α : Type*} {p : α → Bool} {f : α → α} {l : List α} {x : α} (hx : x ∈ l) :
    x ∈ changeFirst p f l ∨ p x = true ∧ f x ∈ changeFirst p f l ∧ l.find? p = some x := by
  rcases changeFirst_spec p f l with ⟨hsame, -⟩ | ⟨a, y, b, hl, hy, hchange, hfind⟩
  · rw [hsame]
    exact .inl hx
  · rw [hl] at hx
    rw [hchange, hfind]
    rcases List.mem_append.mp hx with ha | hb
    · exact .inl (List.mem_append_left _ ha)
    · rcases List.mem_cons.mp hb with rfl | hb
      · exact .inr ⟨hy, List.mem_append_right _ List.mem_cons_self, rfl⟩
      · exact .inl (List.mem_append_right _ (List.mem_cons_of_mem _ hb))

theorem Works.step {id : ℕ} {h : Holder} (hworks : s.Works id h) {act : Act} (hspares : Spares h act) :
    (s.step act).Works id h := by
  obtain ⟨x, hx, hid, h', hheld, hwho, hname, hsince, hseen⟩ := hworks
  have hsame {s' : Seats} (hmem : x ∈ s'.seats) : s'.Works id h :=
    ⟨x, hmem, hid, h', hheld, hwho, hname, hsince, hseen⟩
  have hfresh {now : ℕ} (hnow : now < h.seen + shiftLapseS) : x.lapsed now = false := by
    rw [Seat.lapsed, hheld, Option.any_some, decide_eq_false_iff_not]
    omega
  cases act with
  | take id' who name now =>
    have hsit (hfree : ∀ y, s.seat id' = some y → y ≠ x) (holder : Holder) :
        (s.sit id' holder).Works id h := by
      rcases changeFirst_mem (p := fun x : Seat => x.id = id')
        (f := fun x => { x with held := some holder }) hx with hmem | ⟨-, -, hfind⟩
      · exact hsame hmem
      · exact absurd rfl (hfree x hfind)
    rw [Seats.step, Seats.take]
    split
    · exact hsame hx
    · split
      · exact hsame hx
      · rename_i y hy
        split
        · split
          · rename_i hlapsed
            apply hsit
            rintro z hz rfl
            cases hy.symm.trans hz
            rw [hfresh hspares] at hlapsed
            exact Bool.noConfusion hlapsed
          · exact hsame hx
        · rename_i hnone
          apply hsit
          rintro z hz rfl
          cases hy.symm.trans hz
          exact nomatch hnone.symm.trans hheld
  | leave who =>
    rw [Seats.step, Seats.leave]
    split
    · exact hsame hx
    · rcases changeFirst_mem (p := fun x : Seat => x.isHeldBy who)
        (f := fun x => { x with held := none }) hx with hmem | ⟨hmine, -⟩
      · exact hsame hmem
      · rw [Seat.isHeldBy, hheld, Option.any_some, decide_eq_true_eq] at hmine
        exact absurd (hmine.symm.trans hwho) hspares
  | atWork who now =>
    rcases changeFirst_mem (p := fun x : Seat => x.isHeldBy who)
      (f := fun x => { x with held := x.held.map fun h => { h with seen := max h.seen now } }) hx
      with hmem | ⟨-, hmem, -⟩
    · exact hsame hmem
    · refine ⟨_, hmem, hid, { h' with seen := max h'.seen now }, ?_, hwho, hname, hsince, ?_⟩
      · rw [hheld, Option.map_some]
      · exact hseen.trans (le_max_left _ _)
  | lapse now =>
    apply hsame
    refine List.mem_map.mpr ⟨x, hx, ?_⟩
    rw [hfresh hspares, if_neg Bool.false_ne_true]

theorem Works.run {id : ℕ} {h : Holder} {later : List Act} (hworks : s.Works id h)
    (hspares : ∀ act ∈ later, Spares h act) : (later.foldl Seats.step s).Works id h := by
  induction later generalizing s with
  | nil => exact hworks
  | cons act rest ih =>
    apply ih
    · exact hworks.step (hspares act List.mem_cons_self)
    · exact fun act' hmem => hspares act' (List.mem_cons_of_mem _ hmem)

end Seats

end BeforeColony.Shifts
