import BeforeColony.Econ.Rigging

/-!
# What each bay operation can do

Fitting and stripping, read off as the cases they come to, with the suit and the stores
they leave. The goods that only go to the stores leave the bay alone.
-/

set_option autoImplicit false

namespace BeforeColony

open Catalogue

namespace PilotHangar

variable {h : PilotHangar} {s : Suit}

@[simp] theorem bay_store (h : PilotHangar) (st : Stores) : (h.store st).bay = h.bay := rfl
@[simp] theorem stores_store (h : PilotHangar) (st : Stores) : (h.store st).stores = st := rfl
@[simp] theorem bay_dock (h : PilotHangar) (s : Suit) : (h.dock s).bay = .docked s := rfl
@[simp] theorem stores_dock (h : PilotHangar) (s : Suit) : (h.dock s).stores = h.stores := rfl

theorem suit_eq (hbay : h.bay = .docked s) : h.suit = .ok s := by
  simp [suit, hbay]

theorem bay_eq_of_suit (hsuit : h.suit = .ok s) : h.bay = .docked s := by
  unfold suit at hsuit
  split at hsuit
  · rename_i hbay
    cases hsuit
    exact hbay
  · cases hsuit
  · cases hsuit

/-! ### Fitting -/

inductive Fits (h : PilotHangar) : Item → PilotHangar × Done → Prop
  | refused (item : Item) (why : String) : Fits h item (h, .error why)
  | built {line : FrameId} {u : PartUnit} {st : Stores} (done : String) (hbay : h.bay = .empty)
      (htake : h.stores.takeBestPart line .torso = some (u, st)) :
      Fits h (.part line .torso) ((h.store st).dock (.on u), .ok done)
  | part {s : Suit} {p : Part} {u : PartUnit} {st : Stores} (done : String)
      (hbay : h.bay = .docked s) (hfree : s.isFitted p = false)
      (htake : h.stores.takeBestPart s.line p = some (u, st)) :
      Fits h (.part s.line p) ((h.store st).dock (s.attach p u), .ok done)
  | module {s : Suit} {k : ModuleKind} {j : Fin 5} {st : Stores} (done : String)
      (hbay : h.bay = .docked s) (hpart : k.part = moduleMounts j) (hfree : s.modules j = none)
      (hnew : ∀ j', s.modules j' ≠ some k) (hfit : s.isFitted k.part = true)
      (htake : h.stores.take (.module k) 1 = some st) :
      Fits h (.module k) ((h.store st).dock (s.equip j k), .ok done)
  | weapon {s : Suit} {w : WeaponKind} {m : Fin 3} {st : Stores} (done : String)
      (hbay : h.bay = .docked s) (hslot : s.slotFor (.weapon w) = some (.mount m))
      (hw : s.weaponOn m = some w) (hfree : s.mounts m = false)
      (htake : h.stores.take (.weapon w) 1 = some st) :
      Fits h (.weapon w) ((h.store st).dock (s.arm m), .ok done)

theorem fits_fitPart {p : Part} (hbay : h.bay = .docked s) (hfree : s.isFitted p = false) :
    Fits h (.part s.line p) (h.fitPart s (.part s.line p) p) := by
  unfold fitPart
  cases htake : h.stores.takeBestPart s.line p with
  | none => exact .refused _ _
  | some e => exact .part _ hbay hfree htake

theorem fits (h : PilotHangar) (item : Item) : Fits h item (h.fit item) := by
  unfold fit
  cases hbay : h.bay with
  | empty =>
    dsimp only
    split
    · rename_i line
      split
      · exact .refused _ _
      · rename_i u st htake
        exact .built _ hbay htake
    · exact .refused _ _
  | out s => exact .refused _ _
  | docked s =>
    dsimp only
    cases hslot : s.slotFor item with
    | none => exact .refused _ _
    | some slot =>
      cases slot with
      | part p =>
        obtain ⟨rfl, hfree⟩ := Suit.slotFor_part hslot
        exact fits_fitPart hbay hfree
      | module i =>
        obtain ⟨k, j, rfl, rfl, hpart, hfree, hnew, hfit⟩ := Suit.slotFor_module hslot
        cases htake : h.stores.take (.module k) 1 with
        | none => exact .refused _ _
        | some st => exact .module _ hbay hpart hfree hnew hfit htake
      | mount m =>
        obtain ⟨w, n, rfl, rfl, hw, hfree⟩ := Suit.slotFor_mount hslot
        cases htake : h.stores.take (.weapon w) 1 with
        | none => exact .refused _ _
        | some st => exact .weapon _ hbay hslot hw hfree htake

/-! ### Stripping -/

def unloaded (st : Stores) (s : Suit) (m : Fin 3) (w : WeaponKind) : Stores :=
  (if 0 < s.fullLoad m then st.add munitions (s.ammo m * munitionsPerLoad w / s.fullLoad m)
    else st).add (.weapon w) 1

theorem unmount_eq {m : Fin 3} {w : WeaponKind} (hbay : h.bay = .docked s)
    (hw : s.weaponOn m = some w) :
    (h.unmount m).1 = (h.store (unloaded h.stores s m w)).dock (s.disarm m) := by
  unfold unmount
  rw [hbay]
  dsimp only
  rw [hw]
  rfl

def unmountAll (h : PilotHangar) (l : List (Fin 3)) : PilotHangar :=
  l.foldl (fun h m => (h.unmount m).1) h

theorem foldl_unmount (l : List (Fin 3)) (h : PilotHangar) (notes : List String) :
    (l.foldl (fun (st : PilotHangar × List String) m =>
      let (h, note) := st.1.unmount m; (h, st.2 ++ [note])) (h, notes)).1 = h.unmountAll l := by
  unfold unmountAll
  induction l generalizing h notes with
  | nil => rfl
  | cons m rest ih => exact ih _ _

theorem bay_unmountAll {l : List (Fin 3)} (hbay : h.bay = .docked s)
    (harmed : ∀ m ∈ l, (s.weaponOn m).isSome = true) :
    (h.unmountAll l).bay = .docked (l.foldl Suit.disarm s) := by
  unfold unmountAll
  induction l generalizing h s with
  | nil => exact hbay
  | cons m rest ih =>
    obtain ⟨w, hw⟩ := Option.isSome_iff_exists.mp (harmed m List.mem_cons_self)
    rw [List.foldl_cons, List.foldl_cons, unmount_eq hbay hw]
    exact ih (bay_dock _ _) fun n hn => harmed n (List.mem_cons_of_mem m hn)

def partStripped (h : PilotHangar) (s : Suit) (p : Part) (c : ℕ) : PilotHangar :=
  let off := (h.dock (s.detach p)).unmountAll (s.detach p).loose
  let st := (s.gearOn p).foldl (fun st kind => st.add (.module kind) 1) off.stores
  off.store (st.addPart ⟨s.line, p, c, s.faults.ofPart p⟩)

def torsoStripped (h : PilotHangar) (s : Suit) : PilotHangar :=
  let st := h.stores.addPart
    ⟨s.line, .torso, (s.parts .torso).getD 1, s.faults.ofPart .torso⟩
  { (h.store (st.add s.grade.item s.propellant)) with bay := .empty }

/-- What taking something off the suit can come to. -/
inductive Strips (h : PilotHangar) (s : Suit) : Slot → PilotHangar × Done → Prop
  | refused (slot : Slot) (why : String) : Strips h s slot (h, .error why)
  | torso (done : String) (hfitted : s.fitted.length ≤ 1) (hmounts : ∀ m, s.mounts m = false)
      (hmodules : ∀ i, s.modules i = none) :
      Strips h s (.part .torso) (h.torsoStripped s, .ok done)
  | part {p : Part} {c : ℕ} (done : String) (hp : p ≠ .torso) (hc : s.parts p = some c) :
      Strips h s (.part p) (h.partStripped s p c, .ok done)
  | module {i : Fin 5} {k : ModuleKind} (done : String) (hk : s.modules i = some k) :
      Strips h s (.module i)
        ((h.store (h.stores.add (.module k) 1)).dock (s.unequip i), .ok done)
  | weapon {m : Fin 3} (done : String) (hm : s.mounts m = true) :
      Strips h s (.mount m) ((h.unmount m).1, .ok done)

theorem strips_stripTorso (h : PilotHangar) (s : Suit) :
    Strips h s (.part .torso) (h.stripTorso s) := by
  unfold stripTorso
  split
  · exact .refused _ _
  · split
    · exact .refused _ _
    · rename_i hmounts hmodules
      simp only [not_or, not_lt, Bool.not_eq_true, List.any_eq_false, List.mem_finRange,
        forall_const] at hmounts hmodules
      exact .torso _ hmounts.1 hmounts.2 fun i => by simpa using hmodules i

theorem strips_stripPart {p : Part} (hp : p ≠ .torso) :
    Strips h s (.part p) (h.stripPart s p) := by
  unfold stripPart
  cases hc : s.parts p with
  | none => exact .refused _ _
  | some c =>
    have heq := foldl_unmount (s.detach p).loose (h.dock (s.detach p))
      [s!"{(partName p).toUpper} OFF"]
    dsimp only at heq ⊢
    rw [heq]
    exact .part _ hp hc

theorem strips (hbay : h.bay = .docked s) (slot : Slot) : Strips h s slot (h.stripOff slot) := by
  unfold stripOff
  rw [suit_eq hbay]
  cases slot with
  | part p =>
    cases p with
    | torso => exact strips_stripTorso h s
    | _ => exact strips_stripPart (by decide)
  | module m =>
    dsimp only
    split
    · exact .refused _ _
    · rename_i i hi
      have := List.find?_some hi
      simp only [Bool.and_eq_true, decide_eq_true_eq] at this
      obtain ⟨rfl, -⟩ := this
      split
      · exact .refused _ _
      · rename_i k hk
        exact .module _ hk
  | mount m =>
    dsimp only
    split
    · exact .refused _ _
    · rename_i n hn
      have := List.find?_some hn
      simp only [Bool.and_eq_true, decide_eq_true_eq] at this
      obtain ⟨rfl, hmount⟩ := this
      exact .weapon _ hmount

/-- With what the tank holds too much of pumped back. -/
theorem settleTank_eq (hbay : h.bay = .docked s) :
    h.settleTank.1 = (h.store (h.stores.add s.grade.item (s.propellant - s.tank))).dock
      { s with propellant := s.propellant - (s.propellant - s.tank) } := by
  unfold settleTank
  rw [hbay]

theorem strip_fst (h : PilotHangar) (slot : Slot) :
    (h.strip slot).1 = match (h.stripOff slot).2 with
      | .error _ => (h.stripOff slot).1
      | .ok _ => (h.stripOff slot).1.settleTank.1 := by
  unfold strip
  rcases h.stripOff slot with ⟨h', why | done⟩
  · rfl
  · dsimp only
    split <;> simp_all

/-! ### What only reaches the stores -/

@[simp] theorem bay_scrapMetal (h : PilotHangar) (line : FrameId) (kg : ℕ) :
    (h.scrapMetal line kg).1.bay = h.bay := rfl

@[simp] theorem bay_salvagePart (h : PilotHangar) (line : FrameId) (part : Part)
    (condition level : ℕ) : (h.salvagePart line part condition level).1.bay = h.bay := rfl

/-- What is added note by note and leaves the bay alone leaves it alone to the end. -/
theorem bay_foldl {α : Type*} {f : PilotHangar × List String → α → PilotHangar × List String}
    (hf : ∀ st a, (f st a).1.bay = st.1.bay) (l : List α) (st : PilotHangar × List String) :
    (l.foldl f st).1.bay = st.1.bay := by
  induction l generalizing st with
  | nil => rfl
  | cons a rest ih => rw [List.foldl_cons, ih, hf]

theorem bay_salvageHulkPart (frame : FrameId) (parts : ℕ) (st : PilotHangar × List String)
    (part : Part) : (salvageHulkPart frame parts st part).1.bay = st.1.bay := by
  unfold salvageHulkPart
  split
  · rfl
  · dsimp only
    split <;> rfl

theorem bay_unload (cargoKg : Ore → ℕ) (st : PilotHangar × List String) (ore : Ore) :
    (unload cargoKg st ore).1.bay = st.1.bay := by
  unfold unload
  split <;> rfl

@[simp] theorem bay_salvage (h : PilotHangar) (desc : ChunkDesc) :
    (h.salvage desc).1.bay = h.bay := by
  unfold salvage
  split
  · split <;> rfl
  · dsimp only
    split <;> rfl
  · exact bay_foldl (bay_salvageHulkPart _ _) _ _

@[simp] theorem bay_towed (h : PilotHangar) (wreck : Option ChunkDesc) (torso : Bool) :
    (h.towed wreck torso).1.bay = h.bay := by
  unfold towed
  split
  · rfl
  · dsimp only
    split
    · split
      · split <;> exact bay_salvage _ _
      · exact bay_salvage _ _
    · exact bay_salvage _ _

@[simp] theorem bay_scrap (h : PilotHangar) (item : Item) : (h.scrap item).1.bay = h.bay := by
  unfold scrap
  split
  · split <;> rfl
  · split <;> rfl
  · split <;> rfl
  · rfl

end PilotHangar

end BeforeColony
