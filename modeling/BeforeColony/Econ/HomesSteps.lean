import BeforeColony.Econ.Keypad

/-!
# What each act can do to a home

Every act on the register leaves each home as it was in all that its door, its furniture's
ids and its beds depend on, or changes it in one of a few ways (`Change`), or it is newly
taken. What a run keeps of a home follows from these.
-/

set_option autoImplicit false

namespace BeforeColony

open Lib

def Piece.tag (p : Piece) : ℕ × Furniture := (p.id, p.kind)

/-- `h'` is `h` as far as its door, its furniture's ids and its beds go. -/
structure Held.Quiet (h h' : Held) : Prop where
  holder : h'.holder = h.holder
  code : h'.lock.code = h.lock.code
  guestCode : h'.lock.guestCode = h.lock.guestCode
  crew : h'.lock.crew = h.lock.crew
  guests : h'.lock.guests = h.lock.guests
  pieces : h'.pieces.map Piece.tag = h.pieces.map Piece.tag
  nextPiece : h'.nextPiece = h.nextPiece
  asleep : h'.asleep = h.asleep

theorem Held.Quiet.refl (h : Held) : h.Quiet h := ⟨rfl, rfl, rfl, rfl, rfl, rfl, rfl, rfl⟩

theorem Held.Quiet.trans {h h' h'' : Held} (hq : h.Quiet h') (hq' : h'.Quiet h'') :
    h.Quiet h'' where
  holder := hq'.holder.trans hq.holder
  code := hq'.code.trans hq.code
  guestCode := hq'.guestCode.trans hq.guestCode
  crew := hq'.crew.trans hq.crew
  guests := hq'.guests.trans hq.guests
  pieces := hq'.pieces.trans hq.pieces
  nextPiece := hq'.nextPiece.trans hq.nextPiece
  asleep := hq'.asleep.trans hq.asleep

inductive Change (id : ℕ) : HomesAct → Held → Held → Prop
  | quiet {act : HomesAct} {h h' : Held} (hq : h.Quiet h') : Change id act h h'
  | entered {who : Trader} {name : String} {now code : ℕ} {h : Held} {crew : List Trader}
      {misses shutUntil : ℕ} (hcode : h.lock.code = some code)
      (hrem : Remembers h.lock.crew who crewCap crew) :
      Change id (.serve who name now (.enterCode id code)) h
        { h with lock := { h.lock with crew, misses, shutUntil } }
  | guestEntered {who : Trader} {name : String} {now code : ℕ} {h : Held}
      {guests : List Trader} {misses shutUntil : ℕ} (hcode : h.lock.guestCode = some code)
      (hrem : Remembers h.lock.guests who guestCap guests) :
      Change id (.serve who name now (.enterCode id code)) h
        { h with lock := { h.lock with guests, misses, shutUntil } }
  | guestCodeSet {who : Trader} {name : String} {now : ℕ} {code : Option ℕ} {h : Held} :
      Change id (.serve who name now (.setCode id true code)) h
        { h with lock := { h.lock with guestCode := code, guests := [] } }
  | codeSet {who : Trader} {name : String} {now code : ℕ} {h : Held} {lock : Lock}
      (hcode : lock.code = some code)
      (hcrew : lock.crew = (Homes.remember [h.holder] who crewCap).1)
      (hguests : lock.guests = []) :
      Change id (.serve who name now (.setCode id false (some code))) h
        { h with lock, asleep := h.asleep.filter fun a => lock.isCrew a.who }
  | crewLeft {who : Trader} {name : String} {now : ℕ} {h : Held} (hholder : h.holder ≠ who) :
      Change id (.serve who name now (.leaveCrew id)) h
        { h with
          lock := { h.lock with
            crew := h.lock.crew.filter (· ≠ who)
            guests := h.lock.guests.filter (· ≠ who) }
          asleep := h.asleep.filter fun a => a.who ≠ who }
  | crewCleared {who : Trader} {name : String} {now : ℕ} {h : Held} {lock : Lock}
      (hcode : lock.code = h.lock.code) (hguestCode : lock.guestCode = h.lock.guestCode)
      (hcrew : lock.crew = h.lock.crew.filter (fun c => c = h.holder ∨ c = who))
      (hguests : lock.guests = []) :
      Change id (.serve who name now (.clearCrew id)) h
        { h with lock, asleep := h.asleep.filter fun a => lock.isCrew a.who }
  | furnished {who : Trader} {name : String} {now : ℕ} {furniture : String}
      {s x turn storey : ℕ} {h : Held} {piece : Piece} (hid : piece.id = h.nextPiece)
      (hroom : h.pieces.length < maxPieces) :
      Change id (.serve who name now (.furnish id furniture s x turn storey)) h
        { h with
          nextPiece := (h.nextPiece + 1) % 2 ^ 16
          pieces := h.pieces ++ [piece] }
  | sold {who : Trader} {name : String} {now piece : ℕ} {h : Held}
      (hfree : ∀ a ∈ h.asleep, a.piece ≠ piece) :
      Change id (.serve who name now (.sellPiece id piece)) h
        { h with pieces := h.pieces.eraseP fun p => p.id = piece }
  | woke {act : HomesAct} {who : Trader} {h : Held} :
      Change id act h { h with asleep := h.asleep.eraseP fun a => a.who = who }
  | slept {who : Trader} {name : String} {far : Piece → ℚ} {h : Held} {bed : Piece}
      (hcrew : who ∈ h.lock.crew) (hbed : bed ∈ h.pieces) (hkind : bed.kind = .bed)
      (hfree : ∀ a ∈ h.asleep, a.piece ≠ bed.id) :
      Change id (.sleep id who name far) h { h with asleep := h.asleep ++ [⟨bed.id, who, name⟩] }

namespace Homes

variable {r r' r'' : Homes} {act : HomesAct} {id : ℕ} {h h' : Held}

/-- Every home of `r'` is one of `r`, changed as the act changes a home, or newly taken. -/
def Moves (act : HomesAct) (r r' : Homes) : Prop :=
  ∀ id h', r'.held.get? id = some h' →
    (∃ h, r.held.get? id = some h ∧ Change id act h h')
      ∨ (r.held.get? id = none ∧ ∃ who name tenure now, h' = newlyHeld who name tenure now)

theorem Moves.refl (act : HomesAct) (r : Homes) : Moves act r r := by
  intro id h hget
  exact Or.inl ⟨h, hget, .quiet (Held.Quiet.refl h)⟩

theorem moves_of_held (hheld : r'.held = r.held) : Moves act r r' := by
  intro id h hget
  rw [hheld] at hget
  exact Moves.refl act r id h hget

theorem moves_setHeld (hget : r.held.get? id = some h) (hc : Change id act h h') :
    Moves act r (r.setHeld id h') := by
  intro k h'' hk
  rw [get?_setHeld] at hk
  split at hk
  · rename_i hid
    cases hk
    exact Or.inl ⟨h, hid ▸ hget, hid ▸ hc⟩
  · exact Moves.refl act r k h'' hk

theorem moves_quiet (hget : r.held.get? id = some h) (hq : h.Quiet h') :
    Moves act r (r.setHeld id h') :=
  moves_setHeld hget (.quiet hq)

theorem moves_erase (hheld : r'.held = r.held.erase id) : Moves act r r' := by
  intro k h' hk
  rw [hheld, Table.get?_erase] at hk
  split at hk
  · cases hk
  · exact Moves.refl act r k h' hk

theorem moves_insert {held : Held} (hheld : r'.held = r.held.insert id held)
    (hnone : r.held.get? id = none)
    (hnew : ∃ who name tenure now, held = newlyHeld who name tenure now) :
    Moves act r r' := by
  intro k h' hk
  rw [hheld, Table.get?_insert] at hk
  split at hk
  · rename_i hid
    cases hk
    exact Or.inr ⟨hid ▸ hnone, hnew⟩
  · exact Moves.refl act r k h' hk

/-! ### The door -/

theorem crewOf_mem {who : Trader} (hok : r.crewOf id who = .ok h) :
    r.held.get? id = some h ∧ who ∈ h.lock.crew := by
  unfold crewOf at hok
  split at hok
  · rename_i h₀ hget
    split at hok
    · rename_i hcrew
      cases hok
      exact ⟨hget, by simpa [Lock.isCrew] using hcrew⟩
    · cases hok
  · cases hok

theorem quiet_counters (h : Held) (misses lastMiss shutUntil : ℕ) :
    h.Quiet { h with lock := { h.lock with misses, lastMiss, shutUntil } } :=
  ⟨rfl, rfl, rfl, rfl, rfl, rfl, rfl, rfl⟩

theorem moves_enterCode (r : Homes) (id : ℕ) (who : Trader) (name : String) (code now : ℕ) :
    Moves (.serve who name now (.enterCode id code)) r (r.enterCode id who code now).1 := by
  have hspec := enters r id who code now
  generalize r.enterCode id who code now = o at hspec ⊢
  obtain ⟨r', entered⟩ := o
  cases hspec with
  | refused why => exact Moves.refl _ _
  | shut hget hshut => exact Moves.refl _ _
  | keyed hget hopen hentry =>
    rename_i h lock
    cases hentry with
    | full why => exact moves_quiet hget (quiet_counters h _ _ _)
    | crew hcode hrem => exact moves_setHeld hget (.entered hcode hrem)
    | guest hnot hcode hrem =>
      rcases hrem with ⟨-, rfl⟩ | ⟨-, hrem⟩
      · exact moves_quiet hget (quiet_counters h _ _ _)
      · exact moves_setHeld hget (.guestEntered hcode hrem)
    | wrong hnot hguest hmisses => exact moves_quiet hget (quiet_counters h _ _ _)

theorem moves_setCode (r : Homes) (id : ℕ) (who : Trader) (name : String) (now : ℕ)
    (guest : Bool) (code : Option ℕ) :
    Moves (.serve who name now (.setCode id guest code)) r (r.setCode id who guest code).1 := by
  unfold setCode
  split
  · exact Moves.refl _ _
  · split
    · exact Moves.refl _ _
    · rename_i h hcrew
      have hget := crewOf_ok hcrew
      cases guest with
      | true => exact moves_setHeld hget .guestCodeSet
      | false =>
        cases code with
        | none => exact Moves.refl _ _
        | some code => exact moves_setHeld hget (.codeSet rfl rfl rfl)

theorem moves_setLocked (r : Homes) (id : ℕ) (who : Trader) (locked : Bool) :
    Moves act r (r.setLocked id who locked).1 := by
  unfold setLocked
  split
  · exact Moves.refl _ _
  · rename_i h hcrew
    exact moves_quiet (crewOf_ok hcrew) ⟨rfl, rfl, rfl, rfl, rfl, rfl, rfl, rfl⟩

theorem moves_door (r : Homes) (id : ℕ) (who : Trader) (isOpen : Bool) :
    Moves act r (r.door id who isOpen).1 := by
  unfold door
  split
  · exact Moves.refl _ _
  · rename_i h hget
    split
    · exact Moves.refl _ _
    · exact moves_quiet hget ⟨rfl, rfl, rfl, rfl, rfl, rfl, rfl, rfl⟩

theorem moves_leaveCrew (r : Homes) (id : ℕ) (who : Trader) (name : String) (now : ℕ) :
    Moves (.serve who name now (.leaveCrew id)) r (r.leaveCrew id who).1 := by
  unfold leaveCrew
  split
  · exact Moves.refl _ _
  · rename_i h hget
    split
    · exact Moves.refl _ _
    · rename_i hholder
      exact moves_setHeld hget (.crewLeft hholder)

theorem moves_clearCrew (r : Homes) (id : ℕ) (who : Trader) (name : String) (now : ℕ) :
    Moves (.serve who name now (.clearCrew id)) r (r.clearCrew id who).1 := by
  unfold clearCrew
  split
  · exact Moves.refl _ _
  · rename_i h hcrew
    exact moves_setHeld (crewOf_ok hcrew) (.crewCleared rfl rfl rfl rfl)

/-! ### Furniture -/

theorem moves_furnish (c : City) (r : Homes) (id : ℕ) (who : Trader) (name : String) (now : ℕ)
    (furniture : String) (kind : Furniture) (s x turn storey : ℕ) (hangar : Hangar)
    {o : Homes × Hangar × Hangar.Done}
    (ho : r.furnish c id who kind s x turn storey hangar = some o) :
    Moves (.serve who name now (.furnish id furniture s x turn storey)) r o.1 := by
  unfold furnish at ho
  split at ho
  · cases ho
    exact Moves.refl _ _
  · rename_i h hcrew
    split at ho
    · cases ho
      exact Moves.refl _ _
    · rename_i hroom
      dsimp only at ho
      split at ho
      · cases ho
        exact Moves.refl _ _
      · split at ho
        · cases ho
          exact Moves.refl _ _
        · rename_i hpays
          rw [checkedSub_of_le (Nat.not_lt.mp hpays)] at ho
          cases ho
          exact moves_setHeld (crewOf_ok hcrew) (.furnished rfl (Nat.not_le.mp hroom))

theorem map_tag_set {pieces : List Piece} {i : ℕ} {p p' : Piece} (hi : pieces[i]? = some p)
    (htag : p'.tag = p.tag) : (pieces.set i p').map Piece.tag = pieces.map Piece.tag := by
  rw [List.map_set, htag]
  apply List.ext_getElem?
  intro k
  rw [List.getElem?_set]
  split
  · rename_i hik
    subst hik
    rw [List.getElem?_map, hi]
    split
    · rfl
    · rename_i hlen
      obtain ⟨hlt, -⟩ := List.getElem?_eq_some_iff.mp hi
      simp only [List.length_map, not_lt] at hlen
      omega
  · rfl

theorem moves_movePiece (c : City) (r : Homes) (id : ℕ) (who : Trader)
    (piece s x turn storey : ℕ) : Moves act r (r.movePiece c id who piece s x turn storey).1 := by
  unfold movePiece
  split
  · exact Moves.refl _ _
  · rename_i h hcrew
    split
    · exact Moves.refl _ _
    · split
      · exact Moves.refl _ _
      · rename_i p hp
        dsimp only
        split
        · exact Moves.refl _ _
        · exact moves_quiet (crewOf_ok hcrew)
            ⟨rfl, rfl, rfl, rfl, rfl, map_tag_set hp rfl, rfl, rfl⟩

theorem map_tag_setPiece (pieces : List Piece) (piece : ℕ) (holds : List (Item × ℕ)) :
    (setPiece pieces piece holds).map Piece.tag = pieces.map Piece.tag := by
  induction pieces with
  | nil => rfl
  | cons p rest ih =>
    unfold setPiece
    split
    · rfl
    · rw [List.map_cons, ih, List.map_cons]

theorem moves_sellPiece (r : Homes) (id : ℕ) (who : Trader) (name : String) (now piece : ℕ)
    (hangar : Hangar) {o : Homes × Hangar × Hangar.Done}
    (ho : r.sellPiece id who piece hangar = some o) :
    Moves (.serve who name now (.sellPiece id piece)) r o.1 := by
  unfold sellPiece at ho
  split at ho
  · cases ho
    exact Moves.refl _ _
  · rename_i h hcrew
    split at ho
    · cases ho
      exact Moves.refl _ _
    · split at ho
      · cases ho
        exact Moves.refl _ _
      · split at ho
        · cases ho
          exact Moves.refl _ _
        · rename_i hfree
          cases ho
          exact moves_setHeld (crewOf_ok hcrew) (.sold (by simpa using hfree))

theorem moves_stash (r : Homes) (id : ℕ) (who : Trader) (piece : ℕ) (item : Item) (qty : ℕ)
    (hangar : Hangar) {o : Homes × Hangar × Hangar.Done}
    (ho : r.stash id who piece item qty hangar = some o) : Moves act r o.1 := by
  unfold stash at ho
  split at ho
  · cases ho
    exact Moves.refl _ _
  · split at ho
    · cases ho
      exact Moves.refl _ _
    · rename_i h hcrew
      split at ho
      · cases ho
        exact Moves.refl _ _
      · dsimp only at ho
        split at ho
        · cases ho
          exact Moves.refl _ _
        · split at ho
          · cases ho
            exact Moves.refl _ _
          · split at ho
            · cases ho
              exact Moves.refl _ _
            · cases ho
              exact moves_quiet (crewOf_ok hcrew)
                ⟨rfl, rfl, rfl, rfl, rfl, map_tag_setPiece _ _ _, rfl, rfl⟩

theorem moves_unstash (r : Homes) (id : ℕ) (who : Trader) (piece : ℕ) (item : Item) (qty : ℕ)
    (hangar : Hangar) {o : Homes × Hangar × Hangar.Done}
    (ho : r.unstash id who piece item qty hangar = some o) : Moves act r o.1 := by
  unfold unstash at ho
  split at ho
  · cases ho
    exact Moves.refl _ _
  · rename_i h hcrew
    split at ho
    · cases ho
      exact Moves.refl _ _
    · split at ho
      · cases ho
        exact Moves.refl _ _
      · rename_i p hp hholds
        obtain ⟨holds, hless, ho⟩ := Option.bind_eq_some_iff.mp ho
        cases ho
        exact moves_quiet (crewOf_ok hcrew)
          ⟨rfl, rfl, rfl, rfl, rfl, map_tag_setPiece _ _ _, rfl, rfl⟩

/-! ### Taken, given up, paid for -/

theorem moves_rent (c : City) (r : Homes) (home : Home) (who : Trader) (name : String)
    (weeks : ℕ) (hangar : Hangar) (now : ℕ) {o : Homes × Hangar × Hangar.Done}
    (ho : r.rent c home who name weeks hangar now = some o) : Moves act r o.1 := by
  unfold rent at ho
  split at ho
  · cases ho
    exact Moves.refl _ _
  · split at ho
    · cases ho
      exact Moves.refl _ _
    · rename_i hok
      dsimp only at ho
      split at ho
      · cases ho
        exact Moves.refl _ _
      · rename_i hcost
        rw [checkedSub_of_le (Nat.not_lt.mp hcost)] at ho
        cases ho
        exact moves_insert rfl (canTake_ok hok) ⟨_, _, _, _, rfl⟩

theorem moves_buy (c : City) (r : Homes) (home : Home) (who : Trader) (name : String)
    (hangar : Hangar) (now : ℕ) {o : Homes × Hangar × Hangar.Done}
    (ho : r.buy c home who name hangar now = some o) : Moves act r o.1 := by
  unfold buy at ho
  split at ho
  · cases ho
    exact Moves.refl _ _
  · split at ho
    · cases ho
      exact Moves.refl _ _
    · rename_i hok
      dsimp only at ho
      split at ho
      · cases ho
        exact Moves.refl _ _
      · rename_i hcost
        rw [checkedSub_of_le (Nat.not_lt.mp hcost)] at ho
        cases ho
        exact moves_insert rfl (canTake_ok hok) ⟨_, _, _, _, rfl⟩

theorem moves_giveUp (c : City) (r : Homes) (id : ℕ) (who : Trader) (hangar : Hangar)
    {o : Homes × Hangar × Hangar.Done} (ho : r.giveUp c id who hangar = some o) :
    Moves act r o.1 := by
  unfold giveUp at ho
  split at ho
  · cases ho
    exact Moves.refl _ _
  · simp only [clearedOut] at ho
    split at ho
    · cases ho
      exact moves_erase rfl
    · cases ho
      exact moves_erase rfl

theorem quiet_tenure (h : Held) (tenure : Tenure) : h.Quiet { h with tenure } :=
  ⟨rfl, rfl, rfl, rfl, rfl, rfl, rfl, rfl⟩

theorem moves_feed (r : Homes) (id credits : ℕ) (hangar : Hangar)
    {o : Homes × Hangar × Hangar.Done} (ho : r.feed id credits hangar = some o) :
    Moves act r o.1 := by
  unfold feed at ho
  split at ho
  · cases ho
    exact Moves.refl _ _
  · rename_i h hget
    split at ho
    · cases ho
      exact Moves.refl _ _
    · split at ho
      · cases ho
        exact Moves.refl _ _
      · obtain ⟨left, hleft, ho⟩ := Option.bind_eq_some_iff.mp ho
        cases ho
        exact moves_quiet hget (quiet_tenure h _)

theorem moves_withdraw (r : Homes) (id : ℕ) (who : Trader) (credits : ℕ) (hangar : Hangar)
    {o : Homes × Hangar × Hangar.Done} (ho : r.withdraw id who credits hangar = some o) :
    Moves act r o.1 := by
  unfold withdraw at ho
  split at ho
  · cases ho
    exact Moves.refl _ _
  · rename_i h hcrew
    split at ho
    · cases ho
      exact Moves.refl _ _
    · split at ho
      · cases ho
        exact Moves.refl _ _
      · obtain ⟨left, hleft, ho⟩ := Option.bind_eq_some_iff.mp ho
        cases ho
        exact moves_quiet (crewOf_ok hcrew) (quiet_tenure h _)

theorem moves_knock (r : Homes) (id : ℕ) (name : String) : Moves act r (r.knock id name).1 := by
  unfold knock
  split
  · exact Moves.refl _ _
  · exact moves_of_held rfl

theorem moves_serve (c : City) (req : HomeRequest) (hangar : Hangar) (r : Homes) (who : Trader)
    (name : String) (now : ℕ) {o : Homes × Hangar × Hangar.Done}
    (ho : r.serve c req hangar who name now = some o) : Moves (.serve who name now req) r o.1 := by
  unfold serve at ho
  split at ho
  · cases ho
    exact Moves.refl _ _
  · cases req with
    | rent id weeks => exact moves_rent c r _ who name weeks hangar now ho
    | buy id => exact moves_buy c r _ who name hangar now ho
    | giveUp id => exact moves_giveUp c r id who hangar ho
    | enterCode id code =>
      cases ho
      exact moves_enterCode r id who name code now
    | door id isOpen =>
      cases ho
      exact moves_door r id who isOpen
    | knock id =>
      cases ho
      exact moves_knock r id name
    | setCode id guest code =>
      cases ho
      exact moves_setCode r id who name now guest code
    | lock id locked =>
      cases ho
      exact moves_setLocked r id who locked
    | leaveCrew id =>
      cases ho
      exact moves_leaveCrew r id who name now
    | clearCrew id =>
      cases ho
      exact moves_clearCrew r id who name now
    | feed id credits => exact moves_feed r id credits hangar ho
    | takeRent id credits => exact moves_withdraw r id who credits hangar ho
    | furnish id furniture s x turn storey =>
      dsimp only at ho
      split at ho
      · exact moves_furnish c r id who name now furniture _ s x turn storey hangar ho
      · cases ho
        exact Moves.refl _ _
    | movePiece id piece s x turn storey =>
      cases ho
      exact moves_movePiece c r id who piece s x turn storey
    | sellPiece id piece => exact moves_sellPiece r id who name now piece hangar ho
    | stash id piece item qty => exact moves_stash r id who piece item qty hangar ho
    | unstash id piece item qty => exact moves_unstash r id who piece item qty hangar ho

/-! ### The clock and the callers -/

/-- Every home of `r'` is one of `r` whose door, furniture and beds are as they were. -/
def Fewer (r r' : Homes) : Prop :=
  ∀ id h', r'.held.get? id = some h' → ∃ h, r.held.get? id = some h ∧ h.Quiet h'

theorem Fewer.refl (r : Homes) : Fewer r r := fun _ h hget => ⟨h, hget, Held.Quiet.refl h⟩

theorem Fewer.trans (hf : Fewer r r') (hf' : Fewer r' r'') : Fewer r r'' := by
  intro id h'' hget
  obtain ⟨h', hget', hq'⟩ := hf' id h'' hget
  obtain ⟨h, hget, hq⟩ := hf id h' hget'
  exact ⟨h, hget, hq.trans hq'⟩

theorem Fewer.moves (hf : Fewer r r') (act : HomesAct) : Moves act r r' := by
  intro id h' hget
  obtain ⟨h, hget, hq⟩ := hf id h' hget
  exact Or.inl ⟨h, hget, .quiet hq⟩

theorem fewer_setHeld (hget : r.held.get? id = some h) (hq : h.Quiet h') :
    Fewer r (r.setHeld id h') := by
  intro k h'' hk
  rw [get?_setHeld] at hk
  split at hk
  · rename_i hid
    cases hk
    exact ⟨h, hid ▸ hget, hq⟩
  · exact ⟨h'', hk, Held.Quiet.refl h''⟩

theorem fewer_charge (c : City) (now : ℕ) (t : Charged) (id : ℕ) {t' : Charged}
    (ht : charge c now t id = some t') : Fewer t.reg t'.reg := by
  unfold charge at ht
  split at ht
  · rename_i h home hget hhome
    split at ht
    · dsimp only at ht
      split at ht
      · cases ht
        exact Fewer.refl _
      · obtain ⟨bank, hbank, ht⟩ := Option.bind_eq_some_iff.mp ht
        cases ht
        exact fewer_setHeld hget (quiet_tenure h _)
    · cases ht
      exact Fewer.refl _
  · cases ht
    exact Fewer.refl _

theorem fewer_chargeAll (c : City) (now : ℕ) (ids : List ℕ) (t : Charged) {t' : Charged}
    (ht : ids.foldlM (charge c now) t = some t') : Fewer t.reg t'.reg := by
  induction ids generalizing t with
  | nil =>
    cases ht
    exact Fewer.refl _
  | cons id rest ih =>
    rw [List.foldlM_cons] at ht
    obtain ⟨t₁, hone, hrest⟩ := Option.bind_eq_some_iff.mp ht
    exact (fewer_charge c now t id hone).trans (ih t₁ hrest)

theorem held_lapse (c : City) (r : Homes) (gone : ℕ × String) (k : ℕ) :
    (r.lapse c gone).held.get? k = if k = gone.1 then none else r.held.get? k := by
  unfold lapse
  split
  · rename_i hnone
    split
    · rename_i hk
      rw [hk, hnone]
    · rfl
  · exact Table.get?_erase ..

theorem fewer_lapse (c : City) (r : Homes) (gone : ℕ × String) : Fewer r (r.lapse c gone) := by
  intro k h' hk
  rw [held_lapse] at hk
  split at hk
  · cases hk
  · exact ⟨h', hk, Held.Quiet.refl h'⟩

theorem fewer_lapseAll (c : City) (r : Homes) (gone : List (ℕ × String)) :
    Fewer r (gone.foldl (lapse c) r) := by
  induction gone generalizing r with
  | nil => exact Fewer.refl r
  | cons g rest ih => exact (fewer_lapse c r g).trans (ih _)

theorem fewer_tick (c : City) (r : Homes) (now : ℕ) {o : Homes × Bool}
    (ho : r.tick c now = some o) : Fewer r o.1 := by
  unfold tick at ho
  obtain ⟨t, hcharged, ho⟩ := Option.bind_eq_some_iff.mp ho
  cases ho
  exact (fewer_chargeAll c now _ _ hcharged).trans (fewer_lapseAll c _ _)

theorem fewer_hold (r : Homes) (now : ℕ) : Fewer r (r.hold now).1 := by
  intro k h' hk
  simp only [hold, Table.get?_mapVal, Option.map_eq_some_iff] at hk
  obtain ⟨h, hget, rfl⟩ := hk
  exact ⟨h, hget, quiet_tenure h _⟩

theorem fewer_visited (r : Homes) (id : ℕ) (who : Trader) (now : ℕ) :
    Fewer r (r.visited id who now) := by
  unfold visited
  split
  · exact Fewer.refl r
  · rename_i h hget
    split
    · exact Fewer.refl r
    · split
      · exact Fewer.refl r
      · exact fewer_setHeld hget (quiet_tenure h _)

theorem moves_wake (r : Homes) (who : Trader) : Moves act r (r.wake who).1 := by
  unfold wake
  split
  · exact Moves.refl _ _
  · rename_i id h hfind
    have hget : r.held.get? id = some h :=
      Table.mem_entries_iff.mp (List.mem_of_find?_eq_some hfind)
    split
    · exact Moves.refl _ _
    · exact moves_setHeld hget .woke

/-- A fold that keeps its best so far or takes the next finds one of the list. -/
theorem mem_of_foldl_best {α : Type} {f : Option α → α → Option α}
    (hf : ∀ best p, f best p = some p ∨ f best p = best) (l : List α) {best : Option α} {p : α}
    (hfold : l.foldl f best = some p) : p ∈ l ∨ best = some p := by
  induction l generalizing best with
  | nil => exact Or.inr hfold
  | cons q rest ih =>
    rw [List.foldl_cons] at hfold
    rcases ih hfold with hmem | hbest
    · exact Or.inl (List.mem_cons_of_mem q hmem)
    · rcases hf best q with hq | hq
      · rw [hq, Option.some.injEq] at hbest
        exact Or.inl (hbest ▸ List.mem_cons_self)
      · exact Or.inr (hq ▸ hbest)

/-- Whoever logs out at home wakes wherever they slept, and then may have a free bed. -/
theorem moves_sleep (r : Homes) (id : ℕ) (who : Trader) (name : String) (far : Piece → ℚ) :
    Moves (.sleep id who name far) (r.wake who).1 (r.sleep id who name far).1 := by
  unfold sleep
  generalize r.wake who = woken
  dsimp only
  split
  · exact Moves.refl _ _
  · rename_i h hget
    split
    · exact Moves.refl _ _
    · rename_i hcrew
      split
      · exact Moves.refl _ _
      · rename_i bed hbed
        have hbest := mem_of_foldl_best (fun best p => by
          cases best with
          | none => exact Or.inl rfl
          | some b =>
            dsimp only
            split
            · exact Or.inl rfl
            · exact Or.inr rfl) _ hbed
        rcases hbest with hfree | hnone
        · simp only [List.mem_filter, Bool.and_eq_true, decide_eq_true_eq, Bool.not_eq_true',
            List.any_eq_false] at hfree
          obtain ⟨hmem, hkind, hfree⟩ := hfree
          have hcrew : who ∈ h.lock.crew := by simpa [Lock.isCrew] using hcrew
          exact moves_setHeld hget (.slept hcrew hmem hkind (by simpa using hfree))
        · cases hnone

theorem held_collect (r : Homes) (hangar : Hangar) (who : Trader) :
    (r.collect hangar who).1.held = r.held := by
  unfold collect
  split <;> rfl

end Homes

namespace Tenancy

open Homes

theorem moves_step (c : City) {t t' : Tenancy} {act : HomesAct} (hstep : t.step c act = some t') :
    ∃ r, Moves act t.reg r ∧ Moves act r t'.reg := by
  cases act with
  | serve who name now req =>
    obtain ⟨o, ho, hstep⟩ := Option.bind_eq_some_iff.mp hstep
    cases hstep
    exact ⟨_, moves_serve c req _ _ who name now ho, Moves.refl _ _⟩
  | collect who =>
    cases hstep
    exact ⟨_, Moves.refl _ _, moves_of_held (held_collect _ _ _)⟩
  | tick now =>
    obtain ⟨o, ho, hstep⟩ := Option.bind_eq_some_iff.mp hstep
    cases hstep
    exact ⟨_, (fewer_tick c _ now ho).moves _, Moves.refl _ _⟩
  | hold now =>
    cases hstep
    exact ⟨_, (fewer_hold _ now).moves _, Moves.refl _ _⟩
  | visited id who now =>
    cases hstep
    exact ⟨_, (fewer_visited _ id who now).moves _, Moves.refl _ _⟩
  | sleep id who name far =>
    cases hstep
    exact ⟨_, moves_wake _ who, moves_sleep _ id who name far⟩
  | wake who =>
    cases hstep
    exact ⟨_, moves_wake _ who, Moves.refl _ _⟩

theorem run_some (c : City) (t : Tenancy) (acts : List HomesAct) : ∃ t', t.run c acts = some t' := by
  induction acts generalizing t with
  | nil => exact ⟨t, rfl⟩
  | cons act rest ih =>
    obtain ⟨t₁, hstep, -⟩ := kept_step c t act
    obtain ⟨t₂, hrun⟩ := ih t₁
    refine ⟨t₂, ?_⟩
    rw [run, List.foldlM_cons, hstep]
    exact hrun

/-- A property of each home kept by every change and true of a home newly taken is true of every
home after a run. -/
theorem held_invariant (c : City) {P : ℕ → Held → Prop}
    (hnew : ∀ id who name tenure now, P id (newlyHeld who name tenure now))
    (hchange : ∀ id act h h', P id h → Change id act h h' → P id h') {t t' : Tenancy}
    (acts : List HomesAct) (hrun : t.run c acts = some t')
    (ht : ∀ id h, t.reg.held.get? id = some h → P id h) :
    ∀ id h, t'.reg.held.get? id = some h → P id h := by
  have hmoves {act : HomesAct} {r r' : Homes} (hm : Moves act r r')
      (hr : ∀ id h, r.held.get? id = some h → P id h) :
      ∀ id h, r'.held.get? id = some h → P id h := by
    intro id h' hget
    rcases hm id h' hget with ⟨h, hget, hc⟩ | ⟨-, who, name, tenure, now, rfl⟩
    · exact hchange id act h h' (hr id h hget) hc
    · exact hnew id who name tenure now
  induction acts generalizing t with
  | nil =>
    cases hrun
    exact ht
  | cons act rest ih =>
    rw [run, List.foldlM_cons] at hrun
    obtain ⟨t₁, hstep, hrest⟩ := Option.bind_eq_some_iff.mp hrun
    obtain ⟨r, hm, hm'⟩ := moves_step c hstep
    exact ih hrest (hmoves hm' (hmoves hm ht))

end Tenancy

end BeforeColony
