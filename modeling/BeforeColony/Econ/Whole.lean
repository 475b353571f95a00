import BeforeColony.Econ.Neat

/-!
# Done whole or refused whole

What a pilot asks of the exchange, the Board or the register of homes is done, and their shelves keep
their shape, or it's refused and both sides are as they were. What was handed over before the refusal
comes straight back.
-/

set_option autoImplicit false

namespace BeforeColony

open Lib Hangar

/-- A request to someone in state `s`: the stores keep their shape, and if it's refused the hangar
is as it was, and so is what `view` sees of the other. -/
structure Whole {σ τ : Type} (view : σ → τ) (g : Hangar) (s : σ) (g' : Hangar) (s' : σ)
    (done : Done) : Prop where
  neat : g.stores.Neat → g'.stores.Neat
  refused : ∀ why, done = .error why → g.stores.Neat → g' = g ∧ view s' = view s

namespace Whole

variable {σ τ : Type} {view : σ → τ} {g g' : Hangar} {s s' : σ} {done : Done}

theorem same (hsame : view s' = view s) : Whole view g s g s' done :=
  ⟨id, fun _ _ _ => ⟨rfl, hsame⟩⟩

theorem unchanged : Whole view g s g s done := same rfl

theorem did {text : String} (hneat : g.stores.Neat → g'.stores.Neat) :
    Whole view g s g' s' (.ok text) := ⟨hneat, nofun⟩

theorem map (h : Whole view g s g' s' done) (f : String → String) :
    Whole view g s g' s' (done.map f) := by
  refine ⟨h.neat, fun why hwhy => ?_⟩
  cases done with
  | error why => exact h.refused why rfl
  | ok text => cases hwhy

end Whole

/-! ## The exchange -/

namespace Hangar

variable {g paid : Hangar} {item : Item} {side : Side} {price qty escrow : ℕ}

theorem neat_receive (hg : g.stores.Neat) (a : Account) : (g.receive a).stores.Neat :=
  hg.foldl (fun _ e hst => hst.add e.1 e.2) a.goods.entries

theorem neat_handOver (hg : g.stores.Neat)
    (hover : g.handOver item side price qty = .ok (paid, escrow)) : paid.stores.Neat := by
  unfold handOver at hover
  cases side with
  | sell =>
    dsimp only at hover
    split at hover
    · cases hover
    next stores htake =>
      cases hover
      exact hg.take htake
  | buy =>
    dsimp only at hover
    split at hover
    · cases hover
    · cases hover
      exact hg

/-- What was handed over for an order comes back to where it was. -/
theorem takeBack_handOver (hg : g.stores.Neat)
    (hover : g.handOver item side price qty = .ok (paid, escrow)) :
    paid.takeBack item side qty escrow = g := by
  unfold handOver at hover
  cases side with
  | sell =>
    dsimp only at hover
    split at hover
    · cases hover
    next stores htake =>
      cases hover
      exact congrArg (fun stores => { g with stores }) (hg.add_take htake)
  | buy =>
    dsimp only at hover
    split at hover
    · cases hover
    next henough =>
      cases hover
      exact congrArg (fun credits => { g with credits }) (Nat.sub_add_cancel (not_lt.mp henough))

theorem place_refused {p : Platform} {ex ex' : Exchange} {trader : Trader} {rest : Bool}
    {why : Refused} (hplace : ex.place p trader item side price qty escrow rest = (ex', .error why)) :
    ex' = ex := by
  unfold Exchange.place at hplace
  split at hplace
  · exact (Prod.mk.inj hplace).1.symm
  · cases (Prod.mk.inj hplace).2

theorem whole_trade (g : Hangar) (p : Platform) (ex : Exchange) (trader : Trader) (item : Item)
    (side : Side) (price qty : ℕ) (rest : Bool) :
    let o := g.trade p ex trader item side price qty rest
    Whole id g ex o.1 o.2.1 o.2.2 := by
  unfold trade
  split
  · exact .unchanged
  · cases hover : g.handOver item side price qty with
    | error why => exact .unchanged
    | ok handed =>
      obtain ⟨paid, escrow⟩ := handed
      dsimp only
      split
      · exact .did fun hg => neat_receive (neat_handOver hg hover) _
      next ex' why hplace =>
        have hback (hg : g.stores.Neat) := takeBack_handOver hg hover
        refine ⟨fun hg => ?_, fun _ _ hg => ⟨hback hg, place_refused hplace⟩⟩
        rw [hback hg]
        exact hg

theorem cancel_refused {ex ex' : Exchange} {trader : Trader} {id : ℕ}
    (hcancel : ex.cancel trader id = (ex', false)) : ex' = ex := by
  unfold Exchange.cancel at hcancel
  dsimp only at hcancel
  split at hcancel
  · cases (Prod.mk.inj hcancel).2
  · exact (Prod.mk.inj hcancel).1.symm

end Hangar

/-! ## The Charter Board -/

namespace Board

variable (p : Platform) (b : Board) (g : Hangar) (ex : Exchange) (trader : Trader) (name : String)

theorem whole_post (item : Item) (qty reward hours now : ℕ) :
    let o := b.post p g trader name item qty reward hours now
    Whole id g b o.2.1 o.1 o.2.2 := by
  unfold post
  split
  · exact .unchanged
  · exact .did id

theorem neat_collect (hg : g.stores.Neat) : (b.collect g trader).2.1.stores.Neat := by
  unfold collect
  split
  · exact hg
  · exact neat_receive hg _

theorem whole_withdraw (contract : ℕ) :
    let o := b.withdraw g trader contract
    Whole id g b o.2.1 o.1 o.2.2 := by
  unfold withdraw
  split
  · exact .unchanged
  · split
    · exact .unchanged
    · exact .did fun hg => neat_collect _ g trader hg

theorem whole_deliver (contract qty now : ℕ) :
    let o := b.deliver p g ex trader name contract qty now
    Whole id g (b, ex) o.2.1 (o.1, o.2.2.1) o.2.2.2 := by
  unfold deliver
  split
  · exact .unchanged
  next c hc =>
    split
    · exact .unchanged
    next item wanted delivered htask =>
      split
      · exact .unchanged
      · split
        · exact .unchanged
        · dsimp only
          generalize min (min qty (wanted - delivered)) (g.stores.get item) = n
          split
          · exact .unchanged
          · cases htake : g.stores.take item n with
            | none => exact .unchanged
            | some stores => exact .did fun hg => hg.take htake

theorem whole_contribute (work : Work) (item : Item) (qty now : ℕ) :
    let o := b.contribute p g trader name work item qty now
    Whole id g b o.2.1 o.1 o.2.2 := by
  unfold contribute
  split
  · exact .unchanged
  · split
    · exact .unchanged
    next need hneed =>
      dsimp only
      split
      · exact .unchanged
      · split
        · exact .unchanged
        next stores htake =>
          split <;> exact .did fun hg => hg.take htake

theorem whole_take (contract now : ℕ) :
    let o := b.take trader name contract now
    Whole id g b g o.1 o.2 := by
  unfold take
  split
  · exact .unchanged
  · split
    · exact .unchanged
    next c hc =>
      split
      · exact .unchanged
      · split
        · exact .unchanged
        · exact .did id

theorem whole_dropPatrol (contract now : ℕ) :
    let o := b.dropPatrol trader contract now
    Whole id g b g o.1 o.2 := by
  unfold dropPatrol
  split
  · exact .unchanged
  · split
    · exact .unchanged
    · exact .did id

theorem whole_sign (now : ℕ) :
    let o := b.sign trader name now
    Whole id g b g o.1 o.2 := by
  unfold sign
  split
  · exact .unchanged
  · split
    · exact .unchanged
    · split
      · exact .unchanged
      · split
        · exact .unchanged
        · dsimp only
          split <;> exact .did id

theorem whole_setTerms (salvage : Bool) :
    let o := b.setTerms trader salvage
    Whole id g b g o.1 o.2 := by
  unfold setTerms
  split
  · split
    · exact .unchanged
    · exact .did id
  · exact .did id

end Board

/-! ## The register of homes -/

namespace Homes

/-- The register but for its locks: what everyone holds, with its money and its goods. -/
def butLocks (r : Homes) : Homes :=
  { r with held := r.held.mapVal fun _ h => { h with lock := Lock.key h.holder } }

variable {c : City} {r : Homes} {g : Hangar} {o : Homes × Hangar × Done} {id : ℕ} {who : Trader}

theorem butLocks_setHeld {h : Held} (hget : r.held.get? id = some h) (lock : Lock) :
    (r.setHeld id { h with lock }).butLocks = r.butLocks := by
  refine congrArg (fun held => { r with held }) (Table.ext_get? fun id' => ?_)
  unfold setHeld
  rw [Table.get?_mapVal, Table.get?_mapVal, Table.get?_insert]
  split
  next heq =>
    rw [heq, hget]
    rfl
  next => rfl

/-- A code, right or wrong, changes the lock it's entered at and nothing else. -/
theorem butLocks_enterCode (r : Homes) (id : ℕ) (who : Trader) (code now : ℕ) :
    (r.enterCode id who code now).1.butLocks = r.butLocks := by
  unfold enterCode
  split
  · rfl
  · split
    · rfl
    next h hget =>
      dsimp only
      generalize (if h.lock.shutUntil ≠ 0 then { h.lock with shutUntil := 0, misses := 0 }
        else h.lock) = l
      split
      · rfl
      · split
        · split <;> exact butLocks_setHeld hget _
        · split
          · split <;> split <;> exact butLocks_setHeld hget _
          · exact butLocks_setHeld hget _

theorem neat_putAway {st : Stores} (hst : st.Neat) (goods : List (Item × ℕ)) :
    (putAway st goods).Neat := hst.foldl (fun _ e hst => hst.add e.1 e.2) goods

theorem whole_rent {home : Home} {name : String} {weeks now : ℕ}
    (ho : r.rent c home who name weeks g now = some o) : Whole butLocks g r o.2.1 o.1 o.2.2 := by
  unfold rent at ho
  split at ho
  · cases ho
    exact .unchanged
  · split at ho
    · cases ho
      exact .unchanged
    · dsimp only at ho
      split at ho
      · cases ho
        exact .unchanged
      · obtain ⟨credits, -, ho⟩ := Option.bind_eq_some_iff.mp ho
        cases ho
        exact .did fun hg => hg

theorem whole_buy {home : Home} {name : String} {now : ℕ}
    (ho : r.buy c home who name g now = some o) : Whole butLocks g r o.2.1 o.1 o.2.2 := by
  unfold buy at ho
  split at ho
  · cases ho
    exact .unchanged
  · split at ho
    · cases ho
      exact .unchanged
    · dsimp only at ho
      split at ho
      · cases ho
        exact .unchanged
      · obtain ⟨credits, -, ho⟩ := Option.bind_eq_some_iff.mp ho
        cases ho
        exact .did fun hg => hg

theorem whole_giveUp (ho : r.giveUp c id who g = some o) :
    Whole butLocks g r o.2.1 o.1 o.2.2 := by
  unfold giveUp at ho
  split at ho
  · cases ho
    exact .unchanged
  next held hheld =>
    dsimp only at ho
    split at ho
    · cases ho
      exact .did fun hg => neat_putAway hg _
    · cases ho
      exact .did fun hg => neat_putAway hg _

theorem whole_feed {credits : ℕ} (ho : r.feed id credits g = some o) :
    Whole butLocks g r o.2.1 o.1 o.2.2 := by
  unfold feed at ho
  split at ho
  · cases ho
    exact .unchanged
  next h hget =>
    split at ho
    · cases ho
      exact .unchanged
    · split at ho
      · cases ho
        exact .unchanged
      · obtain ⟨left, -, ho⟩ := Option.bind_eq_some_iff.mp ho
        cases ho
        exact .did fun hg => hg

theorem whole_withdraw {credits : ℕ} (ho : r.withdraw id who credits g = some o) :
    Whole butLocks g r o.2.1 o.1 o.2.2 := by
  unfold withdraw at ho
  split at ho
  · cases ho
    exact .unchanged
  next h hcrew =>
    split at ho
    · cases ho
      exact .unchanged
    · split at ho
      · cases ho
        exact .unchanged
      · obtain ⟨bank, -, ho⟩ := Option.bind_eq_some_iff.mp ho
        cases ho
        exact .did fun hg => hg

theorem whole_furnish {kind : Furniture} {s x turn storey : ℕ}
    (ho : r.furnish c id who kind s x turn storey g = some o) :
    Whole butLocks g r o.2.1 o.1 o.2.2 := by
  unfold furnish at ho
  split at ho
  · cases ho
    exact .unchanged
  next h hcrew =>
    split at ho
    · cases ho
      exact .unchanged
    · dsimp only at ho
      split at ho
      · cases ho
        exact .unchanged
      · split at ho
        · cases ho
          exact .unchanged
        · obtain ⟨credits, -, ho⟩ := Option.bind_eq_some_iff.mp ho
          cases ho
          exact .did fun hg => hg

theorem whole_sellPiece {piece : ℕ} (ho : r.sellPiece id who piece g = some o) :
    Whole butLocks g r o.2.1 o.1 o.2.2 := by
  unfold sellPiece at ho
  split at ho
  · cases ho
    exact .unchanged
  next h hcrew =>
    split at ho
    · cases ho
      exact .unchanged
    · split at ho
      · cases ho
        exact .unchanged
      · split at ho
        · cases ho
          exact .unchanged
        · cases ho
          exact .did fun hg => hg

theorem whole_stash {piece qty : ℕ} {item : Item} (ho : r.stash id who piece item qty g = some o) :
    Whole butLocks g r o.2.1 o.1 o.2.2 := by
  unfold stash at ho
  split at ho
  · cases ho
    exact .unchanged
  · split at ho
    · cases ho
      exact .unchanged
    next h hcrew =>
      split at ho
      · cases ho
        exact .unchanged
      next p hp =>
        dsimp only at ho
        split at ho
        · cases ho
          exact .unchanged
        · split at ho
          · cases ho
            exact .unchanged
          · split at ho
            · cases ho
              exact .unchanged
            next stores htake =>
              cases ho
              exact .did fun hg => hg.take htake

theorem whole_unstash {piece qty : ℕ} {item : Item}
    (ho : r.unstash id who piece item qty g = some o) :
    Whole butLocks g r o.2.1 o.1 o.2.2 := by
  unfold unstash at ho
  split at ho
  · cases ho
    exact .unchanged
  next h hcrew =>
    split at ho
    · cases ho
      exact .unchanged
    next p hp =>
      split at ho
      · cases ho
        exact .unchanged
      · obtain ⟨holds, -, ho⟩ := Option.bind_eq_some_iff.mp ho
        cases ho
        exact .did fun hg => hg.add item qty

theorem whole_setCode (r : Homes) (id : ℕ) (who : Trader) (guest : Bool) (code : Option ℕ) :
    let o := r.setCode id who guest code
    Whole butLocks g r g o.1 o.2 := by
  unfold setCode
  split
  · exact .unchanged
  · split
    · exact .unchanged
    · split
      · exact .did fun hg => hg
      · split
        · exact .unchanged
        · exact .did fun hg => hg

theorem whole_setLocked (r : Homes) (id : ℕ) (who : Trader) (locked : Bool) :
    let o := r.setLocked id who locked
    Whole butLocks g r g o.1 o.2 := by
  unfold setLocked
  split
  · exact .unchanged
  · exact .did fun hg => hg

theorem whole_door (r : Homes) (id : ℕ) (who : Trader) (isOpen : Bool) :
    let o := r.door id who isOpen
    Whole butLocks g r g o.1 o.2 := by
  unfold door
  split
  · exact .unchanged
  · split
    · exact .unchanged
    · exact .did fun hg => hg

theorem whole_leaveCrew (r : Homes) (id : ℕ) (who : Trader) :
    let o := r.leaveCrew id who
    Whole butLocks g r g o.1 o.2 := by
  unfold leaveCrew
  split
  · exact .unchanged
  · split
    · exact .unchanged
    · exact .did fun hg => hg

theorem whole_clearCrew (r : Homes) (id : ℕ) (who : Trader) :
    let o := r.clearCrew id who
    Whole butLocks g r g o.1 o.2 := by
  unfold clearCrew
  split
  · exact .unchanged
  · exact .did fun hg => hg

theorem whole_knock (r : Homes) (id : ℕ) (name : String) :
    let o := r.knock id name
    Whole butLocks g r g o.1 o.2 := by
  unfold knock
  split
  · exact .unchanged
  · exact .did fun hg => hg

theorem whole_movePiece (c : City) (r : Homes) (id : ℕ) (who : Trader)
    (piece s x turn storey : ℕ) :
    let o := r.movePiece c id who piece s x turn storey
    Whole butLocks g r g o.1 o.2 := by
  unfold movePiece
  split
  · exact .unchanged
  · split
    · exact .unchanged
    · split
      · exact .unchanged
      · dsimp only
        split
        · exact .unchanged
        · exact .did fun hg => hg

theorem whole_serve {req : HomeRequest} {name : String} {now : ℕ}
    (ho : r.serve c req g who name now = some o) : Whole butLocks g r o.2.1 o.1 o.2.2 := by
  unfold serve at ho
  split at ho
  · cases ho
    exact .unchanged
  · cases req with
    | rent id weeks => exact whole_rent ho
    | buy id => exact whole_buy ho
    | giveUp id => exact whole_giveUp ho
    | enterCode id code =>
      cases ho
      exact .same (butLocks_enterCode r id who code now)
    | door id isOpen =>
      cases ho
      exact (whole_door r id who isOpen).map _
    | knock id =>
      cases ho
      exact whole_knock r id name
    | setCode id guest code =>
      cases ho
      exact whole_setCode r id who guest code
    | lock id locked =>
      cases ho
      exact whole_setLocked r id who locked
    | leaveCrew id =>
      cases ho
      exact whole_leaveCrew r id who
    | clearCrew id =>
      cases ho
      exact whole_clearCrew r id who
    | feed id credits => exact whole_feed ho
    | takeRent id credits => exact whole_withdraw ho
    | furnish id furniture s x turn storey =>
      dsimp only at ho
      split at ho
      · exact whole_furnish ho
      · cases ho
        exact .unchanged
    | movePiece id piece s x turn storey =>
      cases ho
      exact whole_movePiece c r id who piece s x turn storey
    | sellPiece id piece => exact whole_sellPiece ho
    | stash id piece item qty => exact whole_stash ho
    | unstash id piece item qty => exact whole_unstash ho

end Homes

end BeforeColony
