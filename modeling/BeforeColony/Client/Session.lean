import BeforeColony.Lib.Run
import BeforeColony.Proto.Control
import Mathlib.Tactic.SplitIfs

/-!
# The link's lifecycle

From Play on the title screen to the world and back. Only a link that was in the world redials by
itself, after the waits of `backoff` and no more often than there are of them
(`redial_backs_off`). Times are those of the page, of which only the order, the sum the code forms
and its difference are used.
-/

set_option autoImplicit false

namespace BeforeColony.Session

open Lib Lib.Run

def dialTimeout : ℕ := 10
def handshakeTimeout : ℕ := 10
def signTimeout : ℕ := 60

/-- Waits between automatic redials, one for each attempt. -/
def backoff : List ℕ := [1, 2, 4, 8, 15, 15]

def byeTakenOver : UInt8 := 1

inductive LinkError where
  | noWebTransport
  | unreachable (why : String)
  | dialTimeout
  | handshakeTimeout
  | rejected (reason : RejectReason)
  | serverBye (reason : UInt8)
  | takenOver
  | walletDeclined (why : String)
  | walletTimeout
  | lost
deriving DecidableEq

def LinkError.retryable : LinkError → Bool
  | noWebTransport | takenOver | walletDeclined _ | walletTimeout => false
  | rejected r => decide (r = .serverFull)
  | unreachable _ | dialTimeout | handshakeTimeout | serverBye _ | lost => true

inductive LinkState (T : Type) where
  | idle
  | dialing (attempt : ℕ) (since : T)
  | handshake (attempt : ℕ) (since : T)
  | signing (attempt : ℕ) (since : T)
  | inGame (since : T)
  | retrying (attempt : ℕ) (at_ : T) (why : LinkError)
  | failed (why : LinkError)
deriving DecidableEq

inductive LinkAction where
  | dial
  | close
deriving DecidableEq

structure Link (T : Type) where
  state : LinkState T := .idle
  /-- Automatic redials that got back in game. -/
  reconnects : ℕ := 0
  lastError : Option LinkError := none
deriving DecidableEq

inductive Call (T : Type) where
  | play (now : T)
  | cancel
  | unsupported
  | dialed (now : T)
  | signing (now : T)
  | signed (now : T)
  | redial (now : T)
  | walletFailed (why : String)
  | welcomed (now : T)
  | dialFailed (now : T) (why : String)
  | rejected (now : T) (reason : RejectReason)
  | serverBye (now : T) (reason : UInt8)
  | lost (now : T)
  | tick (now : T)

/-- The page's time it was made at, if it says. -/
def Call.time {T : Type} : Call T → Option T
  | cancel | unsupported | walletFailed _ => none
  | play t | dialed t | signing t | signed t | redial t | welcomed t | dialFailed t _
  | rejected t _ | serverBye t _ | lost t | tick t => some t

namespace Link

variable {T : Type}

section

def isInGame (link : Link T) : Bool :=
  match link.state with
  | .inGame _ => true
  | _ => false

/-- Which redial this is, 0 for the first dial. -/
def attempt (link : Link T) : ℕ :=
  match link.state with
  | .dialing n _ | .handshake n _ | .signing n _ | .retrying n _ _ => n
  | .idle | .inGame _ | .failed _ => 0

def fail (link : Link T) (why : LinkError) : Link T :=
  { link with lastError := some why, state := .failed why }

def play (link : Link T) (now : T) : Link T × Option LinkAction :=
  match link.state with
  | .idle | .failed _ => ({ link with state := .dialing 0 now }, some .dial)
  | .retrying n _ _ => ({ link with state := .dialing n now }, some .dial)
  | _ => (link, none)

def cancel (link : Link T) : Link T × LinkAction :=
  ({ link with state := .idle }, .close)

def unsupported (link : Link T) : Link T := link.fail .noWebTransport

def dialed (link : Link T) (now : T) : Link T :=
  match link.state with
  | .dialing n _ => { link with state := .handshake n now }
  | _ => link

def signing (link : Link T) (now : T) : Link T :=
  match link.state with
  | .handshake n _ => { link with state := .signing n now }
  | _ => link

def signed (link : Link T) (now : T) : Link T :=
  match link.state with
  | .signing n _ => { link with state := .handshake n now }
  | _ => link

/-- Dials again mid-handshake as the same attempt. -/
def redial (link : Link T) (now : T) : Link T × Option LinkAction :=
  match link.state with
  | .handshake n _ => ({ link with state := .dialing n now }, some .dial)
  | _ => (link, none)

def walletFailed (link : Link T) (why : String) : Link T × Option LinkAction :=
  match link.state with
  | .signing _ _ => (link.fail (.walletDeclined why), some .close)
  | _ => (link, none)

def welcomed (link : Link T) (now : T) : Link T :=
  match link.state with
  | .handshake n _ =>
    { link with
      reconnects := if 0 < n then link.reconnects + 1 else link.reconnects
      state := .inGame now }
  | _ => link

end

variable [LinearOrder T] [Add T] [Sub T] [NatCast T]

/-- Which of the waits comes next, if the link redials by itself from here. -/
def onward (link : Link T) : Option ℕ :=
  match link.state with
  | .inGame _ => some 0
  | .dialing n _ | .handshake n _ => if 0 < n then some n else none
  -- a signature is the player's to give
  | .signing _ _ => none
  | .idle | .retrying _ _ _ | .failed _ => none

def down (link : Link T) (now : T) (why : LinkError) : Link T × LinkAction :=
  ({ link with
      lastError := some why
      state :=
        match link.onward with
        | some n =>
          if h : why.retryable = true ∧ n < backoff.length then
            .retrying (n + 1) (now + (backoff.get ⟨n, h.2⟩ : ℕ)) why
          else .failed why
        | none => .failed why },
    .close)

/-- The link went down, from one of the states `from_` names. -/
def downFrom (link : Link T) (from_ : LinkState T → Bool) (now : T) (why : LinkError) :
    Link T × Option LinkAction :=
  if from_ link.state then
    let (link', action) := link.down now why
    (link', some action)
  else (link, none)

def dialFailed (link : Link T) (now : T) (why : String) : Link T × Option LinkAction :=
  link.downFrom (fun
    | .dialing _ _ | .handshake _ _ | .signing _ _ => true
    | .idle | .inGame _ | .retrying _ _ _ | .failed _ => false) now (.unreachable why)

def rejected (link : Link T) (now : T) (reason : RejectReason) : Link T × Option LinkAction :=
  link.downFrom (fun
    | .dialing _ _ | .handshake _ _ | .signing _ _ | .inGame _ => true
    | .idle | .retrying _ _ _ | .failed _ => false) now (.rejected reason)

def serverBye (link : Link T) (now : T) (reason : UInt8) : Link T × Option LinkAction :=
  link.downFrom (fun
    | .handshake _ _ | .signing _ _ | .inGame _ => true
    | .idle | .dialing _ _ | .retrying _ _ _ | .failed _ => false) now
    (if reason = byeTakenOver then .takenOver else .serverBye reason)

def lost (link : Link T) (now : T) : Link T × Option LinkAction :=
  link.downFrom (fun
    | .dialing _ _ | .handshake _ _ | .signing _ _ | .inGame _ => true
    | .idle | .retrying _ _ _ | .failed _ => false) now .lost

def tick (link : Link T) (now : T) : Link T × Option LinkAction :=
  match link.state with
  | .dialing _ since =>
    if ((Session.dialTimeout : ℕ) : T) < now - since then
      let (link', action) := link.down now .dialTimeout
      (link', some action)
    else (link, none)
  | .handshake _ since =>
    if ((Session.handshakeTimeout : ℕ) : T) < now - since then
      let (link', action) := link.down now .handshakeTimeout
      (link', some action)
    else (link, none)
  | .signing _ since =>
    if ((signTimeout : ℕ) : T) < now - since then (link.fail .walletTimeout, some .close)
    else (link, none)
  | .retrying n at_ _ =>
    if at_ ≤ now then ({ link with state := .dialing n now }, some .dial) else (link, none)
  | .idle | .inGame _ | .failed _ => (link, none)

def call (link : Link T) : Call T → Link T × Option LinkAction
  | .play now => link.play now
  | .cancel => (link.cancel.1, some link.cancel.2)
  | .unsupported => (link.unsupported, none)
  | .dialed now => (link.dialed now, none)
  | .signing now => (link.signing now, none)
  | .signed now => (link.signed now, none)
  | .redial now => link.redial now
  | .walletFailed why => link.walletFailed why
  | .welcomed now => (link.welcomed now, none)
  | .dialFailed now why => link.dialFailed now why
  | .rejected now reason => link.rejected now reason
  | .serverBye now reason => link.serverBye now reason
  | .lost now => link.lost now
  | .tick now => link.tick now

def next (link : Link T) (c : Call T) : Link T := (link.call c).1

def after (calls : List (Call T)) : Link T := calls.foldl next {}

def redials (link : Link T) : Call T → ℕ
  | .tick now => if (link.tick now).2 = some .dial then 1 else 0
  | _ => 0

/-- No link, and none on its way: the player has to ask for one. -/
def atRest (link : Link T) : Bool :=
  match link.state with
  | .idle | .failed _ => true
  | _ => false

/-- The attempt the link is being made as, up to the server's Welcome. -/
def connecting (link : Link T) : Option ℕ :=
  match link.state with
  | .dialing n _ | .handshake n _ | .signing n _ => some n
  | _ => none

inductive Moves (link : Link T) : Call T → Link T → ℕ → Prop
  | stay {c link'} (h : link'.state = link.state) : Moves link c link' 0
  | stop {c link'} (h : link'.atRest = true) : Moves link c link' 0
  | start {t link'} (h : link.atRest = true) (h' : link'.state = .dialing 0 t) :
      Moves link (.play t) link' 0
  | early {n u why t link'} (h : link.state = .retrying n u why) (h' : link'.state = .dialing n t) :
      Moves link (.play t) link' 0
  | due {n u why t link'} (h : link.state = .retrying n u why) (hdue : u ≤ t)
      (h' : link'.state = .dialing n t) : Moves link (.tick t) link' 1
  | advance {n c link'} (h : link.connecting = some n) (h' : link'.connecting = some n) :
      Moves link c link' 0
  | enter {n t link'} (h : link.connecting = some n) (h' : link'.state = .inGame t) :
      Moves link (.welcomed t) link' 0
  | wait {k c t why link'} (hk : k < backoff.length) (h : link.onward = some k)
      (htime : c.time = some t) (hwhy : why.retryable = true)
      (h' : link'.state = .retrying (k + 1) (t + (backoff[k] : ℕ)) why) : Moves link c link' 0

variable {link : Link T}

omit [Sub T] in
theorem moves_down {c : Call T} {t : T} (htime : c.time = some t) (why : LinkError) :
    Moves link c (link.down t why).1 0 := by
  unfold down
  cases honward : link.onward with
  | none => exact .stop rfl
  | some k =>
    by_cases h : why.retryable = true ∧ k < backoff.length
    · refine .wait h.2 honward htime h.1 ?_
      simp only [dif_pos h, List.get_eq_getElem]
    · apply Moves.stop
      simp only [dif_neg h]
      rfl

omit [Sub T] in
theorem moves_downFrom {c : Call T} {t : T} (htime : c.time = some t) (from_ : LinkState T → Bool)
    (why : LinkError) : Moves link c (link.downFrom from_ t why).1 0 := by
  unfold downFrom
  split
  · exact moves_down htime why
  · exact .stay rfl

theorem moves_tick (link : Link T) (t : T) :
    Moves link (.tick t) (link.tick t).1 (link.redials (.tick t)) := by
  have hquiet (hact : (link.tick t).2 ≠ some .dial) (h : Moves link (.tick t) (link.tick t).1 0) :
      Moves link (.tick t) (link.tick t).1 (link.redials (.tick t)) := by
    rw [redials, if_neg hact]
    exact h
  have hstay (h : link.tick t = (link, none)) :
      Moves link (.tick t) (link.tick t).1 (link.redials (.tick t)) := by
    apply hquiet
    · rw [h]
      exact nofun
    · rw [h]
      exact .stay rfl
  have htimeout {n : ℕ} {since : T} {why : LinkError}
      (h : link.tick t = if ((n : ℕ) : T) < t - since then ((link.down t why).1, some .close)
        else (link, none)) : Moves link (.tick t) (link.tick t).1 (link.redials (.tick t)) := by
    split_ifs at h
    · apply hquiet
      · rw [h]
        exact fun heq => LinkAction.noConfusion (Option.some.inj heq)
      · rw [h]
        exact moves_down rfl why
    · exact hstay h
  cases hstate : link.state with
  | idle => exact hstay (by rw [tick, hstate])
  | failed why => exact hstay (by rw [tick, hstate])
  | inGame since => exact hstay (by rw [tick, hstate])
  | dialing n since => exact htimeout (by rw [tick, hstate]; rfl)
  | handshake n since => exact htimeout (by rw [tick, hstate]; rfl)
  | signing n since =>
    have htick : link.tick t = if ((signTimeout : ℕ) : T) < t - since
        then (link.fail .walletTimeout, some .close) else (link, none) := by rw [tick, hstate]
    split_ifs at htick
    · apply hquiet
      · rw [htick]
        exact fun heq => LinkAction.noConfusion (Option.some.inj heq)
      · rw [htick]
        exact .stop rfl
    · exact hstay htick
  | retrying n u why =>
    have htick : link.tick t = if u ≤ t then ({ link with state := .dialing n t }, some .dial)
        else (link, none) := by rw [tick, hstate]
    split_ifs at htick with hdue
    · rw [redials, htick, if_pos rfl]
      exact .due hstate hdue rfl
    · exact hstay htick

theorem moves (link : Link T) (c : Call T) : Moves link c (link.next c) (link.redials c) := by
  cases c with
  | play t =>
    change Moves link _ (link.play t).1 0
    unfold play
    split
    · rename_i hstate
      exact .start (by rw [atRest, hstate]) rfl
    · rename_i hstate
      exact .start (by rw [atRest, hstate]) rfl
    · rename_i hstate
      exact .early hstate rfl
    · exact .stay rfl
  | cancel => exact .stop rfl
  | unsupported => exact .stop rfl
  | dialed t =>
    change Moves link _ (link.dialed t) 0
    unfold dialed
    split
    · rename_i hstate
      exact .advance (by rw [connecting, hstate]) rfl
    · exact .stay rfl
  | signing t =>
    change Moves link _ (link.signing t) 0
    unfold signing
    split
    · rename_i hstate
      exact .advance (by rw [connecting, hstate]) rfl
    · exact .stay rfl
  | signed t =>
    change Moves link _ (link.signed t) 0
    unfold signed
    split
    · rename_i hstate
      exact .advance (by rw [connecting, hstate]) rfl
    · exact .stay rfl
  | redial t =>
    change Moves link _ (link.redial t).1 0
    unfold redial
    split
    · rename_i hstate
      exact .advance (by rw [connecting, hstate]) rfl
    · exact .stay rfl
  | walletFailed why =>
    change Moves link _ (link.walletFailed why).1 0
    unfold walletFailed
    split
    · exact .stop rfl
    · exact .stay rfl
  | welcomed t =>
    change Moves link _ (link.welcomed t) 0
    unfold welcomed
    split
    · rename_i hstate
      exact .enter (by rw [connecting, hstate]) rfl
    · exact .stay rfl
  | dialFailed t why => exact moves_downFrom rfl _ _
  | rejected t reason => exact moves_downFrom rfl _ _
  | serverBye t reason => exact moves_downFrom rfl _ _
  | lost t => exact moves_downFrom rfl _ _
  | tick t => exact moves_tick link t

/-- The redials the link may still make by itself before it is in game again. -/
def left (link : Link T) : ℕ :=
  match link.state with
  | .inGame _ => backoff.length
  | .retrying n _ _ => backoff.length + 1 - n
  | .dialing n _ | .handshake n _ | .signing n _ => if 0 < n then backoff.length - n else 0
  | .idle | .failed _ => 0

section

omit [LinearOrder T] [Add T] [Sub T] [NatCast T]

theorem left_of_connecting {n : ℕ} (h : link.connecting = some n) :
    link.attempt = n ∧ link.left = if 0 < n then backoff.length - n else 0 := by
  revert h
  unfold connecting attempt left
  cases link.state with
  | dialing m t => exact fun h => Option.some.inj h ▸ ⟨rfl, rfl⟩
  | handshake m t => exact fun h => Option.some.inj h ▸ ⟨rfl, rfl⟩
  | signing m t => exact fun h => Option.some.inj h ▸ ⟨rfl, rfl⟩
  | idle => exact nofun
  | failed why => exact nofun
  | inGame t => exact nofun
  | retrying m u why => exact nofun

theorem left_of_atRest (h : link.atRest = true) : link.attempt = 0 ∧ link.left = 0 := by
  revert h
  unfold atRest attempt left
  cases link.state with
  | idle => exact fun _ => ⟨rfl, rfl⟩
  | failed why => exact fun _ => ⟨rfl, rfl⟩
  | dialing m t => exact nofun
  | handshake m t => exact nofun
  | signing m t => exact nofun
  | inGame t => exact nofun
  | retrying m u why => exact nofun

theorem left_of_retrying {n : ℕ} {u : T} {why : LinkError} (h : link.state = .retrying n u why) :
    link.attempt = n ∧ link.left = backoff.length + 1 - n := by
  constructor
  · rw [attempt, h]
  · rw [left, h]

theorem left_of_dialing {n : ℕ} {t : T} (h : link.state = .dialing n t) :
    link.attempt = n ∧ link.left = if 0 < n then backoff.length - n else 0 :=
  left_of_connecting (by rw [connecting, h])

theorem left_of_onward {k : ℕ} (h : link.onward = some k) : link.left = backoff.length - k := by
  revert h
  unfold onward left
  cases link.state with
  | inGame t => exact fun h => Option.some.inj h ▸ rfl
  | dialing m t =>
    intro h
    by_cases hpos : 0 < m
    · simp only [if_pos hpos, Option.some.injEq] at h ⊢
      rw [h]
    · simp only [if_neg hpos, reduceCtorEq] at h
  | handshake m t =>
    intro h
    by_cases hpos : 0 < m
    · simp only [if_pos hpos, Option.some.injEq] at h ⊢
      rw [h]
    · simp only [if_neg hpos, reduceCtorEq] at h
  | signing m t => exact nofun
  | idle => exact nofun
  | failed why => exact nofun
  | retrying m u why => exact nofun

end

omit [Sub T] in
/-- What a call leaves of the redials, and what it makes of them. -/
theorem Moves.left_le {c : Call T} {link' : Link T} {r : ℕ} (h : Moves link c link' r)
    (hfew : link.attempt ≤ backoff.length) :
    link'.attempt ≤ backoff.length ∧ (link'.isInGame = false → link'.left + r ≤ link.left) := by
  cases h with
  | stay heq =>
    have hattempt : link'.attempt = link.attempt := by rw [attempt, attempt, heq]
    have hleft : link'.left = link.left := by rw [left, left, heq]
    exact ⟨hattempt ▸ hfew, fun _ => hleft.le⟩
  | stop hrest =>
    obtain ⟨hattempt, hleft⟩ := left_of_atRest hrest
    exact ⟨by omega, fun _ => by omega⟩
  | start hrest hdial =>
    obtain ⟨hattempt, hleft⟩ := left_of_dialing hdial
    rw [if_neg (lt_irrefl 0)] at hleft
    exact ⟨by omega, fun _ => by omega⟩
  | early hretry hdial =>
    obtain ⟨hattempt, hleft⟩ := left_of_dialing hdial
    obtain ⟨hold, hleft₀⟩ := left_of_retrying hretry
    constructor
    · omega
    · intro _
      split at hleft <;> omega
  | due hretry hdue hdial =>
    obtain ⟨hattempt, hleft⟩ := left_of_dialing hdial
    obtain ⟨hold, hleft₀⟩ := left_of_retrying hretry
    constructor
    · omega
    · intro _
      split at hleft <;> omega
  | advance hold hnew =>
    obtain ⟨hattempt, hleft⟩ := left_of_connecting hnew
    obtain ⟨hattempt₀, hleft₀⟩ := left_of_connecting hold
    exact ⟨by omega, fun _ => by omega⟩
  | @enter n t _ hold hnew =>
    constructor
    · rw [attempt, hnew]
      exact Nat.zero_le _
    · intro hout
      rw [isInGame, hnew] at hout
      exact Bool.noConfusion hout
  | @wait k _ t why _ hk hold htime hwhy hnew =>
    obtain ⟨hattempt, hleft⟩ := left_of_retrying hnew
    have hleft₀ := left_of_onward hold
    exact ⟨by omega, fun _ => by omega⟩

theorem total_redials_le {out : List (Call T)} (hfew : link.attempt ≤ backoff.length)
    (h : Along next (fun link c => (link.next c).isInGame = false) link out) :
    total next redials link out ≤ link.left := by
  induction out generalizing link with
  | nil => exact Nat.zero_le _
  | cons c rest ih =>
    obtain ⟨hattempt, hstep⟩ := (link.moves c).left_le hfew
    have hrest := ih hattempt h.2
    have hfirst := hstep h.1
    rw [total]
    omega

theorem after_concat (calls : List (Call T)) (c : Call T) :
    after (calls ++ [c]) = (after calls).next c := by
  rw [after, List.foldl_append]
  rfl

theorem few_after (calls : List (Call T)) :
    (after calls).attempt ≤ backoff.length ∧ (after calls).left ≤ backoff.length := by
  induction calls using List.reverseRecOn with
  | nil => exact ⟨Nat.zero_le _, Nat.zero_le _⟩
  | append_singleton calls c ih =>
    rw [after_concat]
    obtain ⟨hattempt, hstep⟩ := ((after calls).moves c).left_le ih.1
    refine ⟨hattempt, ?_⟩
    cases hgame : ((after calls).next c).isInGame with
    | false =>
      have hleft := hstep hgame
      omega
    | true =>
      revert hgame
      unfold isInGame left
      cases ((after calls).next c).state with
      | inGame t => exact fun _ => le_refl _
      | idle => exact nofun
      | failed why => exact nofun
      | dialing n t => exact nofun
      | handshake n t => exact nofun
      | signing n t => exact nofun
      | retrying n u why => exact nofun

theorem downed_of_retrying {calls : List (Call T)} {n : ℕ} {u : T} {why : LinkError}
    (h : (after calls).state = .retrying n u why) :
    ∃ pre c t mid k, ∃ hk : k < backoff.length,
      calls = pre ++ c :: mid ∧ c.time = some t ∧ (after pre).onward = some k
        ∧ why.retryable = true ∧ n = k + 1 ∧ u = t + (backoff[k] : ℕ)
        ∧ ∀ m, (after (pre ++ c :: mid.take m)).state = .retrying n u why := by
  induction calls using List.reverseRecOn with
  | nil => exact nomatch h
  | append_singleton calls c ih =>
    have hmove := (after calls).moves c
    rw [← after_concat] at hmove
    generalize (after calls).redials c = r at hmove
    cases hmove with
    | stay heq =>
      obtain ⟨pre, d, t, mid, k, hk, hcalls, htime, honward, hwhy, hn, hu, hsame⟩ := ih (heq ▸ h)
      refine ⟨pre, d, t, mid ++ [c], k, hk, ?_, htime, honward, hwhy, hn, hu, fun m => ?_⟩
      · rw [hcalls, List.append_assoc]
        rfl
      · rcases Nat.lt_or_ge mid.length m with hall | hpart
        · have hlong : (mid ++ [c]).length ≤ m := by
            rw [List.length_append]
            exact hall
          rw [List.take_of_length_le hlong, ← List.cons_append, ← List.append_assoc, ← hcalls]
          exact h
        · rw [List.take_append_of_le_length hpart]
          exact hsame m
    | stop hrest =>
      rw [atRest, h] at hrest
      exact Bool.noConfusion hrest
    | start hrest hdial => exact nomatch h.symm.trans hdial
    | early hretry hdial => exact nomatch h.symm.trans hdial
    | due hretry hdue hdial => exact nomatch h.symm.trans hdial
    | enter hold hnew => exact nomatch h.symm.trans hnew
    | advance hold hnew =>
      rw [connecting, h] at hnew
      exact nomatch hnew
    | @wait k _ t why' _ hk hold htime hwhy hnew =>
      obtain ⟨hn, hu, hwhy'⟩ := LinkState.retrying.inj (h.symm.trans hnew)
      refine ⟨calls, c, t, [], k, hk, rfl, htime, hold, hwhy' ▸ hwhy, hn, hu, fun m => ?_⟩
      rw [List.take_nil]
      exact h

/-- A link that was in the world and is no longer dials by itself six times at most before it is
there again, one that stopped for the player not once, and each of the dials comes no sooner than
its wait after the call that took the link down, nothing having changed in between. -/
theorem redial_backs_off (pre : List (Call T)) :
    (∀ out, Along next (fun link c => (link.next c).isInGame = false) (after pre) out →
      total next redials (after pre) out ≤ backoff.length
        ∧ ((after pre).atRest = true → total next redials (after pre) out = 0))
      ∧ ∀ now, (after pre).redials (.tick now) = 1 →
        ∃ before c t mid k, ∃ hk : k < backoff.length, ∃ why,
          pre = before ++ c :: mid ∧ c.time = some t ∧ (after before).onward = some k
            ∧ why.retryable = true ∧ t + (backoff[k] : ℕ) ≤ now
            ∧ ∀ m, (after (before ++ c :: mid.take m)).state
              = .retrying (k + 1) (t + (backoff[k] : ℕ)) why := by
  constructor
  · intro out hout
    obtain ⟨hattempt, hleft⟩ := few_after pre
    have htotal := total_redials_le hattempt hout
    refine ⟨htotal.trans hleft, fun hrest => ?_⟩
    have hnone := (left_of_atRest hrest).2
    omega
  · intro now hdial
    have hmove := (after pre).moves (.tick now)
    rw [hdial] at hmove
    cases hmove with
    | due hretry hdue hnew =>
      obtain ⟨before, c, t, mid, k, hk, hpre, htime, honward, hwhy, hn, hu, hsame⟩ :=
        downed_of_retrying hretry
      subst hn hu
      exact ⟨before, c, t, mid, k, hk, _, hpre, htime, honward, hwhy, hdue, hsame⟩

end Link

end BeforeColony.Session
