import Mathlib.Data.List.Basic
import Mathlib.Algebra.Order.Group.Nat
import Mathlib.Logic.Function.Basic

/-!
# Who gets a connection

The server counts the connections it holds in all, by subscriber and while they handshake. A pass
is a connection's place in all three, and gives it back when dropped. The counts are words of 32
bits and wrap; what holds of every run says that they never do.
-/

set_option autoImplicit false

namespace BeforeColony

inductive IpAddr where
  | v4 (a : BitVec 32)
  | v6 (a : BitVec 128)
  deriving DecidableEq

namespace IpAddr

/-- An IPv4 address written as an IPv6 one is the IPv4 one. -/
def toCanonical : IpAddr → IpAddr
  | v4 a => v4 a
  | v6 a => if a.toNat / 2 ^ 32 = 0xFFFF then v4 (BitVec.ofNat 32 a.toNat) else v6 a

def isLoopback : IpAddr → Bool
  | v4 a => a.toNat / 2 ^ 24 = 127
  | v6 a => a.toNat = 1

end IpAddr

/-- Whom a connection counts against: an IPv4 address, or an IPv6 address's /64. -/
def whose : IpAddr → IpAddr
  | .v6 a => .v6 (a &&& ~~~BitVec.ofNat 128 (2 ^ 64 - 1))
  | .v4 a => .v4 a

/-- How many connections the server takes. -/
structure Limits where
  connections : ℕ
  perAddress : ℕ
  loopbackExcepted : Bool
  /-- Handshakes under way past which an unvalidated address is sent a Retry first. -/
  retryAbove : ℕ
  connections_lt : connections < 2 ^ 32

/-- A sector takes 64 pilots; a household behind one address brings a few. -/
def Limits.default : Limits where
  connections := 512
  perAddress := 8
  loopbackExcepted := true
  retryAbove := 32
  connections_lt := by decide

inductive Refusal where
  | full | address
  deriving DecidableEq

structure Pass where
  ip : IpAddr
  handshaking : Bool
  deriving DecidableEq

inductive Admission.Verdict where
  /-- In, for as long as the pass is kept. -/
  | admitted (pass : Pass)
  | retry
  | refuse (refusal : Refusal)

structure Admission where
  limits : Limits
  byAddress : IpAddr → Option ℕ
  open_ : ℕ
  handshaking : ℕ

namespace Admission

/-- One more, in a word of 32 bits. -/
def up (n : ℕ) : ℕ := (n + 1) % 2 ^ 32

/-- One less, in a word of 32 bits. -/
def down (n : ℕ) : ℕ := (n + (2 ^ 32 - 1)) % 2 ^ 32

def new (limits : Limits) : Admission := ⟨limits, fun _ => none, 0, 0⟩

variable (a : Admission)

/-- `admit`: a connection attempt; `validated`: it has proved it hears back at that address. -/
def attempt (ip : IpAddr) (validated : Bool) : Admission × Verdict :=
  let ip := ip.toCanonical
  let isLocal := ip.isLoopback && a.limits.loopbackExcepted
  let ip := whose ip
  if a.limits.connections ≤ a.open_ then (a, .refuse .full)
  else
    let held := (a.byAddress ip).getD 0
    if ! isLocal && a.limits.perAddress ≤ held then (a, .refuse .address)
    else if ! validated && a.limits.retryAbove ≤ a.handshaking then (a, .retry)
    else
      ({ a with
          byAddress := Function.update a.byAddress ip (some (up held))
          open_ := up a.open_
          handshaking := up a.handshaking },
        .admitted ⟨ip, true⟩)

/-- An attempt is let in below the limits, or changes nothing. -/
theorem attempt_cases (ip : IpAddr) (validated : Bool) :
    (∃ v, a.attempt ip validated = (a, v) ∧ ∀ p, v ≠ .admitted p)
      ∨ a.open_ < a.limits.connections
        ∧ ((a.byAddress (whose ip.toCanonical)).getD 0 < a.limits.perAddress
          ∨ (ip.toCanonical.isLoopback = true ∧ a.limits.loopbackExcepted = true))
        ∧ a.attempt ip validated = ({ a with
            byAddress := Function.update a.byAddress (whose ip.toCanonical)
              (some (up ((a.byAddress (whose ip.toCanonical)).getD 0)))
            open_ := up a.open_
            handshaking := up a.handshaking }, .admitted ⟨whose ip.toCanonical, true⟩) := by
  unfold attempt
  dsimp only
  split
  · exact Or.inl ⟨_, rfl, by simp⟩
  · rename_i hfull
    split
    · exact Or.inl ⟨_, rfl, by simp⟩
    · rename_i hshare
      split
      · exact Or.inl ⟨_, rfl, by simp⟩
      · refine Or.inr ⟨not_le.mp hfull, ?_, rfl⟩
        simp only [Bool.and_eq_true, Bool.not_eq_true', Bool.and_eq_false_iff, decide_eq_true_eq,
          not_and_or, not_or, Bool.not_eq_false, not_le] at hshare
        exact hshare.symm

def established (p : Pass) : Admission × Pass :=
  (if p.handshaking then { a with handshaking := down a.handshaking } else a,
    { p with handshaking := false })

/-- The end of a handshake touches the handshakes under way and nothing else. -/
theorem established_frame (p : Pass) : (a.established p).1.limits = a.limits
    ∧ (a.established p).1.open_ = a.open_ ∧ (a.established p).1.byAddress = a.byAddress := by
  unfold established
  dsimp only
  split
  · exact ⟨rfl, rfl, rfl⟩
  · exact ⟨rfl, rfl, rfl⟩

def drop (p : Pass) : Admission :=
  let a := (a.established p).1
  { a with
    open_ := down a.open_
    byAddress :=
      match a.byAddress p.ip with
      | some n => Function.update a.byAddress p.ip (if down n = 0 then none else some (down n))
      | none => a.byAddress }

end Admission

structure Door where
  counts : Admission
  passes : List Pass

inductive DoorAct where
  | attempt (ip : IpAddr) (validated : Bool)
  | established (k : ℕ)
  | drop (k : ℕ)

namespace Door

def new (limits : Limits) : Door := ⟨.new limits, []⟩

def step (d : Door) : DoorAct → Door
  | .attempt ip validated =>
    match d.counts.attempt ip validated with
    | (counts, .admitted pass) => ⟨counts, d.passes ++ [pass]⟩
    | (counts, _) => ⟨counts, d.passes⟩
  | .established k =>
    match d.passes[k]? with
    | some p => ⟨(d.counts.established p).1, d.passes.set k (d.counts.established p).2⟩
    | none => d
  | .drop k =>
    match d.passes[k]? with
    | some p => ⟨d.counts.drop p, d.passes.eraseIdx k⟩
    | none => d

def run (d : Door) (acts : List DoorAct) : Door := acts.foldl step d

def heldBy (d : Door) (ip : IpAddr) : ℕ := d.passes.countP fun p => p.ip = ip

/-- A subscriber one of whose addresses is loopback, excepted from its share. -/
def Excepted (limits : Limits) (ip : IpAddr) : Prop :=
  limits.loopbackExcepted = true ∧ ∃ a : IpAddr, a.toCanonical.isLoopback = true ∧ whose a.toCanonical = ip

/-- Every count is of the passes held, and within its limit. -/
structure Sound (limits : Limits) (d : Door) : Prop where
  limits_eq : d.counts.limits = limits
  open_eq : d.counts.open_ = d.passes.length
  open_le : d.passes.length ≤ limits.connections
  byAddress : ∀ ip, d.counts.byAddress ip = if d.heldBy ip = 0 then none else some (d.heldBy ip)
  share : ∀ ip, ¬ Excepted limits ip → d.heldBy ip ≤ limits.perAddress
  handshaking : d.counts.handshaking = d.passes.countP Pass.handshaking

variable {limits : Limits} {d : Door}

theorem sound_new (limits : Limits) : (new limits).Sound limits :=
  ⟨rfl, rfl, Nat.zero_le _, fun _ => rfl, fun _ _ => Nat.zero_le _, rfl⟩

theorem up_eq {n : ℕ} (hroom : n < limits.connections) : Admission.up n = n + 1 := by
  have hlt := limits.connections_lt
  exact Nat.mod_eq_of_lt (by omega)

theorem down_eq {n : ℕ} (hpos : 0 < n) (hn : n ≤ limits.connections) : Admission.down n = n - 1 := by
  have hlt := limits.connections_lt
  rw [Admission.down, show n + (2 ^ 32 - 1) = n - 1 + 2 ^ 32 by omega, Nat.add_mod_right]
  exact Nat.mod_eq_of_lt (by omega)

theorem Sound.getD_eq (h : d.Sound limits) (ip : IpAddr) :
    (d.counts.byAddress ip).getD 0 = d.heldBy ip := by
  rw [h.byAddress ip]
  split
  · rename_i hzero
    rw [hzero]
    rfl
  · rfl

theorem heldBy_le (d : Door) (ip : IpAddr) : d.heldBy ip ≤ d.passes.length := List.countP_le_length

theorem Sound.attempt (h : d.Sound limits) (ip : IpAddr) (validated : Bool) :
    (d.step (.attempt ip validated)).Sound limits := by
  rcases d.counts.attempt_cases ip validated with ⟨v, heq, hnot⟩ | ⟨hroom, hshare, heq⟩
  · have hstep : d.step (.attempt ip validated) = d := by
      cases v with
      | admitted p => exact absurd rfl (hnot p)
      | retry => simp only [Door.step, heq]
      | refuse r => simp only [Door.step, heq]
    rwa [hstep]
  · rw [h.limits_eq, h.open_eq] at hroom
    rw [h.limits_eq, h.getD_eq] at hshare
    generalize hip : whose ip.toCanonical = who at heq hshare
    have hheld : ∀ ip', (d.step (.attempt ip validated)).heldBy ip'
        = d.heldBy ip' + if who = ip' then 1 else 0 := by
      intro ip'
      simp only [Door.step, heq, heldBy, List.countP_append, List.countP_singleton,
        decide_eq_true_eq]
    have hle := heldBy_le d who
    have hhandshaking : d.passes.countP Pass.handshaking ≤ d.passes.length := List.countP_le_length
    constructor
    · simp only [Door.step, heq]
      exact h.limits_eq
    · simp only [Door.step, heq, List.length_append, List.length_singleton, h.open_eq]
      exact up_eq hroom
    · simp only [Door.step, heq, List.length_append, List.length_singleton]
      omega
    · intro ip'
      rw [hheld]
      simp only [Door.step, heq, h.getD_eq, Function.update_apply, up_eq (hle.trans_lt hroom)]
      by_cases hwho : who = ip'
      · subst hwho
        simp
      · rw [if_neg (Ne.symm hwho), if_neg hwho, h.byAddress ip']
        simp
    · intro ip' hnot
      rw [hheld]
      have hold := h.share ip' hnot
      split
      · rename_i hwho
        rcases hshare with hlt | ⟨hloop, hexcept⟩
        · rw [← hwho]
          omega
        · exact absurd ⟨hexcept, ip, hloop, hip.trans hwho⟩ hnot
      · exact hold
    · simp only [Door.step, heq, List.countP_append, List.countP_singleton, h.handshaking]
      exact up_eq (hhandshaking.trans_lt hroom)

theorem countP_set {α : Type} (q : α → Bool) {l : List α} {k : ℕ} {p : α} (hk : l[k]? = some p)
    (p' : α) : (l.set k p').countP q + (q p).toNat = l.countP q + (q p').toNat := by
  induction l generalizing k with
  | nil => simp at hk
  | cons b rest ih =>
    cases k with
    | zero =>
      cases hk
      rw [List.set_cons_zero, List.countP_cons, List.countP_cons]
      cases q p <;> cases q p' <;> simp
    | succ k =>
      have hrest := ih (k := k) (by simpa using hk)
      rw [List.set_cons_succ, List.countP_cons, List.countP_cons]
      omega

theorem countP_eraseIdx {α : Type} (q : α → Bool) {l : List α} {k : ℕ} {p : α}
    (hk : l[k]? = some p) : (l.eraseIdx k).countP q + (q p).toNat = l.countP q := by
  induction l generalizing k with
  | nil => simp at hk
  | cons b rest ih =>
    cases k with
    | zero =>
      cases hk
      rw [List.eraseIdx_cons_zero, List.countP_cons]
      cases q p <;> simp
    | succ k =>
      have hrest := ih (k := k) (by simpa using hk)
      rw [List.eraseIdx_cons_succ, List.countP_cons, List.countP_cons]
      omega

/-- The handshakes under way once a held pass's own are done. -/
theorem Sound.handshaking_established (h : d.Sound limits) {p : Pass} {k : ℕ}
    (hk : d.passes[k]? = some p) :
    (d.counts.established p).1.handshaking + p.handshaking.toNat
      = d.passes.countP Pass.handshaking := by
  have hcount := countP_eraseIdx Pass.handshaking hk
  have hle : d.passes.countP Pass.handshaking ≤ limits.connections :=
    List.countP_le_length.trans h.open_le
  unfold Admission.established
  cases hp : p.handshaking with
  | true =>
    rw [hp, Bool.toNat_true] at hcount
    simp only [if_true, h.handshaking, Bool.toNat_true]
    rw [down_eq (by omega) hle]
    omega
  | false =>
    simp only [Bool.false_eq_true, if_false, h.handshaking, Bool.toNat_false, Nat.add_zero]

theorem Sound.established (h : d.Sound limits) (k : ℕ) : (d.step (.established k)).Sound limits := by
  cases hk : d.passes[k]? with
  | none => simpa only [Door.step, hk] using h
  | some p =>
    have hstep : d.step (.established k)
        = ⟨(d.counts.established p).1, d.passes.set k (d.counts.established p).2⟩ := by
      simp only [Door.step, hk]
    have hcount := countP_set Pass.handshaking hk (d.counts.established p).2
    have hheld : ∀ ip, (d.step (.established k)).heldBy ip = d.heldBy ip := by
      intro ip
      have hsame := countP_set (fun p : Pass => p.ip = ip) hk (d.counts.established p).2
      rw [hstep]
      exact Nat.add_right_cancel hsame
    have hle : d.passes.countP Pass.handshaking ≤ limits.connections :=
      List.countP_le_length.trans h.open_le
    obtain ⟨hlimits, hopen, hby⟩ := d.counts.established_frame p
    constructor
    · rw [hstep]
      exact hlimits.trans h.limits_eq
    · rw [hstep]
      change (d.counts.established p).1.open_ = (d.passes.set k _).length
      rw [hopen, List.length_set, h.open_eq]
    · rw [hstep]
      change (d.passes.set k _).length ≤ _
      rw [List.length_set]
      exact h.open_le
    · intro ip
      rw [hheld, ← h.byAddress ip, hstep]
      exact congrFun hby ip
    · intro ip hnot
      rw [hheld]
      exact h.share ip hnot
    · rw [hstep]
      change (d.counts.established p).1.handshaking = (d.passes.set k _).countP _
      have hnow := h.handshaking_established hk
      have hnone : (d.counts.established p).2.handshaking.toNat = 0 := rfl
      omega

theorem Sound.drop (h : d.Sound limits) (k : ℕ) : (d.step (.drop k)).Sound limits := by
  cases hk : d.passes[k]? with
  | none => simpa only [Door.step, hk] using h
  | some p =>
    have hstep : d.step (.drop k) = ⟨d.counts.drop p, d.passes.eraseIdx k⟩ := by
      simp only [Door.step, hk]
    obtain ⟨hlimits, hopen, hby⟩ := d.counts.established_frame p
    have hlength : (d.passes.eraseIdx k).length + 1 = d.passes.length := by
      have hlt : k < d.passes.length := (List.getElem?_eq_some_iff.mp hk).1
      rw [List.length_eraseIdx_of_lt hlt]
      omega
    have hheld : ∀ ip, (d.step (.drop k)).heldBy ip + (if p.ip = ip then 1 else 0)
        = d.heldBy ip := by
      intro ip
      have hcount := countP_eraseIdx (fun p : Pass => p.ip = ip) hk
      rw [hstep]
      by_cases hip : p.ip = ip
      · rw [if_pos hip]
        rwa [decide_eq_true hip] at hcount
      · rw [if_neg hip]
        rwa [decide_eq_false hip] at hcount
    have hopenLe := h.open_le
    constructor
    · rw [hstep]
      exact hlimits.trans h.limits_eq
    · rw [hstep]
      change Admission.down (d.counts.established p).1.open_ = (d.passes.eraseIdx k).length
      rw [hopen, h.open_eq, down_eq (by omega) hopenLe]
      omega
    · rw [hstep]
      change (d.passes.eraseIdx k).length ≤ _
      omega
    · intro ip
      have hown := hheld p.ip
      rw [if_pos rfl] at hown
      have hmine : (d.counts.established p).1.byAddress p.ip = some (d.heldBy p.ip) := by
        rw [hby, h.byAddress, if_neg (by omega)]
      have hdown : Admission.down (d.heldBy p.ip) = (d.step (.drop k)).heldBy p.ip := by
        rw [down_eq (by omega) ((heldBy_le d p.ip).trans hopenLe)]
        omega
      have hafter : (d.step (.drop k)).counts.byAddress = Function.update d.counts.byAddress p.ip
          (if (d.step (.drop k)).heldBy p.ip = 0 then none
            else some ((d.step (.drop k)).heldBy p.ip)) := by
        rw [← hdown, hstep]
        simp only [Admission.drop, hmine, hby]
      rw [hafter, Function.update_apply]
      by_cases hip : ip = p.ip
      · rw [if_pos hip, hip]
      · have hother := hheld ip
        rw [if_neg (Ne.symm hip), Nat.add_zero] at hother
        rw [if_neg hip, hother]
        exact h.byAddress ip
    · intro ip hnot
      have hfewer := hheld ip
      have hshare := h.share ip hnot
      omega
    · rw [hstep]
      change (d.counts.established p).1.handshaking = (d.passes.eraseIdx k).countP _
      have hnow := h.handshaking_established hk
      have hcount := countP_eraseIdx Pass.handshaking hk
      omega

theorem Sound.step (h : d.Sound limits) (act : DoorAct) : (d.step act).Sound limits := by
  cases act with
  | attempt ip validated => exact h.attempt ip validated
  | established k => exact h.established k
  | drop k => exact h.drop k

theorem Sound.run (h : d.Sound limits) (acts : List DoorAct) : (d.run acts).Sound limits := by
  induction acts generalizing d with
  | nil => exact h
  | cons act rest ih => exact ih (h.step act)

theorem Sound.room_to_lower (h : d.Sound limits) {p : Pass} (hp : p ∈ d.passes) :
    0 < d.counts.open_ ∧ (∃ n, d.counts.byAddress p.ip = some (n + 1))
      ∧ (p.handshaking = true → 0 < d.counts.handshaking) := by
  have hheld : 0 < d.heldBy p.ip := List.countP_pos_iff.mpr ⟨p, hp, decide_eq_true rfl⟩
  refine ⟨?_, ⟨d.heldBy p.ip - 1, ?_⟩, fun hshakes => ?_⟩
  · rw [h.open_eq]
    exact List.length_pos_of_mem hp
  · rw [h.byAddress, if_neg (by omega), Nat.sub_add_cancel hheld]
  · rw [h.handshaking]
    exact List.countP_pos_iff.mpr ⟨p, hp, hshakes⟩

/-- In any order of attempts, establishings and drops: the connections open are the passes held,
within the cap; a subscriber's count is of the passes it holds, within its share unless it is
excepted; the handshakes under way are of the passes not yet established; each count a held pass
will lower is above zero; and with no pass held every count is zero and no subscriber is on the
map. -/
theorem admission_counts (limits : Limits) (acts : List DoorAct) :
    ((new limits).run acts).counts.open_ = ((new limits).run acts).passes.length
      ∧ ((new limits).run acts).counts.open_ ≤ limits.connections
      ∧ (∀ ip, (((new limits).run acts).counts.byAddress ip).getD 0
          = ((new limits).run acts).heldBy ip)
      ∧ (∀ ip, ¬ Excepted limits ip →
          (((new limits).run acts).counts.byAddress ip).getD 0 ≤ limits.perAddress)
      ∧ ((new limits).run acts).counts.handshaking
          = ((new limits).run acts).passes.countP Pass.handshaking
      ∧ (∀ p ∈ ((new limits).run acts).passes, 0 < ((new limits).run acts).counts.open_
          ∧ (∃ n, ((new limits).run acts).counts.byAddress p.ip = some (n + 1))
          ∧ (p.handshaking = true → 0 < ((new limits).run acts).counts.handshaking))
      ∧ (((new limits).run acts).passes = [] → ((new limits).run acts).counts.open_ = 0
          ∧ ((new limits).run acts).counts.handshaking = 0
          ∧ ∀ ip, ((new limits).run acts).counts.byAddress ip = none) := by
  have hsound := (sound_new limits).run acts
  generalize (new limits).run acts = d at hsound ⊢
  refine ⟨hsound.open_eq, ?_, hsound.getD_eq, ?_, hsound.handshaking,
    fun p hp => hsound.room_to_lower hp, ?_⟩
  · rw [hsound.open_eq]
    exact hsound.open_le
  · intro ip hnot
    rw [hsound.getD_eq]
    exact hsound.share ip hnot
  · intro hnone
    refine ⟨?_, ?_, fun ip => ?_⟩
    · rw [hsound.open_eq, hnone]
      rfl
    · rw [hsound.handshaking, hnone]
      rfl
    · rw [hsound.byAddress, heldBy, hnone]
      rfl

example (acts : List DoorAct) : ((new .default).run acts).passes.length ≤ 512 :=
  ((sound_new .default).run acts).open_le

end Door

end BeforeColony
