import BeforeColony.Link.Objects

/-!
# Salvage a client is left with

The sector tells a client a chunk is gone only if an ack has told it that the client holds it. It does
for as long as what the client holds and has not been acked is among the numbers an ack still names
and the sector still remembers (`InTime`); past them the client is left with a chunk that nobody takes
from it (`left_with_a_chunk`).
-/

set_option autoImplicit false

namespace BeforeColony

open Lib

namespace Link

variable {z : Sizes} {s : Link z} {n k : ℕ} {held : Option ℕ}

/-- Of all the client took, datagram `n` was the last to say anything of chunk `k`, and it showed
it. -/
structure LastOn (s : Link z) (n k : ℕ) : Prop where
  taken : n ∈ s.taken
  shown : s.Shows n k
  last : ∀ m ∈ s.taken, n < m → ∀ held, ¬ s.Says m k held

def Owes (s : Link z) (n k : ℕ) : Prop := s.net.ackFloor ≤ n ∧ s.LastOn n k

/-- A step after which what is still to be acked still can be: no datagram is taken that puts one
out of the numbers an ack names, but for one that tells of the same chunk; none is sent that takes
the place of one in the sector's memory; and none that shows a chunk is taken once its place is. -/
def InTime (s : Link z) : LinkAct z → Prop
  | .deliver n => (∀ m ∈ s.taken, m < n) →
    (∀ m k, s.Owes m k → m + 32 < n → ∃ held, s.Says n k held)
      ∧ ((∃ k, s.Shows n k) → s.net.seq ≤ n + sentRing)
  | .build _ _ _ => s.net.seq < seqMax ∧ ∀ m k, s.Owes m k → s.net.seq < m + sentRing
  | .more _ _ => s.net.seq < seqMax ∧ ∀ m k, s.Owes m k → s.net.seq < m + sentRing
  | _ => True

/-! ### What the sector is told -/

/-- What showed the client a chunk it holds, and is done with, told the sector so. -/
def Told (s : Link z) : Prop := ∀ n k, s.LastOn n k → n < s.net.ackFloor → s.net.objAcked k ≠ none

theorem SameRun.said_iff {t : Link z} (h : SameRun s t) : t.Says n k held ↔ s.Says n k held := by
  unfold Says
  simp only [h.sent]

theorem LastOn.of_taken {t : Link z} (htaken : t.taken = s.taken)
    (hsaid : ∀ n ∈ s.taken, ∀ k held, t.Says n k held ↔ s.Says n k held) :
    t.LastOn n k ↔ s.LastOn n k := by
  constructor
  · rintro ⟨hn, ⟨held, hheld⟩, hlast⟩
    rw [htaken] at hn hlast
    exact ⟨hn, ⟨held, (hsaid n hn k held).mp hheld⟩,
      fun m hm hlt held hmem => hlast m hm hlt held ((hsaid m hm k held).mpr hmem)⟩
  · rintro ⟨hn, ⟨held, hheld⟩, hlast⟩
    refine ⟨htaken ▸ hn, ⟨held, (hsaid n hn k held).mpr hheld⟩, ?_⟩
    rw [htaken]
    exact fun m hm hlt held hmem => hlast m hm hlt held ((hsaid m hm k held).mp hmem)

theorem SameRun.lastOn {t : Link z} (h : SameRun s t) : t.LastOn n k ↔ s.LastOn n k :=
  LastOn.of_taken h.taken fun _ _ _ _ => h.said_iff

/-- Retiring a datagram taken, none owed before it, tells the sector of the chunks it showed. -/
theorem Told.retire (h : s.Told) (hwf : s.Wf) (hremembers : s.Remembers) {o : Outgoing z}
    (hsent : s.Sent n o) (hn : n ∈ s.taken) (hfirst : ∀ m k, s.Owes m k → n ≤ m) :
    (s.retire n).Told := by
  have hrun := sameRun_retire s n
  rcases s.net.retire_cases n with hsame | ⟨hfloor, hseq, hnet⟩
  · rwa [retire_of_net_eq hsame]
  have hobjs : (s.net.retire n).objAcked = o.datagram.objects.foldl
      (fun f o => Function.update f o.1 o.2) s.net.objAcked := by
    obtain ⟨⟨i, hshape⟩, -⟩ := hwf.intact n o hsent hseq
    rw [hnet, (hwf.ok n o hsent).objects]
    refine (ackObjs_fst _ _).trans ?_
    rw [hshape]
  intro m k hm hlt
  rw [hrun.lastOn] at hm
  change m < (s.net.retire n).ackFloor at hlt
  change (s.net.retire n).objAcked k ≠ none
  rw [hobjs]
  have hle : m ≤ n := by
    rw [hnet] at hlt
    exact Nat.lt_succ_iff.mp hlt
  rcases hle.lt_or_eq with hbefore | rfl
  · -- A newer datagram taken says nothing of the chunk.
    have hsilent : k ∉ o.datagram.objects.map Prod.fst := by
      intro hmem
      obtain ⟨p, hp, rfl⟩ := List.mem_map.mp hmem
      exact hm.last n hn hbefore p.2 ⟨o, hsent, hp⟩
    rw [foldl_update_of_notMem hsilent]
    apply h m k hm
    by_contra hge
    have hfirst := hfirst m k ⟨not_lt.mp hge, hm⟩
    omega
  · obtain ⟨held, o', ho', hshown⟩ := hm.shown
    obtain rfl : o' = o := Option.some.inj (Option.some.inj (ho'.symm.trans hsent))
    have hvalue := foldl_update_of_mem (List.mem_map_of_mem hshown) s.net.objAcked
    have hone := hremembers.one ⟨o', hsent, hshown⟩ ⟨o', hsent, hvalue⟩
    rw [← hone]
    exact Option.some_ne_none held

theorem ackFloor_retire {c : ClientState} (hfloor : c.ackFloor ≤ n) (hseq : (c.sent.get n).seq = n) :
    (c.retire n).ackFloor = n + 1 := by
  unfold ClientState.retire
  rw [if_neg]
  · rfl
  · rintro (hlt | hne)
    · exact absurd hfloor (not_le.mpr hlt)
    · exact hne hseq

theorem Owes.of_retire {m : ℕ} (h : (s.retire n).Owes m k) (hwf : s.Wf) : s.Owes m k :=
  ⟨(hwf.retire n).2.floor_le.trans h.1, (sameRun_retire s n).lastOn.mp h.2⟩

/-- Retiring what an ack names, oldest first and with nothing owed left out, tells the sector of all
the chunks it showed. -/
theorem Told.retireAll {ns : List ℕ} (h : s.Told) (hwf : s.Wf) (hremembers : s.Remembers)
    (hsent : ∀ n ∈ ns, ∃ o, s.Sent n o) (htaken : ∀ n ∈ ns, n ∈ s.taken)
    (hsorted : ns.Pairwise (· < ·)) (hkept : ∀ m k, s.Owes m k → s.net.seq ≤ m + sentRing)
    (howes : ∀ m k, s.Owes m k → m ∈ ns ∨ ∀ n ∈ ns, n ≤ m) : (ns.foldl Link.retire s).Told := by
  induction ns generalizing s with
  | nil => exact h
  | cons n rest ih =>
    have hrun := sameRun_retire s n
    obtain ⟨hlater, hsorted⟩ := List.pairwise_cons.mp hsorted
    obtain ⟨o, ho⟩ := hsent n List.mem_cons_self
    have hfirst : ∀ m k, s.Owes m k → n ≤ m := by
      intro m k hm
      rcases howes m k hm with hmem | hall
      · rcases List.mem_cons.mp hmem with rfl | hrest
        · exact le_rfl
        · exact (hlater m hrest).le
      · exact hall n List.mem_cons_self
    have htold := h.retire hwf hremembers ho (htaken n List.mem_cons_self) hfirst
    have hremember : (s.retire n).Remembers :=
      hremembers.of_same hrun.log hrun.seq fun m => seq_sent_retire s.net n m
    refine ih htold (hwf.retire n).1 hremember ?_ ?_ hsorted ?_ ?_
    · intro m hm
      obtain ⟨o, ho⟩ := hsent m (List.mem_cons_of_mem n hm)
      exact ⟨o, (hrun.sent m o).mpr ho⟩
    · intro m hm
      rw [hrun.taken]
      exact htaken m (List.mem_cons_of_mem n hm)
    · intro m k hm
      rw [hrun.seq]
      exact hkept m k (hm.of_retire hwf)
    · intro m k hm
      have hwas := hm.of_retire hwf
      rcases howes m k hwas with hmem | hall
      · rcases List.mem_cons.mp hmem with rfl | hrest
        · -- Its record was there, so it isn't owed any more.
          have hseq := hremembers.kept m o ho (hkept m k hwas)
          have hfloor : (s.retire m).net.ackFloor = m + 1 := ackFloor_retire hwas.1 hseq
          exact absurd hm.1 (by omega)
        · exact Or.inl hrest
      · exact Or.inr fun m' hm' => hall m' (List.mem_cons_of_mem n hm')

theorem ackFloor_retireAll {ns : List ℕ} {c : ClientState} {b : ℕ} (hfloor : c.ackFloor ≤ b)
    (hns : ∀ n ∈ ns, n < b) : (ns.foldl ClientState.retire c).ackFloor ≤ b := by
  induction ns generalizing c with
  | nil => exact hfloor
  | cons n rest ih =>
    refine ih ?_ fun m hm => hns m (List.mem_cons_of_mem n hm)
    rcases c.retire_cases n with heq | ⟨-, -, heq⟩
    · rwa [heq]
    · rw [heq]
      exact hns n List.mem_cons_self

/-! ### What backs a chunk -/

/-- What the client holds of a chunk it has from a datagram that an ack still names and the sector
still remembers, or that has told the sector of it. -/
structure Backed (s : Link z) : Prop where
  numbers : s.net.seq ≤ seqMax
  floor : ∀ n, (∀ m ∈ s.taken, m < n) → s.net.ackFloor ≤ n
  holds : ∀ k, s.client.objects k ≠ none → ∃ n, s.LastOn n k
  told : s.Told
  near : ∀ n k, s.Owes n k → s.client.acks.newest ≤ n + 32 ∧ s.net.seq ≤ n + sentRing

theorem backed_start (seat : Seat z) : (start seat).Backed where
  numbers := Nat.zero_le _
  floor _ _ := Nat.zero_le _
  holds _ h := absurd rfl h
  told _ _ h := absurd h.taken List.not_mem_nil
  near _ _ h := absurd h.2.taken List.not_mem_nil

/-- What sends datagrams, and takes none, keeps it in time. -/
theorem Backed.of_same (h : s.Backed) {t : Link z} (hobjects : t.client.objects = s.client.objects)
    (hnewest : t.client.acks.newest = s.client.acks.newest) (htaken : t.taken = s.taken)
    (hsame : SameAcks s.net t.net)
    (hsaid : ∀ n ∈ s.taken, ∀ k held, t.Says n k held ↔ s.Says n k held)
    (hnumbers : t.net.seq ≤ seqMax) (hkept : ∀ n k, s.Owes n k → t.net.seq ≤ n + sentRing) :
    t.Backed := by
  have hlast : ∀ {n k}, t.LastOn n k ↔ s.LastOn n k := LastOn.of_taken htaken hsaid
  have howes : ∀ {n k}, t.Owes n k → s.Owes n k := by
    rintro n k ⟨hfloor, hn⟩
    rw [hsame.ackFloor] at hfloor
    exact ⟨hfloor, hlast.mp hn⟩
  constructor
  · exact hnumbers
  · rw [htaken, hsame.ackFloor]
    exact h.floor
  · intro k hk
    rw [hobjects] at hk
    obtain ⟨n, hn⟩ := h.holds k hk
    exact ⟨n, hlast.mpr hn⟩
  · intro n k hn hlt
    rw [hsame.ackFloor] at hlt
    rw [hsame.objAcked]
    exact h.told n k (hlast.mp hn) hlt
  · intro n k hn
    rw [hnewest]
    exact ⟨(h.near n k (howes hn)).1, hkept n k (howes hn)⟩

/-- What a datagram taken says of a chunk is what the client holds of it. -/
theorem Backed.take (h : s.Backed) {o : Outgoing z} (ho : s.Sent n o) (hnewer : ∀ m ∈ s.taken, m < n)
    (htime : s.InTime (.deliver n)) {c : Client} (hnewest : c.acks.newest = n)
    (hobjects : c.objects
      = o.datagram.objects.foldl (fun f o => Function.update f o.1 o.2) s.client.objects) :
    Backed { s with client := c, taken := s.taken ++ [n] } := by
  obtain ⟨howed, hshown⟩ := htime hnewer
  set t : Link z := { s with client := c, taken := s.taken ++ [n] } with ht
  have hcases : ∀ {m k}, t.LastOn m k → m = n ∨ (s.LastOn m k ∧ ∀ held, ¬ s.Says n k held) := by
    rintro m k ⟨hm, hshows, hlast⟩
    rcases List.mem_append.mp hm with hold | hnew
    · right
      refine ⟨⟨hold, hshows, fun m' hm' => hlast m' (List.mem_append_left _ hm')⟩, ?_⟩
      exact hlast n (List.mem_append_right _ (List.mem_singleton_self n)) (hnewer m hold)
    · exact Or.inl (List.mem_singleton.mp hnew)
  constructor
  · exact h.numbers
  · exact fun n' hn' => h.floor n' fun m hm => hn' m (List.mem_append_left _ hm)
  · intro k hk
    change c.objects k ≠ none at hk
    rw [hobjects] at hk
    by_cases hmem : k ∈ o.datagram.objects.map Prod.fst
    · obtain ⟨held, hheld⟩ := Option.ne_none_iff_exists'.mp hk
      have hvalue := foldl_update_of_mem hmem s.client.objects
      rw [hheld] at hvalue
      refine ⟨n, List.mem_append_right _ (List.mem_singleton_self n), ⟨held, o, ho, hvalue⟩, ?_⟩
      intro m hm hlt
      rcases List.mem_append.mp hm with hold | hnew
      · exact absurd (hnewer m hold) (by omega)
      · exact absurd (List.mem_singleton.mp hnew) (by omega)
    · rw [foldl_update_of_notMem hmem] at hk
      obtain ⟨m, hm, hshows, hlast⟩ := h.holds k hk
      refine ⟨m, List.mem_append_left _ hm, hshows, fun m' hm' hlt held hheld => ?_⟩
      rcases List.mem_append.mp hm' with hold | hnew
      · exact hlast m' hold hlt held hheld
      · obtain rfl := List.mem_singleton.mp hnew
        obtain ⟨o', ho', hin⟩ := hheld
        obtain rfl : o' = o := Option.some.inj (Option.some.inj (ho'.symm.trans ho))
        exact hmem (List.mem_map_of_mem hin)
  · intro m k hm hlt
    change m < s.net.ackFloor at hlt
    rcases hcases hm with rfl | ⟨hold, -⟩
    · exact absurd (h.floor m hnewer) (by omega)
    · exact h.told m k hold hlt
  · rintro m k ⟨hfloor, hm⟩
    change c.acks.newest ≤ m + 32 ∧ s.net.seq ≤ m + sentRing
    rw [hnewest]
    rcases hcases hm with rfl | ⟨hold, hsilent⟩
    · exact ⟨by omega, hshown ⟨k, hm.shown⟩⟩
    · refine ⟨?_, (h.near m k ⟨hfloor, hold⟩).2⟩
      by_contra hfar
      obtain ⟨held, hheld⟩ := howed m k ⟨hfloor, hold⟩ (by omega)
      exact hsilent held hheld

/-- A datagram that reaches the client leaves it what it holds, or is newer than all it took, and
is taken whole. -/
theorem Heard.deliver_cases (hheard : s.Heard) (hwf : s.Wf) (hreach : s.InReach (.deliver n)) :
    (∃ c : Client, s.step (.deliver n) = { s with client := c }
      ∧ c.objects = s.client.objects ∧ c.acks = s.client.acks)
    ∨ ∃ (o : Outgoing z) (c : Client), s.Sent n o ∧ (∀ m ∈ s.taken, m < n) ∧ c.acks.newest = n
      ∧ c.objects
        = o.datagram.objects.foldl (fun f o => Function.update f o.1 o.2) s.client.objects
      ∧ s.step (.deliver n) = { s with client := c, taken := s.taken ++ [n] } := by
  cases hn : s.log[n]? with
  | none =>
    have hstep : s.step (.deliver n) = s := by simp only [Link.step, hn]
    exact Or.inl ⟨s.client, hstep, rfl, rfl⟩
  | some entry =>
    cases entry with
    | none =>
      have hstep : s.step (.deliver n) = s := by simp only [Link.step, hn]
      exact Or.inl ⟨s.client, hstep, rfl, rfl⟩
    | some o =>
      have hstep : s.step (.deliver n) = { s with
          client := (s.client.onDatagram o.datagram).1
          taken := if (s.client.onDatagram o.datagram).2 then s.taken ++ [n] else s.taken } := by
        simp only [Link.step, hn]
      rcases s.client.onDatagram_cases o.datagram with ⟨-, heq⟩ | ⟨-, -, heq⟩ | ⟨hnew, qs, -, heq⟩
      · rw [heq] at hstep
        exact Or.inl ⟨_, hstep, rfl, rfl⟩
      · rw [heq] at hstep
        exact Or.inl ⟨_, hstep, rfl, rfl⟩
      · rw [heq] at hstep
        have hok := hwf.ok n o hn
        obtain ⟨hnewer, htracks⟩ := hheard.take hwf hn hreach hnew
        rw [← Client.take_acks s.client _ o.datagram qs] at htracks
        have hlast := htracks.newest_eq
        rw [if_neg (List.append_ne_nil_of_right_ne_nil _ (List.cons_ne_nil n [])),
          List.getLast?_concat] at hlast
        refine Or.inr ⟨o, _, hn, hnewer, (Option.some.inj hlast).symm, ?_, hstep⟩
        exact Client.take_objects _ _ _ _ fun hmore => hok.objects.trans (hok.more hmore)

theorem Backed.deliver (h : s.Backed) (hwf : s.Wf) (hheard : s.Heard)
    (hreach : s.InReach (.deliver n)) (htime : s.InTime (.deliver n)) :
    (s.step (.deliver n)).Backed := by
  rcases hheard.deliver_cases hwf hreach with ⟨c, hstep, hobjects, hacks⟩
    | ⟨o, c, ho, hnewer, hnewest, hobjects, hstep⟩
  · rw [hstep]
    exact h.of_same hobjects (congrArg AckWindow.newest hacks) rfl (.refl _)
      (fun _ _ _ _ => Iff.rfl) h.numbers fun m k hm => (h.near m k hm).2
  · rw [hstep]
    exact h.take ho hnewer htime hnewest hobjects

theorem Backed.ackArrives (h : s.Backed) (hwf : s.Wf) (hheard : s.Heard) (hremembers : s.Remembers)
    {j : ℕ} (hreach : s.InReach (.ackArrives j)) : (s.step (.ackArrives j)).Backed := by
  cases hj : s.acks[j]? with
  | none =>
    have hstep : s.step (.ackArrives j) = s := by simp only [Link.step, hj]
    rwa [hstep]
  | some w =>
    have hstep : s.step (.ackArrives j) = s.ackBy w.ack := by simp only [Link.step, hj]
    rw [hstep]
    have hrun := sameRun_ackBy s w.ack
    have hlearned := (hwf.ackBy w.ack).2
    have htaken := hheard.names_taken hwf hj hreach
    have howes : ∀ {n k}, (s.ackBy w.ack).Owes n k → s.Owes n k :=
      fun hn => ⟨hlearned.floor_le.trans hn.1, hrun.lastOn.mp hn.2⟩
    obtain ⟨l, later, hsplit, htracks, hnames⟩ := hheard.mem_names hwf hj hreach
    -- What is owed of what the client had taken then is named; the rest was taken later.
    have hleft : ∀ m k, s.Owes m k → m ∈ s.net.names w.ack ∨ ∀ n ∈ s.net.names w.ack, n ≤ m := by
      intro m k hm
      have hin := hm.2.taken
      rw [hsplit] at hin
      rcases List.mem_append.mp hin with hold | hnew
      · left
        have hnewest := htracks.newest_mem (List.ne_nil_of_mem hold)
        have hle := hheard.tracks.le_newest w.newest (hsplit ▸ List.mem_append_left later hnewest)
        exact (hnames m).mpr ⟨hold, hle.trans (h.near m k hm).1⟩
      · right
        intro n hn
        have hincreasing := hheard.tracks.increasing
        rw [hsplit] at hincreasing
        exact ((List.pairwise_append.mp hincreasing).2.2 n ((hnames n).mp hn).1 m hnew).le
    constructor
    · rw [hrun.seq]
      exact h.numbers
    · intro n hn
      rw [hrun.taken] at hn
      rw [net_ackBy]
      exact ackFloor_retireAll (h.floor n hn) fun m hm => hn m (htaken m hm)
    · intro k hk
      rw [hrun.client] at hk
      obtain ⟨n, hn⟩ := h.holds k hk
      exact ⟨n, hrun.lastOn.mpr hn⟩
    · have htold := Told.retireAll h.told hwf hremembers (fun n hn => hheard.sent n (htaken n hn))
        htaken (s.net.names_sorted w.ack) (fun m k hm => (h.near m k hm).2) hleft
      intro n k hn
      exact htold n k ((sameRun_retireAll s _).lastOn.mpr (hrun.lastOn.mp hn))
    · intro n k hn
      rw [hrun.client, hrun.seq]
      exact h.near n k (howes hn)

/-- A datagram sent takes no place of one still to be acked. -/
theorem Backed.sends (h : s.Backed) (hheard : s.Heard) {a : LinkAct z}
    (hsame : SameAcks s.net (s.step a).net) (hclient : (s.step a).client = s.client)
    (htaken : (s.step a).taken = s.taken) (hseq : (s.step a).net.seq ≤ s.net.seq + 1)
    (htime : s.net.seq < seqMax ∧ ∀ m k, s.Owes m k → s.net.seq < m + sentRing) :
    (s.step a).Backed := by
  apply h.of_same _ _ htaken hsame
  · intro n hn k held
    obtain ⟨o, ho⟩ := hheard.sent n hn
    exact says_step a (sent_lt ho)
  · exact hseq.trans htime.1
  · exact fun n k hn => hseq.trans (htime.2 n k hn)
  · rw [hclient]
  · rw [hclient]

theorem Backed.step (h : s.Backed) (hwf : s.Wf) (hheard : s.Heard) (hremembers : s.Remembers)
    {a : LinkAct z} (hreach : s.InReach a) (htime : s.InTime a) : (s.step a).Backed := by
  have hquiet : ∀ t : Link z, t.client = s.client → t.taken = s.taken → t.log = s.log →
      t.net = s.net → t.Backed := by
    intro t hclient htaken hlog hnet
    refine h.of_same (by rw [hclient]) (by rw [hclient]) htaken (hnet ▸ .refl _) ?_ ?_ ?_
    · intro n _ k held
      unfold Says Sent
      rw [hlog]
    · rw [hnet]
      exact h.numbers
    · intro n k hn
      rw [hnet]
      exact (h.near n k hn).2
  cases a with
  | happen e => exact hquiet _ rfl rfl rfl rfl
  | sendAck => exact hquiet _ rfl rfl rfl rfl
  | deliver n => exact h.deliver hwf hheard hreach htime
  | ackArrives j => exact h.ackArrives hwf hheard hremembers hreach
  | forged ack => exact absurd hreach.2 id
  | build deltas v room =>
    have hb := buildSnapshot_builds deltas s.ring v room s.gone s.net
    have hcases : s.step (.build deltas v room) = s ∨ s.step (.build deltas v room)
        = s.send (v.tick + 1) ((openSnapshot v s.net).leaves.drop s.net.leaves.length)
          (buildSnapshot deltas s.ring v room s.gone s.net) := by
      simp only [Link.step]
      exact ite_eq_or_eq _ _ _
    rcases hcases with heq | heq
    · rwa [heq]
    · apply h.sends hheard _ _ _ _ htime
      all_goals rw [heq]
      · exact hb.same
      · rfl
      · rfl
      · exact hb.seq.le
  | more deltas room =>
    have hb := buildMore_builds deltas s.ring (s.now - 1) s.pending room s.gone s.net
    have hcases : s.step (.more deltas room) = s ∨ s.step (.more deltas room)
        = s.send s.now [] (buildMore deltas s.ring (s.now - 1) s.pending room s.gone s.net) := by
      simp only [Link.step]
      exact ite_eq_or_eq _ _ _
    rcases hcases with heq | heq
    · rwa [heq]
    · apply h.sends hheard _ _ _ _ htime
      all_goals rw [heq]
      · exact hb.same
      · rfl
      · rfl
      · exact hb.seq.le

/-- What an ack sent now names of the datagrams the client took. -/
theorem Backed.canBeAcked (h : s.Backed) (hwf : s.Wf) (hheard : s.Heard) (hremembers : s.Remembers)
    (hn : s.Owes n k) : s.CanBeAcked n := by
  obtain ⟨hnewest, hseq⟩ := h.near n k hn
  obtain ⟨o, ho⟩ := hheard.sent n hn.2.taken
  have hnear : s.net.seq ≤ s.client.acks.newest + 0x8001 := by
    have hle := hheard.tracks.le_newest n hn.2.taken
    unfold sentRing at hseq
    omega
  have hnames := ClientState.names_ack hheard.tracks hwf.stream h.numbers
    (fun m hm => hheard.lt_seq hwf hm) (fun _ => hnear) n
  exact ⟨hnames.mpr ⟨hn.2.taken, hnewest⟩, hn.1, hremembers.kept n o ho hseq⟩

/-- The client keeps no chunk that the sector won't take from it. What it holds, the sector has an
acked version of, or sent in a datagram that can still be acked; what the sector has a version of and
the client should no longer have, every datagram with the room takes away; and that goes on until
an ack names a datagram that did. -/
structure NoGhosts (s : Link z) : Prop where
  backed : ∀ k, s.client.objects k ≠ none →
    s.net.objAcked k ≠ none ∨ ∃ n, s.Shows n k ∧ s.CanBeAcked n
  removed : ∀ k < maxChunks, s.net.objAcked k ≠ none → ∀ deltas (v : View z) room,
    s.now ≤ v.tick → (∀ chunk, v.chunk k = some chunk → chunk.wanted true = false) →
    room.finishes = true → ((objectCandidates s.net v).filter fun o => o.2.isNone).length
      ≤ min objsPerSnapshot room.objects →
    (s.step (.build deltas v room)).Says s.net.seq k none
  keptUp : ∀ a k, s.net.objAcked k ≠ none → (s.step a).net.objAcked k = none →
    ∃ ack, s.Receives a ack ∧ ∃ n ∈ s.net.names ack, s.Says n k none

theorem Wf.says_gone (h : s.Wf) (hk : k < maxChunks) (hacked : s.net.objAcked k ≠ none)
    (deltas : Bool) {v : View z} {room : Space} (hnow : s.now ≤ v.tick)
    (hgone : ∀ chunk, v.chunk k = some chunk → chunk.wanted true = false)
    (hfinishes : room.finishes = true)
    (hroom : ((objectCandidates s.net v).filter fun o => o.2.isNone).length
      ≤ min objsPerSnapshot room.objects) :
    (s.step (.build deltas v room)).Says s.net.seq k none := by
  have hstep : s.step (.build deltas v room)
      = s.send (v.tick + 1) ((openSnapshot v s.net).leaves.drop s.net.leaves.length)
        (buildSnapshot deltas s.ring v room s.gone s.net) := by
    simp only [Link.step]
    exact if_neg (not_lt.mpr hnow)
  obtain ⟨o, hout⟩ : ∃ o, (buildSnapshot deltas s.ring v room s.gone s.net).out = some o := by
    unfold buildSnapshot
    dsimp only
    rw [if_pos hfinishes]
    exact ⟨_, rfl⟩
  rw [hstep]
  refine ⟨o, sent_send.mpr (Or.inr ⟨h.length.symm, hout⟩), ?_⟩
  rw [buildSnapshot_objects hout]
  exact mem_objectsFor_gone hk hacked hgone hroom

theorem Wf.forgets (h : s.Wf) {a : LinkAct z} (hacked : s.net.objAcked k ≠ none)
    (hnone : (s.step a).net.objAcked k = none) :
    ∃ ack, s.Receives a ack ∧ ∃ n ∈ s.net.names ack, s.Says n k none := by
  rcases s.step_cases a with ⟨hsame, -, -⟩ | ⟨ack, hreceives, hstep⟩
  · rw [hsame.objAcked] at hnone
    exact absurd hnone hacked
  · refine ⟨ack, hreceives, ?_⟩
    rw [hstep] at hnone
    rcases (h.ackBy ack).2.objs k with heq | ⟨n, hn, o, ho, hmem⟩
    · exact absurd (heq.symm.trans hnone) hacked
    · rw [hnone] at hmem
      exact ⟨n, hn, o, ho, hmem⟩

theorem Backed.noGhosts (h : s.Backed) (hwf : s.Wf) (hheard : s.Heard) (hremembers : s.Remembers) :
    s.NoGhosts where
  backed k hk := by
    obtain ⟨n, hn⟩ := h.holds k hk
    rcases Nat.lt_or_ge n s.net.ackFloor with hdone | howed
    · exact Or.inl (h.told n k hn hdone)
    · exact Or.inr ⟨n, hn.shown, h.canBeAcked hwf hheard hremembers ⟨howed, hn⟩⟩
  removed _ hk hacked deltas _ _ hnow hgone hfinishes hroom :=
    hwf.says_gone hk hacked deltas hnow hgone hfinishes hroom
  keptUp _ _ hacked hnone := hwf.forgets hacked hnone

/-- No chunk is left with a client as long as what is to be acked is acked in time. -/
theorem no_ghost_salvage (seat : Seat z) {acts : List (LinkAct z)}
    (h : Run.Along step (fun s a => s.InReach a ∧ s.InTime a) (start seat) acts) :
    ((start seat).run acts).NoGhosts := by
  have hrun := Run.invariant
    (I := fun s : Link z => s.Wf ∧ s.Heard ∧ s.Remembers ∧ s.Backed)
    (fun s a hs hin => ⟨hs.1.step a, hs.2.1.step hs.1 hin.1, hs.2.2.1.step hs.1 a,
      hs.2.2.2.step hs.1 hs.2.1 hs.2.2.1 hin.1 hin.2⟩)
    ⟨wf_start seat, heard_start seat, remembers_start seat, backed_start seat⟩ h
  exact hrun.2.2.2.noGhosts hrun.1 hrun.2.1 hrun.2.2.1

/-! ### A chunk forgotten -/

/-- The client holds chunk `k`, the sector knows nothing of it, and no ack to come names a datagram
that said anything of it. -/
structure Forgotten (s : Link z) (k : ℕ) : Prop where
  holds : s.client.objects k ≠ none
  unknown : s.net.objAcked k = none
  taken : s.taken ≠ []
  past : ∀ n held, s.Says n k held →
    n + 32 < s.client.acks.newest ∧ ∀ w ∈ s.acks, n + 32 < w.newest

/-- A step in which a client without chunk `k` isn't shown it: it is gone, or out of range. -/
def Unseen (k : ℕ) : LinkAct z → Prop
  | .build _ v _ => ∀ chunk, v.chunk k = some chunk → chunk.wanted false = false
  | _ => True

theorem objectFor_unseen {v : View z} (h : ∀ chunk, v.chunk k = some chunk → chunk.wanted false = false) :
    objectFor v none k = none := by
  have hnone : (v.chunk k).filter (fun chunk => chunk.wanted false) = none := by
    rw [Option.filter_eq_none_iff]
    intro chunk hchunk
    rw [h chunk hchunk]
    exact Bool.false_ne_true
  unfold objectFor
  rw [Option.isSome_none, hnone]
  rfl

/-- Nothing is said of a chunk that the sector knows nothing of and doesn't show. -/
theorem said_unseen (hnone : s.net.objAcked k = none) {a : LinkAct z} (hunseen : Unseen k a)
    (hsaid : (s.step a).Says n k held) : s.Says n k held := by
  obtain ⟨o, ho, hmem⟩ := hsaid
  rcases sent_step_cases a ho with hold | ⟨-, deltas, v, room, rfl, -, hout⟩ | ⟨-, deltas, room, -, hout⟩
  · exact ⟨o, hold, hmem⟩
  · rw [buildSnapshot_objects hout] at hmem
    have hobject := (mem_objectCandidates.mp (mem_objectsFor hmem)).2
    rw [hnone, objectFor_unseen hunseen] at hobject
    cases hobject
  · rw [buildMore_objects hout] at hmem
    cases hmem

theorem acks_step (a : LinkAct z) {w : AckWindow} (hw : w ∈ (s.step a).acks) :
    w ∈ s.acks ∨ w = s.client.acks := by
  cases a with
  | sendAck =>
    rcases List.mem_append.mp hw with hold | hnew
    · exact Or.inl hold
    · exact Or.inr (List.mem_singleton.mp hnew)
  | happen e => exact Or.inl hw
  | build deltas v room =>
    simp only [Link.step] at hw
    split at hw <;> exact Or.inl hw
  | more deltas room =>
    simp only [Link.step] at hw
    split at hw <;> exact Or.inl hw
  | deliver n =>
    simp only [Link.step] at hw
    split at hw <;> exact Or.inl hw
  | ackArrives j =>
    simp only [Link.step] at hw
    split at hw
    · rw [(sameRun_ackBy s _).acks] at hw
      exact Or.inl hw
    · exact Or.inl hw
  | forged ack =>
    rw [Link.step, (sameRun_ackBy s ack).acks] at hw
    exact Or.inl hw

theorem Forgotten.client (h : s.Forgotten k) (hwf : s.Wf) (hheard : s.Heard) {a : LinkAct z}
    (hreach : s.InReach a) : (s.step a).client.objects k = s.client.objects k
      ∧ s.client.acks.newest ≤ (s.step a).client.acks.newest := by
  cases a with
  | deliver n =>
    rcases hheard.deliver_cases hwf hreach with ⟨c, hstep, hobjects, hacks⟩
      | ⟨o, c, ho, hnewer, hnewest, hobjects, hstep⟩
    · rw [hstep]
      exact ⟨congrFun hobjects k, (congrArg AckWindow.newest hacks).ge⟩
    · have hlt := hnewer _ (hheard.tracks.newest_mem h.taken)
      have hsilent : k ∉ o.datagram.objects.map Prod.fst := by
        intro hmem
        obtain ⟨p, hp, rfl⟩ := List.mem_map.mp hmem
        have hfar := (h.past n p.2 ⟨o, ho, hp⟩).1
        omega
      rw [hstep]
      exact ⟨(congrFun hobjects k).trans (foldl_update_of_notMem hsilent _), hlt.le.trans hnewest.ge⟩
  | happen e => exact ⟨rfl, le_rfl⟩
  | sendAck => exact ⟨rfl, le_rfl⟩
  | build deltas v room =>
    simp only [Link.step]
    split <;> exact ⟨rfl, le_rfl⟩
  | more deltas room =>
    simp only [Link.step]
    split <;> exact ⟨rfl, le_rfl⟩
  | ackArrives j =>
    simp only [Link.step]
    split
    · rw [(sameRun_ackBy s _).client]
      exact ⟨rfl, le_rfl⟩
    · exact ⟨rfl, le_rfl⟩
  | forged ack => exact absurd hreach.2 id

theorem Forgotten.objAcked (h : s.Forgotten k) (hwf : s.Wf) (hheard : s.Heard) {a : LinkAct z}
    (hreach : s.InReach a) : (s.step a).net.objAcked k = none := by
  rcases s.step_cases a with ⟨hsame, -, -⟩ | ⟨ack, hreceives, hstep⟩
  · rw [hsame.objAcked]
    exact h.unknown
  · rw [hstep]
    rcases (hwf.ackBy ack).2.objs k with heq | ⟨n, hn, o, ho, hmem⟩
    · exact heq.trans h.unknown
    · exfalso
      cases a with
      | ackArrives j =>
        obtain ⟨w, hj, rfl⟩ := hreceives
        have hfar := (h.past n _ ⟨o, ho, hmem⟩).2 w (List.mem_of_getElem? hj)
        obtain ⟨l, _, -, -, hnames⟩ := hheard.mem_names hwf hj hreach
        have hnear := ((hnames n).mp hn).2
        omega
      | forged b => exact hreach.2
      | happen e => exact hreceives
      | build deltas v room => exact hreceives
      | more deltas room => exact hreceives
      | deliver m => exact hreceives
      | sendAck => exact hreceives

theorem Forgotten.step (h : s.Forgotten k) (hwf : s.Wf) (hheard : s.Heard) {a : LinkAct z}
    (hreach : s.InReach a) (hunseen : Unseen k a) : (s.step a).Forgotten k := by
  obtain ⟨hobjects, hnewest⟩ := h.client hwf hheard hreach
  constructor
  · rw [hobjects]
    exact h.holds
  · exact h.objAcked hwf hheard hreach
  · exact fun hnil => h.taken (List.prefix_nil.mp (hnil ▸ s.taken_grows a))
  · intro n held hsaid
    obtain ⟨hfar, hwindows⟩ := h.past n held (said_unseen h.unknown hunseen hsaid)
    refine ⟨hfar.trans_le hnewest, fun w hw => ?_⟩
    rcases acks_step a hw with hold | rfl
    · exact hwindows w hold
    · exact hfar

/-- A chunk forgotten stays with the client, and the sector says no more of it, until it is shown
again. -/
theorem Forgotten.run (h : s.Forgotten k) (hwf : s.Wf) (hheard : s.Heard) {acts : List (LinkAct z)}
    (hacts : Run.Along Link.step (fun s a => s.InReach a ∧ Unseen k a) s acts) :
    (s.run acts).Forgotten k ∧ ∀ n held, (s.run acts).Says n k held → s.Says n k held := by
  have hrun := Run.invariant
    (I := fun t : Link z => t.Wf ∧ t.Heard ∧ t.Forgotten k
      ∧ ∀ n held, t.Says n k held → s.Says n k held)
    (fun t a ht hin => ⟨ht.1.step a, ht.2.1.step ht.1 hin.1,
      ht.2.2.1.step ht.1 ht.2.1 hin.1 hin.2,
      fun n held hsaid => ht.2.2.2 n held (said_unseen ht.2.2.1.unknown hin.2 hsaid)⟩)
    ⟨hwf, hheard, h, fun _ _ => id⟩ hacts
  exact hrun.2.2

/-! ### A chunk left with a client -/

def chunkView (z : Sizes) (t : ℕ) : View z :=
  { idleView z t with chunk := fun k => if k = 0 then some ⟨0, 0, fun _ => true⟩ else none }

/-- A chunk shown, and taken back once it is out of range, each with its ack. -/
def returnActs : List (LinkAct ⟨1, 1, 16⟩) :=
  [.build true (chunkView _ 0) wide, .deliver 0, .sendAck, .ackArrives 0,
    .build true (idleView _ 1) wide, .deliver 1, .sendAck, .ackArrives 1]

theorem no_ghost_salvage_return :
    let s := start (firstSeat ⟨1, 1, 16⟩)
    (s.run (returnActs.take 4)).net.objAcked 0 = some 0 ∧ (s.run returnActs).client.objects 0 = none
      ∧ (s.run returnActs).NoGhosts := by
  have hbuild : ∀ {s : Link ⟨1, 1, 16⟩} {deltas v room}, s.net.seq ≤ 1 →
      s.InTime (.build deltas v room) := by
    intro s deltas v room hseq
    exact ⟨hseq.trans_lt (by decide), fun m _ _ => hseq.trans_lt (by unfold sentRing; omega)⟩
  have hdeliver : ∀ {s : Link ⟨1, 1, 16⟩} {n}, n ≤ 32 → s.net.seq ≤ 2 → s.InTime (.deliver n) := by
    intro s n hn hseq _
    exact ⟨fun m k _ hfar => absurd hfar (by omega), fun _ => hseq.trans (by unfold sentRing; omega)⟩
  refine ⟨by decide +kernel, by decide +kernel, no_ghost_salvage (firstSeat ⟨1, 1, 16⟩) ?_⟩
  refine ⟨⟨⟨by decide +kernel, trivial⟩, hbuild (by decide +kernel)⟩,
    ⟨⟨by decide +kernel, ?_⟩, hdeliver (by decide) (by decide +kernel)⟩,
    ⟨⟨by decide +kernel, trivial⟩, trivial⟩, ⟨⟨by decide +kernel, ?_⟩, trivial⟩,
    ⟨⟨by decide +kernel, trivial⟩, hbuild (by decide +kernel)⟩,
    ⟨⟨by decide +kernel, ?_⟩, hdeliver (by decide) (by decide +kernel)⟩,
    ⟨⟨by decide +kernel, trivial⟩, trivial⟩, ⟨⟨by decide +kernel, ?_⟩, trivial⟩, trivial⟩
  · change ite _ _ _
    decide +kernel
  · intro w _ _
    apply Nat.le_add_left_of_le
    decide +kernel
  · change ite _ _ _
    decide +kernel
  · intro w _ _
    apply Nat.le_add_left_of_le
    decide +kernel

/-- A chunk shown and taken, and no ack sent before a datagram 33 further is taken. -/
def lossActs : List (LinkAct ⟨1, 1, 16⟩) :=
  [.build true (chunkView _ 0) wide, .deliver 0] ++ idleActs _ 1 33 ++ [.deliver 33]

theorem seq_build_le (s : Link z) (deltas : Bool) (v : View z) (room : Space) :
    (s.step (.build deltas v room)).net.seq ≤ s.net.seq + 1 := by
  simp only [Link.step]
  split
  · exact Nat.le_succ _
  · exact (buildSnapshot_builds deltas s.ring v room s.gone s.net).seq.le

theorem inReach_idle (n t : ℕ) {s : Link z} (h : s.net.seq + n ≤ seqMax) (hfew : s.Few) :
    Run.Along step InReach s (idleActs z t n) := by
  induction n generalizing s t with
  | zero => trivial
  | succ n ih =>
    have hnext : (s.step (.build true (idleView z t) wide)).net.seq + n ≤ seqMax := by
      have hseq := s.seq_build_le true (idleView z t) wide
      omega
    have hstill : (s.step (.build true (idleView z t) wide)).Few :=
      s.few_step (fun _ h => nomatch h) hfew
    exact ⟨⟨⟨by omega, hstill⟩, trivial⟩, ih (t + 1) hnext hstill⟩

theorem said_idle (t m : ℕ) (hnone : s.net.objAcked k = none) :
    (s.run (idleActs z t m)).net.objAcked k = none
      ∧ ∀ n held, (s.run (idleActs z t m)).Says n k held → s.Says n k held := by
  induction m generalizing s t with
  | zero => exact ⟨hnone, fun _ _ => id⟩
  | succ m ih =>
    have hstill : (s.step (.build true (idleView z t) wide)).net.objAcked k = none := by
      rcases s.step_cases (.build true (idleView z t) wide) with ⟨hsame, -, -⟩ | ⟨ack, hreceives, -⟩
      · rw [hsame.objAcked]
        exact hnone
      · exact hreceives.elim
    obtain ⟨hrest, hsaid⟩ := ih (t + 1) hstill
    have hunseen : Unseen k (.build true (idleView z t) wide) := fun _ h => nomatch h
    exact ⟨hrest, fun n held hsays => said_unseen hnone hunseen (hsaid n held hsays)⟩

/-- A client left with a chunk: however the run goes on, as long as the chunk isn't shown again, the
client holds it and the sector never says that it's gone. -/
theorem left_with_a_chunk :
    let s := (start (firstSeat ⟨1, 1, 16⟩)).run lossActs
    Run.Along step InReach (start (firstSeat ⟨1, 1, 16⟩)) lossActs ∧ ¬ s.NoGhosts
      ∧ ∀ acts, Run.Along step (fun s a => s.InReach a ∧ Unseen 0 a) s acts →
        (s.run acts).client.objects 0 ≠ none ∧ ∀ n, ¬ (s.run acts).Says n 0 none := by
  intro s
  have hreach : Run.Along step InReach (start (firstSeat ⟨1, 1, 16⟩)) lossActs := by
    refine (Run.along_append step).mpr ⟨(Run.along_append step).mpr ⟨?_, ?_⟩, ?_⟩
    · refine ⟨⟨by decide +kernel, trivial⟩, ⟨by decide +kernel, ?_⟩, trivial⟩
      change ite _ _ _
      decide +kernel
    · exact inReach_idle 33 1 (by decide +kernel) (by decide +kernel)
    · refine ⟨⟨by decide +kernel, ?_⟩, trivial⟩
      change ite _ _ _
      decide +kernel
  have hsaid : ∀ n held, s.Says n 0 held → n = 0 ∧ held = some 0 := by
    intro n held hsays
    let shown := (start (firstSeat ⟨1, 1, 16⟩)).run [.build true (chunkView _ 0) wide, .deliver 0]
    have hrun : s = (shown.run (idleActs _ 1 33)).step (.deliver 33) := by
      simp only [s, shown, lossActs, Link.run, List.foldl_append, List.foldl_cons, List.foldl_nil]
    obtain ⟨hnone, hidle⟩ := said_idle (s := shown) (k := 0) 1 33 (by decide +kernel)
    have hunseen : Unseen 0 (.deliver 33 : LinkAct ⟨1, 1, 16⟩) := trivial
    rw [hrun] at hsays
    obtain ⟨o, ho, hmem⟩ := hidle n held (said_unseen hnone hunseen hsays)
    have hobjects : shown.log.map (fun o => o.map fun o => o.datagram.objects)
        = [some [(0, some 0)]] := by decide +kernel
    have hn := congrArg (fun l => l[n]?) hobjects
    simp only [List.getElem?_map] at hn
    rw [ho] at hn
    cases n with
    | zero =>
      have heq : o.datagram.objects = [(0, some 0)] := by simpa using hn
      rw [heq, List.mem_singleton] at hmem
      exact ⟨rfl, congrArg Prod.snd hmem⟩
    | succ n => simp at hn
  have hforgotten : s.Forgotten 0 := by
    refine ⟨by decide +kernel, by decide +kernel, by decide +kernel, fun n held hn => ?_⟩
    obtain ⟨rfl, -⟩ := hsaid n held hn
    refine ⟨by decide +kernel, fun w hw => ?_⟩
    have hacks : s.acks = [] := by decide +kernel
    rw [hacks] at hw
    cases hw
  refine ⟨hreach, fun h => ?_, fun acts hacts => ?_⟩
  · rcases h.backed 0 hforgotten.holds with hacked | ⟨n, ⟨held, hshown⟩, hnamed, -⟩
    · exact hacked hforgotten.unknown
    · obtain ⟨rfl, -⟩ := hsaid n _ hshown
      have hnot : 0 ∉ s.net.names s.client.acks.ack := by decide +kernel
      exact hnot hnamed
  · obtain ⟨hstill, hsilent⟩ := hforgotten.run (wf_run _ lossActs) (heard_run _ hreach) hacts
    refine ⟨hstill.holds, fun n hn => ?_⟩
    obtain ⟨-, hheld⟩ := hsaid n none (hsilent n none hn)
    cases hheld

end Link

end BeforeColony
