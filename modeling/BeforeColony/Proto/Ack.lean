import Mathlib.Data.Nat.Bitwise
import Mathlib.Data.List.Basic

/-!
# Which snapshot datagrams a client has

Datagrams are numbered per client; 16 bits of the number travel, expanded near the newest. The
client takes a datagram only if it is newer than every one it took on that stream, and acks the
newest it took with the 32 before it as bits.
-/

set_option autoImplicit false

namespace BeforeColony

/-- The largest sequence number there is room for. -/
def seqMax : ℕ := 2 ^ 32 - 1

/-- A sum of numbers of 32 bits that stops at the largest. -/
def saturatingAdd (a b : ℕ) : ℕ := min (a + b) seqMax

/-- The full sequence number nearest `near` whose low 16 bits are `seq`. -/
def expand (seq near : ℕ) : ℕ :=
  let candidate := near / 0x10000 * 0x10000 + seq
  if saturatingAdd near 0x8000 ≤ candidate ∧ 0x10000 ≤ candidate then candidate - 0x10000
  else if saturatingAdd candidate 0x8000 < near then saturatingAdd candidate 0x10000
  else candidate

def InWindow (near s : ℕ) : Prop := near ≤ s + 0x8000 ∧ s < near + 0x8000

instance (near s : ℕ) : Decidable (InWindow near s) := inferInstanceAs (Decidable (_ ∧ _))

theorem expand_mod {near s : ℕ} (h : InWindow near s) (hnear : near ≤ seqMax) (hs : s < seqMax) :
    expand (s % 0x10000) near = s := by
  obtain ⟨hlow, hhigh⟩ := h
  have hsum : ∀ a b, saturatingAdd a b = min (a + b) (2 ^ 32 - 1) := fun _ _ => rfl
  simp only [seqMax] at hnear hs
  simp only [expand]
  have habove := hsum near 0x8000
  have hbelow := hsum (near / 0x10000 * 0x10000 + s % 0x10000) 0x8000
  have hnext := hsum (near / 0x10000 * 0x10000 + s % 0x10000) 0x10000
  split
  · omega
  · split <;> omega

inductive Verdict where
  | stale
  | next (s : ℕ)
  | newStream (s : ℕ)
  | unsequenced
  deriving DecidableEq, Repr

/-- The stream in hand, the newest datagram taken on it and, as bits, the 63 before it. -/
structure AckWindow where
  stream : ℕ := 0
  newest : ℕ := 0
  mask : ℕ := 0
  tick : ℕ := 0
  any : Bool := false
  deriving DecidableEq, Repr

/-- An input packet's ack: the stream, the newest datagram taken and the 32 before it. -/
structure Ack where
  stream : ℕ
  seq : ℕ
  bits : ℕ
  deriving DecidableEq, Repr

namespace AckWindow

def check (w : AckWindow) (stream seq tick : ℕ) : Verdict :=
  let newerTick := !w.any || decide (w.tick < tick)
  if stream = 0 then
    if newerTick then .unsequenced else .stale
  else if stream = w.stream ∧ w.mask ≠ 0 then
    let s := expand seq w.newest
    if w.newest < s then .next s else .stale
  else if newerTick then .newStream seq else .stale

theorem check_newer {w : AckWindow} {stream seq tick : ℕ}
    (h : w.check stream seq tick = .unsequenced ∨ ∃ s, w.check stream seq tick = .newStream s) :
    (!w.any || decide (w.tick < tick)) = true := by
  by_contra hold
  simp only [check, if_neg hold] at h
  split at h
  · rcases h with h | ⟨s, h⟩ <;> exact Verdict.noConfusion h
  · split at h
    · split at h <;> rcases h with h | ⟨s, h⟩ <;> exact Verdict.noConfusion h
    · rcases h with h | ⟨s, h⟩ <;> exact Verdict.noConfusion h

theorem check_newStream {w : AckWindow} {stream seq tick s : ℕ}
    (h : w.check stream seq tick = .newStream s) : stream ≠ 0 ∧ (stream = w.stream → w.mask = 0) := by
  simp only [check] at h
  by_cases hzero : stream = 0
  · rw [if_pos hzero] at h
    split at h <;> exact Verdict.noConfusion h
  · refine ⟨hzero, fun hstream => ?_⟩
    by_contra hmask
    rw [if_neg hzero, if_pos ⟨hstream, hmask⟩] at h
    split at h <;> exact Verdict.noConfusion h

theorem check_next {w : AckWindow} {stream seq tick s : ℕ} (h : w.check stream seq tick = .next s) :
    stream = w.stream ∧ w.mask ≠ 0 ∧ w.newest < s := by
  simp only [check] at h
  by_cases hzero : stream = 0
  · rw [if_pos hzero] at h
    split at h <;> exact Verdict.noConfusion h
  · rw [if_neg hzero] at h
    by_cases hin : stream = w.stream ∧ w.mask ≠ 0
    · rw [if_pos hin] at h
      by_cases hlt : w.newest < expand seq w.newest
      · rw [if_pos hlt] at h
        exact ⟨hin.1, hin.2, Verdict.next.inj h ▸ hlt⟩
      · rw [if_neg hlt] at h
        exact Verdict.noConfusion h
    · rw [if_neg hin] at h
      split at h <;> exact Verdict.noConfusion h

def commit (w : AckWindow) (stream : ℕ) (verdict : Verdict) (tick : ℕ) : AckWindow :=
  match verdict with
  | .stale => w
  | .unsequenced => { w with tick := max w.tick tick, any := true }
  | .newStream s => { stream, newest := s, mask := 1, tick := max w.tick tick, any := true }
  | .next s =>
    let gap := s - w.newest
    { w with
      newest := s
      mask := if 64 ≤ gap then 1 else (w.mask <<< gap ||| 1) % 2 ^ 64
      tick := max w.tick tick
      any := true }

def ack (w : AckWindow) : Ack :=
  if w.mask = 0 then ⟨0, 0, 0⟩
  else ⟨w.stream, w.newest % 0x10000, (w.mask >>> 1) % 2 ^ 32⟩

structure Tracks (w : AckWindow) (stream : ℕ) (taken : List ℕ) : Prop where
  start : taken = [] → w.mask = 0
  stream_eq : taken ≠ [] → w.stream = stream
  newest_eq : taken.getLast? = if taken = [] then none else some w.newest
  increasing : taken.Pairwise (· < ·)
  le_newest : ∀ n ∈ taken, n ≤ w.newest
  bit : ∀ i, w.mask.testBit i = true ↔ i < 64 ∧ i ≤ w.newest ∧ w.newest - i ∈ taken

variable {w : AckWindow} {stream tick n : ℕ} {taken : List ℕ}

theorem tracks_nil (stream : ℕ) : Tracks {} stream [] where
  start _ := rfl
  stream_eq h := absurd rfl h
  newest_eq := rfl
  increasing := .nil
  le_newest := by simp
  bit := by simp

namespace Tracks

theorem newest_mem (h : w.Tracks stream taken) (ht : taken ≠ []) : w.newest ∈ taken := by
  have hlast := h.newest_eq
  rw [if_neg ht] at hlast
  exact List.mem_of_getLast? hlast

theorem mask_ne_zero (h : w.Tracks stream taken) (ht : taken ≠ []) : w.mask ≠ 0 := by
  intro hmask
  have hbit := (h.bit 0).mpr ⟨by decide, Nat.zero_le _, by simpa using h.newest_mem ht⟩
  rw [hmask] at hbit
  simp at hbit

theorem eq_nil_iff (h : w.Tracks stream taken) : taken = [] ↔ w.mask = 0 := by
  constructor
  · exact h.start
  · intro hmask
    by_contra ht
    exact h.mask_ne_zero ht hmask

theorem commit_newStream (w : AckWindow) (stream n tick : ℕ) :
    (w.commit stream (.newStream n) tick).Tracks stream [n] := by
  refine ⟨by simp, fun _ => rfl, rfl, List.pairwise_singleton _ _, by simp [commit], ?_⟩
  intro i
  simp only [commit, List.mem_singleton]
  rcases Nat.eq_zero_or_pos i with rfl | hi
  · simp
  · simp only [Nat.testBit_one_eq_true_iff_self_eq_zero]
    omega

theorem commit_next (h : w.Tracks stream taken) (ht : taken ≠ []) (hn : w.newest < n)
    (stream' : ℕ) : (w.commit stream' (.next n) tick).Tracks stream (taken ++ [n]) := by
  refine ⟨by simp, fun _ => h.stream_eq ht, by simp [commit], ?_, ?_, ?_⟩
  · rw [List.pairwise_append]
    refine ⟨h.increasing, List.pairwise_singleton _ _, ?_⟩
    intro m hm m' hm'
    rw [List.mem_singleton.mp hm']
    exact (h.le_newest m hm).trans_lt hn
  · intro m hm
    simp only [commit]
    rcases List.mem_append.mp hm with hm | hm
    · exact (h.le_newest m hm).trans hn.le
    · rw [List.mem_singleton.mp hm]
  · intro i
    have hmem : i ≤ n → (n - i ∈ taken ++ [n] ↔ i = 0 ∨ n - i ∈ taken) := by
      intro hi
      simp only [List.mem_append, List.mem_singleton]
      constructor
      · rintro (hold | hnew)
        · exact Or.inr hold
        · exact Or.inl (by omega)
      · rintro (rfl | hold)
        · exact Or.inr rfl
        · exact Or.inl hold
    have hnewer : ∀ j, n - j ∈ taken → n - j ≤ w.newest := fun j hj => h.le_newest _ hj
    simp only [commit]
    by_cases hgap : 64 ≤ n - w.newest
    · rw [if_pos hgap, Nat.testBit_one_eq_true_iff_self_eq_zero]
      constructor
      · rintro rfl
        exact ⟨by decide, Nat.zero_le _, by simp⟩
      · rintro ⟨h64, hi, hin⟩
        rcases (hmem hi).mp hin with hz | hold
        · exact hz
        · have := hnewer i hold
          omega
    · rw [if_neg hgap, Nat.testBit_mod_two_pow, Nat.testBit_or, Nat.testBit_shiftLeft]
      simp only [Bool.and_eq_true, Bool.or_eq_true, decide_eq_true_eq,
        Nat.testBit_one_eq_true_iff_self_eq_zero]
      constructor
      · rintro ⟨h64, ⟨hge, hold⟩ | rfl⟩
        · obtain ⟨-, hle, hin⟩ := (h.bit _).mp hold
          have hi : i ≤ n := by omega
          refine ⟨h64, hi, (hmem hi).mpr (Or.inr ?_)⟩
          rwa [show n - i = w.newest - (i - (n - w.newest)) by omega]
        · exact ⟨h64, Nat.zero_le _, (hmem (Nat.zero_le _)).mpr (Or.inl rfl)⟩
      · rintro ⟨h64, hi, hin⟩
        refine ⟨h64, ?_⟩
        rcases (hmem hi).mp hin with hz | hold
        · exact Or.inr hz
        · have hle := hnewer i hold
          refine Or.inl ⟨by omega, (h.bit _).mpr ⟨by omega, by omega, ?_⟩⟩
          rwa [show w.newest - (i - (n - w.newest)) = n - i by omega]

theorem commit_unsequenced (h : w.Tracks stream taken) (stream' : ℕ) :
    (w.commit stream' .unsequenced tick).Tracks stream taken :=
  ⟨h.start, h.stream_eq, h.newest_eq, h.increasing, h.le_newest, h.bit⟩

theorem ack_bit (h : w.Tracks stream taken) (i : ℕ) :
    ((w.mask >>> 1) % 2 ^ 32).testBit i = true
      ↔ i < 32 ∧ i + 1 ≤ w.newest ∧ w.newest - (i + 1) ∈ taken := by
  rw [Nat.testBit_mod_two_pow, Nat.testBit_shiftRight, Bool.and_eq_true, decide_eq_true_eq,
    Nat.add_comm 1 i, h.bit]
  constructor
  · rintro ⟨h32, -, hle, hin⟩
    exact ⟨h32, hle, hin⟩
  · rintro ⟨h32, hle, hin⟩
    exact ⟨h32, by omega, hle, hin⟩

theorem ack_eq (h : w.Tracks stream taken) (ht : taken ≠ []) :
    w.ack = ⟨stream, w.newest % 0x10000, (w.mask >>> 1) % 2 ^ 32⟩ := by
  rw [ack, if_neg (h.mask_ne_zero ht), h.stream_eq ht]

/-- Where a window that took `taken`, in order, stands on a datagram of number `n`. -/
theorem check_eq (h : w.Tracks stream taken) (hs : stream ≠ 0) (hn : n < seqMax)
    (hsmall : ∀ m ∈ taken, m < seqMax) (hfirst : taken = [] → w.any = false ∧ n < 0x10000)
    (hnear : taken ≠ [] → InWindow w.newest n) :
    w.check stream (n % 0x10000) tick
      = if taken = [] then .newStream n else if w.newest < n then .next n else .stale := by
  by_cases ht : taken = []
  · obtain ⟨hany, hlow⟩ := hfirst ht
    simp [check, hs, h.start ht, hany, ht, Nat.mod_eq_of_lt hlow]
  · have hexpand := expand_mod (hnear ht) (hsmall _ (h.newest_mem ht)).le hn
    have hin : stream = w.stream ∧ w.mask ≠ 0 := ⟨(h.stream_eq ht).symm, h.mask_ne_zero ht⟩
    simp only [check, if_neg hs, if_neg ht, if_pos hin, hexpand]

end Tracks

end AckWindow

/-- The datagrams an ack names, oldest first: those of the 32 before the newest whose bit is set,
and the newest. -/
def named (newest bits : ℕ) : List ℕ :=
  ((List.range 32).reverse.filter fun i => bits.testBit i ∧ i + 1 ≤ newest).map
    (fun i => newest - (i + 1)) ++ [newest]

theorem mem_named {newest bits s : ℕ} :
    s ∈ named newest bits ↔ s = newest
      ∨ ∃ i, i < 32 ∧ bits.testBit i = true ∧ i + 1 ≤ newest ∧ s = newest - (i + 1) := by
  simp only [named, List.mem_append, List.mem_map, List.mem_filter, List.mem_reverse,
    List.mem_range, List.mem_singleton, decide_eq_true_eq]
  constructor
  · rintro (⟨i, ⟨h32, hbit, hle⟩, rfl⟩ | rfl)
    · exact Or.inr ⟨i, h32, hbit, hle, rfl⟩
    · exact Or.inl rfl
  · rintro (rfl | ⟨i, h32, hbit, hle, rfl⟩)
    · exact Or.inr rfl
    · exact Or.inl ⟨i, ⟨h32, hbit, hle⟩, rfl⟩

/-- An ack's bits name the datagrams taken among the newest and the 32 before it. -/
theorem AckWindow.Tracks.mem_named {w : AckWindow} {stream : ℕ} {taken : List ℕ}
    (h : w.Tracks stream taken) (ht : taken ≠ []) (n : ℕ) :
    n ∈ named w.newest ((w.mask >>> 1) % 2 ^ 32) ↔ n ∈ taken ∧ w.newest ≤ n + 32 := by
  rw [BeforeColony.mem_named]
  constructor
  · rintro (rfl | ⟨i, h32, hbit, hle, rfl⟩)
    · exact ⟨h.newest_mem ht, by omega⟩
    · exact ⟨((h.ack_bit i).mp hbit).2.2, by omega⟩
  · rintro ⟨hn, hnear⟩
    have hle := h.le_newest n hn
    by_cases heq : n = w.newest
    · exact Or.inl heq
    · right
      have hback : w.newest - (w.newest - n - 1 + 1) = n := by omega
      refine ⟨w.newest - n - 1, by omega, (h.ack_bit _).mpr ⟨by omega, by omega, ?_⟩, by omega,
        hback.symm⟩
      rwa [hback]

/-! ## Whatever headers arrive -/

/-- What of a datagram's header a window goes by: 16 bits of its number. -/
structure Header where
  stream : ℕ
  seq : ℕ
  tick : ℕ
  deriving DecidableEq

/-- A window with the numbers taken on the stream in hand, and every header taken. -/
structure Listening where
  window : AckWindow
  taken : List ℕ
  all : List Header

namespace Listening

def start : Listening := ⟨{}, [], []⟩

def receive (l : Listening) (h : Header) : Listening :=
  let verdict := l.window.check h.stream h.seq h.tick
  let window := l.window.commit h.stream verdict h.tick
  match verdict with
  | .stale => l
  | .next s => ⟨window, l.taken ++ [s], l.all ++ [h]⟩
  | .newStream s => ⟨window, [s], l.all ++ [h]⟩
  | .unsequenced => ⟨window, l.taken, l.all ++ [h]⟩

/-- The window tracks what was taken on its stream, and has the newest tick of all. -/
structure Good (l : Listening) : Prop where
  tracks : l.window.Tracks l.window.stream l.taken
  ticks : ∀ h ∈ l.all, l.window.any = true ∧ h.tick ≤ l.window.tick

theorem good_start : start.Good := ⟨AckWindow.tracks_nil _, by simp [start]⟩

variable {l : Listening} {h : Header}

/-- A datagram of another stream is taken only if it is of a newer tick than all taken. -/
theorem Good.newer (hl : l.Good) (hnew : (!l.window.any || decide (l.window.tick < h.tick)) = true) :
    ∀ h' ∈ l.all, h'.tick < h.tick := by
  intro h' hmem
  obtain ⟨hany, htick⟩ := hl.ticks h' hmem
  rw [hany] at hnew
  simp only [Bool.not_true, Bool.false_or, decide_eq_true_eq] at hnew
  omega

theorem Good.stream_changes (hl : l.Good)
    (hstream : (l.receive h).window.stream ≠ l.window.stream) : ∀ h' ∈ l.all, h'.tick < h.tick := by
  apply hl.newer
  apply AckWindow.check_newer
  unfold Listening.receive at hstream
  cases hcheck : l.window.check h.stream h.seq h.tick with
  | stale => simp [hcheck] at hstream
  | next s => simp [hcheck, AckWindow.commit] at hstream
  | newStream s => exact Or.inr ⟨s, rfl⟩
  | unsequenced => exact Or.inl rfl

/-- What was taken is forgotten only for another stream. -/
theorem Good.keeps (hl : l.Good) (hstream : (l.receive h).window.stream = l.window.stream) :
    l.taken <+: (l.receive h).taken := by
  unfold Listening.receive at hstream ⊢
  cases hcheck : l.window.check h.stream h.seq h.tick with
  | stale => exact List.prefix_refl _
  | next s => exact List.prefix_append _ _
  | newStream s =>
    simp only [hcheck, AckWindow.commit] at hstream
    have hmask := (AckWindow.check_newStream hcheck).2 hstream
    rw [hl.tracks.eq_nil_iff.mpr hmask]
    exact ⟨_, rfl⟩
  | unsequenced => exact List.prefix_refl _

theorem Good.receive (hl : l.Good) (h : Header) : (l.receive h).Good := by
  have hticks : ∀ v : Verdict, v ≠ .stale → ∀ h' ∈ l.all ++ [h],
      (l.window.commit h.stream v h.tick).any = true
        ∧ h'.tick ≤ (l.window.commit h.stream v h.tick).tick := by
    intro v hv h' hmem
    have hle : h'.tick ≤ max l.window.tick h.tick := by
      rcases List.mem_append.mp hmem with hmem | hmem
      · exact (hl.ticks h' hmem).2.trans (Nat.le_max_left _ _)
      · rw [List.mem_singleton.mp hmem]
        exact Nat.le_max_right _ _
    cases v with
    | stale => exact absurd rfl hv
    | next s => exact ⟨rfl, hle⟩
    | newStream s => exact ⟨rfl, hle⟩
    | unsequenced => exact ⟨rfl, hle⟩
  unfold Listening.receive
  cases hcheck : l.window.check h.stream h.seq h.tick with
  | stale => exact hl
  | next s =>
    obtain ⟨hstream, hmask, hlt⟩ : h.stream = l.window.stream ∧ l.window.mask ≠ 0
        ∧ l.window.newest < s := by
      exact AckWindow.check_next hcheck
    have ht : l.taken ≠ [] := fun ht => hmask (hl.tracks.start ht)
    exact ⟨hl.tracks.commit_next ht hlt h.stream, hticks _ (by simp)⟩
  | newStream s => exact ⟨.commit_newStream _ _ _ _, hticks _ (by simp)⟩
  | unsequenced => exact ⟨hl.tracks.commit_unsequenced h.stream, hticks _ (by simp)⟩

theorem good_run (hs : List Header) : (hs.foldl receive start).Good := by
  have hfold : ∀ l : Listening, l.Good → (hs.foldl receive l).Good := by
    induction hs with
    | nil => exact fun _ => id
    | cons h rest ih => exact fun l hl => ih _ (hl.receive h)
  exact hfold start good_start

end Listening

end BeforeColony
