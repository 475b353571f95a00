import BeforeColony.Lib.Bytes
import BeforeColony.Lib.Fifo
import BeforeColony.Lib.Run

/-!
# A client's outbound ring

The sector thread puts a datagram on the ring as its length and then its bytes, and the egress
thread takes the two off one after the other. The reader is in step with the frames as long as it
doesn't look for bytes whose length alone is there yet.
-/

set_option autoImplicit false

namespace BeforeColony

open Lib Lib.Bytes

def egressBuf : ℕ := 1100 + 64

def outRingBytes : ℕ := 32 * 1024

/-- The front of the buffer that the sector builds a datagram in. -/
structure Packet where
  bytes : List UInt8
  fits : bytes.length ≤ egressBuf

/-- Where the sector is in `queue`: out of it, past the check for room, or past the length. -/
inductive EgressWriter
  | idle
  | room (d : Packet)
  | between (d : Packet)

/-- Where the egress thread is in `read_packet`. -/
inductive EgressReader
  | idle
  | ready
  | length (n : ℕ)

structure Egress where
  ring : List UInt8
  writer : EgressWriter
  reader : EgressReader
  /-- What `queue` returned true for. -/
  queued : List (List UInt8)
  returned : List (List UInt8)
  /-- What calls that returned nothing took off the ring. -/
  spoiled : List UInt8

namespace Egress

/-- A call of either side, and each commit it goes on to make. -/
inductive Act
  | queue (d : Packet)
  | push
  | readPacket
  | pop

def new : Egress := ⟨[], .idle, .idle, [], [], []⟩

def step (s : Egress) : Act → Egress
  | .queue d =>
    match s.writer with
    | .idle =>
      if Fifo.slots outRingBytes s.ring < d.bytes.length + 2 then s else { s with writer := .room d }
    | _ => s
  | .push =>
    match s.writer with
    | .idle => s
    | .room d => { s with
        ring := Fifo.push outRingBytes s.ring (leBytes 2 d.bytes.length)
        writer := .between d }
    | .between d => { s with
        ring := Fifo.push outRingBytes s.ring d.bytes
        writer := .idle
        queued := s.queued ++ [d.bytes] }
  | .readPacket =>
    match s.reader with
    | .idle => if s.ring.length < 2 then s else { s with reader := .ready }
    | _ => s
  | .pop =>
    match s.reader with
    | .idle => s
    | .ready =>
      match Fifo.pop? s.ring 2 with
      | none => { s with reader := .idle }
      | some (len, rest) => { s with ring := rest, reader := .length (fromLeBytes len) }
    | .length n =>
      match if egressBuf < n then none else Fifo.pop? s.ring n with
      | none => { s with reader := .idle, spoiled := s.spoiled ++ leBytes 2 n }
      | some (bytes, rest) => { s with
          ring := rest, reader := .idle, returned := s.returned ++ [bytes] }

end Egress

/-- The datagram whose length alone is on the ring. -/
def EgressWriter.begun : EgressWriter → List (List UInt8)
  | .between d => [d.bytes]
  | _ => []

def EgressWriter.owed : EgressWriter → List UInt8
  | .between d => d.bytes
  | _ => []

namespace Egress

/-! ## Being in step -/

def frame (bytes : List UInt8) : List UInt8 := leBytes 2 bytes.length ++ bytes

def Ahead (bytes : List UInt8) : EgressReader → List (List UInt8) → Prop
  | .length n, p :: rest => p.length = n ∧ bytes = p ++ rest.flatMap frame
  | .length _, [] => False
  | _, pending => bytes = pending.flatMap frame

/-- What was returned is what was queued up to here, whole and in order; the rest is on the ring,
but for what `queue` has yet to push; and no call took anything and returned nothing. -/
structure InStepWith (s : Egress) (pending : List (List UInt8)) : Prop where
  told : s.returned ++ pending = s.queued ++ s.writer.begun
  ahead : Ahead (s.ring ++ s.writer.owed) s.reader pending
  spoiled : s.spoiled = []

def InStep (s : Egress) : Prop := ∃ pending, s.InStepWith pending

/-- The reader has a length, and its bytes are still to be pushed. -/
def Early (s : Egress) : Prop :=
  (∃ n, s.reader = .length n) ∧ ∃ d, s.writer = .between d ∧ d.bytes ≠ [] ∧ s.ring = []

/-- What is so whatever the two sides do: the room that was found stays. -/
structure Sound (s : Egress) : Prop where
  room : ∀ d, s.writer = .room d → d.bytes.length + 2 ≤ Fifo.slots outRingBytes s.ring
  between : ∀ d, s.writer = .between d → d.bytes.length ≤ Fifo.slots outRingBytes s.ring
  ready : s.reader = .ready → 2 ≤ s.ring.length
  fits : ∀ p ∈ s.queued, p.length ≤ egressBuf

theorem sound_new : Sound new where
  room := nofun
  between := nofun
  ready := nofun
  fits := nofun

theorem inStep_new : InStep new := ⟨[], rfl, rfl, rfl⟩

variable {s : Egress}

theorem Sound.step_queue (h : s.Sound) (d : Packet) : (s.step (.queue d)).Sound := by
  cases hwriter : s.writer with
  | room _ | between _ =>
    simp only [step, hwriter]
    exact h
  | idle =>
    simp only [step, hwriter]
    split
    · exact h
    · rename_i hroom
      refine ⟨?_, nofun, h.ready, h.fits⟩
      rintro _ ⟨⟩
      exact Nat.not_lt.mp hroom

theorem Sound.step_push (h : s.Sound) : (s.step .push).Sound := by
  cases hwriter : s.writer with
  | idle =>
    simp only [step, hwriter]
    exact h
  | room d =>
    have hroom := h.room d hwriter
    have hlen : (leBytes 2 d.bytes.length).length = 2 := length_leBytes _ _
    simp only [step, hwriter]
    rw [Fifo.push_of_le (by omega)]
    refine ⟨nofun, ?_, fun hready => ?_, h.fits⟩
    · rintro _ ⟨⟩
      rw [Fifo.slots_append]
      omega
    · exact (h.ready hready).trans (by simp)
  | between d =>
    simp only [step, hwriter]
    rw [Fifo.push_of_le (h.between d hwriter)]
    refine ⟨nofun, nofun, fun hready => ?_, ?_⟩
    · exact (h.ready hready).trans (by simp)
    · intro p hp
      rcases List.mem_append.mp hp with hp | hp
      · exact h.fits p hp
      · cases List.mem_singleton.mp hp
        exact d.fits

theorem Sound.taken {s' : Egress} {front : List UInt8} (h : s.Sound)
    (hring : s.ring = front ++ s'.ring) (hwriter : s'.writer = s.writer)
    (hreader : s'.reader ≠ .ready) (hqueued : s'.queued = s.queued) : s'.Sound where
  room d hd := (h.room d (hwriter ▸ hd)).trans (Fifo.slots_pop hring)
  between d hd := (h.between d (hwriter ▸ hd)).trans (Fifo.slots_pop hring)
  ready hready := absurd hready hreader
  fits := hqueued ▸ h.fits

theorem Sound.step_readPacket (h : s.Sound) : (s.step .readPacket).Sound := by
  cases hreader : s.reader with
  | ready | length _ =>
    simp only [step, hreader]
    exact h
  | idle =>
    simp only [step, hreader]
    split
    · exact h
    · exact ⟨h.room, h.between, fun _ => Nat.not_lt.mp ‹_›, h.fits⟩

theorem Sound.step_pop (h : s.Sound) : (s.step .pop).Sound := by
  cases hreader : s.reader with
  | idle =>
    simp only [step, hreader]
    exact h
  | ready =>
    simp only [step, hreader]
    split
    · exact ⟨h.room, h.between, nofun, h.fits⟩
    · rename_i len rest hpop
      exact h.taken (Fifo.pop?_eq_some.mp hpop).2 rfl nofun rfl
  | length n =>
    simp only [step, hreader]
    split
    · exact ⟨h.room, h.between, nofun, h.fits⟩
    · rename_i bytes rest hpop
      split at hpop
      · cases hpop
      · exact h.taken (Fifo.pop?_eq_some.mp hpop).2 rfl nofun rfl

theorem Sound.step (h : s.Sound) : ∀ act, (s.step act).Sound
  | .queue d => h.step_queue d
  | .push => h.step_push
  | .readPacket => h.step_readPacket
  | .pop => h.step_pop

/-! ## What each commit does to being in step -/

theorem InStepWith.fits {pending : List (List UInt8)} (hsound : s.Sound)
    (h : s.InStepWith pending) : ∀ p ∈ pending, p.length ≤ egressBuf := by
  intro p hp
  have hmem : p ∈ s.queued ++ s.writer.begun := h.told ▸ List.mem_append_right _ hp
  rcases List.mem_append.mp hmem with hmem | hmem
  · exact hsound.fits p hmem
  · cases hwriter : s.writer with
    | idle | room _ => simp [hwriter, EgressWriter.begun] at hmem
    | between d =>
      rw [hwriter] at hmem
      cases List.mem_singleton.mp hmem
      exact d.fits

theorem ahead_append {bytes : List UInt8} {reader : EgressReader} {pending : List (List UInt8)}
    (h : Ahead bytes reader pending) (p : List UInt8) :
    Ahead (bytes ++ frame p) reader (pending ++ [p]) := by
  cases reader with
  | idle | ready => simp_all [Ahead]
  | length n =>
    cases pending with
    | nil => exact h.elim
    | cons q rest =>
      obtain ⟨hlen, rfl⟩ := h
      exact ⟨hlen, by simp⟩

theorem InStep.step_queue (h : s.InStep) (d : Packet) : (s.step (.queue d)).InStep := by
  obtain ⟨pending, h⟩ := h
  cases hwriter : s.writer with
  | room _ | between _ =>
    simp only [step, hwriter]
    exact ⟨pending, h⟩
  | idle =>
    simp only [step, hwriter]
    split
    · exact ⟨pending, h⟩
    · have htold := h.told
      have hahead := h.ahead
      rw [hwriter] at htold hahead
      exact ⟨pending, htold, hahead, h.spoiled⟩

theorem InStep.step_push (hsound : s.Sound) (h : s.InStep) : (s.step .push).InStep := by
  obtain ⟨pending, h⟩ := h
  have htold := h.told
  have hahead := h.ahead
  cases hwriter : s.writer with
  | idle =>
    simp only [step, hwriter]
    exact ⟨pending, h⟩
  | room d =>
    have hroom := hsound.room d hwriter
    rw [hwriter] at htold hahead
    simp only [step, hwriter]
    rw [Fifo.push_of_le (by rw [length_leBytes]; omega)]
    refine ⟨pending ++ [d.bytes], ?_, ?_, h.spoiled⟩
    · simpa [EgressWriter.begun, ← List.append_assoc] using htold
    · simpa [EgressWriter.owed, frame] using ahead_append hahead d.bytes
  | between d =>
    rw [hwriter] at htold hahead
    simp only [step, hwriter]
    rw [Fifo.push_of_le (hsound.between d hwriter)]
    exact ⟨pending, by simpa [EgressWriter.begun] using htold, by simpa [EgressWriter.owed] using hahead, h.spoiled⟩

theorem InStep.step_readPacket (h : s.InStep) : (s.step .readPacket).InStep := by
  obtain ⟨pending, h⟩ := h
  cases hreader : s.reader with
  | ready | length _ =>
    simp only [step, hreader]
    exact ⟨pending, h⟩
  | idle =>
    have hahead := h.ahead
    rw [hreader] at hahead
    simp only [step, hreader]
    split
    · exact ⟨pending, h⟩
    · exact ⟨pending, h.told, hahead, h.spoiled⟩

/-- The length that the reader takes is that of the first datagram ahead. -/
theorem InStep.step_ready (hsound : s.Sound) (h : s.InStep) (hreader : s.reader = .ready) :
    (s.step .pop).InStep := by
  obtain ⟨pending, h⟩ := h
  have hahead := h.ahead
  have hready := hsound.ready hreader
  rw [hreader] at hahead
  simp only [step, hreader]
  split
  · exact ⟨pending, h.told, hahead, h.spoiled⟩
  · rename_i len rest hpop
    obtain ⟨hlen, hring⟩ := Fifo.pop?_eq_some.mp hpop
    cases pending with
    | nil => simp [Ahead, hring, List.append_eq_nil_iff] at hahead; simp [hahead] at hlen
    | cons p pending =>
      have hsplit : len ++ (rest ++ s.writer.owed) =
          leBytes 2 p.length ++ (p ++ pending.flatMap frame) := by
        simpa [Ahead, frame, hring] using hahead
      obtain ⟨rfl, hrest⟩ := List.append_inj hsplit (by rw [hlen, length_leBytes])
      have hsize : p.length < 2 ^ (8 * 2) :=
        (h.fits hsound p List.mem_cons_self).trans_lt (by decide)
      exact ⟨p :: pending, h.told, ⟨(fromLeBytes_leBytes hsize).symm, hrest⟩, h.spoiled⟩

/-- The datagram being pushed is the last of those ahead: it's the one whose length was taken, or
all of that one is on the ring with more behind it. -/
theorem InStepWith.alone_or_whole {d : Packet} {p : List UInt8} {rest : List (List UInt8)}
    (h : s.InStepWith (p :: rest)) (hreader : s.reader = .length p.length)
    (hwriter : s.writer = .between d) :
    (p = d.bytes ∧ s.ring = []) ∨ (p.length ≤ s.ring.length ∧ s.ring ≠ []) := by
  obtain ⟨-, hbytes⟩ : p.length = p.length ∧ s.ring ++ s.writer.owed = p ++ rest.flatMap frame := by
    have hahead := h.ahead
    rwa [hreader] at hahead
  have htold := h.told
  rw [hwriter, EgressWriter.begun] at htold
  rw [hwriter, EgressWriter.owed] at hbytes
  have hlast : (p :: rest).getLast? = some d.bytes := by
    have := congrArg List.getLast? htold
    rwa [List.getLast?_append_of_ne_nil _ (List.cons_ne_nil _ _), List.getLast?_concat] at this
  cases rest with
  | nil =>
    cases Option.some.inj hlast
    exact .inl ⟨rfl, by simpa using hbytes⟩
  | cons q rest =>
    right
    have hmem : d.bytes ∈ q :: rest := List.mem_of_getLast? (by simpa using hlast)
    obtain ⟨before, after, hsplit⟩ := List.append_of_mem hmem
    have hlong : d.bytes.length + 2 ≤ ((q :: rest).flatMap frame).length := by
      rw [hsplit]
      simp only [List.flatMap_append, List.flatMap_cons, List.length_append, frame, length_leBytes]
      omega
    have hlen := congrArg List.length hbytes
    rw [List.length_append, List.length_append] at hlen
    refine ⟨by omega, List.ne_nil_of_length_pos (by omega)⟩

/-- A length was taken: its bytes are all there, or the reader is early. -/
theorem InStepWith.whole_or_early {p : List UInt8} {rest : List (List UInt8)}
    (h : s.InStepWith (p :: rest)) (hreader : s.reader = .length p.length) :
    p.length ≤ s.ring.length ∨ s.Early := by
  cases hwriter : s.writer with
  | idle | room _ =>
    left
    have hahead := h.ahead
    simp only [hreader, hwriter, EgressWriter.owed, List.append_nil] at hahead
    rw [hahead.2, List.length_append]
    exact Nat.le_add_right _ _
  | between d =>
    rcases h.alone_or_whole hreader hwriter with ⟨rfl, hring⟩ | ⟨hwhole, -⟩
    · by_cases hempty : d.bytes = []
      · exact .inl (by simp [hempty])
      · exact .inr ⟨⟨_, hreader⟩, d, hwriter, hempty, hring⟩
    · exact .inl hwhole

/-- Unless it comes early, the reader takes just the datagram whose length it has. -/
theorem InStep.step_length {n : ℕ} (hsound : s.Sound) (h : s.InStep) (hreader : s.reader = .length n)
    (hearly : ¬ s.Early) : (s.step .pop).InStep := by
  obtain ⟨pending, h⟩ := h
  have hahead := h.ahead
  have hfits := h.fits hsound
  have htold := h.told
  rw [hreader] at hahead
  cases pending with
  | nil => exact hahead.elim
  | cons p rest =>
    obtain ⟨rfl, hbytes⟩ := hahead
    have hwhole := (h.whole_or_early hreader).resolve_right hearly
    obtain ⟨left, hring⟩ : p <+: s.ring :=
      List.prefix_of_prefix_length_le ⟨_, hbytes.symm⟩ (List.prefix_append _ _) hwhole
    have hpop : Fifo.pop? s.ring p.length = some (p, left) :=
      Fifo.pop?_eq_some.mpr ⟨rfl, hring.symm⟩
    have hleft : left ++ s.writer.owed = rest.flatMap frame := by
      rw [← hring, List.append_assoc] at hbytes
      exact List.append_cancel_left hbytes
    simp only [step, hreader]
    rw [if_neg (Nat.not_lt.mpr (hfits p List.mem_cons_self)), hpop]
    exact ⟨rest, by simpa using htold, hleft, h.spoiled⟩

/-- One that comes early takes the length and returns nothing. -/
theorem not_inStep_of_early (h : s.InStep) (hearly : s.Early) : ¬ (s.step .pop).InStep := by
  obtain ⟨⟨n, hreader⟩, d, hwriter, hbytes, hring⟩ := hearly
  obtain ⟨pending, h⟩ := h
  have hahead := h.ahead
  rw [hreader] at hahead
  cases pending with
  | nil => exact hahead.elim
  | cons p rest =>
    obtain ⟨rfl, -⟩ := hahead
    obtain ⟨rfl, -⟩ := (h.alone_or_whole hreader hwriter).resolve_right fun hwhole => hwhole.2 hring
    have hpop : Fifo.pop? s.ring d.bytes.length = none := by
      rw [Fifo.pop?_eq_none, hring]
      exact List.length_pos_of_ne_nil hbytes
    simp only [step, hreader]
    rw [if_neg (Nat.not_lt.mpr d.fits), hpop]
    rintro ⟨pending, -, -, hspoiled⟩
    have := congrArg List.length hspoiled
    simp at this

theorem step_inStep_iff (hsound : s.Sound) (h : s.InStep) (act : Act) :
    (s.step act).InStep ↔ (act = .pop → ¬ s.Early) := by
  cases act with
  | queue d => exact iff_of_true (h.step_queue d) nofun
  | push => exact iff_of_true (h.step_push hsound) nofun
  | readPacket => exact iff_of_true h.step_readPacket nofun
  | pop =>
    constructor
    · intro hstep _ hearly
      exact not_inStep_of_early h hearly hstep
    · intro hearly
      cases hreader : s.reader with
      | idle =>
        simp only [step, hreader]
        exact h
      | ready => exact h.step_ready hsound hreader
      | length n => exact h.step_length hsound hreader (hearly rfl)

/-- The reader is in step all through a run just when it never looks for a datagram's bytes
between the two commits that put it on the ring. -/
theorem inStep_iff_never_early (acts : List Act) :
    (∀ n, ((acts.take n).foldl step new).InStep) ↔
      Run.Along step (fun s act => act = .pop → ¬ s.Early) new acts := by
  have hsound (n : ℕ) : ((acts.take n).foldl step new).Sound :=
    Run.invariant (fun s act hs _ => hs.step act) sound_new
      (Run.along_of_forall step (fun _ _ => trivial) _ _)
  have hkept (s : Egress) (act : Act) (hs : s.Sound ∧ s.InStep) :
      (s.step act).Sound ∧ (s.step act).InStep ↔ (act = .pop → ¬ s.Early) :=
    (and_iff_right (hs.1.step act)).trans (step_inStep_iff hs.1 hs.2 act)
  rw [← Run.forall_take_iff_along hkept ⟨sound_new, inStep_new⟩]
  exact forall_congr' fun n => (and_iff_right (hsound n)).symm

/-- A datagram is queued while the reader looks, which takes its length alone, and then takes the
first bytes of it for another's length. -/
theorem returned_not_queued :
    let s := [Act.queue ⟨[1, 0, 42], by decide⟩, .push, .readPacket, .pop, .pop, .push, .readPacket,
      .pop, .pop].foldl step new
    s.queued = [[1, 0, 42]] ∧ s.returned = [[42]] ∧ ¬ s.InStep := by
  refine ⟨by decide, by decide, ?_⟩
  rintro ⟨pending, -, -, hspoiled⟩
  exact absurd hspoiled (by decide)

end Egress

end BeforeColony
