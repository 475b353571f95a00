import BeforeColony.Proto.Frames
import BeforeColony.Proto.Input
import BeforeColony.Proto.SnapshotRuns

/-!
# Decoding bytes of whatever kind

Snapshots, events, commands and frames read from any bytes: every read stays within them, what is
made is in range, and reading on and on comes to an end.
-/

set_option autoImplicit false

namespace BeforeColony

open Lib

/-- What reads of words, none of them out of bounds, leave of a byte string. -/
def ReadWithin (bytes : List UInt8) (r : BitReader) : Prop :=
  ∃ w, (Words.BitReader.new bytes).Leads w ∧ w.Within ∧ w.view = r

variable {bytes : List UInt8} {r : BitReader}

theorem readWithin_ofBytes (bytes : List UInt8) : ReadWithin bytes (.ofBytes bytes) :=
  ⟨.new bytes, .refl _, Nat.zero_le _, rfl⟩

theorem ReadWithin.safe {α : Type} {P : α → Prop} {rd : Read α} (h : ReadWithin bytes r)
    (hrd : Safe rd P) : ReadWithin bytes (rd r).2 := by
  obtain ⟨w, hlead, hwithin, rfl⟩ := h
  obtain ⟨w', hlead', hwithin', hview⟩ := hrd.leads hwithin
  exact ⟨w', hlead.trans hlead', hwithin', hview.symm⟩

theorem ReadWithin.goes {s s' : SnapshotReader} (h : ReadWithin bytes s.r) (hgoes : s.Goes s') :
    ReadWithin bytes s'.r := by
  obtain ⟨w, hlead, hwithin, hview⟩ := h
  obtain ⟨w', hlead', hwithin', hview'⟩ := hgoes.words w hwithin hview
  exact ⟨w', hlead.trans hlead', hwithin', hview'⟩

namespace SnapshotReader

theorem new_ok {s : SnapshotReader} (h : new bytes = .ok s) :
    s.header.InRange ∧ ReadWithin bytes s.r ∧ s.r.rest.length ≤ 8 * bytes.length := by
  have honward := SnapshotHeader.safe_read.onward (.ofBytes bytes)
  have hwithin := (readWithin_ofBytes bytes).safe SnapshotHeader.safe_read
  unfold new at h
  split at h
  · rename_i header r hread
    cases h
    rw [hread] at honward hwithin
    refine ⟨SnapshotHeader.safe_read.ok hread, hwithin, ?_⟩
    have hlength := honward.length_le
    rwa [BitReader.ofBytes, Bytes.length_unpack] at hlength
  · cases h

variable (walked : ℕ → ℕ → ℕ → ℤ × ℤ)

theorem length_calls (cs : List Call) (s : SnapshotReader) :
    (calls walked cs s).1.length = cs.length := by
  induction cs generalizing s with
  | nil => rfl
  | cons c rest ih => exact congrArg (· + 1) (ih _)

theorem exists_none {os : List (Except DecodeError (Option Record))}
    (h : (os.filterMap given).length < os.length) : ∃ o ∈ os, given o = none := by
  by_contra hall
  push Not at hall
  have hsome : ∀ o ∈ os, (given o).isSome = true := by
    intro o ho
    exact Option.isSome_iff_ne_none.mpr (hall o ho)
  rw [List.filterMap_length_eq_length.mpr hsome] at h
  exact lt_irrefl _ h

/-- Whatever is asked of a snapshot's reader, and in whatever order: it reads within the bytes, gives
records in range and only so many, skips to where it is told or says why not, and gives none past
the end. -/
theorem calls_within {s s' : SnapshotReader} (hs : new bytes = .ok s) {cs : List Call}
    (hcs : ∀ c ∈ cs, c.InRange) {os : List (Except DecodeError (Option Record))}
    (hcalls : calls walked cs s = (os, s')) :
    ReadWithin bytes s'.r
      ∧ (∀ rec ∈ os.filterMap given, rec.InRange)
      ∧ (os.filterMap given).length ≤ 8 * bytes.length
      ∧ (8 * bytes.length < cs.length → ∃ o ∈ os, given o = none)
      ∧ (∀ stage, (skipTo walked stage s').1 = .ok () →
        stage.index ≤ (skipTo walked stage s').2.stage.index)
      ∧ os.Pairwise fun o o' => o = .error .truncated → given o' = none := by
  obtain ⟨hheader, hwithin, hlength⟩ := new_ok hs
  have hsound := calls_sound walked hheader.tick cs hcs
  have hall := length_calls walked cs s
  rw [hcalls] at hsound hall
  obtain ⟨hgoes, hrange, hcount, hcut⟩ := hsound
  have hfew : (os.filterMap given).length ≤ 8 * bytes.length := by
    dsimp only at hcount
    omega
  have hmore (hlong : 8 * bytes.length < cs.length) : ∃ o ∈ os, given o = none := by
    refine exists_none ?_
    dsimp only at hall
    omega
  have htick : s'.header.tick < 2 ^ 32 := hgoes.header ▸ hheader.tick
  exact ⟨hwithin.goes hgoes, hrange, hfew, hmore,
    fun stage hok => (ends_skipTo walked stage htick).ok () hok, hcut⟩

end SnapshotReader

/-- Decoding comes to an end whatever the bytes are. What is read is in range and within them, and
past a cut there is nothing more; an error of another kind is final for a stream and for commands,
which are taken whole, while a snapshot's reader goes on from where it met it. -/
theorem decoders_total (walked : ℕ → ℕ → ℕ → ℤ × ℤ) (bytes : List UInt8) :
    ReadWithin bytes (SnapshotHeader.read (.ofBytes bytes)).2
      ∧ (∀ s, SnapshotReader.new bytes = .ok s → s.header.InRange ∧
        ∀ cs : List Call, (∀ c ∈ cs, c.InRange) →
          ∀ os s', SnapshotReader.calls walked cs s = (os, s') →
            ReadWithin bytes s'.r
              ∧ (∀ rec ∈ os.filterMap SnapshotReader.given, rec.InRange)
              ∧ (os.filterMap SnapshotReader.given).length ≤ 8 * bytes.length
              ∧ (8 * bytes.length < cs.length → ∃ o ∈ os, SnapshotReader.given o = none)
              ∧ (∀ stage, (SnapshotReader.skipTo walked stage s').1 = .ok () →
                stage.index ≤ (SnapshotReader.skipTo walked stage s').2.stage.index)
              ∧ os.Pairwise fun o o' => o = .error .truncated → SnapshotReader.given o' = none)
      ∧ (∀ tick < 2 ^ 32, ∀ r, ReadWithin bytes r → ReadWithin bytes (Event.read tick r).2
        ∧ ∀ e r', Event.read tick r = (.ok e, r') → e.InRange ∧ r'.overflow = false)
      ∧ ReadWithin bytes (InputPacket.read (.ofBytes bytes)).2
      ∧ (∀ p, InputPacket.decode bytes = .ok p → p.InRange)
      ∧ ∃ o, Frame.loop bytes = some o ∧ 3 * o.1.length ≤ bytes.length ∧ (∀ f ∈ o.1, f.InRange)
        ∧ ∀ e, o.2 = .error e → ∀ more, Frame.loop (bytes ++ more) = some o := by
  refine ⟨(readWithin_ofBytes bytes).safe SnapshotHeader.safe_read, ?snapshot, ?event,
    (readWithin_ofBytes bytes).safe InputPacket.safe_read, ?input, Frame.loop_sound bytes⟩
  case snapshot =>
    intro s hs
    refine ⟨(SnapshotReader.new_ok hs).1, ?_⟩
    intro cs hcs os s' hcalls
    exact SnapshotReader.calls_within walked hs hcs hcalls
  case event =>
    intro tick htick r hr
    refine ⟨hr.safe (Event.safe_read htick), ?_⟩
    intro e r' hread
    exact ⟨(Event.safe_read htick).ok hread, (whole_ok hread).2⟩
  case input =>
    intro p hp
    have hread : InputPacket.read (.ofBytes bytes) = (.ok p, (InputPacket.read (.ofBytes bytes)).2) :=
      Prod.ext hp rfl
    exact InputPacket.safe_read.ok hread

/-- A snapshot with two events: the first is of no kind there is. -/
def oddEvent : List UInt8 :=
  [2, 0, 0, 0, 0, 0, 0, 0, 0, 0, 0, 0, 0, 0, 0, 0, 0, 192, 3, 252, 15, 160, 0]

def oddCalls : List Call := [.own, .orrery, .event, .event]

theorem oddEvent_read :
    (SnapshotReader.new oddEvent).map (fun s =>
      (SnapshotReader.calls (fun _ _ _ => (0, 0)) oddCalls s).1)
      = .ok [.ok none, .ok none, .error .invalid, .ok (some (.event (.leave 0 5)))] := by
  decide +kernel

/-- The second is given after the first's error. -/
theorem event_after_invalid :
    ¬ ∀ (walked : ℕ → ℕ → ℕ → ℤ × ℤ) (bytes : List UInt8) (s : SnapshotReader) (cs : List Call),
      SnapshotReader.new bytes = .ok s →
        (SnapshotReader.calls walked cs s).1.Pairwise fun o o' =>
          (∃ e, o = .error e) → SnapshotReader.given o' = none := by
  intro h
  have hread := oddEvent_read
  cases hs : SnapshotReader.new oddEvent with
  | error e =>
    rw [hs] at hread
    cases hread
  | ok s =>
    rw [hs] at hread
    have hpairs := h (fun _ _ _ => (0, 0)) oddEvent s oddCalls hs
    have hgave : (SnapshotReader.calls (fun _ _ _ => (0, 0)) oddCalls s).1 = _ := Except.ok.inj hread
    rw [hgave] at hpairs
    have hlater := (List.pairwise_cons.mp (List.pairwise_cons.mp (List.pairwise_cons.mp hpairs).2).2).1
    have hnone := hlater _ List.mem_cons_self ⟨_, rfl⟩
    cases hnone

/-- What is read of it is within its bytes and in range. -/
theorem oddEvent_total :
    ∃ s, SnapshotReader.new oddEvent = .ok s ∧ s.header.InRange
      ∧ ReadWithin oddEvent (SnapshotReader.calls (fun _ _ _ => (0, 0)) oddCalls s).2.r
      ∧ Record.InRange (.event (.leave 0 5)) := by
  have hread := oddEvent_read
  have htotal := (decoders_total (fun _ _ _ => (0, 0)) oddEvent).2.1
  cases hs : SnapshotReader.new oddEvent with
  | error e =>
    rw [hs] at hread
    cases hread
  | ok s =>
    rw [hs] at hread
    have hgave : (SnapshotReader.calls (fun _ _ _ => (0, 0)) oddCalls s).1 = _ := Except.ok.inj hread
    have hcs : ∀ c ∈ oddCalls, c.InRange := by
      intro c hc
      simp only [oddCalls, List.mem_cons, List.not_mem_nil, or_false] at hc
      rcases hc with rfl | rfl | rfl | rfl <;> trivial
    obtain ⟨hheader, hcalls⟩ := htotal s hs
    obtain ⟨hwithin, hrange, -⟩ := hcalls oddCalls hcs _ _ (Prod.mk.eta (p := SnapshotReader.calls
      (fun _ _ _ => (0, 0)) oddCalls s)).symm
    rw [hgave] at hrange
    exact ⟨s, rfl, hheader, hwithin, hrange _ List.mem_cons_self⟩

end BeforeColony
