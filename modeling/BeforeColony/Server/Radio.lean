import BeforeColony.Lib.Run
import BeforeColony.Lib.Window
import Mathlib.Data.List.Range
import Mathlib.Logic.Function.Basic

/-!
# The colony's radio

One channel for everyone connected: a ring of the latest lines, which each session reads up to what
it has heard on a tick of its own. The sessions and the calls they make go on in any order; a line
is counted and put on the air under one lock, the count alone is read without it.
-/

set_option autoImplicit false

namespace BeforeColony.OnAir

open Lib

def kept : ℕ := 64

def burstLines : ℕ := 5

def burstWindow : ℕ := 10000000000

structure Line where
  /-- Counts every line said, from 1. -/
  seq : ℕ
  from_ : String
  text : String
deriving DecidableEq, Repr

abbrev Mouth := Window burstLines burstWindow

structure Radio where
  lines : List Line := []
  said : ℕ := 0
  /-- The line of whoever has the lock to say one: it is counted, and not yet on the air. -/
  saying : Option Line := none
deriving DecidableEq, Repr

namespace Radio

/-- The first half of `say`: the lock is taken and the line counted. -/
def count (r : Radio) (from_ text : String) : Radio :=
  { r with said := r.said + 1, saying := some ⟨r.said + 1, from_, text⟩ }

/-- The line goes into the ring, in the place of the oldest if it is full. -/
def push (lines : List Line) (line : Line) : List Line :=
  (if lines.length = kept then lines.tail else lines) ++ [line]

/-- The second half of `say`: the line is on the air and the lock is free. -/
def air (r : Radio) : Radio :=
  match r.saying with
  | some line => { r with lines := push r.lines line, saying := none }
  | none => r

def after (r : Radio) (seq : ℕ) : List Line := r.lines.filter fun line => seq < line.seq

end Radio

inductive Doing where
  | listening
  /-- It may say this, and waits for the lock. -/
  | allowed (text : String)
  | counted
  /-- More has been said than it has heard, and it waits for the lock. -/
  | reading
  | telling (lines : List Line)
deriving DecidableEq, Repr

structure Session where
  callsign : String
  mouth : Mouth := {}
  heard : ℕ
  doing : Doing := .listening
  /-- How many lines had been said when it came in. -/
  joined : ℕ
  /-- What it has passed on to its pilot. -/
  told : List Line := []
  spoke : List ℕ := []
deriving DecidableEq, Repr

/-- The radio, those on it, and all that was ever said. -/
structure Channel where
  now : ℕ := 0
  radio : Radio := {}
  sessions : ℕ → Option Session := fun _ => none
  log : List Line := []

inductive Turn where
  | say (text : String)
  | count
  | air
  | look
  | read
  | tell
  | leave

inductive Act where
  | pass (time : ℕ)
  | enter (k : ℕ) (callsign : String)
  | turn (k : ℕ) (t : Turn)

namespace Session

def say (s : Session) (now : ℕ) (text : String) : Session :=
  if (s.mouth.allow now).1 then
    { s with mouth := (s.mouth.allow now).2, doing := .allowed text, spoke := s.spoke ++ [now] }
  else { s with mouth := (s.mouth.allow now).2 }

/-- Passes one of the lines it read on to its pilot. -/
def tell (s : Session) : Session :=
  match s.doing with
  | .telling (line :: rest) =>
    { s with heard := line.seq, told := s.told ++ [line], doing := .telling rest }
  | .telling [] => { s with doing := .listening }
  | .listening | .allowed _ | .counted | .reading => s

end Session

namespace Channel

def set (c : Channel) (k : ℕ) (s : Session) : Channel :=
  { c with sessions := Function.update c.sessions k (some s) }

def turn (c : Channel) (k : ℕ) (s : Session) : Turn → Channel
  | .say text => if s.doing = .listening then c.set k (s.say c.now text) else c
  | .count =>
    match s.doing, c.radio.saying with
    | .allowed text, none =>
      { c.set k { s with doing := .counted } with
        radio := c.radio.count s.callsign text
        log := c.log ++ [⟨c.radio.said + 1, s.callsign, text⟩] }
    | _, _ => c
  | .air =>
    if s.doing = .counted then
      { c.set k { s with doing := .listening } with radio := c.radio.air }
    else c
  | .look =>
    if s.doing = .listening ∧ s.heard < c.radio.said then c.set k { s with doing := .reading } else c
  | .read =>
    if s.doing = .reading ∧ c.radio.saying = none then
      c.set k { s with doing := .telling (c.radio.after s.heard) }
    else c
  | .tell => c.set k s.tell
  | .leave =>
    -- it ends where it waits for the network
    match s.doing with
    | .listening | .telling _ => { c with sessions := Function.update c.sessions k none }
    | .allowed _ | .counted | .reading => c

def step (c : Channel) : Act → Channel
  | .pass time => { c with now := c.now + time }
  | .enter k callsign =>
    match c.sessions k with
    | none => c.set k { callsign := callsign, heard := c.radio.said, joined := c.radio.said }
    | some _ => c
  | .turn k t => (c.sessions k).elim c fun s => c.turn k s t

/-- Session `k` does not read when the ring has gone round since it last heard. -/
def Prompt (k : ℕ) (c : Channel) : Act → Prop
  | .turn j .read => j = k → ∀ s, c.sessions k = some s → s.doing = .reading →
      c.radio.saying = none → c.radio.said ≤ s.heard + kept
  | _ => True

/-! ## The ring -/

structure Aired (r : Radio) (log : List Line) : Prop where
  said : r.said = log.length
  numbered : log.map Line.seq = List.range' 1 log.length
  ring : ∃ aired, log = aired ++ r.saying.toList ∧ r.lines = aired.drop (aired.length - kept)

theorem push_drop (aired : List Line) (line : Line) :
    Radio.push (aired.drop (aired.length - kept)) line
      = (aired ++ [line]).drop ((aired ++ [line]).length - kept) := by
  have hpos : 0 < kept := by decide
  rw [Radio.push, List.length_drop, List.length_append, List.length_singleton]
  rcases Nat.lt_or_ge aired.length kept with hfew | hmany
  · rw [if_neg (by omega), Nat.sub_eq_zero_of_le hfew.le, Nat.sub_eq_zero_of_le hfew, List.drop_zero,
      List.drop_zero]
  · rw [if_pos (by omega), List.tail_drop, List.drop_append_of_le_length (by omega)]
    congr 2
    omega

theorem Aired.count {r : Radio} {log : List Line} (h : Aired r log) (hfree : r.saying = none)
    (from_ text : String) : Aired (r.count from_ text) (log ++ [⟨r.said + 1, from_, text⟩]) := by
  obtain ⟨aired, hlog, hlines⟩ := h.ring
  rw [hfree, Option.toList_none, List.append_nil] at hlog
  constructor
  · rw [List.length_append, Radio.count, h.said]
    rfl
  · rw [List.map_append, h.numbered, List.length_append, List.length_singleton, List.range'_concat,
      h.said]
    simp [Nat.add_comm]
  · exact ⟨aired, by rw [hlog]; rfl, hlines⟩

theorem Aired.air {r : Radio} {log : List Line} (h : Aired r log) : Aired r.air log := by
  unfold Radio.air
  split
  · rename_i line hsaying
    obtain ⟨aired, hlog, hlines⟩ := h.ring
    rw [hsaying, Option.toList_some] at hlog
    refine ⟨h.said, h.numbered, aired ++ [line], ?_, ?_⟩
    · rw [Option.toList_none, List.append_nil]
      exact hlog
    · rw [hlines, push_drop]
  · exact h

theorem filter_numbered {lines : List Line} {first : ℕ}
    (h : lines.map Line.seq = List.range' first lines.length) (seq : ℕ) :
    (lines.filter fun line => seq < line.seq) = lines.drop (seq + 1 - first) := by
  induction lines generalizing first with
  | nil => rw [List.filter_nil, List.drop_nil]
  | cons line rest ih =>
    rw [List.map_cons, List.length_cons, List.range'_succ, List.cons.injEq] at h
    obtain ⟨hfirst, hrest⟩ := h
    have hih := ih hrest
    by_cases hpast : seq < line.seq
    · rw [List.filter_cons_of_pos (by simpa using hpast), hih]
      rw [hfirst] at hpast
      rw [Nat.sub_eq_zero_of_le (by omega), Nat.sub_eq_zero_of_le (by omega), List.drop_zero,
        List.drop_zero]
    · rw [List.filter_cons_of_neg (by simpa using hpast), hih]
      rw [hfirst] at hpast
      obtain ⟨n, hn⟩ : ∃ n, seq + 1 - first = n + 1 := ⟨seq - first, by omega⟩
      rw [hn, List.drop_succ_cons]
      congr 1
      omega

/-- What a session reads: all since it last heard, as far as the ring goes back. -/
theorem Aired.after {r : Radio} {log : List Line} (h : Aired r log) (hfree : r.saying = none)
    (seq : ℕ) : r.after seq = log.drop (max seq (log.length - kept)) := by
  obtain ⟨aired, hlog, hlines⟩ := h.ring
  rw [hfree, Option.toList_none, List.append_nil] at hlog
  subst hlog
  have hnumbered : (log.drop (log.length - kept)).map Line.seq
      = List.range' (1 + (log.length - kept)) (log.drop (log.length - kept)).length := by
    rw [List.map_drop, h.numbered, List.drop_range', List.length_drop, Nat.mul_one]
  rw [Radio.after, hlines, filter_numbered hnumbered, List.drop_drop]
  congr 1
  omega

end Channel

/-! ## What a pilot is told -/

namespace Session

def pending (s : Session) : List Line :=
  match s.doing with
  | .telling lines => lines
  | .listening | .allowed _ | .counted | .reading => []

/-- What a session has told its pilot, and is about to, of the log; all of it, if it missed none. -/
structure Follows (whole : Prop) (log : List Line) (s : Session) : Prop where
  joined : s.joined ≤ s.heard
  heard : s.heard ≤ log.length
  told : s.told.Sublist ((log.drop s.joined).take (s.heard - s.joined))
  all : whole → s.told.length = s.heard - s.joined
  pending : ∃ a m, s.pending = (log.drop a).take m ∧ s.heard ≤ a ∧ a + m ≤ log.length
    ∧ (whole → a = s.heard)

variable {whole : Prop} {log : List Line} {s : Session}

theorem take_drop_append {a m : ℕ} (h : a + m ≤ log.length) (more : List Line) :
    ((log ++ more).drop a).take m = (log.drop a).take m := by
  rw [List.drop_append_of_le_length (by omega), List.take_append_of_le_length]
  rw [List.length_drop]
  omega

theorem Follows.append (h : Follows whole log s) (more : List Line) :
    Follows whole (log ++ more) s := by
  have hjoined := h.joined
  have hheard := h.heard
  obtain ⟨a, m, hpending, hle, hlen, ha⟩ := h.pending
  refine ⟨h.joined, ?_, ?_, h.all, a, m, ?_, hle, ?_, ha⟩
  · rw [List.length_append]
    omega
  · rw [take_drop_append (by omega)]
    exact h.told
  · rw [take_drop_append hlen]
    exact hpending
  · rw [List.length_append]
    omega

theorem Follows.quiet (h : Follows whole log s) {s' : Session} (hjoined : s'.joined = s.joined)
    (hheard : s'.heard = s.heard) (htold : s'.told = s.told) (hnone : s'.pending = []) :
    Follows whole log s' := by
  refine ⟨?_, ?_, ?_, ?_, s.heard, 0, ?_, ?_, ?_, ?_⟩
  · rw [hjoined, hheard]
    exact h.joined
  · rw [hheard]
    exact h.heard
  · rw [hjoined, hheard, htold]
    exact h.told
  · rw [hjoined, hheard, htold]
    exact h.all
  · rw [hnone, List.take_zero]
  · rw [hheard]
  · exact h.heard
  · exact fun _ => hheard.symm

/-- It passes the next line on, the one after all it was told if it missed none. -/
theorem Follows.tell (h : Follows whole log s)
    (hnumbered : log.map Line.seq = List.range' 1 log.length) : Follows whole log s.tell := by
  unfold Session.tell
  split
  · rename_i line rest hdoing
    have hjoined := h.joined
    obtain ⟨a, m, hpending, hle, hlen, ha⟩ := h.pending
    rw [Session.pending, hdoing] at hpending
    obtain ⟨n, rfl⟩ : ∃ n, m = n + 1 := by
      cases m with
      | zero => exact nomatch hpending
      | succ n => exact ⟨n, rfl⟩
    have hlt : a < log.length := by omega
    rw [List.drop_eq_getElem_cons hlt, List.take_succ_cons, List.cons.injEq] at hpending
    obtain ⟨hline, hrest⟩ := hpending
    have hseq : line.seq = a + 1 := by
      have hmap : (log.map Line.seq)[a]? = (List.range' 1 log.length)[a]? := by rw [hnumbered]
      rw [List.getElem?_map, List.getElem?_eq_getElem hlt, List.getElem?_range' hlt, ← hline] at hmap
      have hsome := Option.some.inj hmap
      omega
    refine ⟨?_, ?_, ?_, ?_, a + 1, n, hrest, ?_, ?_, ?_⟩
    · change s.joined ≤ line.seq
      omega
    · change line.seq ≤ log.length
      omega
    · change (s.told ++ [line]).Sublist ((log.drop s.joined).take (line.seq - s.joined))
      have hsucc : line.seq - s.joined = (a - s.joined) + 1 := by omega
      have hlt' : a - s.joined < (log.drop s.joined).length := by
        rw [List.length_drop]
        omega
      rw [hsucc, List.take_succ_eq_append_getElem hlt', List.getElem_drop]
      simp only [Nat.add_sub_cancel' (hjoined.trans hle), ← hline]
      apply List.Sublist.append_right
      exact h.told.trans ((List.take_prefix_take_left (by omega)).sublist)
    · intro hwhole
      change (s.told ++ [line]).length = line.seq - s.joined
      have hall := h.all hwhole
      have heq := ha hwhole
      rw [List.length_append, List.length_singleton]
      omega
    · change line.seq ≤ a + 1
      omega
    · omega
    · intro _
      exact hseq.symm
  · exact h.quiet rfl rfl rfl rfl
  all_goals exact h

/-- It reads what was said since, all of it if the ring has not gone round. -/
theorem Follows.read (h : Follows whole log s) (hprompt : whole → log.length ≤ s.heard + kept) :
    Follows whole log
      { s with doing := .telling (log.drop (max s.heard (log.length - kept))) } := by
  have hheard := h.heard
  refine ⟨h.joined, h.heard, h.told, h.all, max s.heard (log.length - kept),
    log.length - max s.heard (log.length - kept), ?_, ?_, ?_, fun hwhole => ?_⟩
  · change log.drop _ = _
    rw [List.take_of_length_le]
    rw [List.length_drop]
  · exact le_max_left _ _
  · omega
  · have hle := hprompt hwhole
    change max s.heard (log.length - kept) = s.heard
    omega

end Session

namespace Channel

/-- The ring, and every session on the channel, are as they should be. -/
structure Kept (whole : ℕ → Prop) (c : Channel) : Prop where
  aired : Aired c.radio c.log
  sessions : ∀ k s, c.sessions k = some s →
    s.Follows (whole k) c.log ∧ s.mouth.Tracks s.spoke c.now

variable {whole : ℕ → Prop} {c : Channel}

theorem Kept.set (h : Kept whole c) {k : ℕ} {s : Session}
    (hs : s.Follows (whole k) c.log ∧ s.mouth.Tracks s.spoke c.now) : Kept whole (c.set k s) := by
  refine ⟨h.aired, fun j t hj => ?_⟩
  change Function.update c.sessions k (some s) j = some t at hj
  by_cases hjk : j = k
  · subst hjk
    rw [Function.update_self, Option.some.injEq] at hj
    exact hj ▸ hs
  · rw [Function.update_of_ne hjk] at hj
    exact h.sessions j t hj

theorem Kept.remove (h : Kept whole c) (k : ℕ) :
    Kept whole { c with sessions := Function.update c.sessions k none } := by
  refine ⟨h.aired, fun j t hj => ?_⟩
  change Function.update c.sessions k none j = some t at hj
  by_cases hjk : j = k
  · subst hjk
    rw [Function.update_self] at hj
    exact nomatch hj
  · rw [Function.update_of_ne hjk] at hj
    exact h.sessions j t hj

theorem Kept.radio (h : Kept whole c) {r : Radio} {log more : List Line} (hlog : log = c.log ++ more)
    (hr : Aired r log) : Kept whole { c with radio := r, log := log } where
  aired := hr
  sessions j t hj := by
    obtain ⟨hfollows, htracks⟩ := h.sessions j t hj
    exact ⟨hlog ▸ hfollows.append more, htracks⟩

theorem Kept.turn (h : Kept whole c) {k : ℕ} {s : Session} (hs : c.sessions k = some s) (t : Turn)
    (hprompt : whole k → Prompt k c (.turn k t)) : Kept whole (c.turn k s t) := by
  obtain ⟨hfollows, htracks⟩ := h.sessions k s hs
  have hwidth : 0 < burstWindow := by decide
  cases t with
  | say text =>
    rw [Channel.turn]
    split
    · rename_i hlistening
      apply h.set
      unfold Session.say
      split
      · rename_i hyes
        exact ⟨hfollows.quiet rfl rfl rfl rfl, htracks.allowed hwidth hyes⟩
      · rename_i hno
        constructor
        · refine hfollows.quiet rfl rfl rfl ?_
          rw [Session.pending, hlistening]
        · exact htracks.refused hwidth (Bool.eq_false_iff.mpr hno)
    · exact h
  | count =>
    rw [Channel.turn]
    split
    · rename_i text hdoing hfree
      have hset : Kept whole (c.set k { s with doing := .counted }) :=
        h.set ⟨hfollows.quiet rfl rfl rfl rfl, htracks⟩
      exact hset.radio rfl (h.aired.count hfree s.callsign text)
    · exact h
  | air =>
    rw [Channel.turn]
    split
    · have hset : Kept whole (c.set k { s with doing := .listening }) :=
        h.set ⟨hfollows.quiet rfl rfl rfl rfl, htracks⟩
      exact hset.radio (List.append_nil _).symm h.aired.air
    · exact h
  | look =>
    rw [Channel.turn]
    split
    · exact h.set ⟨hfollows.quiet rfl rfl rfl rfl, htracks⟩
    · exact h
  | read =>
    rw [Channel.turn]
    split
    · rename_i hcond
      apply h.set
      rw [h.aired.after hcond.2]
      refine ⟨hfollows.read fun hwhole => ?_, htracks⟩
      rw [← h.aired.said]
      exact hprompt hwhole rfl s hs hcond.1 hcond.2
    · exact h
  | tell =>
    rw [Channel.turn]
    apply h.set
    refine ⟨hfollows.tell h.aired.numbered, ?_⟩
    unfold Session.tell
    split
    all_goals exact htracks
  | leave =>
    rw [Channel.turn]
    split
    · exact h.remove k
    · exact h.remove k
    all_goals exact h

theorem Kept.step (h : Kept whole c) (act : Act) (hprompt : ∀ k, whole k → Prompt k c act) :
    Kept whole (c.step act) := by
  cases act with
  | pass time =>
    refine ⟨h.aired, fun k s hs => ?_⟩
    obtain ⟨hfollows, htracks⟩ := h.sessions k s hs
    exact ⟨hfollows, htracks.later (Nat.le_add_right _ _)⟩
  | enter k callsign =>
    rw [Channel.step]
    split
    · apply h.set
      refine ⟨⟨le_refl _, h.aired.said.le, List.nil_sublist _, fun _ => ?_, c.radio.said, 0, ?_⟩,
        Window.tracks_nil _⟩
      · exact (Nat.sub_self _).symm
      · exact ⟨rfl, le_refl _, h.aired.said.le, fun _ => rfl⟩
    · exact h
  | turn k t =>
    rw [Channel.step]
    cases hs : c.sessions k with
    | none => exact h
    | some s => exact h.turn hs t (hprompt k)

theorem kept_run {acts : List Act} (hprompt : ∀ k, whole k → Run.Along step (Prompt k) c acts)
    (h : Kept whole c) : Kept whole (acts.foldl step c) := by
  induction acts generalizing c with
  | nil => exact h
  | cons act rest ih =>
    apply ih
    · exact fun k hwhole => (hprompt k hwhole).2
    · exact h.step act fun k hwhole => (hprompt k hwhole).1

theorem kept_start (whole : ℕ → Prop) : Kept whole {} where
  aired := ⟨rfl, rfl, [], rfl, rfl⟩
  sessions := fun _ _ hs => nomatch hs

/-- Whatever is said, read and passed on in whatever order: the log numbers what was said, each
session tells its pilot lines said since it came in, in the order they were said and none twice, and
every one of them up to the last if it never reads when the ring has gone round. Between any line it
may say and the fifth after it lies a window. -/
theorem radio_tells (acts : List Act) :
    (acts.foldl step {}).log.map Line.seq = List.range' 1 (acts.foldl step {}).log.length
      ∧ ∀ k s, (acts.foldl step {}).sessions k = some s →
        s.told.Sublist (((acts.foldl step {}).log.drop s.joined).take (s.heard - s.joined))
          ∧ (Run.Along step (Prompt k) {} acts →
            s.told = ((acts.foldl step {}).log.drop s.joined).take (s.heard - s.joined))
          ∧ ∀ i t u, s.spoke[i]? = some t → s.spoke[i + burstLines]? = some u →
            t + burstWindow ≤ u := by
  have hkept : Kept (fun k => Run.Along step (Prompt k) {} acts) (acts.foldl step {}) :=
    kept_run (fun _ hwhole => hwhole) (kept_start _)
  refine ⟨hkept.aired.numbered, fun k s hs => ?_⟩
  obtain ⟨hfollows, htracks⟩ := hkept.sessions k s hs
  refine ⟨hfollows.told, fun hprompt => ?_, htracks.spread⟩
  apply hfollows.told.eq_of_length_le
  rw [hfollows.all hprompt]
  exact List.length_take_le _ _

end Channel

end BeforeColony.OnAir
