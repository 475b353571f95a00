import BeforeColony.Lib.Ranked
import BeforeColony.Lib.Run
import Mathlib.Data.List.MinMax
import Mathlib.Tactic.Common

/-!
# The Proving Ground's board

`record` puts a time on the day's list, each pilot once with their best, the fastest first, and
keeps ten of them; the best ever is kept beside. Over a run of times the day's list is the ten
fastest of everyone's best, because who has fallen off it can only come back by beating what they
fell off with. Only whether a time is the pilot's best is answered from the list alone.
-/

set_option autoImplicit false

namespace BeforeColony
namespace Proving

open Lib.Ranked

/-- How many of the day's best each list keeps. -/
def kept : ℕ := 10

/-- A day on the board, s. -/
def day : ℕ := 86400

inductive Feat where
  | course
  | drill
deriving DecidableEq, Repr

structure Entry where
  who : String
  name : String
  ms : ℕ
  unix : ℕ
deriving DecidableEq, Repr

structure Board where
  day : ℕ
  course : List Entry
  drill : List Entry
  courseRecord : Option Entry
  drillRecord : Option Entry
deriving DecidableEq, Repr

structure Placed where
  rank : Option ℕ
  improved : Bool
  record : Bool
deriving DecidableEq, Repr

namespace Board

def default : Board := ⟨0, [], [], none, none⟩

def list (b : Board) : Feat → List Entry
  | .course => b.course
  | .drill => b.drill

def setList (b : Board) (l : List Entry) : Feat → Board
  | .course => { b with course := l }
  | .drill => { b with drill := l }

def bestEver (b : Board) : Feat → Option Entry
  | .course => b.courseRecord
  | .drill => b.drillRecord

def setBestEver (b : Board) (e : Option Entry) : Feat → Board
  | .course => { b with courseRecord := e }
  | .drill => { b with drillRecord := e }

/-- The board with the day turned over, and whether it was. -/
def turn (b : Board) (now : ℕ) : Board × Bool :=
  if now / Proving.day = b.day then (b, false)
  else ({ b with day := now / Proving.day, course := [], drill := [] }, true)

def improves (list : List Entry) (who : String) (ms : ℕ) : Bool :=
  (list.find? (·.who == who)).all (ms < ·.ms)

/-- A list with a time put after all that are as fast, as many as are kept. -/
def insert (list : List Entry) (entry : Entry) : List Entry :=
  (list.insertIdx (list.takeWhile (·.ms ≤ entry.ms)).length entry).take kept

/-- A list with a pilot's better time in place of what they have on it. -/
def enter (list : List Entry) (entry : Entry) : List Entry :=
  insert (list.eraseP (·.who == entry.who)) entry

def record (b : Board) (feat : Feat) (who name : String) (ms now : ℕ) : Board × Placed :=
  let b := (b.turn now).1
  let entry : Entry := ⟨who, name, ms, now⟩
  let improved := improves (b.list feat) who ms
  let list := if improved then enter (b.list feat) entry else b.list feat
  let rank := (list.findIdx? (·.who == who)).map (· + 1)
  let record := (b.bestEver feat).all (ms < ·.ms)
  let b := b.setList list feat
  (if record then b.setBestEver (some entry) feat else b, ⟨rank, improved, record⟩)

def dayList (b : Board) (feat : Feat) (now : ℕ) : List Entry :=
  if now / Proving.day = b.day then b.list feat else []

variable (b : Board) (l : List Entry) (e : Option Entry) (feat other : Feat) (now : ℕ)

@[simp] theorem list_setList : (b.setList l feat).list other =
    if other = feat then l else b.list other := by
  cases feat <;> cases other <;> rfl

@[simp] theorem bestEver_setList : (b.setList l feat).bestEver other = b.bestEver other := by
  cases feat <;> cases other <;> rfl

@[simp] theorem day_setList : (b.setList l feat).day = b.day := by cases feat <;> rfl

@[simp] theorem list_setBestEver : (b.setBestEver e feat).list other = b.list other := by
  cases feat <;> cases other <;> rfl

@[simp] theorem bestEver_setBestEver : (b.setBestEver e feat).bestEver other =
    if other = feat then e else b.bestEver other := by
  cases feat <;> cases other <;> rfl

@[simp] theorem day_setBestEver : (b.setBestEver e feat).day = b.day := by cases feat <;> rfl

@[simp] theorem day_turn : (b.turn now).1.day = now / Proving.day := by
  unfold turn
  split
  next h => exact h.symm
  next => rfl

@[simp] theorem bestEver_turn : (b.turn now).1.bestEver other = b.bestEver other := by
  unfold turn
  split
  · rfl
  · cases other <;> rfl

@[simp] theorem list_turn : (b.turn now).1.list other = b.dayList other now := by
  unfold turn dayList
  split
  · rfl
  · cases other <;> rfl

/-- Put after all that are as fast, a time on a list by time is where it ranks. -/
theorem insert_eq {l : List Entry} (entry : Entry) : insert l entry = (place Entry.ms entry l).take kept := by
  unfold insert
  congr 1
  induction l with
  | nil => rfl
  | cons e rest ih =>
    rcases le_or_gt e.ms entry.ms with hle | hgt
    · rw [place_cons_of_le hle, List.takeWhile_cons_of_pos (by simpa using hle), List.length_cons,
        List.insertIdx_succ_cons, ih]
    · rw [place_cons_of_lt hgt, List.takeWhile_cons_of_neg (by simpa using hgt)]
      rfl

end Board

/-! ## What was flown -/

structure Run where
  feat : Feat
  entry : Entry
deriving DecidableEq, Repr

/-- The board once a run's time is given to it, and where it went. -/
def Board.take (b : Board) (r : Run) : Board × Placed :=
  b.record r.feat r.entry.who r.entry.name r.entry.ms r.entry.unix

def Board.after (runs : List Run) : Board := runs.foldl (fun b r => (b.take r).1) Board.default

def flown (runs : List Run) (feat : Feat) : List Entry :=
  (runs.filter fun r => r.feat == feat).map Run.entry

def flownOn (runs : List Run) (feat : Feat) (on : ℕ) : List Entry :=
  (flown runs feat).filter fun e => e.unix / day == on

/-- A time is better than every one its pilot flew. -/
def Better (entries : List Entry) (e : Entry) : Prop := ∀ f ∈ entries, f.who = e.who → e.ms < f.ms

/-- A time is its pilot's best: faster than all of theirs before it, and none of theirs after it
faster. -/
def Best (before later : List Entry) (e : Entry) : Prop :=
  Better before e ∧ ∀ f ∈ later, f.who = e.who → e.ms ≤ f.ms

instance (entries : List Entry) (e : Entry) : Decidable (Better entries e) :=
  inferInstanceAs (Decidable (∀ f ∈ entries, f.who = e.who → e.ms < f.ms))

instance (before later : List Entry) (e : Entry) : Decidable (Best before later e) :=
  inferInstanceAs (Decidable (_ ∧ ∀ f ∈ later, f.who = e.who → e.ms ≤ f.ms))

/-- The times of a list that are their pilot's best, where `before` was flown before them. -/
def bestsFrom (before : List Entry) : List Entry → List Entry
  | [] => []
  | e :: later =>
    if Best before later e then e :: bestsFrom (before ++ [e]) later
    else bestsFrom (before ++ [e]) later

/-- Each pilot's best time, the first of them if it was flown more than once. -/
def bests (entries : List Entry) : List Entry := bestsFrom [] entries

/-- Everyone's best by time, ties as they were flown. -/
def ranking (entries : List Entry) : List Entry := ranked Entry.ms (bests entries)

theorem mem_bestsFrom {before entries : List Entry} {e : Entry} (h : e ∈ bestsFrom before entries) :
    e ∈ entries ∧ Better before e ∧ ∀ f ∈ entries, f.who = e.who → e.ms ≤ f.ms := by
  induction entries generalizing before with
  | nil => cases h
  | cons d later ih =>
    have hlater (hmem : e ∈ bestsFrom (before ++ [d]) later) :
        e ∈ d :: later ∧ Better before e ∧ ∀ f ∈ d :: later, f.who = e.who → e.ms ≤ f.ms := by
      obtain ⟨hin, hbefore, hall⟩ := ih hmem
      refine ⟨List.mem_cons_of_mem _ hin, fun f hf => hbefore f (List.mem_append_left _ hf), ?_⟩
      intro f hf hwho
      rcases List.mem_cons.mp hf with rfl | hf
      · exact (hbefore f (by simp) hwho).le
      · exact hall f hf hwho
    unfold bestsFrom at h
    split at h
    next hbest =>
      rcases List.mem_cons.mp h with rfl | hmem
      · refine ⟨List.mem_cons_self, hbest.1, ?_⟩
        intro f hf hwho
        rcases List.mem_cons.mp hf with rfl | hf
        · exact le_rfl
        · exact hbest.2 f hf hwho
      · exact hlater hmem
    next => exact hlater h

theorem best_concat {before later : List Entry} {d e : Entry} :
    Best before (later ++ [e]) d ↔ Best before later d ∧ (e.who = d.who → d.ms ≤ e.ms) := by
  simp [Best, or_imp, forall_and, and_assoc]

/-- One more time flown: it is in place of its pilot's best if it beats all of theirs, and nothing
has changed if it doesn't. -/
theorem bestsFrom_concat (before entries : List Entry) (e : Entry) :
    bestsFrom before (entries ++ [e]) =
      if Better (before ++ entries) e then
        (bestsFrom before entries).filter (fun f => f.who != e.who) ++ [e]
      else bestsFrom before entries := by
  induction entries generalizing before with
  | nil =>
    have hbest : Best before [] e ↔ Better before e := by simp [Best]
    rw [List.nil_append, List.append_nil]
    unfold bestsFrom
    simp only [hbest]
    rfl
  | cons d later ih =>
    have hsame : before ++ [d] ++ later = before ++ d :: later := by simp
    rw [List.cons_append, bestsFrom, bestsFrom, ih, hsame]
    simp only [best_concat]
    by_cases hbetter : Better (before ++ d :: later) e
    · rw [if_pos hbetter, if_pos hbetter]
      by_cases hwho : e.who = d.who
      · -- the pilot's own: beaten, so it's no longer their best
        have hlost : ¬d.ms ≤ e.ms := not_le.mpr (hbetter d (by simp) hwho.symm)
        rw [if_neg fun h => hlost (h.2 hwho)]
        split
        · rw [List.filter_cons_of_neg (by simpa using hwho.symm)]
        · rfl
      · simp only [hwho, false_imp_iff, and_true]
        split
        · rw [List.filter_cons_of_pos (by simpa using Ne.symm hwho), List.cons_append]
        · rfl
    · rw [if_neg hbetter, if_neg hbetter]
      have hkept (hd : Best before later d) (hwho : e.who = d.who) : d.ms ≤ e.ms := by
        by_contra hlt
        refine hbetter fun f hf hfe => ?_
        have hdf : d.ms ≤ f.ms := by
          rcases List.mem_append.mp hf with hf | hf
          · exact (hd.1 f hf (hfe.trans hwho)).le
          · rcases List.mem_cons.mp hf with rfl | hf
            · exact le_rfl
            · exact hd.2 f hf (hfe.trans hwho)
        omega
      have hsimp : Best before later d ∧ (e.who = d.who → d.ms ≤ e.ms) ↔ Best before later d :=
        and_iff_left_of_imp hkept
      simp only [hsimp]

theorem bests_concat (entries : List Entry) (e : Entry) :
    bests (entries ++ [e]) =
      if Better entries e then (bests entries).filter (fun f => f.who != e.who) ++ [e]
      else bests entries :=
  bestsFrom_concat [] entries e

/-- A pilot who flew has a best time, as fast as any of theirs. -/
theorem exists_best {entries : List Entry} {f : Entry} (hf : f ∈ entries) :
    ∃ e ∈ bests entries, e.who = f.who ∧ e.ms ≤ f.ms := by
  induction entries using List.reverseRecOn generalizing f with
  | nil => cases hf
  | append_singleton before last ih =>
    rw [bests_concat]
    by_cases hbetter : Better before last
    · rw [if_pos hbetter]
      by_cases hwho : f.who = last.who
      · refine ⟨last, by simp, hwho.symm, ?_⟩
        rcases List.mem_append.mp hf with hf | hf
        · exact (hbetter f hf hwho).le
        · exact (List.mem_singleton.mp hf) ▸ le_rfl
      · have hmem : f ∈ before := by
          rcases List.mem_append.mp hf with hf | hf
          · exact hf
          · exact absurd (congrArg Entry.who (List.mem_singleton.mp hf)) hwho
        obtain ⟨e, he, hef, hms⟩ := ih hmem
        exact ⟨e, by simp [he, hef, hwho], hef, hms⟩
    · rw [if_neg hbetter]
      rcases List.mem_append.mp hf with hf | hf
      · exact ih hf
      · obtain rfl := List.mem_singleton.mp hf
        obtain ⟨d, hd, hwho, hms⟩ : ∃ d ∈ before, d.who = f.who ∧ d.ms ≤ f.ms := by
          simpa [Better] using hbetter
        obtain ⟨e, he, hed, hle⟩ := ih hd
        exact ⟨e, he, hed.trans hwho, hle.trans hms⟩

theorem pairwise_bests (entries : List Entry) :
    (bests entries).Pairwise fun d e => d.who ≠ e.who := by
  induction entries using List.reverseRecOn with
  | nil => exact List.Pairwise.nil
  | append_singleton before last ih =>
    rw [bests_concat]
    split
    · refine List.pairwise_append.mpr ⟨ih.filter _, List.pairwise_singleton _ _, ?_⟩
      intro d hd e he
      rw [List.mem_singleton.mp he]
      simpa using List.of_mem_filter hd
    · exact ih

theorem mem_ranking {entries : List Entry} {e : Entry} : e ∈ ranking entries ↔ e ∈ bests entries :=
  mem_ranked

theorem sorted_ranking (entries : List Entry) :
    (ranking entries).Pairwise fun d e => d.ms ≤ e.ms := sorted_ranked _

theorem pairwise_ranking (entries : List Entry) :
    (ranking entries).Pairwise fun d e => d.who ≠ e.who :=
  (List.perm_insertionSort _ _).symm.pairwise (pairwise_bests entries) fun h => Ne.symm h

theorem ranking_concat (entries : List Entry) (e : Entry) :
    ranking (entries ++ [e]) =
      if Better entries e then place Entry.ms e ((ranking entries).filter fun f => f.who != e.who)
      else ranking entries := by
  rw [ranking, bests_concat]
  split
  · rw [ranked_concat, ← filter_ranked]
    rfl
  · rfl

/-! ## One time put on the list -/

/-- Who is on the list has their best of the day on it, so what's better than that is better than
all they flew. -/
theorem better_iff {entries : List Entry} {d e : Entry} (hd : d ∈ bests entries)
    (hwho : d.who = e.who) : Better entries e ↔ e.ms < d.ms := by
  obtain ⟨hmem, -, hall⟩ := mem_bestsFrom hd
  constructor
  · intro h
    exact h d hmem hwho
  · intro hlt f hf hfe
    exact hlt.trans_le (hall f hf (hfe.trans hwho.symm))

/-- Without what is put in its place, the list before and after a pilot's time. -/
theorem eraseP_split {before after : List Entry} {d : Entry}
    (h : (before ++ d :: after).Pairwise fun d e => d.who ≠ e.who) :
    (before ++ d :: after).eraseP (fun f => f.who == d.who) = before ++ after
      ∧ (before ++ d :: after).filter (fun f => f.who != d.who) = before ++ after := by
  obtain ⟨-, hd, hcross⟩ := List.pairwise_append.mp h
  have hbefore : ∀ f ∈ before, f.who ≠ d.who := fun f hf => hcross f hf d List.mem_cons_self
  have hafter : ∀ f ∈ after, f.who ≠ d.who := fun f hf => ((List.pairwise_cons.mp hd).1 f hf).symm
  constructor
  · rw [List.eraseP_append_right _ (by simpa using hbefore), List.eraseP_cons_of_pos (by simp)]
  · rw [List.filter_append, List.filter_cons_of_neg (by simp),
      List.filter_eq_self.mpr (by simpa using hbefore),
      List.filter_eq_self.mpr (by simpa using hafter)]

theorem take_filter {k : ℕ} {l : List Entry} {p : Entry → Bool} (h : ∀ e ∈ l.take k, p e) :
    (l.filter p).take k = l.take k := by
  conv_lhs => rw [← List.take_append_drop k l, List.filter_append, List.filter_eq_self.mpr h]
  rcases le_or_gt k l.length with hk | hk
  · rw [List.take_left' (by rw [List.length_take, Nat.min_eq_left hk])]
  · rw [List.drop_eq_nil_of_le hk.le, List.filter_nil, List.append_nil, List.take_take, Nat.min_self]

theorem split_take {k : ℕ} {l : List Entry} {d : Entry} (h : d ∈ l.take k) :
    ∃ before after, l = before ++ d :: after
      ∧ l.take k = before ++ d :: after.take (k - (before.length + 1)) := by
  obtain ⟨before, rest, hsplit⟩ := List.append_of_mem h
  have hlen : before.length + 1 ≤ k := by
    have hle := List.length_take_le k l
    rw [hsplit, List.length_append, List.length_cons] at hle
    omega
  refine ⟨before, rest ++ l.drop k, ?_, ?_⟩
  · rw [← List.cons_append, ← List.append_assoc, ← hsplit, List.take_append_drop]
  · have hl : l = before ++ d :: (rest ++ l.drop k) := by
      rw [← List.cons_append, ← List.append_assoc, ← hsplit, List.take_append_drop]
    conv_lhs => rw [hl]
    obtain ⟨n, hn⟩ : ∃ n, k - before.length = n + 1 := ⟨k - before.length - 1, by omega⟩
    have hn' : k - (before.length + 1) = n := by omega
    rw [List.take_append, List.take_of_length_le (by omega), hn, hn', List.take_succ_cons]

/-- The list with one more time on it is what is kept of the ranking with one more time in it. -/
theorem enter_eq (entries : List Entry) (e : Entry) :
    (if Board.improves ((ranking entries).take kept) e.who e.ms then
        Board.enter ((ranking entries).take kept) e
      else (ranking entries).take kept) = (ranking (entries ++ [e])).take kept := by
  rw [ranking_concat]
  cases hfind : ((ranking entries).take kept).find? (·.who == e.who) with
  | some d =>
    have hwho : d.who = e.who := by simpa using List.find?_some hfind
    have hmem := List.mem_of_find?_eq_some hfind
    have hbest := mem_ranking.mp (List.mem_of_mem_take hmem)
    have himproves : Board.improves ((ranking entries).take kept) e.who e.ms
        = decide (e.ms < d.ms) := by rw [Board.improves, hfind]; rfl
    simp only [himproves, decide_eq_true_eq, better_iff hbest hwho]
    split
    next hlt =>
      obtain ⟨before, after, hrank, htake⟩ := split_take hmem
      have hpair := pairwise_ranking entries
      have hsorted := sorted_ranking entries
      have hdafter : ∀ f ∈ after, e.ms < f.ms := by
        rw [hrank] at hsorted
        intro f hf
        exact hlt.trans_le ((List.pairwise_cons.mp (List.pairwise_append.mp hsorted).2.1).1 f hf)
      have herase := (eraseP_split (htake ▸ hpair.sublist (List.take_sublist _ _))).1
      have hfilter := (eraseP_split (hrank ▸ hpair)).2
      rw [hwho] at herase hfilter
      rw [Board.enter, Board.insert_eq, htake, herase, take_place_append kept hdafter, hrank, hfilter]
    next => rfl
  | none =>
    have himproves : Board.improves ((ranking entries).take kept) e.who e.ms = true := by
      rw [Board.improves, hfind]; rfl
    have hnone : ∀ f ∈ (ranking entries).take kept, f.who ≠ e.who := by
      simpa using List.find?_eq_none.mp hfind
    rw [if_pos himproves, Board.enter, List.eraseP_of_forall_not (by simpa using hnone),
      Board.insert_eq]
    split
    next hbetter =>
      have hkept : ((ranking entries).filter fun f => f.who != e.who).take kept
          = (ranking entries).take kept := take_filter (by simpa using hnone)
      rw [← hkept, take_place]
    next hbetter =>
      obtain ⟨f, hf, hfwho, hfms⟩ : ∃ f ∈ entries, f.who = e.who ∧ f.ms ≤ e.ms := by
        simpa [Better] using hbetter
      obtain ⟨d, hd, hdf, hdms⟩ := exists_best hf
      -- their best fell off the list, so all on it are as fast, and there are as many as are kept
      have hdrop : d ∈ (ranking entries).drop kept := by
        have hmem := mem_ranking.mpr hd
        rw [← List.take_append_drop kept (ranking entries)] at hmem
        rcases List.mem_append.mp hmem with hon | hoff
        · exact absurd (hdf.trans hfwho) (hnone d hon)
        · exact hoff
      have hsorted := sorted_ranking entries
      rw [← List.take_append_drop kept (ranking entries)] at hsorted
      have hfast : ∀ c ∈ (ranking entries).take kept, c.ms ≤ e.ms := fun c hc =>
        ((List.pairwise_append.mp hsorted).2.2 c hc d hdrop).trans (hdms.trans hfms)
      have hfull : kept ≤ (ranking entries).length := by
        by_contra hlt
        rw [List.drop_eq_nil_of_le (not_le.mp hlt).le] at hdrop
        cases hdrop
      rw [place_last hfast, List.take_left' (by rw [List.length_take, Nat.min_eq_left hfull])]

/-- A pilot's best fell off the list, and the time is no better than it. -/
def FellOff (entries : List Entry) (e : Entry) : Prop :=
  ∃ d ∈ (ranking entries).drop kept, d.who = e.who ∧ d.ms ≤ e.ms

instance (entries : List Entry) (e : Entry) : Decidable (FellOff entries e) :=
  inferInstanceAs (Decidable (∃ d ∈ (ranking entries).drop kept, d.who = e.who ∧ d.ms ≤ e.ms))

/-- The list tells whether a time is the pilot's best, unless what it would have to beat fell off
it. -/
theorem improves_iff (entries : List Entry) (e : Entry) :
    (Board.improves ((ranking entries).take kept) e.who e.ms ↔ Better entries e)
      ↔ ¬FellOff entries e := by
  cases hfind : ((ranking entries).take kept).find? (·.who == e.who) with
  | some d =>
    have hwho : d.who = e.who := by simpa using List.find?_some hfind
    have hmem := List.mem_of_find?_eq_some hfind
    have hbest := mem_ranking.mp (List.mem_of_mem_take hmem)
    have hon : ¬FellOff entries e := by
      rintro ⟨c, hc, hcwho, -⟩
      have hpair := pairwise_ranking entries
      rw [← List.take_append_drop kept (ranking entries)] at hpair
      exact (List.pairwise_append.mp hpair).2.2 d hmem c hc (hwho.trans hcwho.symm)
    rw [better_iff hbest hwho, Board.improves, hfind]
    simp [hon]
  | none =>
    have hnone : ∀ f ∈ (ranking entries).take kept, f.who ≠ e.who := by
      simpa using List.find?_eq_none.mp hfind
    have himproves : Board.improves ((ranking entries).take kept) e.who e.ms = true := by
      rw [Board.improves, hfind]; rfl
    rw [himproves, eq_self_iff_true, true_iff]
    constructor
    · rintro hbetter ⟨d, hd, hwho, hms⟩
      have hmem := (mem_bestsFrom (mem_ranking.mp (List.mem_of_mem_drop hd))).1
      exact absurd (hbetter d hmem hwho) (not_lt.mpr hms)
    · intro hon f hf hfwho
      obtain ⟨d, hd, hdf, hdms⟩ := exists_best hf
      by_contra hlt
      have hmem := mem_ranking.mpr hd
      rw [← List.take_append_drop kept (ranking entries)] at hmem
      rcases List.mem_append.mp hmem with hin | hout
      · exact hnone d hin (hdf.trans hfwho)
      · exact hon ⟨d, hout, hdf.trans hfwho, hdms.trans (not_lt.mp hlt)⟩

/-! ## A run of times -/

theorem flown_concat (runs : List Run) (r : Run) (feat : Feat) :
    flown (runs ++ [r]) feat = flown runs feat ++ if feat = r.feat then [r.entry] else [] := by
  rw [flown, List.filter_append, List.map_append, ← flown]
  rcases eq_or_ne feat r.feat with rfl | hne
  · simp
  · simp [hne, Ne.symm hne]

theorem flownOn_concat (runs : List Run) (r : Run) (feat : Feat) :
    flownOn (runs ++ [r]) feat (r.entry.unix / day)
      = flownOn runs feat (r.entry.unix / day) ++ if feat = r.feat then [r.entry] else [] := by
  rw [flownOn, flown_concat, List.filter_append, ← flownOn]
  split <;> simp

structure Keeps (runs : List Run) (b : Board) : Prop where
  list : ∀ feat, b.list feat = (ranking (flownOn runs feat b.day)).take kept
  best : ∀ feat, b.bestEver feat = (flown runs feat).argmin Entry.ms
  latest : ∀ r ∈ runs, r.entry.unix / day ≤ b.day
  day_le : ∀ now, (∀ r ∈ runs, r.entry.unix ≤ now) → b.day ≤ now / day

theorem keeps_default : Keeps [] Board.default where
  list := by intro feat; cases feat <;> rfl
  best := by intro feat; cases feat <;> rfl
  latest := by simp
  day_le := fun _ _ => Nat.zero_le _

theorem Keeps.dayList {runs : List Run} {b : Board} (h : Keeps runs b) {now : ℕ}
    (hnow : ∀ r ∈ runs, r.entry.unix ≤ now) (feat : Feat) :
    b.dayList feat now = (ranking (flownOn runs feat (now / day))).take kept := by
  rw [Board.dayList]
  split
  next hday => rw [h.list, hday]
  next hday =>
    have hlt : b.day < now / day := lt_of_le_of_ne (h.day_le now hnow) (Ne.symm hday)
    have hnone : flownOn runs feat (now / day) = [] := by
      refine List.filter_eq_nil_iff.mpr fun e he => ?_
      obtain ⟨r, hr, rfl⟩ := List.mem_map.mp he
      have hle := h.latest r (List.mem_of_mem_filter hr)
      simp only [beq_iff_eq]
      omega
    rw [hnone]
    rfl

@[simp] theorem day_take (b : Board) (r : Run) : (b.take r).1.day = r.entry.unix / day := by
  simp only [Board.take, Board.record]
  split <;> simp

theorem list_take (b : Board) (r : Run) (feat : Feat) : (b.take r).1.list feat =
    if feat = r.feat ∧ Board.improves (b.dayList feat r.entry.unix) r.entry.who r.entry.ms then
      Board.enter (b.dayList feat r.entry.unix) r.entry
    else b.dayList feat r.entry.unix := by
  have hlist : (b.take r).1.list feat = if feat = r.feat then
      if Board.improves (b.dayList r.feat r.entry.unix) r.entry.who r.entry.ms then
        Board.enter (b.dayList r.feat r.entry.unix) r.entry
      else b.dayList r.feat r.entry.unix
      else b.dayList feat r.entry.unix := by
    simp only [Board.take, Board.record]
    split <;> simp
  rw [hlist]
  rcases eq_or_ne feat r.feat with rfl | hne
  · simp
  · simp [hne]

theorem bestEver_take (b : Board) (r : Run) (feat : Feat) : (b.take r).1.bestEver feat =
    if feat = r.feat ∧ (b.bestEver feat).all (r.entry.ms < ·.ms) then some r.entry
    else b.bestEver feat := by
  simp only [Board.take, Board.record, Board.bestEver_turn]
  rcases eq_or_ne feat r.feat with rfl | hne
  · split <;> simp_all
  · split <;> simp [hne]

theorem Keeps.take {runs : List Run} {b : Board} (h : Keeps runs b) {r : Run}
    (hr : ∀ s ∈ runs, s.entry.unix ≤ r.entry.unix) : Keeps (runs ++ [r]) (b.take r).1 where
  list := by
    intro feat
    rw [day_take, list_take, flownOn_concat, h.dayList hr]
    rcases eq_or_ne feat r.feat with rfl | hne
    · simpa using enter_eq _ _
    · simp [hne]
  best := by
    intro feat
    rw [bestEver_take, flown_concat, h.best]
    rcases eq_or_ne feat r.feat with rfl | hne
    · rw [if_pos rfl, List.argmin_concat]
      cases (flown runs r.feat).argmin Entry.ms <;> simp
    · simp [hne]
  latest := by
    intro s hs
    rw [day_take]
    rcases List.mem_append.mp hs with hs | hs
    · exact Nat.div_le_div_right (hr s hs)
    · rw [List.mem_singleton.mp hs]
  day_le := by
    intro now hnow
    rw [day_take]
    exact Nat.div_le_div_right (hnow r (by simp))

theorem keeps_after {runs : List Run}
    (hruns : runs.Pairwise fun r s => r.entry.unix ≤ s.entry.unix) :
    Keeps runs (Board.after runs) := by
  induction runs using List.reverseRecOn with
  | nil => exact keeps_default
  | append_singleton before last ih =>
    obtain ⟨hbefore, -, hlast⟩ := List.pairwise_append.mp hruns
    rw [Board.after, List.foldl_append]
    exact (ih hbefore).take fun s hs => hlast s hs last (by simp)

/-- After any run of times the day's list is the ten fastest of everyone's best, and the best ever
the fastest of all; and a time given next is said to be the pilot's best when it is, unless their
best fell off the list and it's no better. -/
theorem ranks_correctly {runs : List Run} {next : Run} {now : ℕ}
    (hruns : (runs ++ [next]).Pairwise fun r s => r.entry.unix ≤ s.entry.unix)
    (hnow : ∀ r ∈ runs, r.entry.unix ≤ now) :
    (∀ feat, (Board.after runs).dayList feat now
        = (ranking (flownOn runs feat (now / day))).take kept)
      ∧ (∀ feat, (Board.after runs).bestEver feat = (flown runs feat).argmin Entry.ms)
      ∧ ((((Board.after runs).take next).2.improved
            ↔ Better (flownOn runs next.feat (next.entry.unix / day)) next.entry)
          ↔ ¬FellOff (flownOn runs next.feat (next.entry.unix / day)) next.entry) := by
  obtain ⟨hbefore, -, hlast⟩ := List.pairwise_append.mp hruns
  have hkeeps := keeps_after hbefore
  refine ⟨hkeeps.dayList hnow, hkeeps.best, ?_⟩
  have himproved : ((Board.after runs).take next).2.improved = Board.improves
      ((ranking (flownOn runs next.feat (next.entry.unix / day))).take kept)
      next.entry.who next.entry.ms := by
    rw [← hkeeps.dayList (fun r hr => hlast r hr next (by simp)), Board.take, Board.record,
      Board.list_turn]
  rw [himproved]
  exact improves_iff _ _

/-- Ten pilots, each faster than the last, after one who was slower than all of them. -/
def crowded : List Run :=
  ["A", "B", "C", "D", "E", "F", "G", "H", "I", "J", "K"].zipIdx.map fun p =>
    ⟨.course, p.1, p.1, 30000 - 1000 * p.2, 1000000 + p.2⟩

theorem ranks_correctly_crowded :
    (∀ feat, (Board.after crowded).dayList feat 1000020
        = (ranking (flownOn crowded feat (1000020 / day))).take kept)
      ∧ (∀ feat, (Board.after crowded).bestEver feat = (flown crowded feat).argmin Entry.ms)
      ∧ ((((Board.after crowded).take ⟨.course, "A", "A", 29000, 1000020⟩).2.improved
            ↔ Better (flownOn crowded .course (1000020 / day)) ⟨"A", "A", 29000, 1000020⟩)
          ↔ ¬FellOff (flownOn crowded .course (1000020 / day)) ⟨"A", "A", 29000, 1000020⟩) :=
  have hruns : (crowded ++ [(⟨.course, "A", "A", 29000, 1000020⟩ : Run)]).Pairwise
      fun r s => r.entry.unix ≤ s.entry.unix := by decide
  ranks_correctly hruns (by decide)

/-- A pilot whose time fell off the list flies a slower one, and is told it's their best. -/
theorem slower_improves :
    ((Board.after crowded).take ⟨.course, "A", "A", 31000, 1000020⟩).2 = ⟨none, true, false⟩
      ∧ ¬Better (flownOn crowded .course (1000020 / day)) ⟨"A", "A", 31000, 1000020⟩ := by decide

end Proving
end BeforeColony
