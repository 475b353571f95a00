import Mathlib.Logic.Function.Basic
import BeforeColony.Lib.Run
import BeforeColony.Lib.Table

/-!
# Files written to the side

`write_atomically` fills a temporary file and renames it over the path. All calls for one path use
one temporary name, so a call is alone with its file only until the next one begins.
-/

set_option autoImplicit false

namespace BeforeColony

open Lib

abbrev Inode := ℕ

/-- A call that has made its file: what it writes to, and how much of its bytes is written. -/
structure Writing where
  inode : Inode
  bytes : List UInt8
  written : ℕ

/-- A read that has opened the path, and what it has got so far. -/
structure Opened where
  inode : Inode
  got : List UInt8

/-- What the path and its temporary name stand for, the contents of every file there ever was, and
the calls and reads under way. And what the path held before, the bytes of every call begun, those
of the calls that failed, and what each read returned. -/
structure Disk where
  path : Option Inode
  tmp : Option Inode
  files : Inode → List UInt8
  next : Inode
  calls : Table ℕ Writing
  reads : Table ℕ Opened
  before : Option (List UInt8)
  begun : List (List UInt8)
  failed : List (List UInt8)
  results : List (Option (List UInt8))

namespace Disk

/-- What a file holds once `bytes` are written to it at `i`, zeros where nothing ever was. -/
def writeAt (file : List UInt8) (i : ℕ) (bytes : List UInt8) : List UInt8 :=
  (file ++ List.replicate (i - file.length) 0).take i ++ bytes ++ file.drop (i + bytes.length)

inductive Act
  | create (call : ℕ) (bytes : List UInt8)
  | write (call n : ℕ)
  | rename (call : ℕ)
  | openPath (read : ℕ)
  | take (read n : ℕ)
  | close (read : ℕ)

/-- No call and no read is under way; a temporary file may be left from before. -/
def start (before left : Option (List UInt8)) : Disk where
  path := before.map fun _ => 0
  tmp := left.map fun _ => 1
  files := fun i => if i = 0 then before.getD [] else left.getD []
  next := 2
  calls := Table.empty
  reads := Table.empty
  before := before
  begun := []
  failed := []
  results := []

/-- The call's file is created, or truncated if the name is taken. -/
def create (s : Disk) (call : ℕ) (bytes : List UInt8) : Disk :=
  let inode := s.tmp.getD s.next
  { s with
    tmp := some inode
    files := Function.update s.files inode []
    next := max s.next (inode + 1)
    calls := s.calls.insert call ⟨inode, bytes, 0⟩
    begun := bytes :: s.begun }

def write (s : Disk) (call n : ℕ) : Disk :=
  match s.calls.get? call with
  | none => s
  | some w =>
    let part := (w.bytes.drop w.written).take n
    { s with
      files := Function.update s.files w.inode (writeAt (s.files w.inode) w.written part)
      calls := s.calls.insert call { w with written := w.written + part.length } }

/-- Once all is written, whatever has the temporary name gets the path's. -/
def rename (s : Disk) (call : ℕ) : Disk :=
  match s.calls.get? call with
  | none => s
  | some w =>
    if w.written < w.bytes.length then s
    else
      match s.tmp with
      | none => { s with calls := s.calls.erase call, failed := w.bytes :: s.failed }
      | some inode => { s with path := some inode, tmp := none, calls := s.calls.erase call }

def openPath (s : Disk) (read : ℕ) : Disk :=
  match s.path with
  | none => { s with results := none :: s.results }
  | some inode => { s with reads := s.reads.insert read ⟨inode, []⟩ }

def take (s : Disk) (read n : ℕ) : Disk :=
  match s.reads.get? read with
  | none => s
  | some r =>
    let part := ((s.files r.inode).drop r.got.length).take n
    { s with reads := s.reads.insert read { r with got := r.got ++ part } }

/-- At the end of the file, the read returns what it got. -/
def close (s : Disk) (read : ℕ) : Disk :=
  match s.reads.get? read with
  | none => s
  | some r =>
    if r.got.length < (s.files r.inode).length then s
    else { s with reads := s.reads.erase read, results := some r.got :: s.results }

def step (s : Disk) : Act → Disk
  | .create call bytes => if (s.calls.get? call).isSome then s else s.create call bytes
  | .write call n => s.write call n
  | .rename call => s.rename call
  | .openPath read => if (s.reads.get? read).isSome then s else s.openPath read
  | .take read n => s.take read n
  | .close read => s.close read

def Returned (s : Disk) : Prop := ∀ call, s.calls.get? call = none

/-- What was there before, or the bytes of a call. -/
def Whole (s : Disk) (content : Option (List UInt8)) : Prop :=
  content = s.before ∨ ∃ bytes ∈ s.begun, content = some bytes

/-- Every read returned one content whole, no call failed, and if all calls have returned, the path
holds the bytes of one. -/
structure Atomic (s : Disk) : Prop where
  results : ∀ result ∈ s.results, s.Whole result
  failed : s.failed = []
  path : s.Returned → s.begun ≠ [] → ∃ bytes ∈ s.begun, s.path.map s.files = some bytes

/-- A call that begins finds no other under way. -/
def Apart (s : Disk) : Act → Prop
  | .create call _ => s.calls.get? call = none → s.Returned
  | _ => True

/-! ## One call after another -/

/-- While calls are apart: the one under way has the temporary file to itself, the path and the
reads have whole files. -/
structure Alone (s : Disk) : Prop extends Atomic s where
  apart : ∀ i, s.path = some i → s.tmp ≠ some i
  path_lt : ∀ i, s.path = some i → i < s.next
  tmp_lt : ∀ i, s.tmp = some i → i < s.next
  whole : s.Whole (s.path.map s.files)
  opened : ∀ r o, s.reads.get? r = some o →
    s.tmp ≠ some o.inode ∧ o.inode < s.next ∧ s.Whole (some (s.files o.inode)) ∧
      o.got <+: s.files o.inode
  call : ∀ c w, s.calls.get? c = some w →
    s.tmp = some w.inode ∧ s.files w.inode = w.bytes.take w.written ∧
      w.written ≤ w.bytes.length ∧ w.bytes ∈ s.begun
  only : ∀ c c' w w', s.calls.get? c = some w → s.calls.get? c' = some w' → c = c'

theorem alone_start (before left : Option (List UInt8)) : (start before left).Alone where
  results := nofun
  failed := rfl
  path _ h := absurd rfl h
  apart i hi := by
    cases before with
    | none => cases hi
    | some _ =>
      cases hi
      cases left <;> simp [start]
  path_lt i hi := by
    cases before <;> cases hi
    exact Nat.zero_lt_two
  tmp_lt i hi := by
    cases left <;> cases hi
    exact Nat.one_lt_two
  whole := by
    left
    cases before <;> rfl
  opened := nofun
  call := nofun
  only := nofun

variable {s : Disk}

theorem Whole.create {content : Option (List UInt8)} (h : s.Whole content) (call : ℕ)
    (bytes : List UInt8) : (s.create call bytes).Whole content :=
  h.imp_right fun ⟨b, hb, hcontent⟩ => ⟨b, List.mem_cons_of_mem _ hb, hcontent⟩

/-- The file of a call that begins is none that the path or a read has. -/
theorem create_files {i : Inode} (hi : i < s.next) (htmp : s.tmp ≠ some i) (call : ℕ)
    (bytes : List UInt8) : (s.create call bytes).files i = s.files i := by
  have hne : i ≠ s.tmp.getD s.next := by
    cases h : s.tmp with
    | none => exact hi.ne
    | some j =>
      rintro rfl
      exact htmp h
  exact Function.update_of_ne hne _ _

theorem create_tmp {i : Inode} (hi : i < s.next) (htmp : s.tmp ≠ some i) (call : ℕ)
    (bytes : List UInt8) : (s.create call bytes).tmp ≠ some i := by
  intro h
  cases htmp' : s.tmp with
  | none =>
    simp only [create, htmp', Option.getD_none, Option.some.injEq] at h
    exact hi.ne' h
  | some j =>
    simp only [create, htmp', Option.getD_some, Option.some.injEq] at h
    exact htmp (h ▸ htmp')

theorem Alone.create (h : s.Alone) (hreturned : s.Returned) (call : ℕ) (bytes : List UInt8) :
    (s.create call bytes).Alone := by
  have hcalls (c : ℕ) (w : Writing) (hw : (s.create call bytes).calls.get? c = some w) :
      c = call ∧ w = ⟨s.tmp.getD s.next, bytes, 0⟩ := by
    rw [Disk.create, Table.get?_insert] at hw
    split at hw
    · exact ⟨‹_›, (Option.some.inj hw).symm⟩
    · rw [hreturned] at hw
      cases hw
  exact {
    results := fun result hresult => (h.results result hresult).create call bytes
    failed := h.failed
    path := fun hnone => by
      have := hnone call
      simp [Disk.create] at this
    apart := fun i hi => create_tmp (h.path_lt i hi) (h.apart i hi) call bytes
    path_lt := fun i hi => (h.path_lt i hi).trans_le (le_max_left _ _)
    tmp_lt := fun i hi => by
      cases hi
      exact (Nat.lt_succ_self _).trans_le (le_max_right _ _)
    whole := by
      have hwhole := h.whole.create call bytes
      cases hpath : s.path with
      | none => simpa [Disk.create, hpath] using hwhole
      | some i =>
        have hfiles := create_files (h.path_lt i hpath) (h.apart i hpath) call bytes
        have hpath' : (s.create call bytes).path = some i := hpath
        rw [hpath', Option.map_some, hfiles]
        rwa [hpath, Option.map_some] at hwhole
    opened := fun r o ho => by
      obtain ⟨htmp, hlt, hwhole, hgot⟩ := h.opened r o ho
      rw [create_files hlt htmp]
      exact ⟨create_tmp hlt htmp _ _, hlt.trans_le (le_max_left _ _), hwhole.create _ _, hgot⟩
    call := fun c w hw => by
      obtain ⟨rfl, rfl⟩ := hcalls c w hw
      exact ⟨rfl, Function.update_self _ _ _, Nat.zero_le _, List.mem_cons_self⟩
    only := fun c c' w w' hw hw' => (hcalls c w hw).1.trans (hcalls c' w' hw').1.symm }

theorem writeAt_end (file bytes : List UInt8) : writeAt file file.length bytes = file ++ bytes := by
  simp [writeAt]

theorem take_written (bytes : List UInt8) (written n : ℕ) (hwritten : written ≤ bytes.length) :
    writeAt (bytes.take written) written ((bytes.drop written).take n) =
      bytes.take (written + ((bytes.drop written).take n).length) := by
  have hlen : (bytes.take written).length = written := List.length_take_of_le hwritten
  have hpart : (bytes.drop written).take n =
      (bytes.drop written).take ((bytes.drop written).take n).length := by
    rw [List.length_take, ← List.take_eq_take_min]
  have hend := writeAt_end (bytes.take written) ((bytes.drop written).take n)
  rw [hlen] at hend
  rw [hend, List.take_add, ← hpart]

theorem Alone.path_files (h : s.Alone) {i : Inode} (htmp : s.tmp = some i) (file : List UInt8) :
    s.path.map (Function.update s.files i file) = s.path.map s.files := by
  cases hpath : s.path with
  | none => rfl
  | some j =>
    have hne : j ≠ i := fun heq => h.apart j hpath (heq ▸ htmp)
    rw [Option.map_some, Option.map_some, Function.update_of_ne hne]

theorem Alone.write (h : s.Alone) (call n : ℕ) : (s.write call n).Alone := by
  cases hcall : s.calls.get? call with
  | none =>
    rw [Disk.write, hcall]
    exact h
  | some w =>
    obtain ⟨htmp, hfile, hlen, hbegun⟩ := h.call call w hcall
    simp only [Disk.write, hcall]
    exact {
      results := h.results
      failed := h.failed
      path := fun hnone => by
        have := hnone call
        simp at this
      apart := h.apart
      path_lt := h.path_lt
      tmp_lt := h.tmp_lt
      whole := by
        simp only [h.path_files htmp]
        exact h.whole
      opened := fun r o ho => by
        have hne : o.inode ≠ w.inode := fun heq => (h.opened r o ho).1 (heq ▸ htmp)
        simp only [Function.update_of_ne hne]
        exact h.opened r o ho
      call := fun c w' hw' => by
        simp only [Table.get?_insert] at hw'
        split at hw'
        · cases hw'
          refine ⟨htmp, ?_, ?_, hbegun⟩
          · simp only [Function.update_self, hfile]
            exact take_written _ _ _ hlen
          · simp only [List.length_take, List.length_drop]
            omega
        · exact absurd (h.only c call w' w hw' hcall) ‹_›
      only := fun c c' w₁ w₂ h₁ h₂ => by
        simp only [Table.get?_insert] at h₁ h₂
        split at h₁ <;> split at h₂
        · rename_i hc hc'
          exact hc.trans hc'.symm
        · exact absurd (h.only c' call w₂ w h₂ hcall) ‹_›
        · exact absurd (h.only c call w₁ w h₁ hcall) ‹_›
        · exact h.only c c' w₁ w₂ h₁ h₂ }

theorem Alone.rename (h : s.Alone) (call : ℕ) : (s.rename call).Alone := by
  cases hcall : s.calls.get? call with
  | none =>
    rw [Disk.rename, hcall]
    exact h
  | some w =>
    obtain ⟨htmp, hfile, hlen, hbegun⟩ := h.call call w hcall
    by_cases hleft : w.written < w.bytes.length
    · simp only [Disk.rename, hcall, if_pos hleft]
      exact h
    · have hbytes : s.files w.inode = w.bytes := by
        rw [hfile, List.take_of_length_le (Nat.not_lt.mp hleft)]
      have hreturned (c : ℕ) : (s.calls.erase call).get? c = none := by
        rw [Table.get?_erase]
        split
        · rfl
        · cases hc : s.calls.get? c with
          | none => rfl
          | some w' => exact absurd (h.only c call w' w hc hcall) ‹_›
      simp only [Disk.rename, hcall, if_neg hleft, htmp]
      exact {
        results := h.results
        failed := h.failed
        path := fun _ _ => ⟨w.bytes, hbegun, congrArg some hbytes⟩
        apart := nofun
        path_lt := fun i hi => h.tmp_lt i (htmp.trans hi)
        tmp_lt := nofun
        whole := .inr ⟨w.bytes, hbegun, congrArg some hbytes⟩
        opened := fun r o ho => ⟨nofun, (h.opened r o ho).2⟩
        call := fun c w' hw' => absurd (hw'.symm.trans (hreturned c)) nofun
        only := fun c c' w₁ w₂ h₁ _ => absurd (h₁.symm.trans (hreturned c)) nofun }

theorem Alone.openPath (h : s.Alone) (read : ℕ) : (s.openPath read).Alone := by
  have hwhole := h.whole
  unfold Disk.openPath
  split
  · rename_i hpath
    rw [hpath] at hwhole
    exact { h with results := List.forall_mem_cons.mpr ⟨hwhole, h.results⟩ }
  · rename_i i hpath
    rw [hpath] at hwhole
    exact { h with
      opened := fun r o ho => by
        simp only [Table.get?_insert] at ho
        split at ho
        · cases ho
          exact ⟨h.apart i hpath, h.path_lt i hpath, hwhole, List.nil_prefix⟩
        · exact h.opened r o ho }

theorem Alone.take (h : s.Alone) (read n : ℕ) : (s.take read n).Alone := by
  unfold Disk.take
  split
  · exact h
  · rename_i r hread
    obtain ⟨htmp, hlt, hwhole, rest, hgot⟩ := h.opened read r hread
    exact { h with
      opened := fun r' o ho => by
        simp only [Table.get?_insert] at ho
        split at ho
        · cases ho
          refine ⟨htmp, hlt, hwhole, ?_⟩
          simp only [← hgot, List.drop_left]
          exact (List.prefix_append_right_inj _).mpr (List.take_prefix _ _)
        · exact h.opened r' o ho }

theorem Alone.close (h : s.Alone) (read : ℕ) : (s.close read).Alone := by
  unfold Disk.close
  split
  · exact h
  · rename_i r hread
    split
    · exact h
    · rename_i hend
      obtain ⟨-, -, hwhole, hgot⟩ := h.opened read r hread
      rw [← hgot.eq_of_length_le (Nat.not_lt.mp hend)] at hwhole
      exact { h with
        results := List.forall_mem_cons.mpr ⟨hwhole, h.results⟩
        opened := fun r' o ho => by
          simp only [Table.get?_erase] at ho
          split at ho
          · cases ho
          · exact h.opened r' o ho }

theorem Alone.step (h : s.Alone) (act : Act) (hapart : s.Apart act) : (s.step act).Alone := by
  cases act with
  | create call bytes =>
    by_cases hcall : s.calls.get? call = none
    · simp only [Disk.step, hcall, Option.isSome_none, Bool.false_eq_true, if_false]
      exact h.create (hapart hcall) call bytes
    · rw [Disk.step, if_pos (Option.isSome_iff_ne_none.mpr hcall)]
      exact h
  | write call n => exact h.write call n
  | rename call => exact h.rename call
  | openPath read =>
    rw [Disk.step]
    split
    · exact h
    · exact h.openPath read
  | take read n => exact h.take read n
  | close read => exact h.close read

/-! ## Calls that meet -/

def underWay (s : Disk) : ℕ := Table.total (fun _ _ => 1) s.calls

/-- More calls are under way than there is a temporary file for, so one of them fails. -/
def Stuck (s : Disk) : Prop := (if s.tmp.isSome then 1 else 0) < s.underWay

theorem underWay_eq_zero_iff : s.underWay = 0 ↔ s.Returned := by
  have hlen : s.underWay = s.calls.entries.length := by simp [underWay, Table.total]
  rw [hlen, List.length_eq_zero_iff]
  constructor
  · intro hnil call
    refine Option.eq_none_iff_forall_ne_some.mpr fun w hw => ?_
    have hmem := Table.mem_entries_iff.mpr hw
    rw [hnil] at hmem
    cases hmem
  · intro hreturned
    refine List.eq_nil_iff_forall_not_mem.mpr fun e he => ?_
    have hget := Table.mem_entries_iff.mp he
    rw [hreturned] at hget
    cases hget

theorem underWay_insert_new {call : ℕ} (h : s.calls.get? call = none) (w : Writing) :
    Table.total (fun _ _ => 1) (s.calls.insert call w) = s.underWay + 1 := by
  have := Table.total_insert (fun _ _ => 1) s.calls call w
  rwa [Table.at?_of_none h] at this

theorem underWay_insert {call : ℕ} {w : Writing} (h : s.calls.get? call = some w) (w' : Writing) :
    Table.total (fun _ _ => 1) (s.calls.insert call w') = s.underWay := by
  have := Table.total_insert (fun _ _ => 1) s.calls call w'
  rw [Table.at?_of_get? h] at this
  exact Nat.add_right_cancel this

theorem underWay_erase {call : ℕ} {w : Writing} (h : s.calls.get? call = some w) :
    Table.total (fun _ _ => 1) (s.calls.erase call) + 1 = s.underWay := by
  have := Table.total_erase (fun _ _ => 1) s.calls call
  rwa [Table.at?_of_get? h] at this

theorem stuck_create {call : ℕ} (hnew : s.calls.get? call = none) (hother : 0 < s.underWay)
    (bytes : List UInt8) : (s.create call bytes).Stuck := by
  have hcount := underWay_insert_new hnew ⟨s.tmp.getD s.next, bytes, 0⟩
  rw [Stuck, underWay]
  simp only [Disk.create, hcount, Option.isSome_some, if_true]
  omega

theorem Stuck.step (h : s.Stuck) (act : Act) (hfailed : (s.step act).failed = []) :
    (s.step act).Stuck := by
  cases act with
  | create call bytes =>
    by_cases hcall : s.calls.get? call = none
    · simp only [Disk.step, hcall, Option.isSome_none, Bool.false_eq_true, if_false]
      exact stuck_create hcall ((Nat.zero_le _).trans_lt h) bytes
    · rw [Disk.step, if_pos (Option.isSome_iff_ne_none.mpr hcall)]
      exact h
  | write call n =>
    simp only [Disk.step, Disk.write]
    split
    · exact h
    · rename_i w hcall
      simpa only [Stuck, underWay, underWay_insert hcall] using h
  | rename call =>
    simp only [Disk.step, Disk.rename] at hfailed ⊢
    split
    · exact h
    · rename_i w hcall
      split
      · exact h
      · rename_i hwritten
        cases htmp : s.tmp with
        | none => simp [hcall, hwritten, htmp] at hfailed
        | some i =>
          have hcount := underWay_erase hcall
          simp only [Stuck, underWay, htmp, Option.isSome_some, if_true] at h hcount
          simp only [Stuck, underWay, Option.isSome_none, Bool.false_eq_true, if_false]
          omega
  | openPath read =>
    simp only [Disk.step, Disk.openPath]
    split
    · exact h
    · split <;> exact h
  | take read n =>
    simp only [Disk.step, Disk.take]
    split <;> exact h
  | close read =>
    simp only [Disk.step, Disk.close]
    split
    · exact h
    · split <;> exact h

theorem stuck_of_not_apart {act : Act} (h : ¬ s.Apart act) : (s.step act).Stuck := by
  cases act with
  | create call bytes =>
    obtain ⟨hcall, hreturned⟩ := Classical.not_imp.mp h
    have hother : 0 < s.underWay := Nat.pos_of_ne_zero fun hzero =>
      hreturned (underWay_eq_zero_iff.mp hzero)
    simp only [Disk.step, hcall, Option.isSome_none, Bool.false_eq_true, if_false]
    exact stuck_create hcall hother bytes
  | write _ _ | rename _ | openPath _ | take _ _ | close _ => exact absurd trivial h

theorem stuck_run {acts : List Act} (h : s.Stuck)
    (hfailed : ∀ n, ((acts.take n).foldl step s).failed = []) : (acts.foldl step s).Stuck := by
  induction acts generalizing s with
  | nil => exact h
  | cons act rest ih => exact ih (h.step act (hfailed 1)) fun n => hfailed (n + 1)

/-- A run that comes to where all its calls have returned, none of them failed, had none begin
while another was under way. -/
theorem apart_of_returned {acts : List Act} (hfailed : ∀ n, ((acts.take n).foldl step s).failed = [])
    (hreturned : (acts.foldl step s).Returned) : Run.Along step Apart s acts := by
  induction acts generalizing s with
  | nil => trivial
  | cons act rest ih =>
    refine ⟨?_, ih (fun n => hfailed (n + 1)) hreturned⟩
    by_contra hmeet
    have hstuck := stuck_run (stuck_of_not_apart hmeet) fun n => hfailed (n + 1)
    exact ((Nat.zero_le _).trans_lt hstuck).ne' (underWay_eq_zero_iff.mpr hreturned)

/-- While calls are apart every read is of one content whole, no call fails, and the path ends up
with the bytes of one; where all calls come to return, only then. -/
theorem atomic_iff_apart (before left : Option (List UInt8)) (acts : List Act) :
    (Run.Along step Apart (start before left) acts →
      ∀ n, ((acts.take n).foldl step (start before left)).Atomic) ∧
    ((acts.foldl step (start before left)).Returned →
      ((∀ n, ((acts.take n).foldl step (start before left)).Atomic) ↔
        Run.Along step Apart (start before left) acts)) := by
  have hatomic (halong : Run.Along step Apart (start before left) acts) (n : ℕ) :
      ((acts.take n).foldl step (start before left)).Atomic := by
    rw [← List.take_append_drop n acts, Run.along_append] at halong
    exact (Run.invariant (fun s act hs hact => hs.step act hact) (alone_start before left)
      halong.1).toAtomic
  exact ⟨hatomic, fun hreturned =>
    ⟨fun hall => apart_of_returned (fun n => (hall n).failed) hreturned, hatomic⟩⟩

/-- Two calls meet: the second truncates the first's file, which the first then renames; a read
finds the file empty, and the second has none to rename. -/
theorem torn_read :
    let s := [Act.create 0 [1, 2], .write 0 2, .create 1 [3, 4], .rename 0, .openPath 0, .close 0,
      .write 1 2, .rename 1].foldl step (start (some [9]) none)
    s.results = [some []] ∧ s.failed = [[3, 4]] ∧ s.Returned ∧ ¬ s.Atomic :=
  ⟨by decide, by decide, underWay_eq_zero_iff.mp (by decide), fun h => absurd h.failed (by decide)⟩

end Disk

end BeforeColony
