import BeforeColony.Server.Files

/-!
# Registers kept in files

The exchange, the Charter Board and the register of homes are each one value behind a lock, with a
file written from it now and then: by the clock, and by a session that keeps what it just issued. A
save waits for the lock of those before it, takes the whole value, and holds the lock till it is
written. The server may stop at any moment.
-/

set_option autoImplicit false

namespace BeforeColony

open Lib

namespace Disk

/-- What a reader of the path would find. -/
def content (s : Disk) : Option (List UInt8) := s.path.map s.files

/-- The path's file is none that is being written. -/
structure Clean (s : Disk) : Prop where
  apart : ∀ i, s.path = some i → s.tmp ≠ some i
  path_lt : ∀ i, s.path = some i → i < s.next
  tmp_lt : ∀ i, s.tmp = some i → i < s.next

structure Sole (s : Disk) (call : ℕ) (w : Writing) : Prop where
  get : s.calls.get? call = some w
  only : ∀ c, c ≠ call → s.calls.get? c = none
  tmp : s.tmp = some w.inode
  file : s.files w.inode = w.bytes.take w.written
  written : w.written ≤ w.bytes.length

theorem clean_start (before left : Option (List UInt8)) : (start before left).Clean :=
  let h := alone_start before left
  ⟨h.apart, h.path_lt, h.tmp_lt⟩

theorem content_start (before left : Option (List UInt8)) :
    (start before left).content = before := by
  cases before <;> rfl

variable {s : Disk} {call : ℕ} {w : Writing}

theorem Clean.create (h : s.Clean) (hreturned : s.Returned) (call : ℕ) (bytes : List UInt8) :
    (s.create call bytes).Clean ∧ (s.create call bytes).Sole call ⟨s.tmp.getD s.next, bytes, 0⟩
      ∧ (s.create call bytes).content = s.content := by
  refine ⟨⟨fun i hi => ?_, fun i hi => ?_, fun i hi => ?_⟩, ⟨?_, fun c hc => ?_, ?_, ?_, ?_⟩, ?_⟩
  · exact create_tmp (h.path_lt i hi) (h.apart i hi) call bytes
  · exact (h.path_lt i hi).trans_le (le_max_left _ _)
  · cases hi
    exact (Nat.lt_succ_self _).trans_le (le_max_right _ _)
  · exact Table.get?_insert_self _ _ _
  · rw [Disk.create, Table.get?_insert_of_ne _ _ hc]
    exact hreturned c
  · rfl
  · exact Function.update_self _ _ _
  · exact Nat.zero_le _
  · cases hpath : s.path with
    | none => rw [content, content, hpath, Disk.create, hpath, Option.map_none, Option.map_none]
    | some i =>
      have hfiles := create_files (h.path_lt i hpath) (h.apart i hpath) call bytes
      have hpath' : (s.create call bytes).path = some i := hpath
      rw [content, content, hpath, hpath', Option.map_some, Option.map_some, hfiles]

theorem Clean.write (h : s.Clean) (hsole : s.Sole call w) (n : ℕ) :
    (s.write call n).Clean ∧ (∃ w', (s.write call n).Sole call w' ∧ w'.bytes = w.bytes)
      ∧ (s.write call n).content = s.content := by
  have hwrite : s.write call n = { s with
      files := Function.update s.files w.inode
        (writeAt (s.files w.inode) w.written ((w.bytes.drop w.written).take n))
      calls := s.calls.insert call
        { w with written := w.written + ((w.bytes.drop w.written).take n).length } } := by
    rw [Disk.write, hsole.get]
  rw [hwrite]
  refine ⟨⟨h.apart, h.path_lt, h.tmp_lt⟩,
    ⟨_, ⟨Table.get?_insert_self _ _ _, fun c hc => ?_, hsole.tmp, ?_, ?_⟩, rfl⟩, ?_⟩
  · rw [Table.get?_insert_of_ne _ _ hc]
    exact hsole.only c hc
  · simp only [Function.update_self, hsole.file]
    exact take_written _ _ _ hsole.written
  · have hlen := hsole.written
    simp only [List.length_take, List.length_drop]
    omega
  · cases hpath : s.path with
    | none => rw [content, content, hpath, Option.map_none, Option.map_none]
    | some i =>
      have hne : i ≠ w.inode := fun heq => h.apart i hpath (heq ▸ hsole.tmp)
      simp only [content, hpath, Option.map_some, Function.update_of_ne hne]

theorem Sole.returned (h : s.Sole call w) : ∀ c, (s.calls.erase call).get? c = none := by
  intro c
  rw [Table.get?_erase]
  split
  · rfl
  · exact h.only c ‹_›

/-- The call is over, and what it wrote is what the path holds. -/
theorem Clean.rename (h : s.Clean) (hsole : s.Sole call w) (hall : w.bytes.length ≤ w.written) :
    (s.rename call).Clean ∧ (s.rename call).Returned
      ∧ (s.rename call).content = some w.bytes := by
  have hrename : s.rename call
      = { s with path := some w.inode, tmp := none, calls := s.calls.erase call } := by
    simp only [Disk.rename, hsole.get, if_neg (Nat.not_lt.mpr hall), hsole.tmp]
  rw [hrename]
  refine ⟨⟨fun _ _ htmp => Option.some_ne_none _ htmp.symm,
    fun i hi => h.tmp_lt i (hsole.tmp.trans hi),
    fun _ htmp => absurd htmp.symm (Option.some_ne_none _)⟩, hsole.returned, ?_⟩
  rw [content, Option.map_some, hsole.file, List.take_of_length_le hall]

theorem Sole.rename_early (hsole : s.Sole call w) (hmore : w.written < w.bytes.length) :
    s.rename call = s := by
  simp only [Disk.rename, hsole.get, if_pos hmore]

end Disk

/-- How far a save is: it waits for the saves before it, writes the value numbered `i`, or has
written it. -/
inductive Saving where
  | waiting
  | writing (i : ℕ)
  | written (i : ℕ)
deriving DecidableEq

structure Save (S : Type) where
  /-- The value the register had when the save was asked for, and its number. -/
  asked : ℕ
  value : S
  stage : Saving

/-- The register and its file: every value it had since it was first opened, less what restarts
lost, the save that has the lock, and which value the file is of. -/
structure Register (S : Type) where
  past : List S
  value : S
  saving : Option ℕ
  saves : Table ℕ (Save S)
  disk : Disk
  held : ℕ
  /-- What the saves that came through were asked to save. -/
  kept : List (ℕ × S)

namespace Register

inductive Turn where
  | lock
  | write (n : ℕ)
  | rename
  /-- The write fails: the register says so and goes on. -/
  | fail
  | finish

inductive Act (S : Type) where
  | change (value : S)
  | ask (task : ℕ)
  | turn (task : ℕ) (t : Turn)
  /-- The server stops as it is and starts again. -/
  | restart (readable : Bool)

variable {S : Type}

def history (r : Register S) : List S := r.past ++ [r.value]

def setStage (r : Register S) (task : ℕ) (save : Save S) (stage : Saving) : Register S :=
  { r with saves := r.saves.insert task { save with stage := stage } }

section

variable (json : S → Option (List UInt8)) (load : Option (List UInt8) → S)

/-- The register kept in a file, or a new one if there is none to read. -/
def open_ (before left : Option (List UInt8)) : Register S :=
  ⟨[], load before, none, Table.empty, .start before left, 0, []⟩

def turn (r : Register S) (task : ℕ) (save : Save S) : Turn → Register S
  | .lock =>
    if save.stage = .waiting ∧ r.saving = none then
      match json r.value with
      | none => { r with saves := r.saves.erase task }
      | some bytes =>
        { r.setStage task save (.writing r.past.length) with
          saving := some task
          disk := r.disk.create task bytes }
    else r
  | .write n =>
    match save.stage with
    | .writing _ => { r with disk := r.disk.write task n }
    | .waiting | .written _ => r
  | .rename =>
    match save.stage with
    | .writing i =>
      if ((r.disk.rename task).calls.get? task).isSome then { r with disk := r.disk.rename task }
      else { r.setStage task save (.written i) with disk := r.disk.rename task, held := i }
    | .waiting | .written _ => r
  | .fail =>
    match save.stage with
    | .writing _ =>
      { r with
        saving := none
        saves := r.saves.erase task
        disk := { r.disk with calls := r.disk.calls.erase task } }
    | .waiting | .written _ => r
  | .finish =>
    match save.stage with
    | .written _ =>
      { r with saving := none, saves := r.saves.erase task, kept := (save.asked, save.value) :: r.kept }
    | .waiting | .writing _ => r

def step (r : Register S) : Act S → Register S
  | .change value => { r with past := r.history, value := value }
  | .ask task =>
    match r.saves.get? task with
    | none => { r with saves := r.saves.insert task ⟨r.past.length, r.value, .waiting⟩ }
    | some _ => r
  | .turn task t => (r.saves.get? task).elim r fun save => turn json r task save t
  | .restart readable =>
    { past := r.history.take (r.held + 1)
      value := load (if readable then r.disk.content else none)
      saving := none
      saves := Table.empty
      disk := .start r.disk.content (r.disk.tmp.map r.disk.files)
      held := r.held
      kept := r.kept }

/-- What the file holds: what it did at first, or a value whole. -/
def Holds (before : Option (List UInt8)) (r : Register S) : Prop :=
  (r.held = 0 ∧ r.disk.content = before)
    ∨ ∃ value bytes, r.history[r.held]? = some value ∧ json value = some bytes
      ∧ r.disk.content = some bytes

/-- Where a save is, with the file it writes. -/
def Placed (r : Register S) (task : ℕ) (save : Save S) : Prop :=
  r.history[save.asked]? = some save.value ∧
    match save.stage with
    | .waiting => r.saving ≠ some task
    | .writing i => r.saving = some task ∧ save.asked ≤ i ∧ r.held ≤ i
      ∧ ∃ value w, r.history[i]? = some value ∧ json value = some w.bytes ∧ r.disk.Sole task w
    | .written i => r.saving = some task ∧ save.asked ≤ i ∧ i ≤ r.held ∧ r.disk.Returned

structure Sound (before : Option (List UInt8)) (r : Register S) : Prop where
  clean : r.disk.Clean
  held : r.held ≤ r.past.length
  holds : Holds json before r
  placed : ∀ task save, r.saves.get? task = some save → Placed json r task save
  free : r.saving = none → r.disk.Returned
  locked : ∀ task, r.saving = some task → r.saves.get? task ≠ none
  kept : ∀ a value, (a, value) ∈ r.kept → a ≤ r.held ∧ r.history[a]? = some value

/-- What the file holds of the register's values is there to stay. -/
structure Later (r r' : Register S) : Prop where
  held : r.held ≤ r'.held
  same : ∀ i, i ≤ r.held → r'.history[i]? = r.history[i]?

variable {json} {before : Option (List UInt8)} {r : Register S} {task : ℕ} {save : Save S}

theorem length_history (r : Register S) : r.history.length = r.past.length + 1 := by
  rw [history, List.length_append, List.length_singleton]

theorem history_last (r : Register S) : r.history[r.past.length]? = some r.value := by
  rw [history, List.getElem?_concat_length]

theorem Holds.congr (h : Holds json before r) {r' : Register S} (hhistory : r'.history = r.history)
    (hheld : r'.held = r.held) (hcontent : r'.disk.content = r.disk.content) :
    Holds json before r' := by
  rw [Holds, hhistory, hheld, hcontent]
  exact h

theorem Later.refl (r : Register S) : Later r r := ⟨le_refl _, fun _ _ => rfl⟩

theorem Placed.waiting (h : Placed json r task save) (hother : r.saving ≠ some task) :
    save.stage = .waiting := by
  obtain ⟨_, hstage⟩ := h
  revert hstage
  cases save.stage with
  | waiting => exact fun _ => rfl
  | writing i => exact fun hw => absurd hw.1 hother
  | written i => exact fun hw => absurd hw.1 hother

theorem placed_waiting (hstage : save.stage = .waiting) (hother : r.saving ≠ some task)
    (hasked : r.history[save.asked]? = some save.value) : Placed json r task save := by
  rw [Placed, hstage]
  exact ⟨hasked, hother⟩

theorem Sound.other (h : Sound json before r) {r' : Register S} {other : ℕ}
    (hget : r.saves.get? other = some save) (hold : r.saving ≠ some other)
    (hnew : r'.saving ≠ some other) (hhistory : r'.history = r.history) :
    Placed json r' other save := by
  have hplaced := h.placed other save hget
  apply placed_waiting (hplaced.waiting hold) hnew
  rw [hhistory]
  exact hplaced.1

theorem Sound.change (h : Sound json before r) (value : S) :
    Sound json before { r with past := r.history, value := value }
      ∧ Later r { r with past := r.history, value := value } := by
  have hsame (i : ℕ) (v : S) (hi : r.history[i]? = some v) :
      (r.history ++ [value])[i]? = some v := by
    rw [List.getElem?_append_left (List.getElem?_eq_some_iff.mp hi).1]
    exact hi
  have hlen := length_history r
  have hheld := h.held
  refine ⟨⟨h.clean, ?_, ?_, fun task save hget => ?_, h.free, h.locked,
    fun a v hmem => ?_⟩, le_refl _, fun i hi => ?_⟩
  · change r.held ≤ r.history.length
    omega
  · rcases h.holds with hfirst | ⟨v, bytes, hv, hbytes⟩
    · exact .inl hfirst
    · exact .inr ⟨v, bytes, hsame _ _ hv, hbytes⟩
  · obtain ⟨hasked, hstage⟩ := h.placed task save hget
    refine ⟨hsame _ _ hasked, ?_⟩
    revert hstage
    cases save.stage with
    | waiting => exact id
    | written i => exact id
    | writing i =>
      rintro ⟨hsaving, hle, hlater, v, w, hv, hw⟩
      exact ⟨hsaving, hle, hlater, v, w, hsame _ _ hv, hw⟩
  · obtain ⟨hle, hv⟩ := h.kept a v hmem
    exact ⟨hle, hsame _ _ hv⟩
  · change (r.history ++ [value])[i]? = r.history[i]?
    rw [List.getElem?_append_left (by omega)]

theorem Sound.ask (h : Sound json before r) {task : ℕ} (hnone : r.saves.get? task = none) :
    Sound json before { r with saves := r.saves.insert task ⟨r.past.length, r.value, .waiting⟩ } := by
  refine ⟨h.clean, h.held, h.holds, fun other save hget => ?_, h.free, fun other hlock => ?_, h.kept⟩
  · rw [Table.get?_insert] at hget
    split at hget
    · rename_i heq
      subst heq
      rw [← Option.some.inj hget]
      apply placed_waiting rfl
      · exact fun hlock => h.locked other hlock hnone
      · exact history_last r
    · exact h.placed other save hget
  · rw [Table.get?_insert]
    split
    · exact nofun
    · exact h.locked other hlock

/-- The lock is taken, and the value as it is now is what is written. -/
theorem Sound.lock (h : Sound json before r) (hget : r.saves.get? task = some save)
    (hfree : r.saving = none) {bytes : List UInt8}
    (hbytes : json r.value = some bytes) :
    Sound json before { r.setStage task save (.writing r.past.length) with
      saving := some task
      disk := r.disk.create task bytes } := by
  obtain ⟨hclean, hsole, hcontent⟩ := h.clean.create (h.free hfree) task bytes
  refine ⟨hclean, h.held, ?_, fun other save' hget' => ?_, nofun, fun other hlock => ?_, h.kept⟩
  · exact h.holds.congr rfl rfl hcontent
  · change (r.saves.insert task _).get? other = some save' at hget'
    rw [Table.get?_insert] at hget'
    split at hget'
    · rename_i heq
      subst heq
      rw [← Option.some.inj hget']
      have hasked := (h.placed other save hget).1
      have hlt := (List.getElem?_eq_some_iff.mp hasked).1
      rw [length_history] at hlt
      exact ⟨hasked, rfl, Nat.le_of_lt_succ hlt, h.held, r.value, _, history_last r, hbytes, hsole⟩
    · rename_i hne
      refine h.other hget' (fun heq => nomatch hfree.symm.trans heq) (fun heq => ?_) rfl
      exact hne (Option.some.inj heq).symm
  · cases hlock
    change (r.saves.insert task _).get? task ≠ none
    rw [Table.get?_insert_self]
    exact nofun

/-- A save that ends, come through or not, leaves the lock to the others. -/
theorem Sound.erase (h : Sound json before r) (hsaving : r.saving = some task ∨ r.saving = none)
    {disk : Disk} (hclean : disk.Clean) (hreturned : disk.Returned)
    (hcontent : disk.content = r.disk.content) {kept : List (ℕ × S)}
    (hkept : ∀ a value, (a, value) ∈ kept → a ≤ r.held ∧ r.history[a]? = some value) :
    Sound json before { r with
      saving := none, saves := r.saves.erase task, disk := disk, kept := kept } := by
  refine ⟨hclean, h.held, ?_, fun other save' hget' => ?_, fun _ => hreturned, nofun, hkept⟩
  · exact h.holds.congr rfl rfl hcontent
  · change (r.saves.erase task).get? other = some save' at hget'
    rw [Table.get?_erase] at hget'
    split at hget'
    · exact nomatch hget'
    · rename_i hne
      refine h.other hget' (fun heq => ?_) nofun rfl
      rcases hsaving with hlock | hfree
      · exact hne (Option.some.inj (heq.symm.trans hlock))
      · exact nomatch heq.symm.trans hfree

theorem Sound.write (h : Sound json before r) (hget : r.saves.get? task = some save) {i : ℕ}
    (hstage : save.stage = .writing i) (n : ℕ) :
    Sound json before { r with disk := r.disk.write task n } := by
  have hplaced := h.placed task save hget
  rw [Placed, hstage] at hplaced
  obtain ⟨hasked, hsaving, hle, hlater, v, w, hv, hw, hsole⟩ := hplaced
  obtain ⟨hclean, ⟨w', hsole', hbytes⟩, hcontent⟩ := h.clean.write hsole n
  refine ⟨hclean, h.held, ?_, fun other save' hget' => ?_, fun hfree => ?_, h.locked, h.kept⟩
  · exact h.holds.congr rfl rfl hcontent
  · by_cases heq : other = task
    · subst heq
      rw [hget, Option.some.injEq] at hget'
      rw [← hget', Placed, hstage]
      exact ⟨hasked, hsaving, hle, hlater, v, w', hv, hbytes ▸ hw, hsole'⟩
    · have hother : r.saving ≠ some other := fun hlock =>
        heq (Option.some.inj (hlock.symm.trans hsaving))
      exact h.other hget' hother hother rfl
  · exact nomatch hfree.symm.trans hsaving

/-- The file is renamed over the path, and is of the newest value any save took. -/
theorem Sound.rename (h : Sound json before r) (hget : r.saves.get? task = some save) {i : ℕ}
    (hstage : save.stage = .writing i) :
    Sound json before (r.turn json task save .rename)
      ∧ Later r (r.turn json task save .rename) := by
  have hplaced := h.placed task save hget
  rw [Placed, hstage] at hplaced
  obtain ⟨hasked, hsaving, hle, hlater, v, w, hv, hw, hsole⟩ := hplaced
  by_cases hmore : w.written < w.bytes.length
  · have hsame : r.turn json task save .rename = r := by
      simp only [turn, hstage, hsole.rename_early hmore, hsole.get, Option.isSome_some, if_true]
    rw [hsame]
    exact ⟨h, .refl r⟩
  · obtain ⟨hclean, hreturned, hcontent⟩ := h.clean.rename hsole (not_lt.mp hmore)
    have hturn : r.turn json task save .rename
        = { r.setStage task save (.written i) with disk := r.disk.rename task, held := i } := by
      simp only [turn, hstage, hreturned task, Option.isSome_none, Bool.false_eq_true, if_false]
    rw [hturn]
    have hlt := (List.getElem?_eq_some_iff.mp hv).1
    rw [length_history] at hlt
    refine ⟨⟨hclean, Nat.le_of_lt_succ hlt, .inr ⟨v, w.bytes, hv, hw, hcontent⟩,
      fun other save' hget' => ?_, fun _ => hreturned, fun other hlock => ?_, fun a value hmem => ?_⟩,
      hlater, fun _ _ => rfl⟩
    · change (r.saves.insert task _).get? other = some save' at hget'
      rw [Table.get?_insert] at hget'
      split at hget'
      · rename_i heq
        subst heq
        rw [← Option.some.inj hget']
        exact ⟨hasked, hsaving, hle, le_refl _, hreturned⟩
      · rename_i hne
        have hother : r.saving ≠ some other := fun hlock =>
          hne (Option.some.inj (hlock.symm.trans hsaving))
        exact h.other hget' hother hother rfl
    · change (r.saves.insert task _).get? other ≠ none
      rw [Table.get?_insert]
      split
      · exact nofun
      · exact h.locked other hlock
    · obtain ⟨hheld, hvalue⟩ := h.kept a value hmem
      exact ⟨hheld.trans hlater, hvalue⟩

theorem Sound.turn (h : Sound json before r) (hget : r.saves.get? task = some save) (t : Turn) :
    Sound json before (r.turn json task save t) ∧ Later r (r.turn json task save t) := by
  have hplaced := h.placed task save hget
  cases t with
  | lock =>
    rw [Register.turn]
    split
    · rename_i hcond
      split
      · have heq : { r with saves := r.saves.erase task }
            = { r with saving := none, saves := r.saves.erase task } := by rw [← hcond.2]
        rw [heq]
        exact ⟨h.erase (.inr hcond.2) h.clean (h.free hcond.2) rfl h.kept,
          le_refl _, fun _ _ => rfl⟩
      · rename_i bytes hbytes
        exact ⟨h.lock hget hcond.2 hbytes, le_refl _, fun _ _ => rfl⟩
    · exact ⟨h, .refl r⟩
  | write n =>
    rw [Register.turn]
    split
    · rename_i i hstage
      exact ⟨h.write hget hstage n, le_refl _, fun _ _ => rfl⟩
    all_goals exact ⟨h, .refl r⟩
  | rename =>
    cases hstage : save.stage with
    | writing i => exact h.rename hget hstage
    | waiting =>
      rw [Register.turn, hstage]
      exact ⟨h, .refl r⟩
    | written i =>
      rw [Register.turn, hstage]
      exact ⟨h, .refl r⟩
  | fail =>
    rw [Register.turn]
    split
    · rename_i i hstage
      rw [Placed, hstage] at hplaced
      obtain ⟨_, hsaving, _, _, v, w, _, _, hsole⟩ := hplaced
      have hclean : { r.disk with calls := r.disk.calls.erase task }.Clean :=
        ⟨h.clean.apart, h.clean.path_lt, h.clean.tmp_lt⟩
      exact ⟨h.erase (.inl hsaving) hclean hsole.returned rfl h.kept, le_refl _, fun _ _ => rfl⟩
    all_goals exact ⟨h, .refl r⟩
  | finish =>
    rw [Register.turn]
    split
    · rename_i i hstage
      rw [Placed, hstage] at hplaced
      obtain ⟨hasked, hsaving, hle, hheld, hreturned⟩ := hplaced
      refine ⟨h.erase (.inl hsaving) h.clean hreturned rfl fun a value hmem => ?_,
        le_refl _, fun _ _ => rfl⟩
      rcases List.mem_cons.mp hmem with heq | hmem
      · obtain ⟨rfl, rfl⟩ := Prod.mk.inj heq
        exact ⟨hle.trans hheld, hasked⟩
      · exact h.kept a value hmem
    all_goals exact ⟨h, .refl r⟩

/-- What is lost when the server stops is newer than what its file holds. -/
theorem Sound.restart (load : Option (List UInt8) → S) (h : Sound json before r) (readable : Bool) :
    Sound json before (r.step json load (.restart readable))
      ∧ Later r (r.step json load (.restart readable)) := by
  have hlen : (r.history.take (r.held + 1)).length = r.held + 1 := by
    rw [List.length_take, length_history]
    have hheld := h.held
    omega
  have hsame (i : ℕ) (hi : i ≤ r.held) :
      (r.step json load (.restart readable)).history[i]? = r.history[i]? := by
    change (r.history.take (r.held + 1) ++ [_])[i]? = _
    rw [List.getElem?_append_left (by omega), List.getElem?_take_of_lt (by omega)]
  have hcontent : (r.step json load (.restart readable)).disk.content = r.disk.content :=
    Disk.content_start _ _
  refine ⟨⟨Disk.clean_start _ _, ?_, ?_, nofun, fun _ _ => rfl, nofun, fun a value hmem => ?_⟩,
    le_refl _, hsame⟩
  · change r.held ≤ (r.history.take (r.held + 1)).length
    omega
  · rcases h.holds with ⟨hzero, hfirst⟩ | ⟨v, b, hv, hb, hfile⟩
    · exact .inl ⟨hzero, hcontent.trans hfirst⟩
    · exact .inr ⟨v, b, (hsame _ (le_refl _)).trans hv, hb, hcontent.trans hfile⟩
  · obtain ⟨hle, hv⟩ := h.kept a value hmem
    exact ⟨hle, (hsame _ hle).trans hv⟩

theorem Sound.step (load : Option (List UInt8) → S) (h : Sound json before r) (act : Act S) :
    Sound json before (r.step json load act) ∧ Later r (r.step json load act) := by
  cases act with
  | change value => exact h.change value
  | ask task =>
    rw [Register.step]
    split
    · rename_i hnone
      exact ⟨h.ask hnone, le_refl _, fun _ _ => rfl⟩
    · exact ⟨h, .refl r⟩
  | turn task t =>
    rw [Register.step]
    cases hget : r.saves.get? task with
    | none => exact ⟨h, .refl r⟩
    | some save => exact h.turn hget t
  | restart readable => exact h.restart load readable

theorem Sound.run (load : Option (List UInt8) → S) (h : Sound json before r) (acts : List (Act S)) :
    Sound json before (acts.foldl (Register.step json load) r)
      ∧ Later r (acts.foldl (Register.step json load) r) := by
  induction acts generalizing r with
  | nil => exact ⟨h, .refl r⟩
  | cons act rest ih =>
    obtain ⟨hstep, hlater⟩ := h.step load act
    obtain ⟨hrun, hrest⟩ := ih hstep
    refine ⟨hrun, hlater.held.trans hrest.held, fun i hi => ?_⟩
    exact (hrest.same i (hi.trans hlater.held)).trans (hlater.same i hi)

theorem sound_open (load : Option (List UInt8) → S) (left : Option (List UInt8)) :
    Sound json before (open_ load before left) where
  clean := Disk.clean_start before left
  held := le_refl _
  holds := .inl ⟨rfl, Disk.content_start before left⟩
  placed := nofun
  free := fun _ _ => rfl
  locked := nofun
  kept := nofun

end

/-- Whatever changes the register, whoever saves it, and whenever the server stops or a write fails:
the file always holds one value whole, or what it did at first; it never goes back to an older one;
and what a save that came through was asked to save, the file holds that value or one that came
after it, for good. -/
theorem saved_for_good {S : Type} (json : S → Option (List UInt8)) (load : Option (List UInt8) → S)
    (before left : Option (List UInt8)) (acts later : List (Act S)) :
    Holds json before ((acts ++ later).foldl (step json load) (open_ load before left))
      ∧ (acts.foldl (step json load) (open_ load before left)).held
        ≤ ((acts ++ later).foldl (step json load) (open_ load before left)).held
      ∧ ∀ a value, (a, value) ∈ (acts.foldl (step json load) (open_ load before left)).kept →
        a ≤ ((acts ++ later).foldl (step json load) (open_ load before left)).held
          ∧ ((acts ++ later).foldl (step json load) (open_ load before left)).history[a]?
            = some value := by
  have hopen : Sound json before (open_ load before left) := sound_open load left
  obtain ⟨hsound, -⟩ := hopen.run load acts
  obtain ⟨hsound', hlater⟩ := hsound.run load later
  rw [List.foldl_append]
  refine ⟨hsound'.holds, hlater.held, fun a value hmem => ?_⟩
  obtain ⟨hle, hvalue⟩ := hsound.kept a value hmem
  exact ⟨hle.trans hlater.held, (hlater.same a hle).trans hvalue⟩

end Register

end BeforeColony
