import BeforeColony.Lib.CountingSort
import BeforeColony.Sim.Rock

/-!
# The field's grid

The debris field lists each rock in every cell that its bounds touch, the cells hashed into
buckets. A box is answered from the buckets of its cells: a rock is reported from the cell that
holds the low corner of where its bounds and the box meet, once for each time that the cell's
bucket lists it (`count_calls`). That is once, unless another of the rock's cells falls into the
same bucket. A sweep takes the earliest hit of the rocks reported; a rock that its box misses is
met by none but one that starts within a hair's breadth (`Rock.sweep_of_missed`).
-/

set_option autoImplicit false

namespace BeforeColony

open Lib Lib.CountingSort

namespace Debris

@[irreducible] def buckets : ℕ := 2048

theorem buckets_pos : 0 < buckets := by
  unfold buckets
  decide

def bucket (c : Cell) : ℕ := Cell.bucket buckets c

theorem bucket_lt (c : Cell) : bucket c < buckets := Cell.bucket_lt buckets_pos c

def maxRocks : ℕ := 1023

variable {K : Type*} [Scalar K]

/-- The cell of a point, of edge 256 m. -/
def cellOf (p : Vec K) : Cell := Cell.cellOf 256 p

def Rock.cells (k : Rock K) : List Cell :=
  Cell.block (cellOf (k.pos.sub (.splat k.radius))) (cellOf (k.pos.add (.splat k.radius)))

def Rock.corner (k : Rock K) (lo : Vec K) : Cell := cellOf ((k.pos.sub (.splat k.radius)).max lo)

/-- The rocks, and a grid listing each in every cell its bounds touch. -/
structure RockField (K : Type*) [Scalar K] where
  rocks : List (Rock K)
  bucketStart : ℕ → ℕ
  items : ℕ → ℕ
  /-- Rocks shattered: nothing meets them until they grow back. -/
  dead : ℕ → Bool

namespace RockField

/-- The first pass: each bucket's entries, one place up. -/
def countRock (start : ℕ → ℕ) (k : Rock K) : ℕ → ℕ :=
  k.cells.foldl (fun start c => tally start (bucket c + 1)) start

def addStart (start : ℕ → ℕ) (b : ℕ) : ℕ → ℕ :=
  Function.update start (b + 1) (start (b + 1) + start b)

/-- The third: a rock's index goes to the next place of each of its buckets, as a `u16`. -/
def listRock (s : Filling ℕ) (e : Rock K × ℕ) : Filling ℕ :=
  e.1.cells.foldl (fun s c => s.put (bucket c, e.2 % 2 ^ 16)) s

def index (rocks : List (Rock K)) : RockField K :=
  let bucketStart := (List.range buckets).foldl addStart (rocks.foldl countRock fun _ => 0)
  { rocks
    bucketStart
    items := (rocks.zipIdx.foldl listRock ⟨bucketStart, fun _ => 0⟩).items
    dead := fun _ => false }

def fromRocks (given : List (Rock K)) : RockField K := index (given.take maxRocks)

/-- Marks a rock shattered, or grown back. -/
def setDead (f : RockField K) (i : ℕ) (dead : Bool) : RockField K :=
  if i < f.rocks.length then { f with dead := Function.update f.dead i dead } else f

/-- What a rock's bucket reports of place `k`: its rock, if its bounds overlap the box and the cell
is the one with the low corner. -/
def reports (f : RockField K) (lo hi : Vec K) (c : Cell) (i : ℕ) : Bool :=
  f.rocks[i]?.any fun k => k.Overlaps lo hi && k.corner lo = c

def forEachInBox (f : RockField K) (lo hi : Vec K) : List ℕ :=
  if f.rocks.isEmpty then []
  else if Cell.count (cellOf lo) (cellOf hi) > buckets then
    (List.range f.rocks.length).filter fun i => f.rocks[i]?.any fun k => k.Overlaps lo hi
  else
    (Cell.block (cellOf lo) (cellOf hi)).flatMap fun c =>
      (slice f.items (f.bucketStart (bucket c)) (f.bucketStart (bucket c + 1))).filter
        (f.reports lo hi c)

def hit (sqrt : K → K) (f : RockField K) (a b : Vec K) (r : K) (i : ℕ) : Option K :=
  if f.dead i then none else f.rocks[i]?.bind fun k => k.sweep sqrt a b r

/-- The earlier of the best hit so far and rock `i`'s. -/
def better (sqrt : K → K) (f : RockField K) (a b : Vec K) (r : K) (best : Option (K × ℕ)) (i : ℕ) :
    Option (K × ℕ) :=
  match f.hit sqrt a b r i with
  | none => best
  | some t => if best.all fun o => t < o.1 then some (t, i) else best

/-- The box of a ball's way from `a` to `b`. -/
def sweptLo (a b : Vec K) (r : K) : Vec K := (a.min b).sub (.splat r)

def sweptHi (a b : Vec K) (r : K) : Vec K := (a.max b).add (.splat r)

/-- The first rock a ball of radius `r` meets moving from `a` to `b`: how far along, and which. -/
def sweep (sqrt : K → K) (f : RockField K) (a b : Vec K) (r : K) : Option (K × ℕ) :=
  (f.forEachInBox (sweptLo a b r) (sweptHi a b r)).foldl
    (f.better sqrt a b r) none

/-! ### The grid lists each rock in each of its cells -/

variable {rocks : List (Rock K)} {f : RockField K} {k : Rock K} {lo hi : Vec K} {i : ℕ} {c : Cell}

/-- The rocks' indices under their buckets. -/
def keyed (rocks : List (Rock K)) : List (ℕ × ℕ) :=
  rocks.zipIdx.flatMap fun e => e.1.cells.map fun c => (bucket c, e.2)

/-- Each bucket's slice has its rocks, as often as they are listed there. -/
structure Indexed (f : RockField K) : Prop where
  few : f.rocks.length ≤ maxRocks
  bucket : ∀ b < buckets, slice f.items (f.bucketStart b) (f.bucketStart (b + 1))
    = withKey (keyed f.rocks) b

theorem foldl_countRock (rocks : List (Rock K)) (start : ℕ → ℕ) (n : ℕ) :
    rocks.foldl countRock start
      = (((rocks.zipIdx n).flatMap fun e => e.1.cells.map fun c => (bucket c, e.2)).map
          fun e => e.1 + 1).foldl tally start := by
  induction rocks generalizing start n with
  | nil => rfl
  | cons k rest ih =>
    rw [List.foldl_cons, ih _ (n + 1), List.zipIdx_cons, List.flatMap_cons, List.map_append,
      List.foldl_append, List.map_map]
    congr 1
    rw [countRock, List.foldl_map]
    rfl

theorem foldl_addStart (keys : List ℕ) {start : ℕ → ℕ} (hzero : start 0 = 0)
    (hcount : ∀ b, start (b + 1) = keys.count b) (m : ℕ) :
    (∀ b ≤ m, (List.range m).foldl addStart start b = below keys b)
      ∧ ∀ b, m ≤ b → (List.range m).foldl addStart start (b + 1) = keys.count b := by
  induction m with
  | zero =>
    refine ⟨fun b hb => ?_, fun b _ => hcount b⟩
    rw [Nat.le_zero.mp hb, below_zero]
    exact hzero
  | succ m ih =>
    obtain ⟨hstart, hrest⟩ := ih
    rw [List.range_succ, List.foldl_append, List.foldl_cons, List.foldl_nil]
    generalize (List.range m).foldl addStart start = s at hstart hrest
    refine ⟨fun b hb => ?_, fun b hb => ?_⟩
    · unfold addStart
      rcases Nat.eq_or_lt_of_le hb with rfl | hlt
      · rw [Function.update_self, hrest m le_rfl, hstart m le_rfl, below_succ, Nat.add_comm]
      · rw [Function.update_of_ne hlt.ne]
        exact hstart b (Nat.le_of_lt_succ hlt)
    · unfold addStart
      rw [Function.update_of_ne (by omega)]
      exact hrest b (by omega)

theorem foldl_listRock (rocks : List (Rock K)) {n : ℕ} (hfew : n + rocks.length ≤ 2 ^ 16)
    (s : Filling ℕ) :
    (rocks.zipIdx n).foldl listRock s
      = ((rocks.zipIdx n).flatMap fun e => e.1.cells.map fun c => (bucket c, e.2)).foldl
          Filling.put s := by
  induction rocks generalizing n s with
  | nil => rfl
  | cons k rest ih =>
    rw [List.length_cons] at hfew
    rw [List.zipIdx_cons, List.foldl_cons, List.flatMap_cons, List.foldl_append,
      ih (by omega)]
    congr 1
    rw [listRock, List.foldl_map, Nat.mod_eq_of_lt (show n < 2 ^ 16 by omega)]

theorem keys_lt {e : ℕ × ℕ} (he : e ∈ keyed rocks) : e.1 < buckets := by
  obtain ⟨e', _, he'⟩ := List.mem_flatMap.mp he
  obtain ⟨c, _, rfl⟩ := List.mem_map.mp he'
  exact bucket_lt c

theorem indexed_index (hfew : rocks.length ≤ maxRocks) : (index rocks).Indexed := by
  have hzero : rocks.foldl countRock (fun _ => 0) 0 = 0 := by
    rw [foldl_countRock rocks _ 0, foldl_tally]
    refine (Nat.zero_add _).trans (List.count_eq_zero.mpr fun hmem => ?_)
    obtain ⟨e, _, he⟩ := List.mem_map.mp hmem
    exact Nat.succ_ne_zero _ he
  have hcount (b : ℕ) :
      rocks.foldl countRock (fun _ => 0) (b + 1) = ((keyed rocks).map (·.1)).count b := by
    rw [foldl_countRock rocks _ 0, foldl_tally, Nat.zero_add, ← Function.comp_def Nat.succ,
      ← List.map_map]
    exact List.count_map_of_injective _ _ Nat.succ_injective _
  have hstart := (foldl_addStart _ hzero hcount buckets).1
  refine ⟨hfew, fun b hb => ?_⟩
  have hlist := foldl_listRock rocks (n := 0) (by unfold maxRocks at hfew; omega)
    ⟨(List.range buckets).foldl addStart (rocks.foldl countRock fun _ => 0), fun _ => 0⟩
  unfold index
  dsimp only
  rw [hlist, hstart b hb.le, hstart (b + 1) hb]
  exact slice_scatter (fun e he => keys_lt he) (fun b hb => hstart b hb.le) hb

theorem indexed_fromRocks (given : List (Rock K)) : (fromRocks given).Indexed :=
  indexed_index (List.length_take_le _ _)

theorem indexed_setDead (h : f.Indexed) (i : ℕ) (dead : Bool) : (f.setDead i dead).Indexed := by
  unfold setDead
  split
  · exact ⟨h.few, h.bucket⟩
  · exact h

/-! ### How often a rock is reported -/

theorem count_flatMap_single {α β : Type*} [BEq β] [LawfulBEq β] {l : List α} {g : α → List β} {a : α}
    {x : β} (hl : l.Nodup) (ha : a ∈ l) (hother : ∀ a' ∈ l, a' ≠ a → x ∉ g a') :
    (l.flatMap g).count x = (g a).count x := by
  induction l with
  | nil => cases ha
  | cons a' rest ih =>
    rw [List.nodup_cons] at hl
    rw [List.forall_mem_cons] at hother
    rw [List.flatMap_cons, List.count_append]
    rcases List.mem_cons.mp ha with rfl | hrest
    · have hnone : x ∉ rest.flatMap g := by
        intro hx
        obtain ⟨a', ha', hx'⟩ := List.mem_flatMap.mp hx
        have hne : a' ≠ a := by
          rintro rfl
          exact hl.1 ha'
        exact hother.2 a' ha' hne hx'
      rw [List.count_eq_zero.mpr hnone, Nat.add_zero]
    · have hne : a' ≠ a := by
        rintro rfl
        exact hl.1 hrest
      rw [List.count_eq_zero.mpr (hother.1 hne), Nat.zero_add]
      exact ih hl.2 hrest hother.2

/-- One entry of a list meets a condition exactly when no other than a given one does. -/
theorem countP_eq_one_iff {α : Type*} {l : List α} {p : α → Bool} {a : α} (hl : l.Nodup)
    (ha : a ∈ l) (hp : p a = true) : l.countP p = 1 ↔ ∀ c ∈ l, p c = true → c = a := by
  have hmem : a ∈ l.filter p := List.mem_filter.mpr ⟨ha, hp⟩
  rw [List.countP_eq_length_filter]
  constructor
  · intro hone c hc hpc
    obtain ⟨x, hx⟩ := List.length_eq_one_iff.mp hone
    have hc' : c ∈ l.filter p := List.mem_filter.mpr ⟨hc, hpc⟩
    rw [hx, List.mem_singleton] at hmem hc'
    rw [hc', hmem]
  · intro hall
    have hperm : (l.filter p).Perm [a] := by
      refine (List.perm_ext_iff_of_nodup (hl.filter _) (List.nodup_singleton a)).mpr fun c => ?_
      rw [List.mem_singleton, List.mem_filter]
      constructor
      · rintro ⟨hc, hpc⟩
        exact hall c hc hpc
      · rintro rfl
        exact ⟨ha, hp⟩
    exact hperm.length_eq

theorem nodup_zipIdx (rocks : List (Rock K)) : rocks.zipIdx.Nodup := by
  have hids : (rocks.zipIdx.map Prod.snd).Nodup := by
    rw [List.zipIdx_map_snd]
    exact List.nodup_range'
  exact hids.of_map _

/-- A bucket lists a rock once for each of its cells that falls into it. -/
theorem count_keyed (hk : rocks[i]? = some k) (b : ℕ) :
    (withKey (keyed rocks) b).count i = k.cells.countP fun c => bucket c = b := by
  rw [count_withKey, keyed]
  have hmem : (k, i) ∈ rocks.zipIdx := List.mem_zipIdx_iff_getElem?.mpr hk
  rw [count_flatMap_single (nodup_zipIdx rocks) hmem ?_]
  · rw [List.count, List.countP_map]
    refine List.countP_congr fun c _ => ?_
    rw [Function.comp_apply, beq_iff_eq, decide_eq_true_eq, Prod.mk.injEq]
    exact and_iff_left rfl
  · rintro ⟨k', j⟩ hk' hne hin
    obtain ⟨c, _, hc⟩ := List.mem_map.mp hin
    have hj : j = i := congrArg Prod.snd hc
    subst hj
    have hsame : some k' = some k := (List.mem_zipIdx_iff_getElem?.mp hk').symm.trans hk
    cases hsame
    exact hne rfl

theorem mem_forEachInBox (h : i ∈ f.forEachInBox lo hi) :
    ∃ k, f.rocks[i]? = some k ∧ k.Overlaps lo hi := by
  unfold forEachInBox at h
  split at h
  · cases h
  · split at h
    · have hany := (List.mem_filter.mp h).2
      cases hk : f.rocks[i]? with
      | none => simp [hk] at hany
      | some k =>
        rw [hk, Option.any_some, decide_eq_true_eq] at hany
        exact ⟨k, rfl, hany⟩
    · obtain ⟨c, -, hc⟩ := List.mem_flatMap.mp h
      have hany := (List.mem_filter.mp hc).2
      unfold reports at hany
      cases hk : f.rocks[i]? with
      | none => simp [hk] at hany
      | some k =>
        rw [hk, Option.any_some, Bool.and_eq_true, decide_eq_true_eq] at hany
        exact ⟨k, rfl, hany.1⟩

theorem Rock.splat_le (k : Rock K) :
    (k.pos.sub (.splat k.radius)).Le (k.pos.add (.splat k.radius)) := by
  have hpos := k.radius_pos
  simp only [Vec.Le, Vec.sub, Vec.add, Vec.splat]
  refine ⟨?_, ?_, ?_⟩ <;> linarith

theorem nodup_cells (k : Rock K) : k.cells.Nodup := Cell.nodup_block _ _

theorem corner_mem_cells (h : k.Overlaps lo hi) : k.corner lo ∈ k.cells := by
  obtain ⟨hx, hy, hz⟩ := Rock.splat_le k
  obtain ⟨hx', hy', hz'⟩ := h.2
  refine Cell.mem_block.mpr (Cell.cellOf_between (by norm_num) ?_ ?_)
  · exact ⟨le_max_left _ _, le_max_left _ _, le_max_left _ _⟩
  · exact ⟨max_le hx hx', max_le hy hy', max_le hz hz'⟩

theorem corner_mem_block (hbox : lo.Le hi) (h : k.Overlaps lo hi) :
    k.corner lo ∈ Cell.block (cellOf lo) (cellOf hi) := by
  obtain ⟨hx, hy, hz⟩ := hbox
  obtain ⟨hx', hy', hz'⟩ := h.1
  refine Cell.mem_block.mpr (Cell.cellOf_between (by norm_num) ?_ ?_)
  · exact ⟨le_max_right _ _, le_max_right _ _, le_max_right _ _⟩
  · exact ⟨max_le hx' hx, max_le hy' hy, max_le hz' hz⟩

/-- A rock that overlaps the box is reported once by the whole list, and by the grid once for each
of its cells in the bucket of the reporting one. -/
theorem count_calls (h : f.Indexed) (hbox : lo.Le hi) (hk : f.rocks[i]? = some k) :
    (f.forEachInBox lo hi).count i =
      if k.Overlaps lo hi then
        if Cell.count (cellOf lo) (cellOf hi) > buckets then 1
        else k.cells.countP fun c => bucket c = bucket (k.corner lo)
      else 0 := by
  by_cases hoverlaps : k.Overlaps lo hi
  · have hlt : i < f.rocks.length := (List.getElem?_eq_some_iff.mp hk).1
    have hsome : f.rocks.isEmpty = false := by
      rw [List.isEmpty_eq_false_iff_exists_mem]
      exact ⟨k, List.mem_of_getElem? hk⟩
    rw [if_pos hoverlaps, forEachInBox, hsome, if_neg (by decide)]
    split
    · rw [List.count_filter (by simp [hk, hoverlaps])]
      exact List.count_eq_one_of_mem List.nodup_range (List.mem_range.mpr hlt)
    · rw [count_flatMap_single (Cell.nodup_block _ _) (corner_mem_block hbox hoverlaps) ?_]
      · rw [List.count_filter (by simp [reports, hk, hoverlaps]), h.bucket _ (bucket_lt _),
          count_keyed hk]
      · intro c _ hne hin
        have hreports := (List.mem_filter.mp hin).2
        simp only [reports, hk, Option.any_some, Bool.and_eq_true, decide_eq_true_eq] at hreports
        exact hne hreports.2.symm
  · rw [if_neg hoverlaps]
    refine List.count_eq_zero.mpr fun hmem => ?_
    obtain ⟨k', hk', hoverlaps'⟩ := mem_forEachInBox hmem
    rw [hk] at hk'
    cases hk'
    exact hoverlaps hoverlaps'

/-- For the box from `lo` to `hi`, `f` is called once with each rock whose bounds overlap it, and
with no other. -/
def CallsOnce (f : RockField K) (lo hi : Vec K) : Prop :=
  ∀ i k, f.rocks[i]? = some k →
    (f.forEachInBox lo hi).count i = if k.Overlaps lo hi then 1 else 0

/-- The box has more cells than there are buckets, or no rock that overlaps it has another cell in
the bucket that reports it. -/
def CellsApart (f : RockField K) (lo hi : Vec K) : Prop :=
  Cell.count (cellOf lo) (cellOf hi) > buckets ∨
    ∀ k ∈ f.rocks, k.Overlaps lo hi →
      ∀ c ∈ k.cells, bucket c = bucket (k.corner lo) → c = k.corner lo

theorem callsOnce_iff (h : f.Indexed) (hbox : lo.Le hi) : f.CallsOnce lo hi ↔ f.CellsApart lo hi := by
  have hone (k : Rock K) (hk : k.Overlaps lo hi) :
      (k.cells.countP fun c => bucket c = bucket (k.corner lo)) = 1 ↔
        ∀ c ∈ k.cells, bucket c = bucket (k.corner lo) → c = k.corner lo := by
    have hiff := countP_eq_one_iff (p := fun c => decide (bucket c = bucket (k.corner lo)))
      (nodup_cells k) (corner_mem_cells hk) (decide_eq_true rfl)
    simpa only [decide_eq_true_eq] using hiff
  unfold CallsOnce CellsApart
  by_cases hhuge : Cell.count (cellOf lo) (cellOf hi) > buckets
  · refine iff_of_true (fun i k hk => ?_) (.inl hhuge)
    rw [count_calls h hbox hk, if_pos hhuge]
  · rw [or_iff_right hhuge]
    constructor
    · intro hcalls k hmem hk
      obtain ⟨i, hget⟩ := List.mem_iff_getElem?.mp hmem
      have hcount := hcalls i k hget
      rw [count_calls h hbox hget, if_pos hk, if_pos hk, if_neg hhuge] at hcount
      exact (hone k hk).mp hcount
    · intro hall i k hget
      rw [count_calls h hbox hget]
      split
      · rename_i hk
        exact (hone k hk).mpr (hall k (List.mem_of_getElem? hget) hk)
      · rfl

theorem mem_calls (h : f.Indexed) (hbox : lo.Le hi) (hk : f.rocks[i]? = some k)
    (hoverlaps : k.Overlaps lo hi) : i ∈ f.forEachInBox lo hi := by
  have hcount := count_calls h hbox hk
  rw [if_pos hoverlaps] at hcount
  refine List.count_pos_iff.mp ?_
  rw [hcount]
  split
  · exact Nat.zero_lt_one
  · exact List.countP_pos_iff.mpr ⟨_, corner_mem_cells hoverlaps, decide_eq_true rfl⟩

/-! ### Sweeps -/

variable {sqrt : K → K} {a b : Vec K} {r t : K}

/-- The earliest hit over all live rocks, or none if there is none. -/
structure FirstHit (sqrt : K → K) (f : RockField K) (a b : Vec K) (r : K)
    (o : Option (K × ℕ)) : Prop where
  none : o = none → ∀ j, f.hit sqrt a b r j = none
  some : ∀ t i, o = some (t, i) →
    f.hit sqrt a b r i = some t ∧ ∀ j t', f.hit sqrt a b r j = some t' → t ≤ t'

def Starts (f : RockField K) (a b : Vec K) (r : K) (i : ℕ) (k : Rock K) : Prop :=
  f.rocks[i]? = some k ∧ f.dead i = false ∧ k.TouchedAt a b r

/-- No live rock is touched at the start that the sweep's box misses, unless one is that it
overlaps. -/
def BoxTells (f : RockField K) (a b : Vec K) (r : K) : Prop :=
  (∃ i k, f.Starts a b r i k
    ∧ ¬ k.Overlaps (sweptLo a b r) (sweptHi a b r)) →
  ∃ i k, f.Starts a b r i k
    ∧ k.Overlaps (sweptLo a b r) (sweptHi a b r)

/-- Going over some of the rocks keeps the earliest hit of theirs. -/
theorem foldl_better (sqrt : K → K) (f : RockField K) (a b : Vec K) (r : K) (l : List ℕ) :
    (l.foldl (f.better sqrt a b r) none = none → ∀ j ∈ l, f.hit sqrt a b r j = none)
      ∧ ∀ t i, l.foldl (f.better sqrt a b r) none = some (t, i) →
          i ∈ l ∧ f.hit sqrt a b r i = some t
            ∧ ∀ j ∈ l, ∀ t', f.hit sqrt a b r j = some t' → t ≤ t' := by
  induction l using List.reverseRecOn with
  | nil => exact ⟨fun _ j hj => absurd hj List.not_mem_nil, fun t i h => (by cases h)⟩
  | append_singleton l i ih =>
    obtain ⟨hnone, hsome⟩ := ih
    rw [List.foldl_append, List.foldl_cons, List.foldl_nil]
    generalize l.foldl (f.better sqrt a b r) none = best at hnone hsome
    unfold better
    cases hi : f.hit sqrt a b r i with
    | none =>
      refine ⟨fun hbest j hj => ?_, fun t j hbest => ?_⟩
      · rcases List.mem_append.mp hj with hj | hj
        · exact hnone hbest j hj
        · rw [List.mem_singleton.mp hj, hi]
      · obtain ⟨hmem, hhit, hle⟩ := hsome t j hbest
        refine ⟨List.mem_append_left _ hmem, hhit, fun q hq t' hq' => ?_⟩
        rcases List.mem_append.mp hq with hq | hq
        · exact hle q hq t' hq'
        · rw [List.mem_singleton.mp hq, hi] at hq'
          cases hq'
    | some t =>
      dsimp only
      split
      · rename_i hbetter
        refine ⟨fun h => (by cases h), fun t₀ i₀ h => ?_⟩
        cases h
        refine ⟨List.mem_append_right _ List.mem_cons_self, hi, fun q hq t' hq' => ?_⟩
        rcases List.mem_append.mp hq with hq | hq
        · cases hbest : best with
          | none =>
            rw [hnone hbest q hq] at hq'
            cases hq'
          | some o =>
            rw [hbest, Option.all_some, decide_eq_true_eq] at hbetter
            exact hbetter.le.trans ((hsome o.1 o.2 hbest).2.2 q hq t' hq')
        · rw [List.mem_singleton.mp hq, hi] at hq'
          cases hq'
          exact le_rfl
      · rename_i hworse
        cases hbest : best with
        | none => exact absurd (by rw [hbest]; rfl) hworse
        | some o =>
          rw [hbest, Option.all_some, decide_eq_true_eq, not_lt] at hworse
          refine ⟨fun h => (by cases h), fun t₀ i₀ h => ?_⟩
          cases h
          obtain ⟨hmem, hhit, hle⟩ := hsome t₀ i₀ hbest
          refine ⟨List.mem_append_left _ hmem, hhit, fun q hq t' hq' => ?_⟩
          rcases List.mem_append.mp hq with hq | hq
          · exact hle q hq t' hq'
          · rw [List.mem_singleton.mp hq, hi] at hq'
            cases hq'
            exact hworse

theorem hit_eq (hk : f.rocks[i]? = some k) (hlive : f.dead i = false) :
    f.hit sqrt a b r i = k.sweep sqrt a b r := by
  rw [hit, hlive, if_neg (by decide), hk, Option.bind_some]

theorem hit_some (h : f.hit sqrt a b r i = some t) :
    ∃ k, f.rocks[i]? = some k ∧ f.dead i = false ∧ k.sweep sqrt a b r = some t := by
  unfold hit at h
  split at h
  · cases h
  · rename_i hlive
    obtain ⟨k, hk, hsweep⟩ := Option.bind_eq_some_iff.mp h
    exact ⟨k, hk, Bool.eq_false_iff.mpr hlive, hsweep⟩

theorem Starts.hit (h : f.Starts a b r i k) : f.hit sqrt a b r i = some 0 := by
  rw [hit_eq h.1 h.2.1, Rock.sweep_of_touchedAt h.2.2]

theorem hit_nonneg (hsqrt : IsSqrt sqrt) (h : f.hit sqrt a b r i = some t) : 0 ≤ t := by
  obtain ⟨k, _, _, hsweep⟩ := hit_some h
  exact Rock.sweep_nonneg hsqrt hsweep

theorem swept_box (a b : Vec K) (hr : 0 ≤ r) :
    (sweptLo a b r).Le (sweptHi a b r) := by
  have haxis (u v : K) : min u v - r ≤ max u v + r := by
    have hle := min_le_max (a := u) (b := v)
    linarith
  exact ⟨haxis _ _, haxis _ _, haxis _ _⟩

/-- A live rock's hit is of one that the box reports, unless it is touched at the start. -/
theorem mem_of_hit (hsqrt : IsSqrt sqrt) (h : f.Indexed) (hr : 0 ≤ r)
    (hhit : f.hit sqrt a b r i = some t) :
    i ∈ f.forEachInBox (sweptLo a b r) (sweptHi a b r)
      ∨ ∃ k, f.Starts a b r i k
        ∧ ¬ k.Overlaps (sweptLo a b r) (sweptHi a b r) := by
  obtain ⟨k, hk, hlive, hsweep⟩ := hit_some hhit
  by_cases hoverlaps : k.Overlaps (sweptLo a b r) (sweptHi a b r)
  · exact .inl (mem_calls h (swept_box a b hr) hk hoverlaps)
  · refine .inr ⟨k, ⟨hk, hlive, ?_⟩, hoverlaps⟩
    by_contra htouched
    rw [Rock.sweep_of_missed hsqrt hr hoverlaps htouched] at hsweep
    cases hsweep

theorem sweep_firstHit_iff (hsqrt : IsSqrt sqrt) (h : f.Indexed) (hr : 0 ≤ r) :
    f.FirstHit sqrt a b r (f.sweep sqrt a b r) ↔ f.BoxTells a b r := by
  obtain ⟨hnone, hsome⟩ := foldl_better sqrt f a b r
    (f.forEachInBox (sweptLo a b r) (sweptHi a b r))
  change (f.sweep sqrt a b r = none → _) at hnone
  change (∀ t i, f.sweep sqrt a b r = some (t, i) → _) at hsome
  generalize f.sweep sqrt a b r = o at hnone hsome ⊢
  constructor
  · rintro hfirst ⟨j, k, hstarts, -⟩
    cases o with
    | none =>
      have hmiss := hfirst.none rfl j
      rw [hstarts.hit] at hmiss
      cases hmiss
    | some o =>
      obtain ⟨hmem, hhit, -⟩ := hsome o.1 o.2 rfl
      obtain ⟨k', hk', hoverlaps⟩ := mem_forEachInBox hmem
      obtain ⟨k'', hk'', hlive, hsweep⟩ := hit_some hhit
      rw [hk'] at hk''
      cases hk''
      refine ⟨o.2, k', ⟨hk', hlive, ?_⟩, hoverlaps⟩
      by_contra htouched
      have hle := (hfirst.some o.1 o.2 rfl).2 j 0 hstarts.hit
      exact absurd (Rock.sweep_some hsqrt htouched hsweep).1 (not_lt.mpr hle)
  · intro htells
    -- a hit that the box misses is at the start, and so is one that it reports
    have hmissed : ∀ j t', f.hit sqrt a b r j = some t' →
        j ∈ f.forEachInBox (sweptLo a b r) (sweptHi a b r)
          ∨ ∃ i ∈ f.forEachInBox (sweptLo a b r) (sweptHi a b r),
            f.hit sqrt a b r i = some 0 := by
      intro j t' hj
      rcases mem_of_hit hsqrt h hr hj with hmem | ⟨k, hstarts, hoverlaps⟩
      · exact .inl hmem
      · obtain ⟨i, k', hstarts', hoverlaps'⟩ := htells ⟨j, k, hstarts, hoverlaps⟩
        exact .inr ⟨i, mem_calls h (swept_box a b hr) hstarts'.1 hoverlaps', hstarts'.hit⟩
    refine ⟨fun ho j => ?_, fun t i ho => ?_⟩
    · cases hj : f.hit sqrt a b r j with
      | none => rfl
      | some t' =>
        rcases hmissed j t' hj with hmem | ⟨i, hi, hzero⟩
        · rw [hnone ho j hmem] at hj
          cases hj
        · rw [hnone ho i hi] at hzero
          cases hzero
    · obtain ⟨-, hhit, hle⟩ := hsome t i ho
      refine ⟨hhit, fun j t' hj => ?_⟩
      rcases hmissed j t' hj with hmem | ⟨i', hi', hzero⟩
      · exact hle j hmem t' hj
      · exact (hle i' hi' 0 hzero).trans (hit_nonneg hsqrt hj)

def field (given : List (Rock K)) (marks : List (ℕ × Bool)) : RockField K :=
  marks.foldl (fun f m => f.setDead m.1 m.2) (fromRocks given)

theorem indexed_field (given : List (Rock K)) (marks : List (ℕ × Bool)) :
    (field given marks).Indexed := by
  have hrun (f : RockField K) (h : f.Indexed) :
      (marks.foldl (fun f m => f.setDead m.1 m.2) f).Indexed := by
    induction marks generalizing f with
    | nil => exact h
    | cons m rest ih => exact ih _ (indexed_setDead h m.1 m.2)
  exact hrun _ (indexed_fromRocks given)

/-- Of any field, the grid reports the rocks of a box once each exactly where their cells keep
apart, and a sweep finds the earliest hit over all live rocks exactly where a rock touched at the
start is not missed for the box alone. -/
theorem grid_tells_list (hsqrt : IsSqrt sqrt) (given : List (Rock K)) (marks : List (ℕ × Bool)) :
    (∀ lo hi, lo.Le hi →
        ((field given marks).CallsOnce lo hi ↔ (field given marks).CellsApart lo hi))
      ∧ ∀ a b r, 0 ≤ r →
        ((field given marks).FirstHit sqrt a b r ((field given marks).sweep sqrt a b r)
          ↔ (field given marks).BoxTells a b r) := by
  have hindexed := indexed_field given marks
  exact ⟨fun lo hi hbox => callsOnce_iff hindexed hbox,
    fun a b r hr => sweep_firstHit_iff hsqrt hindexed hr⟩

theorem grid_tells_list_ball :
    (field [Rock.ball (.splat 0) 1 one_pos] []).FirstHit Real.sqrt ⟨-4, 0, 0⟩ ⟨4, 0, 0⟩ 1
      ((field [Rock.ball (.splat 0) 1 one_pos] []).sweep Real.sqrt ⟨-4, 0, 0⟩ ⟨4, 0, 0⟩ 1) := by
  refine ((grid_tells_list isSqrt_real _ []).2 ⟨-4, 0, 0⟩ ⟨4, 0, 0⟩ 1 zero_le_one).mpr ?_
  rintro ⟨i, k, ⟨hk, -⟩, hmiss⟩
  have hmem : k ∈ [Rock.ball (.splat (0 : ℝ)) 1 one_pos] := List.mem_of_getElem? hk
  rw [List.mem_singleton] at hmem
  subst hmem
  refine absurd ?_ hmiss
  simp only [Rock.Overlaps, Rock.ball, sweptLo, sweptHi, Vec.Le, Vec.sub, Vec.add, Vec.splat,
    Vec.min, Vec.max]
  norm_num

/-- A rock of 20 m astride four cells, of which those across fall into one bucket. -/
def astride : Rock ℚ := .ball ⟨-5632, -768, 128⟩ 20 (by norm_num)

/-- A box in one of its cells has `f` called twice with it. -/
theorem called_twice : ¬ ∀ (given : List (Rock ℚ)) (lo hi : Vec ℚ), lo.Le hi →
    (field given []).CallsOnce lo hi := by
  intro honce
  have hcalls := honce [astride] ⟨-5640, -776, 128⟩ ⟨-5636, -770, 128⟩ (by decide +kernel)
  rcases (callsOnce_iff (indexed_field _ _) (by decide +kernel)).mp hcalls with hhuge | hapart
  · exact absurd hhuge (by decide +kernel)
  · have heq := hapart astride List.mem_cons_self (by decide +kernel) ⟨-22, -3, 0⟩
      (by decide +kernel) (by decide +kernel)
    exact absurd heq (by decide +kernel)

end RockField

end Debris

end BeforeColony
