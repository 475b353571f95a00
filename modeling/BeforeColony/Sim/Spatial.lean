import Mathlib.Data.List.Dedup
import BeforeColony.Lib.CountingSort
import BeforeColony.Sim.Cells

/-!
# The suits' spatial hash

Which suits are near a box, by a grid rebuilt every tick with a counting sort. A query goes over the
buckets of the box's cells, or over every suit where the box has more cells than there are buckets,
and stamps each suit it meets so as to meet it once. Stamps are of a counter that wraps; those of
earlier queries are behind it (`Fresh`), so what a query answers depends on the latest build alone
(`queryBox_calls`).
-/

set_option autoImplicit false

namespace BeforeColony

open Lib.CountingSort

/-- The arrays and the counters. `items` has the built ids by bucket. -/
structure SpatialHash where
  bucketStart : ℕ → ℕ
  bucketFill : ℕ → ℕ
  items : ℕ → ℕ
  itemBucket : ℕ → ℕ
  stamp : ℕ → ℕ
  stampId : ℕ
  n : ℕ

namespace SpatialHash

@[irreducible] def buckets : ℕ := 4096

theorem buckets_pos : 0 < buckets := by
  unfold buckets
  decide

def bucket (c : Cell) : ℕ := Cell.bucket buckets c

def new : SpatialHash where
  bucketStart := fun _ => 0
  bucketFill := fun _ => 0
  items := fun _ => 0
  itemBucket := fun _ => 2 ^ 32 - 1
  stamp := fun _ => 0
  stampId := 0
  n := 0

section

variable {K : Type*} [Lib.Scalar K]

/-- The cell of a point, of edge 128 m. -/
def cellOf (p : Vec K) : Cell := Cell.cellOf 128 p

/-- The first pass of a build: an entry's bucket, and one more in it. -/
def countItem (s : SpatialHash) (e : ℕ × Vec K) : SpatialHash :=
  { s with
    itemBucket := Function.update s.itemBucket e.1 (bucket (cellOf e.2))
    bucketFill := tally s.bucketFill (bucket (cellOf e.2)) }

def startBucket (a : SpatialHash × ℕ) (b : ℕ) : SpatialHash × ℕ :=
  ({ a.1 with
      bucketStart := Function.update a.1.bucketStart b a.2
      bucketFill := Function.update a.1.bucketFill b a.2 },
    a.2 + a.1.bucketFill b)

/-- The third: an id goes to its bucket's next place, as a `u16`. -/
def placeItem (s : SpatialHash) (i : ℕ) : SpatialHash :=
  let b := s.itemBucket i
  let slot := s.bucketFill b
  { s with
    items := Function.update s.items slot (i % 2 ^ 16)
    bucketFill := tally s.bucketFill b }

def build (s : SpatialHash) (entries : List (ℕ × Vec K)) : SpatialHash :=
  let counted := entries.foldl countItem
    { s with bucketFill := fun _ => 0, itemBucket := fun _ => 2 ^ 32 - 1 }
  let started := (List.range buckets).foldl startBucket (counted, 0)
  (entries.map (·.1)).foldl placeItem
    { started.1 with
      bucketStart := Function.update started.1.bucketStart buckets started.2
      n := started.2 }

def nextStamp (s : SpatialHash) : SpatialHash :=
  let id := (s.stampId + 1) % 2 ^ 32
  if id = 0 then { s with stamp := fun _ => 0, stampId := 1 } else { s with stampId := id }

/-- Meets the id in a place, unless it is stamped, and calls `f` with it. -/
def meet (v : SpatialHash × List ℕ) (k : ℕ) : SpatialHash × List ℕ :=
  let i := v.1.items k
  if v.1.stamp i ≠ v.1.stampId then
    ({ v.1 with stamp := Function.update v.1.stamp i v.1.stampId }, v.2 ++ [i])
  else v

def places (s : SpatialHash) (min max : Vec K) : List ℕ :=
  if Cell.count (cellOf min) (cellOf max) > buckets then List.range s.n
  else (Cell.block (cellOf min) (cellOf max)).flatMap fun c =>
    List.range' (s.bucketStart (bucket c)) (s.bucketStart (bucket c + 1) - s.bucketStart (bucket c))

def queryBox (s : SpatialHash) (min max : Vec K) : SpatialHash × List ℕ :=
  (s.places min max).foldl meet (s.nextStamp, [])

end

/-! ### What a build leaves -/

variable {K : Type*} [Lib.Scalar K]
variable {s : SpatialHash} {entries : List (ℕ × Vec K)} {b i k cap : ℕ}

def keyed (entries : List (ℕ × Vec K)) : List (ℕ × ℕ) :=
  entries.map fun e => (bucket (cellOf e.2), e.1)

/-- The ids of the entries are apart, and are indices of the arrays. -/
def Fits (cap : ℕ) (entries : List (ℕ × Vec K)) : Prop :=
  (entries.map (·.1)).Nodup ∧ ∀ e ∈ entries, e.1 < cap

/-- The arrays are those of a build from the entries: each bucket's slice has its ids. -/
structure Built (s : SpatialHash) (entries : List (ℕ × Vec K)) : Prop where
  bucket : ∀ b < buckets, slice s.items (s.bucketStart b) (s.bucketStart (b + 1))
    = withKey (keyed entries) b
  whole : slice s.items 0 s.n = (List.range buckets).flatMap (withKey (keyed entries))

theorem bucket_lt (c : Cell) : bucket c < buckets := Cell.bucket_lt buckets_pos c

theorem keys_lt {e : ℕ × ℕ} (he : e ∈ keyed entries) : e.1 < buckets := by
  obtain ⟨e', _, rfl⟩ := List.mem_map.mp he
  exact bucket_lt _

theorem foldl_countItem (s : SpatialHash) (entries : List (ℕ × Vec K)) :
    (entries.foldl countItem s).bucketFill = ((keyed entries).map (·.1)).foldl tally s.bucketFill := by
  induction entries generalizing s with
  | nil => rfl
  | cons e rest ih => exact ih (s.countItem e)

theorem foldl_countItem_of_notMem (s : SpatialHash) (hi : i ∉ entries.map (·.1)) :
    (entries.foldl countItem s).itemBucket i = s.itemBucket i := by
  induction entries generalizing s with
  | nil => rfl
  | cons e rest ih =>
    rw [List.map_cons, List.mem_cons, not_or] at hi
    rw [List.foldl_cons, ih _ hi.2]
    exact Function.update_of_ne hi.1 _ _

theorem itemBucket_foldl_countItem (s : SpatialHash) (hids : (entries.map (·.1)).Nodup)
    {e : ℕ × Vec K} (he : e ∈ entries) :
    (entries.foldl countItem s).itemBucket e.1 = bucket (cellOf e.2) := by
  induction entries generalizing s with
  | nil => cases he
  | cons e' rest ih =>
    rw [List.map_cons, List.nodup_cons] at hids
    rw [List.foldl_cons]
    rcases List.mem_cons.mp he with rfl | hrest
    · rw [foldl_countItem_of_notMem _ hids.1]
      exact Function.update_self _ _ _
    · exact ih _ hids.2 hrest

/-- What passing over the first `m` buckets comes to. -/
theorem foldl_startBucket (s : SpatialHash) (keys : List ℕ) (hcount : ∀ b, s.bucketFill b = keys.count b)
    (m : ℕ) :
    ((List.range m).foldl startBucket (s, 0)).2 = below keys m
      ∧ (∀ b < m, ((List.range m).foldl startBucket (s, 0)).1.bucketStart b = below keys b)
      ∧ (∀ b < m, ((List.range m).foldl startBucket (s, 0)).1.bucketFill b = below keys b)
      ∧ ∀ b, m ≤ b → ((List.range m).foldl startBucket (s, 0)).1.bucketFill b = keys.count b := by
  induction m with
  | zero => exact ⟨(below_zero keys).symm, by simp, by simp, fun b _ => hcount b⟩
  | succ m ih =>
    obtain ⟨hacc, hstart, hfill, hrest⟩ := ih
    rw [List.range_succ, List.foldl_append, List.foldl_cons, List.foldl_nil]
    generalize (List.range m).foldl startBucket (s, 0) = a at hacc hstart hfill hrest
    refine ⟨?_, fun b hb => ?_, fun b hb => ?_, fun b hb => ?_⟩
    · show a.2 + a.1.bucketFill m = below keys (m + 1)
      rw [hacc, hrest m le_rfl, below_succ]
    · show Function.update a.1.bucketStart m a.2 b = below keys b
      by_cases hbm : b = m
      · rw [hbm, Function.update_self, hacc]
      · rw [Function.update_of_ne hbm]
        exact hstart b (by omega)
    · show Function.update a.1.bucketFill m a.2 b = below keys b
      by_cases hbm : b = m
      · rw [hbm, Function.update_self, hacc]
      · rw [Function.update_of_ne hbm]
        exact hfill b (by omega)
    · show Function.update a.1.bucketFill m a.2 b = keys.count b
      rw [Function.update_of_ne (by omega)]
      exact hrest b (by omega)

theorem itemBucket_foldl_startBucket (l : List ℕ) (a : SpatialHash × ℕ) :
    (l.foldl startBucket a).1.itemBucket = a.1.itemBucket := by
  induction l generalizing a with
  | nil => rfl
  | cons b rest ih => exact ih (startBucket a b)

/-- The third pass scatters the ids by their buckets. -/
theorem foldl_placeItem (s : SpatialHash) (hids : ∀ e ∈ entries, e.1 < 2 ^ 16)
    (hbuckets : ∀ e ∈ entries, s.itemBucket e.1 = bucket (cellOf e.2)) :
    ((entries.map (·.1)).foldl placeItem s).items
        = ((keyed entries).foldl Filling.put ⟨s.bucketFill, s.items⟩).items
      ∧ ((entries.map (·.1)).foldl placeItem s).bucketStart = s.bucketStart
      ∧ ((entries.map (·.1)).foldl placeItem s).n = s.n := by
  induction entries generalizing s with
  | nil => exact ⟨rfl, rfl, rfl⟩
  | cons e rest ih =>
    rw [List.forall_mem_cons] at hids hbuckets
    have hput : (⟨(s.placeItem e.1).bucketFill, (s.placeItem e.1).items⟩ : Filling ℕ)
        = Filling.put ⟨s.bucketFill, s.items⟩ (bucket (cellOf e.2), e.1) := by
      unfold placeItem Filling.put
      rw [hbuckets.1, Nat.mod_eq_of_lt hids.1]
    obtain ⟨hitems, hstart, hn⟩ := ih (s.placeItem e.1) hids.2 hbuckets.2
    refine ⟨?_, hstart, hn⟩
    rw [hput] at hitems
    exact hitems

/-- The third pass builds on what the first two leave. -/
theorem built_foldl_placeItem {t : SpatialHash × ℕ} (hsmall : ∀ e ∈ entries, e.1 < 2 ^ 16)
    (hacc : t.2 = below ((keyed entries).map (·.1)) buckets)
    (hstart : ∀ b < buckets, t.1.bucketStart b = below ((keyed entries).map (·.1)) b)
    (hfill : ∀ b < buckets, t.1.bucketFill b = below ((keyed entries).map (·.1)) b)
    (hbucket : ∀ e ∈ entries, t.1.itemBucket e.1 = bucket (cellOf e.2)) :
    ((entries.map (·.1)).foldl placeItem
      { t.1 with
        bucketStart := Function.update t.1.bucketStart buckets t.2
        n := t.2 }).Built entries := by
  obtain ⟨hitems, hstarts, hn⟩ := foldl_placeItem
    { t.1 with
      bucketStart := Function.update t.1.bucketStart buckets t.2
      n := t.2 } hsmall hbucket
  have hbelow : ∀ b ≤ buckets, Function.update t.1.bucketStart buckets t.2 b
      = below ((keyed entries).map (·.1)) b := by
    intro b hb
    rcases Nat.eq_or_lt_of_le hb with rfl | hlt
    · rw [Function.update_self, hacc]
    · rw [Function.update_of_ne hlt.ne, hstart b hlt]
  have hslice : ∀ b < buckets, slice ((keyed entries).foldl Filling.put
      ⟨t.1.bucketFill, t.1.items⟩).items (below ((keyed entries).map (·.1)) b)
      (below ((keyed entries).map (·.1)) (b + 1)) = withKey (keyed entries) b :=
    fun b hb => slice_scatter (fun e he => keys_lt he) hfill hb
  refine ⟨fun b hb => ?_, ?_⟩
  · rw [hitems, hstarts]
    dsimp only
    rw [hbelow b hb.le, hbelow (b + 1) hb]
    exact hslice b hb
  · rw [hitems, hn]
    dsimp only
    have hwhole := slice_zero (below_mono ((keyed entries).map (·.1)))
      ((keyed entries).foldl Filling.put ⟨t.1.bucketFill, t.1.items⟩).items buckets
    rw [below_zero] at hwhole
    rw [hacc, hwhole]
    exact List.flatMap_congr fun b hb => hslice b (List.mem_range.mp hb)

theorem built_build (s : SpatialHash) (hids : (entries.map (·.1)).Nodup)
    (hsmall : ∀ e ∈ entries, e.1 < 2 ^ 16) : (s.build entries).Built entries := by
  unfold build
  dsimp only
  have hcount := foldl_countItem
    { s with bucketFill := fun _ => 0, itemBucket := fun _ => 2 ^ 32 - 1 } entries
  have hbucket := fun e => @itemBucket_foldl_countItem K _ entries
    { s with bucketFill := fun _ => 0, itemBucket := fun _ => 2 ^ 32 - 1 } hids e
  generalize entries.foldl countItem
    { s with bucketFill := fun _ => 0, itemBucket := fun _ => 2 ^ 32 - 1 } = counted
    at hcount hbucket ⊢
  have htally : ∀ b, counted.bucketFill b = ((keyed entries).map (·.1)).count b := by
    intro b
    rw [hcount, foldl_tally]
    exact Nat.zero_add _
  obtain ⟨hacc, hstart, hfill, -⟩ := foldl_startBucket counted _ htally buckets
  have hsame := itemBucket_foldl_startBucket (List.range buckets) (counted, 0)
  exact built_foldl_placeItem hsmall hacc hstart hfill
    fun e he => (congrFun hsame e.1).trans (hbucket e he)

theorem built_new : new.Built ([] : List (ℕ × Vec K)) where
  bucket b _ := by simp [new, keyed, withKey]
  whole := by simp [new, keyed, withKey]

/-! ### What a query meets -/

def firsts (l : List ℕ) : List ℕ := l.reverse.dedup.reverse

theorem nodup_firsts (l : List ℕ) : (firsts l).Nodup :=
  List.nodup_reverse.mpr (List.nodup_dedup _)

theorem mem_firsts {l : List ℕ} : i ∈ firsts l ↔ i ∈ l := by
  simp [firsts]

theorem firsts_concat (l : List ℕ) (i : ℕ) :
    firsts (l ++ [i]) = if i ∈ l then firsts l else firsts l ++ [i] := by
  unfold firsts
  rw [List.reverse_append, List.reverse_singleton, List.singleton_append]
  split
  · rw [List.dedup_cons_of_mem (List.mem_reverse.mpr ‹_›)]
  · rw [List.dedup_cons_of_notMem (mt List.mem_reverse.mp ‹_›), List.reverse_cons]

def Fresh (s : SpatialHash) : Prop := s.stampId < 2 ^ 32 ∧ ∀ i, s.stamp i ≤ s.stampId

theorem foldl_meet (hstamp : ∀ i, s.stamp i < s.stampId) (ks : List ℕ) :
    (ks.foldl meet (s, [])).2 = firsts (ks.map s.items)
      ∧ (∃ stamp, (ks.foldl meet (s, [])).1 = { s with stamp }
        ∧ ∀ i, stamp i = if i ∈ ks.map s.items then s.stampId else s.stamp i) := by
  induction ks using List.reverseRecOn with
  | nil => exact ⟨rfl, s.stamp, rfl, fun i => by simp⟩
  | append_singleton ks k ih =>
    obtain ⟨hcalls, stamp, hs, hstamps⟩ := ih
    have hmet : stamp (s.items k) = s.stampId ↔ s.items k ∈ ks.map s.items := by
      rw [hstamps]
      split
      · exact ⟨fun _ => ‹_›, fun _ => rfl⟩
      · exact ⟨fun h => absurd h (hstamp _).ne, fun h => absurd h ‹_›⟩
    rw [List.foldl_append, List.foldl_cons, List.foldl_nil, List.map_append, List.map_singleton,
      firsts_concat]
    generalize ks.foldl meet (s, []) = v at hcalls hs
    unfold meet
    rw [hs]
    dsimp only
    by_cases hmem : s.items k ∈ ks.map s.items
    · rw [if_neg (not_not.mpr (hmet.mpr hmem)), if_pos hmem]
      refine ⟨hcalls, stamp, hs, fun i => ?_⟩
      rw [hstamps]
      by_cases hi : i = s.items k
      · simp [hi, hmem]
      · simp [hi]
    · rw [if_pos (mt hmet.mp hmem), if_neg hmem, hcalls]
      refine ⟨rfl, _, rfl, fun i => ?_⟩
      by_cases hi : i = s.items k
      · rw [hi, Function.update_self]
        simp
      · rw [Function.update_of_ne hi, hstamps]
        simp [hi]

theorem nextStamp_spec (h : s.Fresh) :
    (∃ stamp id, s.nextStamp = { s with stamp, stampId := id } ∧ id < 2 ^ 32 ∧ ∀ i, stamp i < id) := by
  unfold nextStamp
  dsimp only
  split
  · exact ⟨_, 1, rfl, by decide, fun _ => Nat.zero_lt_one⟩
  · rename_i hid
    refine ⟨s.stamp, _, rfl, Nat.mod_lt _ (by decide), fun i => ?_⟩
    -- the counter has not wrapped, so it is past every stamp
    have hle := h.2 i
    have hlt := h.1
    omega

/-- The ids a query looks at: of the buckets of the box's cells, or of all. -/
def candidates (entries : List (ℕ × Vec K)) (min max : Vec K) : List ℕ :=
  if Cell.count (cellOf min) (cellOf max) > buckets then
    (List.range buckets).flatMap (withKey (keyed entries))
  else (Cell.block (cellOf min) (cellOf max)).flatMap fun c => withKey (keyed entries) (bucket c)

theorem map_places (h : s.Built entries) (min max : Vec K) :
    (s.places min max).map s.items = candidates entries min max := by
  unfold places candidates
  split
  · rw [← h.whole]
    simp [slice, List.range_eq_range']
  · rw [List.map_flatMap]
    exact List.flatMap_congr fun c _ => h.bucket (bucket c) (bucket_lt c)

/-- A query of a fresh hash answers what the latest build has, whatever came before. -/
theorem queryBox_spec (hfresh : s.Fresh) (hbuilt : s.Built entries) (min max : Vec K) :
    (s.queryBox min max).2 = firsts (candidates entries min max)
      ∧ (s.queryBox min max).1.Fresh ∧ (s.queryBox min max).1.Built entries := by
  obtain ⟨stamp, id, hs, hid, hstamp⟩ := nextStamp_spec hfresh
  unfold queryBox
  rw [hs]
  obtain ⟨hcalls, stamp', hs', hstamp'⟩ :=
    foldl_meet (s := { s with stamp, stampId := id }) hstamp (s.places min max)
  refine ⟨?_, ?_, ?_⟩
  · rw [hcalls, ← map_places hbuilt]
  · rw [hs']
    refine ⟨hid, fun i => ?_⟩
    show stamp' i ≤ id
    rw [hstamp']
    split
    · exact le_rfl
    · exact (hstamp i).le
  · rw [hs']
    exact ⟨hbuilt.bucket, hbuilt.whole⟩

/-! ### Runs -/

inductive Op (K : Type*) where
  | build (entries : List (ℕ × Vec K))
  | query (min max : Vec K)

def apply (s : SpatialHash) : Op K → SpatialHash
  | .build entries => s.build entries
  | .query min max => (s.queryBox min max).1

def run (s : SpatialHash) (ops : List (Op K)) : SpatialHash := ops.foldl apply s

def Op.latest (entries : List (ℕ × Vec K)) : Op K → List (ℕ × Vec K)
  | .build entries' => entries'
  | .query _ _ => entries

/-- The entries of the latest build of a run. -/
def latest (ops : List (Op K)) : List (ℕ × Vec K) := ops.foldl Op.latest []

/-- Every build of a run is of ids that are apart and below the capacity. -/
def AllFit (cap : ℕ) (ops : List (Op K)) : Prop := ∀ entries, .build entries ∈ ops → Fits cap entries

theorem run_concat (s : SpatialHash) (ops : List (Op K)) (op : Op K) :
    s.run (ops ++ [op]) = (s.run ops).apply op := List.foldl_concat _ _ _ _

omit [Lib.Scalar K] in
theorem latest_concat (ops : List (Op K)) (op : Op K) :
    latest (ops ++ [op]) = op.latest (latest ops) := List.foldl_concat _ _ _ _

theorem fresh_new : new.Fresh := ⟨by decide, fun _ => le_rfl⟩

theorem stamps_build (s : SpatialHash) (entries : List (ℕ × Vec K)) :
    (s.build entries).stamp = s.stamp ∧ (s.build entries).stampId = s.stampId := by
  have hplace (l : List ℕ) (s : SpatialHash) :
      (l.foldl placeItem s).stamp = s.stamp ∧ (l.foldl placeItem s).stampId = s.stampId := by
    induction l generalizing s with
    | nil => exact ⟨rfl, rfl⟩
    | cons i rest ih => exact ih (s.placeItem i)
  have hstart (l : List ℕ) (a : SpatialHash × ℕ) :
      (l.foldl startBucket a).1.stamp = a.1.stamp
        ∧ (l.foldl startBucket a).1.stampId = a.1.stampId := by
    induction l generalizing a with
    | nil => exact ⟨rfl, rfl⟩
    | cons b rest ih => exact ih (startBucket a b)
  have hcount (l : List (ℕ × Vec K)) (s : SpatialHash) :
      (l.foldl countItem s).stamp = s.stamp ∧ (l.foldl countItem s).stampId = s.stampId := by
    induction l generalizing s with
    | nil => exact ⟨rfl, rfl⟩
    | cons e rest ih => exact ih (s.countItem e)
  have hkept (a : SpatialHash × ℕ) (starts : ℕ → ℕ) :
      ({ a.1 with bucketStart := starts, n := a.2 } : SpatialHash).stamp = a.1.stamp
        ∧ ({ a.1 with bucketStart := starts, n := a.2 } : SpatialHash).stampId = a.1.stampId :=
    ⟨rfl, rfl⟩
  unfold build
  dsimp only
  constructor
  · rw [(hplace _ _).1, (hkept _ _).1, (hstart _ _).1, (hcount _ _).1]
  · rw [(hplace _ _).2, (hkept _ _).2, (hstart _ _).2, (hcount _ _).2]

theorem fresh_build (h : s.Fresh) (entries : List (ℕ × Vec K)) : (s.build entries).Fresh := by
  unfold Fresh
  rw [(stamps_build s entries).1, (stamps_build s entries).2]
  exact h

theorem built_of_fits (hcap : cap ≤ 2 ^ 16) (h : Fits cap entries) (s : SpatialHash) :
    (s.build entries).Built entries :=
  built_build s h.1 fun e he => (h.2 e he).trans_le hcap

theorem keeps_run (hcap : cap ≤ 2 ^ 16) (ops : List (Op K)) (hops : AllFit cap ops) :
    (new.run ops).Fresh ∧ (new.run ops).Built (latest ops) := by
  induction ops using List.reverseRecOn with
  | nil => exact ⟨fresh_new, built_new⟩
  | append_singleton ops op ih =>
    obtain ⟨hfresh, hbuilt⟩ := ih fun entries he => hops entries (List.mem_append_left _ he)
    rw [run_concat, latest_concat]
    cases op with
    | build entries =>
      have hfits := hops entries (List.mem_append_right _ List.mem_cons_self)
      exact ⟨fresh_build hfresh entries, built_of_fits hcap hfits _⟩
    | query min max =>
      obtain ⟨-, hfresh', hbuilt'⟩ := queryBox_spec hfresh hbuilt min max
      exact ⟨hfresh', hbuilt'⟩

omit [Lib.Scalar K] in
theorem fits_latest (ops : List (Op K)) (hops : AllFit cap ops) : Fits cap (latest ops) := by
  induction ops using List.reverseRecOn with
  | nil => exact ⟨List.nodup_nil, fun e he => by cases he⟩
  | append_singleton ops op ih =>
    have hbefore := ih fun entries he => hops entries (List.mem_append_left _ he)
    rw [latest_concat]
    cases op with
    | build entries => exact hops entries (List.mem_append_right _ List.mem_cons_self)
    | query min max => exact hbefore

theorem mem_of_candidates {min max : Vec K} (h : i ∈ candidates entries min max) :
    ∃ p, (i, p) ∈ entries := by
  have hkeyed : ∀ b, i ∈ withKey (keyed entries) b → ∃ p, (i, p) ∈ entries := by
    intro b hb
    obtain ⟨e, he, heq⟩ := List.mem_map.mp (mem_withKey.mp hb)
    obtain ⟨-, rfl⟩ := Prod.mk.inj heq
    exact ⟨e.2, he⟩
  unfold candidates at h
  split at h
  · obtain ⟨b, -, hb⟩ := List.mem_flatMap.mp h
    exact hkeyed b hb
  · obtain ⟨c, -, hc⟩ := List.mem_flatMap.mp h
    exact hkeyed _ hc

theorem candidates_of_mem {min max p : Vec K} (he : (i, p) ∈ entries) (hmin : min.Le p)
    (hmax : p.Le max) : i ∈ candidates entries min max := by
  have hkeyed : i ∈ withKey (keyed entries) (bucket (cellOf p)) :=
    mem_withKey.mpr (List.mem_map.mpr ⟨(i, p), he, rfl⟩)
  unfold candidates
  split
  · exact List.mem_flatMap.mpr ⟨_, List.mem_range.mpr (bucket_lt _), hkeyed⟩
  · have hcell : cellOf p ∈ Cell.block (cellOf min) (cellOf max) :=
      Cell.mem_block.mpr (Cell.cellOf_between (by norm_num) hmin hmax)
    exact List.mem_flatMap.mpr ⟨_, hcell, hkeyed⟩

/-- After any run of builds and queries, however often the stamp has wrapped, a query calls `f` at
most once for an id, only for those of the latest build, for each of them whose position is in the
box, and just as it would on a hash that only the latest build was made in. -/
theorem query_finds_each_once (hcap : cap ≤ 2 ^ 16) (ops : List (Op K)) (hops : AllFit cap ops)
    (min max : Vec K) :
    ((new.run ops).queryBox min max).2.Nodup
      ∧ (∀ i ∈ ((new.run ops).queryBox min max).2, ∃ p, (i, p) ∈ latest ops)
      ∧ (∀ i p, (i, p) ∈ latest ops → min.Le p → p.Le max →
          i ∈ ((new.run ops).queryBox min max).2)
      ∧ ((new.run ops).queryBox min max).2
          = ((new.build (latest ops)).queryBox min max).2 := by
  obtain ⟨hfresh, hbuilt⟩ := keeps_run hcap ops hops
  obtain ⟨hcalls, -⟩ := queryBox_spec hfresh hbuilt min max
  have hlatest := built_of_fits hcap (fits_latest ops hops) new
  obtain ⟨hanew, -⟩ := queryBox_spec (fresh_build fresh_new (latest ops)) hlatest min max
  rw [hcalls, hanew]
  refine ⟨nodup_firsts _, fun i hi => ?_, fun i p he hmin hmax => ?_, rfl⟩
  · exact mem_of_candidates (mem_firsts.mp hi)
  · exact mem_firsts.mpr (candidates_of_mem he hmin hmax)

theorem query_finds_each_once_lone :
    7 ∈ ((new.run [.build [(7, (⟨100, -300, 5⟩ : Vec ℚ))], .query ⟨0, 0, 0⟩ ⟨1, 1, 1⟩]).queryBox
      (⟨0, -400, 0⟩ : Vec ℚ) ⟨200, 0, 10⟩).2 := by
  have hfit : AllFit 8 [.build [(7, (⟨100, -300, 5⟩ : Vec ℚ))], .query ⟨0, 0, 0⟩ ⟨1, 1, 1⟩] := by
    intro entries he
    simp only [List.mem_cons, Op.build.injEq, List.not_mem_nil, or_false, reduceCtorEq] at he
    subst he
    exact ⟨by decide, by decide⟩
  exact (query_finds_each_once (by decide) _ hfit _ _).2.2.1 7 ⟨100, -300, 5⟩ List.mem_cons_self
    (by decide +kernel) (by decide +kernel)

end SpatialHash

end BeforeColony
