import Mathlib.Data.List.Nodup
import Mathlib.Data.Nat.Bitwise
import Mathlib.Tactic.Positivity
import BeforeColony.Lib.Scalar

/-!
# Cells of a hashed grid

Space in cubes of one edge, each cube falling into one of a fixed number of buckets by a hash. The
suits' grid and the rocks' differ in the edge and in how many buckets there are. A point of a box is
in one of the cells from the cell of the box's low corner to that of its high one (`mem_block`,
`cellOf_between`). Points are of any ordered field.
-/

set_option autoImplicit false

namespace BeforeColony

structure Vec (K : Type*) where
  x : K
  y : K
  z : K
  deriving DecidableEq, Repr

namespace Vec

variable {K : Type*}

def splat (k : K) : Vec K := ⟨k, k, k⟩

def add [Add K] (p q : Vec K) : Vec K := ⟨p.x + q.x, p.y + q.y, p.z + q.z⟩

def sub [Sub K] (p q : Vec K) : Vec K := ⟨p.x - q.x, p.y - q.y, p.z - q.z⟩

def min [Min K] (p q : Vec K) : Vec K := ⟨Min.min p.x q.x, Min.min p.y q.y, Min.min p.z q.z⟩

def max [Max K] (p q : Vec K) : Vec K := ⟨Max.max p.x q.x, Max.max p.y q.y, Max.max p.z q.z⟩

def Le [LE K] (p q : Vec K) : Prop := p.x ≤ q.x ∧ p.y ≤ q.y ∧ p.z ≤ q.z

instance [LE K] [DecidableLE K] (p q : Vec K) : Decidable (p.Le q) :=
  inferInstanceAs (Decidable (_ ∧ _ ∧ _))

end Vec

/-- A cell, by its place along each axis. -/
structure Cell where
  x : ℤ
  y : ℤ
  z : ℤ
  deriving DecidableEq, Repr

namespace Cell

/-- A whole number as an `i32`, the nearest that there is. -/
def toI32 (n : ℤ) : ℤ := max (-2 ^ 31) (min n (2 ^ 31 - 1))

theorem toI32_mono {m n : ℤ} (h : m ≤ n) : toI32 m ≤ toI32 n :=
  max_le_max le_rfl (min_le_min h le_rfl)

def asU32 (n : ℤ) : ℕ := (n % 2 ^ 32).toNat

def bucket (buckets : ℕ) (c : Cell) : ℕ :=
  (asU32 c.x * 73856093 % 2 ^ 32 ^^^ asU32 c.y * 19349663 % 2 ^ 32
    ^^^ asU32 c.z * 83492791 % 2 ^ 32) &&& (buckets - 1)

theorem bucket_lt {buckets : ℕ} (h : 0 < buckets) (c : Cell) : bucket buckets c < buckets :=
  (Nat.and_le_right).trans_lt (Nat.sub_lt h Nat.zero_lt_one)

/-- From one cell to another along each axis. -/
def Between (lo hi c : Cell) : Prop :=
  (lo.x ≤ c.x ∧ c.x ≤ hi.x) ∧ (lo.y ≤ c.y ∧ c.y ≤ hi.y) ∧ lo.z ≤ c.z ∧ c.z ≤ hi.z

variable {K : Type*} [Lib.Scalar K] {edge x y : K}

def along (edge x : K) : ℤ := toI32 ⌊x * (1 / edge)⌋

def cellOf (edge : K) (p : Vec K) : Cell := ⟨along edge p.x, along edge p.y, along edge p.z⟩

theorem along_mono (hedge : 0 < edge) (h : x ≤ y) : along edge x ≤ along edge y := by
  refine toI32_mono (Int.floor_mono ?_)
  exact mul_le_mul_of_nonneg_right h (by positivity)

theorem cellOf_between (hedge : 0 < edge) {p q r : Vec K} (hpq : p.Le q) (hqr : q.Le r) :
    Between (cellOf edge p) (cellOf edge r) (cellOf edge q) := by
  obtain ⟨hx, hy, hz⟩ := hpq
  obtain ⟨hx', hy', hz'⟩ := hqr
  exact ⟨⟨along_mono hedge hx, along_mono hedge hx'⟩, ⟨along_mono hedge hy, along_mono hedge hy'⟩,
    along_mono hedge hz, along_mono hedge hz'⟩

/-! ### Boxes of cells -/

def span (lo hi : ℤ) : List ℤ := (List.range (hi + 1 - lo).toNat).map fun k : ℕ => lo + (k : ℤ)

theorem mem_span {lo hi n : ℤ} : n ∈ span lo hi ↔ lo ≤ n ∧ n ≤ hi := by
  simp only [span, List.mem_map, List.mem_range]
  constructor
  · rintro ⟨k, hk, rfl⟩
    omega
  · rintro ⟨hlo, hhi⟩
    exact ⟨(n - lo).toNat, by omega, by omega⟩

theorem nodup_span (lo hi : ℤ) : (span lo hi).Nodup := by
  refine List.nodup_range.map fun k q h => ?_
  have heq : lo + (k : ℤ) = lo + q := h
  omega

/-- The cells from one to another, along z within y within x. -/
def block (lo hi : Cell) : List Cell :=
  (span lo.x hi.x).flatMap fun x => (span lo.y hi.y).flatMap fun y =>
    (span lo.z hi.z).map fun z => ⟨x, y, z⟩

theorem mem_block {lo hi c : Cell} : c ∈ block lo hi ↔ Between lo hi c := by
  simp only [block, List.mem_flatMap, List.mem_map, mem_span]
  constructor
  · rintro ⟨x, hx, y, hy, z, hz, rfl⟩
    exact ⟨hx, hy, hz⟩
  · rintro ⟨hx, hy, hz⟩
    exact ⟨c.x, hx, c.y, hy, c.z, hz, rfl⟩

theorem nodup_block (lo hi : Cell) : (block lo hi).Nodup := by
  have hrow (x y : ℤ) : ((span lo.z hi.z).map fun z => (⟨x, y, z⟩ : Cell)).Nodup :=
    (nodup_span _ _).map fun z w h => congrArg Cell.z h
  have hplane (x : ℤ) : ((span lo.y hi.y).flatMap fun y =>
      (span lo.z hi.z).map fun z => (⟨x, y, z⟩ : Cell)).Nodup := by
    refine List.nodup_flatMap.mpr ⟨fun y _ => hrow x y, (nodup_span _ _).imp fun hne => ?_⟩
    intro c hc hc'
    obtain ⟨z, _, rfl⟩ := List.mem_map.mp hc
    obtain ⟨w, _, hw⟩ := List.mem_map.mp hc'
    exact hne (congrArg Cell.y hw).symm
  refine List.nodup_flatMap.mpr ⟨fun x _ => hplane x, (nodup_span _ _).imp fun hne => ?_⟩
  intro c hc hc'
  obtain ⟨y, _, hz⟩ := List.mem_flatMap.mp hc
  obtain ⟨z, _, rfl⟩ := List.mem_map.mp hz
  obtain ⟨y', _, hz'⟩ := List.mem_flatMap.mp hc'
  obtain ⟨z', _, hw⟩ := List.mem_map.mp hz'
  exact hne (congrArg Cell.x hw).symm

/-- How many cells a box has, as the machine counts them: in `i32` along an axis, the product in
`i64`. -/
def count (lo hi : Cell) : ℤ :=
  ((hi.x - lo.x + 1).bmod (2 ^ 32) * (hi.y - lo.y + 1).bmod (2 ^ 32)
    * (hi.z - lo.z + 1).bmod (2 ^ 32)).bmod (2 ^ 64)

end Cell

end BeforeColony
