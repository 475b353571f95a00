import BeforeColony.Pieces.Bodies
import BeforeColony.Pieces.Support

/-!
# Whether a building's pieces stand

Each piece placed in order answers to the spot (its level, its footprint, the lattice, nothing there
already, nothing it overlaps on its storey, no partial walls through each other on one edge) and to
its support. A building put up so stands (`build_iff_stands`): every piece of it is borne, through pieces
each of which alone bears the one above, by the ground, and no two of its pieces share space but
where the rules let them. Heights are in half-metres, of which every height here is a whole number.
-/

set_option autoImplicit false

namespace BeforeColony.Pieces

def levelH : ℕ := 6

/-- Where a socket's level puts its floor, up from the building's. -/
def levelY (level : ℕ) : ℕ := level % maxLevels * levelH + level / maxLevels * (levelH / 2)

namespace Shape

def wallHeight : Shape → ℕ
  | halfWall => levelH / 2
  | lowWall => levelH / 3
  | _ => levelH

/-- Whether a shape stands on an edge and has two faces. -/
def isEdge : Shape → Bool
  | wall | halfWall | lowWall | doorway | window | frame => true
  | _ => false

def isRiser : Shape → Bool
  | stairs | foundationSteps | ramp | stairsL | stairsU | stairsSpiral | stairsTriSpiral => true
  | _ => false

/-- Floors, roofs and frames: what may not lie on the ground. -/
def isSlab : Shape → Bool
  | floor | roof | triFloor | triRoof | floorFrame | triFloorFrame => true
  | _ => false

/-- How far a flight climbs: a storey for stairs, half for the rest. -/
def rise : Shape → ℕ
  | stairs | stairsL | stairsU => levelH
  | _ => levelH / 2

end Shape

/-- Why a piece can't stand where it's written. -/
inductive Refuse where
  | level
  | footprint
  | taken
  | support
deriving DecidableEq, Repr

abbrev Piece := Shape × PieceAddr

/-- What a building being checked has placed so far, in order. -/
abbrev Building := List Piece

def Building.shapeAt (b : Building) : Lookup := fun a => (b.find? fun q => q.2 = a).map Prod.fst

/-- Whether a footprint is one the lattice can hold: its canonical direction, every corner on a 3 m
vertex, all inside the coefficient bound. -/
def onLattice (s : Sock) : Bool :=
  decide s.Canonical && s.corners.all fun p =>
    p.fits && decide (p.a % 6 = 0 ∧ p.b % 6 = 0 ∧ p.c % 6 = 0 ∧ p.d % 6 = 0)

/-- Whether a piece already placed takes space one at `a` would: two edges crossing, an edge through
a body, bodies overlapping, two flights on one body. A flight stands on a body, and a stepped
foundation is one. -/
def hits (shape : Shape) (a : PieceAddr) (r : Piece) : Bool :=
  let meets := a.sock.crosses r.2.sock
  if a.sock.foot = .edge then
    if r.2.sock.foot = .edge then meets else !r.2.sock.isRiser && meets
  else if r.2.sock.foot = .edge then !a.sock.isRiser && meets
  else if a.sock.isRiser then
    if r.2.sock.isRiser then meets || decide (a.sock.body = r.2.sock.body)
    else decide (shape = .foundationSteps) && meets
  else if r.2.sock.isRiser then decide (r.1 = .foundationSteps) && meets
  else meets

/-- Whether anything on `a`'s storey takes the space it would. -/
def conflict (b : Building) (shape : Shape) (a : PieceAddr) : Bool :=
  b.any fun r => if r.2.level ≠ a.level ∨ r.2.bld ≠ a.bld then false else hits shape a r

def verticalEdgeClash (b : Building) (shape : Shape) (a : PieceAddr) : Bool :=
  if !shape.isEdge then false
  else
    let bottom := levelY a.level
    let top := bottom + shape.wallHeight
    (List.range maxSockets).any fun other =>
      decide (other ≠ a.level) && (b.shapeAt ⟨a.bld, other, a.sock⟩).any fun s =>
        decide (bottom < levelY other + s.wallHeight ∧ levelY other < top)

def levelOk (shape : Shape) (level : ℕ) : Bool :=
  let top := maxLevels * levelH
  decide (level < maxSockets) &&
    (!shape.isEdge || decide (levelY level + shape.wallHeight ≤ top)) &&
    (!shape.grounded || decide (level = 0)) &&
    (!shape.isSlab || decide (1 ≤ level)) &&
    (!shape.isRiser || decide (shape = .foundationSteps) ||
      decide (levelY level + shape.rise ≤ top))

def check (b : Building) (shape : Shape) (a : PieceAddr) : Except Refuse Unit :=
  if !levelOk shape a.level then .error .level
  else if decide (shape.footOf ≠ a.sock.foot) || !onLattice a.sock then .error .footprint
  else if (b.shapeAt a).isSome || conflict b shape a || verticalEdgeClash b shape a then
    .error .taken
  else if !supported b.shapeAt shape a then .error .support
  else .ok ()

def place (b : Building) (q : Piece) : Except Refuse Building := do
  check b q.1 q.2
  return b ++ [q]

/-- The pieces placed in the order they're written. -/
def build (pieces : List Piece) : Except Refuse Building := pieces.foldlM place []

/-! ## What bears a piece -/

/-- Where support is looked for, and the shapes that give it there. -/
structure Probe where
  spot : PieceAddr
  bears : Shape → Bool

def Probe.found (p : Lookup) (t : Probe) : Bool := (p t.spot).any t.bears

def edgeProbes (bld level : ℕ) (edge : Sock) : List Probe :=
  (levelStep level (-1)).toList.map (fun below => ⟨⟨bld, below, edge⟩, fun s => s = .halfWall⟩) ++
    (levelStep level (-2)).toList.map fun below =>
      ⟨⟨bld, below, edge⟩, fun s => s ≠ .halfWall ∧ s ≠ .lowWall⟩

def besideProbes (bld level : ℕ) (edge : Sock) : List Probe :=
  ([1, -1] : List ℤ).flatMap fun side =>
    [⟨⟨bld, level, (edge.beside side).1⟩, fun _ => true⟩,
      ⟨⟨bld, level, (edge.beside side).2⟩, fun _ => true⟩,
      ⟨⟨bld, level, climbsTo edge side⟩, fun s => s = .foundationSteps⟩]

def flightProbes (shape : Shape) (a : PieceAddr) : List Probe :=
  (if shape = .stairsSpiral ∨ shape = .stairsTriSpiral then
    (levelStep a.level (-1)).toList.flatMap fun below =>
      ((flights a.sock.body).filter fun f =>
        shape = .stairsTriSpiral ∨ f.dir = (a.sock.dir + 6) % 12).map fun f =>
          ⟨⟨a.bld, below, f⟩, fun s => s = shape⟩
  else []) ++ [⟨⟨a.bld, a.level, a.sock.body⟩, Shape.solidBody⟩]

/-- Everywhere a piece's support is looked for. -/
def probes (shape : Shape) (a : PieceAddr) : List Probe :=
  match a.sock.foot with
  | .square | .tri =>
    if 1 ≤ a.level then a.sock.sides.flatMap (edgeProbes a.bld a.level) else []
  | .riser | .triRiser => flightProbes shape a
  | .edge => besideProbes a.bld a.level a.sock ++ edgeProbes a.bld a.level a.sock

theorem any_eq_some {o : Option Shape} {shape : Shape} :
    (o.any fun s => decide (s = shape)) = decide (o = some shape) := by
  cases o <;> simp

theorem edgeBears_eq (p : Lookup) (bld level : ℕ) (edge : Sock) :
    edgeBears p bld level edge = (edgeProbes bld level edge).any (Probe.found p) := by
  rw [edgeBears, edgeProbes, List.any_append]
  congr 1
  · cases levelStep level (-1) with
    | none => rfl
    | some below => simp [Probe.found, any_eq_some]
  · cases levelStep level (-2) with
    | none => rfl
    | some below => simp [Probe.found]

theorem edgeBorneBeside_eq (p : Lookup) (bld level : ℕ) (edge : Sock) :
    edgeBorneBeside p bld level edge = (besideProbes bld level edge).any (Probe.found p) := by
  have hany : ∀ o : Option Shape, o.any (fun _ => true) = o.isSome := by
    intro o
    cases o <;> rfl
  simp only [edgeBorneBeside, besideProbes, List.flatMap_cons, List.flatMap_nil, List.any_append,
    List.any_cons, List.any_nil, Probe.found, any_eq_some, hany, Bool.or_false, Bool.or_assoc]

theorem any_filter_and {α : Type*} (l : List α) (c f : α → Bool) :
    (l.filter c).any f = l.any fun x => c x && f x := by
  induction l with
  | nil => rfl
  | cons x l ih => cases h : c x <;> simp [h, ih]

/-- What bears a piece is found at one of its probes, or is the ground. -/
theorem supported_eq (p : Lookup) (shape : Shape) (a : PieceAddr) :
    supported p shape a = (shape.grounded || (probes shape a).any (Probe.found p)) := by
  have hflight : ((decide (shape = .stairsSpiral ∨ shape = .stairsTriSpiral) &&
        (levelStep a.level (-1)).any fun below => (flights a.sock.body).any fun f =>
          decide (shape = .stairsTriSpiral ∨ f.dir = (a.sock.dir + 6) % 12) &&
            decide (p ⟨a.bld, below, f⟩ = some shape)) ||
        (p ⟨a.bld, a.level, a.sock.body⟩).any Shape.solidBody) =
      (flightProbes shape a).any (Probe.found p) := by
    rw [flightProbes, List.any_append]
    congr 1
    · by_cases hspiral : shape = .stairsSpiral ∨ shape = .stairsTriSpiral
      · rw [if_pos hspiral, decide_eq_true hspiral, Bool.true_and]
        cases levelStep a.level (-1) with
        | none => rfl
        | some below =>
          simp only [Option.any_some, Option.toList_some, List.flatMap_cons, List.flatMap_nil,
            List.append_nil, List.any_map, any_filter_and]
          apply any_congr_mem
          intro f _
          simp only [Function.comp_apply, Probe.found, any_eq_some]
      · rw [if_neg hspiral, decide_eq_false hspiral]
        rfl
    · simp [Probe.found]
  have hbody : (decide (1 ≤ a.level) && a.sock.sides.any (edgeBears p a.bld a.level)) =
      (if 1 ≤ a.level then a.sock.sides.flatMap (edgeProbes a.bld a.level) else []).any
        (Probe.found p) := by
    by_cases hlevel : 1 ≤ a.level
    · rw [if_pos hlevel, decide_eq_true hlevel, Bool.true_and, List.any_flatMap]
      apply any_congr_mem
      intro e _
      exact edgeBears_eq p a.bld a.level e
    · rw [if_neg hlevel, decide_eq_false hlevel]
      rfl
  unfold supported probes
  cases hground : shape.grounded with
  | true => simp
  | false =>
    cases hfoot : a.sock.foot with
    | square => simpa using hbody
    | tri => simpa using hbody
    | edge => simp [edgeBorneBeside_eq, edgeBears_eq]
    | riser => simpa using hflight
    | triRiser => simpa using hflight

namespace Building

theorem mem_of_shapeAt {b : Building} {a : PieceAddr} {shape : Shape}
    (h : b.shapeAt a = some shape) : (shape, a) ∈ b := by
  rw [shapeAt, Option.map_eq_some_iff] at h
  obtain ⟨⟨s, x⟩, hfind, rfl⟩ := h
  have hat : x = a := by simpa using List.find?_some hfind
  rw [← hat]
  exact List.mem_of_find?_eq_some hfind

theorem ne_of_shapeAt_none {b : Building} {a : PieceAddr} (h : b.shapeAt a = none) {q : Piece}
    (hq : q ∈ b) : q.2 ≠ a := by
  rw [shapeAt, Option.map_eq_none_iff, List.find?_eq_none] at h
  simpa using h q hq

theorem shapeAt_of_mem {b : Building} (hapart : b.Pairwise fun q r => q.2 ≠ r.2) {q : Piece}
    (hq : q ∈ b) : b.shapeAt q.2 = some q.1 := by
  induction b with
  | nil => cases hq
  | cons r b ih =>
    rw [List.pairwise_cons] at hapart
    rcases List.mem_cons.mp hq with rfl | hq
    · simp [shapeAt]
    · have hne : r.2 ≠ q.2 := hapart.1 q hq
      rw [← ih hapart.2 hq]
      simp [shapeAt, hne]

/-- What is borne, through pieces each of which alone bears the one above, by the ground. -/
inductive Borne (b : Building) : Piece → Prop where
  | ground {q : Piece} : q ∈ b → q.1.grounded = true → Borne b q
  | on {q r : Piece} : q ∈ b → Borne b r → supported (shapeAt [r]) q.1 q.2 = true → Borne b q

theorem Borne.mono {b c : Building} (hsub : ∀ q ∈ b, q ∈ c) {q : Piece} (h : Borne b q) :
    Borne c q := by
  induction h with
  | ground hq hground => exact Borne.ground (hsub _ hq) hground
  | on hq _ hbears ih => exact Borne.on (hsub _ hq) ih hbears

theorem exists_bearer {b : Building} {shape : Shape} {a : PieceAddr}
    (h : supported b.shapeAt shape a = true) :
    shape.grounded = true ∨ ∃ r ∈ b, supported (shapeAt [r]) shape a = true := by
  rw [supported_eq, Bool.or_eq_true, List.any_eq_true] at h
  rcases h with h | ⟨t, ht, hfound⟩
  · exact Or.inl h
  · right
    rw [Probe.found, Option.any_eq_true] at hfound
    obtain ⟨s, hs, hbears⟩ := hfound
    refine ⟨(s, t.spot), mem_of_shapeAt hs, ?_⟩
    rw [supported_eq, Bool.or_eq_true, List.any_eq_true]
    refine Or.inr ⟨t, ht, ?_⟩
    simp [Probe.found, shapeAt, hbears]

theorem supported_of_bearer {b : Building} (hapart : b.Pairwise fun q r => q.2 ≠ r.2) {r : Piece}
    (hr : r ∈ b) {shape : Shape} {a : PieceAddr} (h : supported (shapeAt [r]) shape a = true) :
    supported b.shapeAt shape a = true := by
  rw [supported_eq, Bool.or_eq_true, List.any_eq_true] at h ⊢
  rcases h with h | ⟨t, ht, hfound⟩
  · exact Or.inl h
  · refine Or.inr ⟨t, ht, ?_⟩
    rw [Probe.found, Option.any_eq_true] at hfound ⊢
    obtain ⟨s, hs, hbears⟩ := hfound
    obtain ⟨rfl, hspot⟩ := Prod.mk.inj (List.mem_singleton.mp (mem_of_shapeAt hs))
    exact ⟨_, hspot ▸ shapeAt_of_mem hapart hr, hbears⟩

theorem bearer_of_borne {b : Building} {q p : Piece} (h : Borne (b ++ [q]) p) (hp : p = q) :
    q.1.grounded = true ∨ ∃ r ∈ b, supported (shapeAt [r]) q.1 q.2 = true := by
  induction h with
  | ground _ hground => exact Or.inl (hp ▸ hground)
  | @on p r _ hr hbears ih =>
    subst hp
    have hmem : r ∈ b ++ [p] := by
      cases hr with
      | ground hr _ => exact hr
      | on hr _ _ => exact hr
    rcases List.mem_append.mp hmem with hmem | hmem
    · exact Or.inr ⟨r, hmem, hbears⟩
    · exact ih (List.mem_singleton.mp hmem)

end Building

/-! ## What may share space -/

/-- Which pieces of a storey may share space: edges that run alike, an edge and a flight, and a
flight and what it stands on or over, a stepped foundation apart. -/
def MayShare (q r : Piece) : Prop :=
  (q.2.sock.foot = .edge ∧ r.2.sock.foot = .edge ∧ q.2.sock.dir % 6 = r.2.sock.dir % 6) ∨
  (q.2.sock.foot = .edge ∧ r.2.sock.isRiser = true) ∨
  (q.2.sock.isRiser = true ∧ r.2.sock.foot = .edge) ∨
  (q.2.sock.isRiser = true ∧ q.1 ≠ .foundationSteps ∧ r.2.sock.foot ≠ .edge ∧
    r.2.sock.isRiser = false) ∨
  (r.2.sock.isRiser = true ∧ r.1 ≠ .foundationSteps ∧ q.2.sock.foot ≠ .edge ∧
    q.2.sock.isRiser = false)

theorem Sock.foot_ne_edge_of_isRiser {s : Sock} (h : s.isRiser = true) : s.foot ≠ .edge := by
  intro hedge
  rw [Sock.isRiser, hedge] at h
  revert h
  decide

/-- Two flights on one body take the same of the plane. -/
theorem Sock.points_of_body_eq {s t : Sock} (hs : s.isRiser = true) (ht : t.isRiser = true)
    (h : s.body = t.body) : s.points = t.points := by
  have hcorners : s.corners = t.corners := by
    rw [Sock.corners, Sock.corners, if_pos hs, if_pos ht, h]
  rw [Sock.points, Sock.points, if_neg (foot_ne_edge_of_isRiser hs),
    if_neg (foot_ne_edge_of_isRiser ht), hcorners]

theorem hits_iff (q r : Piece) :
    hits q.1 q.2 r = true ↔
      (q.2.sock.points ∩ r.2.sock.points).Nonempty ∧ ¬MayShare q r := by
  by_cases hq : q.2.sock.foot = .edge
  · by_cases hr : r.2.sock.foot = .edge
    · have hqr : q.2.sock.isRiser = false := by simp [Sock.isRiser, hq]
      have hrr : r.2.sock.isRiser = false := by simp [Sock.isRiser, hr]
      simp [hits, MayShare, hq, hr, hqr, hrr, Sock.crosses_edges hq hr]
    · have hqr : q.2.sock.isRiser = false := by simp [Sock.isRiser, hq]
      simp [hits, MayShare, hq, hr, hqr, Sock.crosses_body (Or.inr hr), and_comm]
  · by_cases hr : r.2.sock.foot = .edge
    · have hrr : r.2.sock.isRiser = false := by simp [Sock.isRiser, hr]
      simp [hits, MayShare, hq, hr, hrr, Sock.crosses_body (Or.inl hq), and_comm]
    · cases hqr : q.2.sock.isRiser with
      | false =>
        cases hrr : r.2.sock.isRiser <;>
          simp [hits, MayShare, hq, hr, hqr, hrr, Sock.crosses_body (Or.inl hq), and_comm]
      | true =>
        cases hrr : r.2.sock.isRiser with
        | false => simp [hits, MayShare, hq, hr, hqr, hrr, Sock.crosses_body (Or.inl hq), and_comm]
        | true =>
          have hsame : q.2.sock.body = r.2.sock.body →
              (q.2.sock.points ∩ r.2.sock.points).Nonempty := by
            intro hbody
            rw [Sock.points_of_body_eq hqr hrr hbody, Set.inter_self]
            exact r.2.sock.points_nonempty
          simp only [hits, MayShare, hq, hr, hqr, hrr, if_true, if_false, Bool.or_eq_true,
            decide_eq_true_eq, Sock.crosses_body (Or.inl hq)]
          simp only [false_and, and_false, or_self, not_false_eq_true, and_true, ne_eq,
            reduceCtorEq, or_iff_left_iff_imp]
          exact hsame

/-! ## A building put up -/

/-- Two partial walls on one edge, neither running through the other. -/
def Stacked (q r : Piece) : Prop :=
  levelY r.2.level + r.1.wallHeight ≤ levelY q.2.level ∨
    levelY q.2.level + q.1.wallHeight ≤ levelY r.2.level

namespace Building

/-- A building that stands: its pieces where their shapes may be, each of them borne, each at an
address of its own, and none in the space of another. -/
structure Stands (b : Building) : Prop where
  level : ∀ q ∈ b, levelOk q.1 q.2.level = true
  footprint : ∀ q ∈ b, q.1.footOf = q.2.sock.foot ∧ onLattice q.2.sock = true
  borne : ∀ q ∈ b, Borne b q
  apart : b.Pairwise fun q r => q.2 ≠ r.2
  clear : b.Pairwise fun q r => q.2.level = r.2.level → q.2.bld = r.2.bld →
    (r.2.sock.points ∩ q.2.sock.points).Nonempty → MayShare r q
  stacked : b.Pairwise fun q r => r.1.isEdge = true → q.2.bld = r.2.bld → q.2.sock = r.2.sock →
    q.2.level ≠ r.2.level → Stacked r q

theorem stands_nil : Stands [] where
  level := by simp
  footprint := by simp
  borne := by simp
  apart := List.Pairwise.nil
  clear := List.Pairwise.nil
  stacked := List.Pairwise.nil

theorem check_eq_ok {b : Building} {shape : Shape} {a : PieceAddr} :
    check b shape a = .ok () ↔ levelOk shape a.level = true ∧
      (shape.footOf = a.sock.foot ∧ onLattice a.sock = true) ∧ b.shapeAt a = none ∧
      conflict b shape a = false ∧ verticalEdgeClash b shape a = false ∧
      supported b.shapeAt shape a = true := by
  unfold check
  split_ifs with hlevel hfoot htaken hsupport
  · simp [Bool.not_eq_true' _ ▸ hlevel]
  · simp only [Bool.or_eq_true, decide_eq_true_eq, Bool.not_eq_true'] at hfoot
    simp only [false_iff]
    rintro ⟨-, ⟨hfootOf, hlattice⟩, -⟩
    rcases hfoot with hfoot | hfoot
    · exact hfoot hfootOf
    · exact Bool.false_ne_true (hfoot ▸ hlattice)
  · simp only [false_iff]
    rintro ⟨-, -, hnone, hconflict, hclash, -⟩
    simp [hnone, hconflict, hclash] at htaken
  · simp only [false_iff]
    rintro ⟨-, -, -, -, -, hsupported⟩
    simp [hsupported] at hsupport
  · simp only [Bool.or_eq_true, decide_eq_true_eq, Bool.not_eq_true', not_or, Bool.not_eq_false,
      Decidable.not_not, Bool.not_eq_true, Option.isSome_eq_false_iff,
      Option.isNone_iff_eq_none] at hlevel hfoot htaken hsupport
    simp only [true_iff]
    exact ⟨hlevel, hfoot, htaken.1.1, htaken.1.2, htaken.2, hsupport⟩

theorem conflict_eq_false {b : Building} {q : Piece} :
    conflict b q.1 q.2 = false ↔ ∀ r ∈ b, r.2.level = q.2.level → r.2.bld = q.2.bld →
      (q.2.sock.points ∩ r.2.sock.points).Nonempty → MayShare q r := by
  rw [conflict, List.any_eq_false]
  refine forall₂_congr fun r _ => ?_
  split_ifs with hother
  · simp only [not_false_eq_true, true_iff]
    intro hlevel hbld
    exact absurd hother (by simp [hlevel, hbld])
  · push Not at hother
    rw [hits_iff]
    simp [hother]

theorem clash_eq_false {b : Building} (hapart : b.Pairwise fun q r => q.2 ≠ r.2)
    (hlevels : ∀ q ∈ b, levelOk q.1 q.2.level = true) {q : Piece} :
    verticalEdgeClash b q.1 q.2 = false ↔ ∀ r ∈ b, q.1.isEdge = true → r.2.bld = q.2.bld →
      r.2.sock = q.2.sock → r.2.level ≠ q.2.level → Stacked q r := by
  rw [verticalEdgeClash]
  cases hedge : q.1.isEdge with
  | false => simp
  | true =>
    simp only [Bool.not_true, Bool.false_eq_true, if_false, List.any_eq_false, List.mem_range,
      Bool.and_eq_true, decide_eq_true_eq, Option.any_eq_true, not_and, not_exists, true_imp_iff]
    constructor
    · intro hclear r hr hbld hsock hne
      have hlevel : r.2.level < maxSockets := by
        have := hlevels r hr
        simp only [levelOk, Bool.and_eq_true, decide_eq_true_eq] at this
        exact this.1.1.1.1
      have hat : b.shapeAt ⟨q.2.bld, r.2.level, q.2.sock⟩ = some r.1 := by
        rw [← hbld, ← hsock]
        exact shapeAt_of_mem hapart hr
      have := hclear r.2.level hlevel hne r.1 hat
      rw [Stacked]
      omega
    · intro hstacked other hother hne s hs hover
      have := hstacked _ (mem_of_shapeAt hs) rfl rfl hne
      rw [Stacked] at this
      dsimp only at this
      omega

theorem check_iff_stands {b : Building} (hb : Stands b) (q : Piece) :
    check b q.1 q.2 = .ok () ↔ Stands (b ++ [q]) := by
  rw [check_eq_ok, conflict_eq_false, clash_eq_false hb.apart hb.level]
  constructor
  · rintro ⟨hlevel, hfoot, hfree, hclear, hstacked, hsupport⟩
    refine ⟨?_, ?_, ?_, ?_, ?_, ?_⟩
    · intro p hp
      rcases List.mem_append.mp hp with hp | hp
      · exact hb.level p hp
      · exact List.mem_singleton.mp hp ▸ hlevel
    · intro p hp
      rcases List.mem_append.mp hp with hp | hp
      · exact hb.footprint p hp
      · exact List.mem_singleton.mp hp ▸ hfoot
    · intro p hp
      have hold : ∀ r ∈ b, Borne (b ++ [q]) r := fun r hr =>
        (hb.borne r hr).mono fun _ => List.mem_append_left [q]
      rcases List.mem_append.mp hp with hp | hp
      · exact hold p hp
      · obtain rfl := List.mem_singleton.mp hp
        rcases exists_bearer hsupport with hground | ⟨r, hr, hbears⟩
        · exact Borne.ground (by simp) hground
        · exact Borne.on (by simp) (hold r hr) hbears
    · rw [List.pairwise_append]
      refine ⟨hb.apart, List.pairwise_singleton _ _, fun r hr p hp => ?_⟩
      obtain rfl := List.mem_singleton.mp hp
      exact ne_of_shapeAt_none hfree hr
    · rw [List.pairwise_append]
      refine ⟨hb.clear, List.pairwise_singleton _ _, fun r hr p hp => ?_⟩
      obtain rfl := List.mem_singleton.mp hp
      exact hclear r hr
    · rw [List.pairwise_append]
      refine ⟨hb.stacked, List.pairwise_singleton _ _, fun r hr p hp => ?_⟩
      obtain rfl := List.mem_singleton.mp hp
      exact hstacked r hr
  · intro h
    have hq : q ∈ b ++ [q] := by simp
    refine ⟨h.level q hq, h.footprint q hq, ?_, fun r hr => ?_, fun r hr => ?_, ?_⟩
    · cases hat : b.shapeAt q.2 with
      | none => rfl
      | some s =>
        have := (List.pairwise_append.mp h.apart).2.2 _ (mem_of_shapeAt hat) q (by simp)
        exact absurd rfl this
    · exact (List.pairwise_append.mp h.clear).2.2 r hr q (by simp)
    · exact (List.pairwise_append.mp h.stacked).2.2 r hr q (by simp)
    · rcases bearer_of_borne (h.borne q hq) rfl with hground | ⟨r, hr, hbears⟩
      · rw [supported_eq, hground, Bool.true_or]
      · exact supported_of_bearer hb.apart hr hbears

end Building

theorem place_eq_ok {b c : Building} {q : Piece} :
    place b q = .ok c ↔ check b q.1 q.2 = .ok () ∧ c = b ++ [q] := by
  cases h : check b q.1 q.2 with
  | error why => simp [place, h, bind, Except.bind]
  | ok u => simp [place, h, bind, Except.bind, pure, Except.pure, eq_comm]

theorem build_append_eq_ok {pieces : List Piece} {q : Piece} {c : Building} :
    build (pieces ++ [q]) = .ok c ↔ ∃ b, build pieces = .ok b ∧ place b q = .ok c := by
  simp only [build, List.foldlM_append, List.foldlM_cons, List.foldlM_nil, bind_pure]
  cases pieces.foldlM place [] with
  | error why => simp [bind, Except.bind]
  | ok b => simp [bind, Except.bind]

theorem eq_of_build {pieces : List Piece} {b : Building} (h : build pieces = .ok b) :
    b = pieces := by
  induction pieces using List.reverseRecOn generalizing b with
  | nil => exact (Except.ok.inj h).symm
  | append_singleton pieces q ih =>
    obtain ⟨c, hc, hplace⟩ := build_append_eq_ok.mp h
    rw [(place_eq_ok.mp hplace).2, ih hc]

/-- A building goes up in the order it's written exactly when it stands after every piece of it. -/
theorem build_iff_stands (pieces : List Piece) :
    build pieces = .ok pieces ↔ ∀ n, Building.Stands (pieces.take n) := by
  induction pieces using List.reverseRecOn with
  | nil =>
    simp only [List.take_nil, forall_const, Building.stands_nil, iff_true]
    rfl
  | append_singleton pieces q ih =>
    constructor
    · intro h n
      obtain ⟨b, hb, hplace⟩ := build_append_eq_ok.mp h
      obtain rfl := eq_of_build hb
      have hstands := ih.mp hb
      rcases Nat.lt_or_ge b.length n with hn | hn
      · rw [List.take_of_length_le (by simpa using hn)]
        have hwhole : Building.Stands b := by simpa using hstands b.length
        exact (Building.check_iff_stands hwhole q).mp (place_eq_ok.mp hplace).1
      · rw [List.take_append_of_le_length hn]
        exact hstands n
    · intro h
      have hbefore : ∀ n, Building.Stands (pieces.take n) := by
        intro n
        rcases Nat.le_total n pieces.length with hn | hn
        · exact List.take_append_of_le_length hn ▸ h n
        · rw [List.take_of_length_le hn]
          simpa using h pieces.length
      have hwhole : Building.Stands pieces := by simpa using hbefore pieces.length
      have hlast : Building.Stands (pieces ++ [q]) := by
        have := h (pieces ++ [q]).length
        rwa [List.take_length] at this
      exact build_append_eq_ok.mpr ⟨pieces, ih.mpr hbefore,
        place_eq_ok.mpr ⟨(Building.check_iff_stands hwhole q).mpr hlast, rfl⟩⟩

/-- The corner `i` cells along one way and `j` along the other. -/
def cell (i j : ℤ) : LPt := ⟨6 * i, 0, 0, 6 * j⟩

example : build [(.foundation, ⟨0, 0, Sock.squareFrom (cell 0 0) 0⟩),
    (.wall, ⟨0, 0, Sock.edgeFrom (cell 0 0) 0⟩), (.floor, ⟨0, 1, Sock.squareFrom (cell 0 0) 0⟩),
    (.halfWall, ⟨0, 8, Sock.edgeFrom (cell 0 0) 0⟩)] = .error .taken := by
  decide +kernel

end BeforeColony.Pieces
