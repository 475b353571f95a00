import BeforeColony.Pieces.Sock

/-!
# What holds a piece up

Foundations stand on the ground; a floor is borne by an edge piece under any of its sides, a flight
by a solid body under it or the flight it continues, an edge by a body beside it or an edge whose top
is its bottom. `supported` and `dependents` are one rule read two ways: taking a piece away changes
the support of nothing but its dependents (`mem_dependents_of_supported_ne`).
-/

set_option autoImplicit false

namespace BeforeColony.Pieces

/-- Whole storeys a building has sockets for; the codes past them sit half a storey above. -/
def maxLevels : ℕ := 8

def maxSockets : ℕ := 16

inductive Shape where
  | foundation
  | wall
  | doorway
  | floor
  | stairs
  | roof
  | window
  | frame
  | triFoundation
  | triFloor
  | triRoof
  | floorFrame
  | halfWall
  | lowWall
  | foundationSteps
  | ramp
  | stairsL
  | stairsU
  | stairsSpiral
  | stairsTriSpiral
  | triFloorFrame
deriving DecidableEq, Repr

def levelStep (level : ℕ) (halves : ℤ) : Option ℕ :=
  let n : ℤ := (level % maxLevels : ℕ) * 2 + (level / maxLevels : ℕ) + halves
  if maxSockets ≤ level ∨ n < 0 ∨ maxSockets ≤ n then none
  else some (n.toNat / 2 + n.toNat % 2 * maxLevels)

namespace Shape

def footOf : Shape → Foot
  | foundation | floor | roof | floorFrame => .square
  | triFoundation | triFloor | triRoof | triFloorFrame => .tri
  | stairsTriSpiral => .triRiser
  | stairs | foundationSteps | ramp | stairsL | stairsU | stairsSpiral => .riser
  | _ => .edge

/-- Foundations, and the flight that is one: borne by the ground. -/
def grounded : Shape → Bool
  | foundation | triFoundation | foundationSteps => true
  | _ => false

/-- A body with no hole in it: what a flight may stand on. -/
def solidBody : Shape → Bool
  | foundation | floor | roof | triFoundation | triFloor | triRoof => true
  | _ => false

end Shape

/-- What stands where in the building being checked. -/
abbrev Lookup := PieceAddr → Option Shape

/-- Whether an edge piece below bears a socket on `edge`: a half wall half a storey down, or a
full-height edge a whole storey down. -/
def edgeBears (p : Lookup) (bld level : ℕ) (edge : Sock) : Bool :=
  (levelStep level (-1)).any (fun below => p ⟨bld, below, edge⟩ = some .halfWall) ||
    (levelStep level (-2)).any fun below =>
      (p ⟨bld, below, edge⟩).any fun s => s ≠ .halfWall ∧ s ≠ .lowWall

def climbsTo (edge : Sock) (side : ℤ) : Sock :=
  let n := if side = 1 then edge.dir + 3 else edge.dir + 9
  Sock.riser (edge.beside side).1.mid (n + 6)

/-- Whether a body at `level` has `edge` for a side, or a stepped foundation climbs to it. -/
def edgeBorneBeside (p : Lookup) (bld level : ℕ) (edge : Sock) : Bool :=
  [1, -1].any fun side =>
    (p ⟨bld, level, (edge.beside side).1⟩).isSome || (p ⟨bld, level, (edge.beside side).2⟩).isSome ||
      p ⟨bld, level, climbsTo edge side⟩ = some .foundationSteps

/-- The flight directions a body's footprint takes: a square's four, a triangle's three turns. -/
def flights (body : Sock) : List Sock :=
  if body.foot = .tri then (List.range 3).map fun k => Sock.triRiser body.mid (body.dir + 4 * k)
  else (List.range 4).map fun k => Sock.riser body.mid (body.dir + 3 * k)

def supported (p : Lookup) (shape : Shape) (a : PieceAddr) : Bool :=
  if shape.grounded then true else
    match a.sock.foot with
    | .square | .tri => decide (1 ≤ a.level) && a.sock.sides.any (edgeBears p a.bld a.level)
    | .riser | .triRiser =>
      let body := a.sock.body
      let stacked := decide (shape = .stairsSpiral ∨ shape = .stairsTriSpiral) &&
        (levelStep a.level (-1)).any fun below => (flights body).any fun f =>
          decide (shape = .stairsTriSpiral ∨ f.dir = (a.sock.dir + 6) % 12) &&
            decide (p ⟨a.bld, below, f⟩ = some shape)
      stacked || (p ⟨a.bld, a.level, body⟩).any Shape.solidBody
    | .edge => edgeBorneBeside p a.bld a.level a.sock || edgeBears p a.bld a.level a.sock

/-- Most addresses one piece's support can be read at. -/
def maxDependents : ℕ := 10

/-- Every address whose `supported` reads the piece at `a`. -/
def dependents (a : PieceAddr) : List PieceAddr :=
  match a.sock.foot with
  | .square | .tri =>
    let sides := a.sock.sides
    let room := (flights a.sock).take (maxDependents - sides.length)
    (sides ++ room).map fun s => ⟨a.bld, a.level, s⟩
  | .riser | .triRiser =>
    let high :=
      if a.sock.foot = .riser then
        [⟨a.bld, a.level,
          Sock.edge (a.sock.mid.add (halfSide.rot a.sock.dir)) (a.sock.dir + 3)⟩]
      else []
    high ++ (levelStep a.level 1).toList.flatMap fun up =>
      (flights a.sock.body).map fun f => ⟨a.bld, up, f⟩
  | .edge =>
    ([1, 2] : List ℤ).flatMap fun halves => (levelStep a.level halves).toList.flatMap fun up =>
      ⟨a.bld, up, a.sock⟩ :: ([1, -1] : List ℤ).flatMap fun side =>
        [⟨a.bld, up, (a.sock.beside side).1⟩, ⟨a.bld, up, (a.sock.beside side).2⟩]

/-! ## What a piece's support reads -/

theorem levelStep_back {level below : ℕ} {halves : ℤ} (h : levelStep level halves = some below) :
    levelStep below (-halves) = some level := by
  unfold levelStep maxLevels maxSockets at h ⊢
  dsimp only at h ⊢
  split_ifs at h with hout
  have hbelow := Option.some.inj h
  rw [if_neg (by omega)]
  congr 1
  omega

def Reads (a x : PieceAddr) : Prop :=
  x.bld = a.bld ∧
    match a.sock.foot with
    | .square | .tri => x.sock ∈ a.sock.sides ∧
        (levelStep a.level (-1) = some x.level ∨ levelStep a.level (-2) = some x.level)
    | .riser | .triRiser => (x.level = a.level ∧ x.sock = a.sock.body) ∨
        (levelStep a.level (-1) = some x.level ∧ x.sock ∈ flights a.sock.body)
    | .edge => (x.level = a.level ∧ ∃ side : ℤ, (side = 1 ∨ side = -1) ∧
        (x.sock = (a.sock.beside side).1 ∨ x.sock = (a.sock.beside side).2 ∨
          x.sock = climbsTo a.sock side)) ∨
        (x.sock = a.sock ∧
          (levelStep a.level (-1) = some x.level ∨ levelStep a.level (-2) = some x.level))

theorem any_congr_mem {α : Type*} {l : List α} {f g : α → Bool} (h : ∀ x ∈ l, f x = g x) :
    l.any f = l.any g := by
  induction l with
  | nil => rfl
  | cons x l ih =>
    rw [List.any_cons, List.any_cons, h x List.mem_cons_self,
      ih fun y hy => h y (List.mem_cons_of_mem x hy)]

theorem edgeBears_congr {p q : Lookup} {bld level : ℕ} {edge : Sock}
    (h : ∀ below, levelStep level (-1) = some below ∨ levelStep level (-2) = some below →
      p ⟨bld, below, edge⟩ = q ⟨bld, below, edge⟩) :
    edgeBears p bld level edge = edgeBears q bld level edge := by
  unfold edgeBears
  congr 1
  · cases hone : levelStep level (-1) with
    | none => rfl
    | some below => simp only [Option.any_some, h below (Or.inl hone)]
  · cases htwo : levelStep level (-2) with
    | none => rfl
    | some below => simp only [Option.any_some, h below (Or.inr htwo)]

theorem edgeBorneBeside_congr {p q : Lookup} {bld level : ℕ} {edge : Sock}
    (h : ∀ side : ℤ, (side = 1 ∨ side = -1) → ∀ s,
      (s = (edge.beside side).1 ∨ s = (edge.beside side).2 ∨ s = climbsTo edge side) →
        p ⟨bld, level, s⟩ = q ⟨bld, level, s⟩) :
    edgeBorneBeside p bld level edge = edgeBorneBeside q bld level edge := by
  have hside : ∀ side : ℤ, (side = 1 ∨ side = -1) →
      p ⟨bld, level, (edge.beside side).1⟩ = q ⟨bld, level, (edge.beside side).1⟩ ∧
      p ⟨bld, level, (edge.beside side).2⟩ = q ⟨bld, level, (edge.beside side).2⟩ ∧
      p ⟨bld, level, climbsTo edge side⟩ = q ⟨bld, level, climbsTo edge side⟩ := by
    intro side hs
    exact ⟨h side hs _ (Or.inl rfl), h side hs _ (Or.inr (Or.inl rfl)),
      h side hs _ (Or.inr (Or.inr rfl))⟩
  obtain ⟨h1, h2, h3⟩ := hside 1 (Or.inl rfl)
  obtain ⟨h4, h5, h6⟩ := hside (-1) (Or.inr rfl)
  simp only [edgeBorneBeside, List.any_cons, List.any_nil, h1, h2, h3, h4, h5, h6]

theorem supported_congr {p q : Lookup} {shape : Shape} {a : PieceAddr}
    (h : ∀ x, Reads a x → p x = q x) : supported p shape a = supported q shape a := by
  have hbody : (a.sock.foot = .square ∨ a.sock.foot = .tri) →
      a.sock.sides.any (edgeBears p a.bld a.level) =
        a.sock.sides.any (edgeBears q a.bld a.level) := by
    intro hfoot
    apply any_congr_mem
    intro e he
    apply edgeBears_congr
    intro below hbelow
    apply h
    rcases hfoot with hfoot | hfoot <;> exact ⟨rfl, by rw [hfoot]; exact ⟨he, hbelow⟩⟩
  have hflight : (a.sock.foot = .riser ∨ a.sock.foot = .triRiser) →
      p ⟨a.bld, a.level, a.sock.body⟩ = q ⟨a.bld, a.level, a.sock.body⟩ ∧
      ∀ below, levelStep a.level (-1) = some below → ∀ f ∈ flights a.sock.body,
        p ⟨a.bld, below, f⟩ = q ⟨a.bld, below, f⟩ := by
    intro hfoot
    constructor
    · apply h
      rcases hfoot with hfoot | hfoot <;> exact ⟨rfl, by rw [hfoot]; exact Or.inl ⟨rfl, rfl⟩⟩
    · intro below hbelow f hf
      apply h
      rcases hfoot with hfoot | hfoot <;> exact ⟨rfl, by rw [hfoot]; exact Or.inr ⟨hbelow, hf⟩⟩
  have hstacked : (∀ below, levelStep a.level (-1) = some below → ∀ f ∈ flights a.sock.body,
        p ⟨a.bld, below, f⟩ = q ⟨a.bld, below, f⟩) →
      ((levelStep a.level (-1)).any fun below => (flights a.sock.body).any fun f =>
          decide (shape = .stairsTriSpiral ∨ f.dir = (a.sock.dir + 6) % 12) &&
            decide (p ⟨a.bld, below, f⟩ = some shape)) =
        (levelStep a.level (-1)).any fun below => (flights a.sock.body).any fun f =>
          decide (shape = .stairsTriSpiral ∨ f.dir = (a.sock.dir + 6) % 12) &&
            decide (q ⟨a.bld, below, f⟩ = some shape) := by
    intro hlower
    cases hstep : levelStep a.level (-1) with
    | none => rfl
    | some below =>
      apply any_congr_mem
      intro f hf
      rw [hlower below hstep f hf]
  unfold supported
  split
  · rfl
  · cases hfoot : a.sock.foot with
    | square => simp only [hbody (Or.inl hfoot)]
    | tri => simp only [hbody (Or.inr hfoot)]
    | edge =>
      dsimp only
      congr 1
      · apply edgeBorneBeside_congr
        intro side hside s hs
        apply h
        exact ⟨rfl, by rw [hfoot]; exact Or.inl ⟨rfl, side, hside, hs⟩⟩
      · apply edgeBears_congr
        intro below hbelow
        apply h
        exact ⟨rfl, by rw [hfoot]; exact Or.inr ⟨rfl, hbelow⟩⟩
    | riser =>
      obtain ⟨hunder, hlower⟩ := hflight (Or.inl hfoot)
      simp only [hunder, hstacked hlower]
    | triRiser =>
      obtain ⟨hunder, hlower⟩ := hflight (Or.inr hfoot)
      simp only [hunder, hstacked hlower]

/-! ## Flights and the bodies they stand on -/

theorem mem_flights_body {s : Sock} (hs : s.foot = .riser ∨ s.foot = .triRiser)
    (hcan : s.Canonical) : s ∈ flights s.body := by
  obtain ⟨foot, mid, dir⟩ := s
  rcases hs with rfl | rfl
  · have hdir : dir < 12 := hcan
    simp only [flights, Sock.body, Sock.square, reduceCtorEq, if_false, List.mem_map, List.mem_range]
    refine ⟨dir / 3, by omega, ?_⟩
    rw [Nat.mod_add_div, Sock.riser, Nat.mod_eq_of_lt hdir]
  · have hdir : dir < 12 := hcan
    simp only [flights, Sock.body, Sock.tri, if_true, List.mem_map, List.mem_range]
    refine ⟨dir / 4, by omega, ?_⟩
    rw [Nat.mod_add_div, Sock.triRiser, Nat.mod_eq_of_lt hdir]

theorem body_of_mem_flights {s f : Sock} (hs : s.foot = .riser ∨ s.foot = .triRiser)
    (hf : f ∈ flights s.body) : (f.foot = .riser ∨ f.foot = .triRiser) ∧ f.body = s.body := by
  obtain ⟨foot, mid, dir⟩ := s
  rcases hs with rfl | rfl
  · simp only [flights, Sock.body, Sock.square, reduceCtorEq, if_false, List.mem_map,
      List.mem_range] at hf
    obtain ⟨k, hk, rfl⟩ := hf
    refine ⟨Or.inl rfl, ?_⟩
    simp only [Sock.body, Sock.riser, Sock.square, Sock.mk.injEq, true_and]
    omega
  · simp only [flights, Sock.body, Sock.tri, if_true, List.mem_map, List.mem_range] at hf
    obtain ⟨k, hk, rfl⟩ := hf
    refine ⟨Or.inr rfl, ?_⟩
    simp only [Sock.body, Sock.triRiser, Sock.tri, Sock.mk.injEq, true_and]
    omega

theorem high_side_climbsTo {e : Sock} (he : e.foot = .edge) (hcan : e.Canonical) (side : ℤ) :
    (climbsTo e side).foot = .riser ∧
      Sock.edge ((climbsTo e side).mid.add (halfSide.rot (climbsTo e side).dir))
        ((climbsTo e side).dir + 3) = e := by
  obtain ⟨foot, mid, dir⟩ := e
  obtain rfl : foot = .edge := he
  have hdir : dir < 6 := hcan
  have hback : ∀ n, (mid.add (halfSide.rot n)).add (halfSide.rot ((n + 6) % 12)) = mid := by
    intro n
    rw [LPt.rot_mod, LPt.rot_add_six]
    ext <;> simp only [LPt.add, LPt.sub, LPt.zero] <;> ring
  refine ⟨rfl, ?_⟩
  by_cases hside : side = 1
  · simp only [climbsTo, Sock.beside, Sock.square, Sock.riser, hside, if_true, hback, Sock.edge]
    congr 1
    omega
  · simp only [climbsTo, Sock.beside, Sock.square, Sock.riser, hside, if_false, hback, Sock.edge]
    congr 1
    omega

/-! ## One rule read two ways -/

theorem mem_dependents_body {a g : PieceAddr} (hg : g.sock.foot = .square ∨ g.sock.foot = .tri)
    (hcan : g.sock.Canonical) (hbld : a.bld = g.bld) (hlevel : a.level = g.level)
    (hsock : a.sock ∈ g.sock.sides ∨ a.sock ∈ flights g.sock) : a ∈ dependents g := by
  have hroom : (flights g.sock).length ≤ maxDependents - g.sock.sides.length := by
    obtain ⟨bld, level, foot, mid, dir⟩ := g
    rcases hg with rfl | rfl
    · rw [Sock.sides_square mid hcan]
      simp [flights, maxDependents]
    · rw [Sock.sides_tri mid hcan]
      simp [flights, maxDependents]
  have hmem : ∃ s ∈ g.sock.sides ++ (flights g.sock).take (maxDependents - g.sock.sides.length),
      (⟨g.bld, g.level, s⟩ : PieceAddr) = a := by
    rw [List.take_of_length_le hroom]
    exact ⟨a.sock, List.mem_append.mpr hsock, by rw [← hbld, ← hlevel]⟩
  unfold dependents
  rcases hg with hg | hg <;> rw [hg] <;> exact List.mem_map.mpr hmem

theorem mem_dependents_flight {a g : PieceAddr}
    (hg : g.sock.foot = .riser ∨ g.sock.foot = .triRiser) (hbld : a.bld = g.bld)
    (hlevel : levelStep g.level 1 = some a.level) (hsock : a.sock ∈ flights g.sock.body) :
    a ∈ dependents g := by
  have hmem : a ∈ (levelStep g.level 1).toList.flatMap fun up =>
      (flights g.sock.body).map fun f => (⟨g.bld, up, f⟩ : PieceAddr) := by
    rw [hlevel]
    exact List.mem_flatMap.mpr ⟨a.level, by simp,
      List.mem_map.mpr ⟨a.sock, hsock, by rw [← hbld]⟩⟩
  unfold dependents
  rcases hg with hg | hg <;> rw [hg] <;> exact List.mem_append_right _ hmem

theorem mem_dependents_edge {a g : PieceAddr} (hg : g.sock.foot = .edge) (hbld : a.bld = g.bld)
    {halves : ℤ} (hhalves : halves = 1 ∨ halves = 2) (hlevel : levelStep g.level halves = some a.level)
    (hsock : a.sock = g.sock ∨ ∃ side : ℤ, (side = 1 ∨ side = -1) ∧
      (a.sock = (g.sock.beside side).1 ∨ a.sock = (g.sock.beside side).2)) : a ∈ dependents g := by
  unfold dependents
  rw [hg]
  refine List.mem_flatMap.mpr ⟨halves, by simpa using hhalves, ?_⟩
  rw [hlevel]
  refine List.mem_flatMap.mpr ⟨a.level, by simp, ?_⟩
  obtain ⟨bld, level, sock⟩ := a
  obtain rfl : bld = g.bld := hbld
  rcases hsock with h | ⟨side, hside, h⟩
  · exact List.mem_cons.mpr (Or.inl (by rw [← h]))
  · refine List.mem_cons_of_mem _ (List.mem_flatMap.mpr ⟨side, by simpa using hside, ?_⟩)
    rcases h with h | h
    · exact List.mem_cons.mpr (Or.inl (by rw [← h]))
    · exact List.mem_cons_of_mem _ (List.mem_singleton.mpr (by rw [← h]))

theorem levelStep_up {level below : ℕ}
    (h : levelStep level (-1) = some below ∨ levelStep level (-2) = some below) :
    ∃ halves : ℤ, (halves = 1 ∨ halves = 2) ∧ levelStep below halves = some level := by
  rcases h with h | h
  · exact ⟨1, Or.inl rfl, levelStep_back h⟩
  · exact ⟨2, Or.inr rfl, levelStep_back h⟩

theorem mem_dependents_of_reads {a g : PieceAddr} (hcan : a.sock.Canonical) (h : Reads a g) :
    a ∈ dependents g := by
  obtain ⟨hbld, h⟩ := h
  have hbody : (a.sock.foot = .square ∨ a.sock.foot = .tri) → g.sock ∈ a.sock.sides →
      (levelStep a.level (-1) = some g.level ∨ levelStep a.level (-2) = some g.level) →
      a ∈ dependents g := by
    intro hfoot hside hlevel
    obtain ⟨hedge, -, hbeside⟩ := (Sock.mem_sides_iff_beside hfoot hcan).mp hside
    obtain ⟨halves, hhalves, hup⟩ := levelStep_up hlevel
    exact mem_dependents_edge hedge hbld.symm hhalves hup (Or.inr hbeside)
  have hflight : (a.sock.foot = .riser ∨ a.sock.foot = .triRiser) →
      ((g.level = a.level ∧ g.sock = a.sock.body) ∨
        (levelStep a.level (-1) = some g.level ∧ g.sock ∈ flights a.sock.body)) →
      a ∈ dependents g := by
    intro hfoot hread
    have hmem := mem_flights_body hfoot hcan
    rcases hread with ⟨hlevel, hunder⟩ | ⟨hlevel, hlower⟩
    · have hunderfoot : (g.sock.foot = .square ∨ g.sock.foot = .tri) ∧ g.sock.Canonical := by
        rw [hunder]
        obtain ⟨bld, level, foot, mid, dir⟩ := a
        rcases hfoot with rfl | rfl
        · exact ⟨Or.inl rfl, Nat.mod_lt dir (by decide)⟩
        · exact ⟨Or.inr rfl, Nat.mod_lt dir (by decide)⟩
      exact mem_dependents_body hunderfoot.1 hunderfoot.2 hbld.symm hlevel.symm
        (Or.inr (hunder ▸ hmem))
    · obtain ⟨hgfoot, hgbody⟩ := body_of_mem_flights hfoot hlower
      exact mem_dependents_flight hgfoot hbld.symm (levelStep_back hlevel) (hgbody ▸ hmem)
  cases hfoot : a.sock.foot with
  | square =>
    rw [hfoot] at h
    exact hbody (Or.inl hfoot) h.1 h.2
  | tri =>
    rw [hfoot] at h
    exact hbody (Or.inr hfoot) h.1 h.2
  | riser =>
    rw [hfoot] at h
    exact hflight (Or.inl hfoot) h
  | triRiser =>
    rw [hfoot] at h
    exact hflight (Or.inr hfoot) h
  | edge =>
    rw [hfoot] at h
    rcases h with ⟨hlevel, side, hside, hread⟩ | ⟨hsame, hlevel⟩
    · rcases hread with hread | hread | hread
      · have hgcan : g.sock.Canonical := hread ▸ Nat.mod_lt _ (by decide)
        refine mem_dependents_body (Or.inl (by rw [hread]; rfl)) hgcan hbld.symm hlevel.symm (Or.inl ?_)
        rw [Sock.mem_sides_iff_beside (Or.inl (by rw [hread]; rfl)) hgcan]
        exact ⟨hfoot, hcan, side, hside, Or.inl hread⟩
      · have hgcan : g.sock.Canonical := hread ▸ Nat.mod_lt _ (by decide)
        refine mem_dependents_body (Or.inr (by rw [hread]; rfl)) hgcan hbld.symm hlevel.symm (Or.inl ?_)
        rw [Sock.mem_sides_iff_beside (Or.inr (by rw [hread]; rfl)) hgcan]
        exact ⟨hfoot, hcan, side, hside, Or.inr hread⟩
      · obtain ⟨hriser, hhigh⟩ := high_side_climbsTo hfoot hcan side
        rw [← hread] at hriser hhigh
        unfold dependents
        rw [hriser]
        refine List.mem_append_left _ ?_
        rw [if_pos rfl, hhigh, hlevel, hbld]
        exact List.mem_singleton_self a
    · obtain ⟨halves, hhalves, hup⟩ := levelStep_up hlevel
      exact mem_dependents_edge (hsame ▸ hfoot) hbld.symm hhalves hup (Or.inl hsame.symm)

/-- Whatever changes at one address changes the support of nothing but its dependents. -/
theorem mem_dependents_of_supported_ne {p q : Lookup} {g a : PieceAddr} {shape : Shape}
    (hsame : ∀ x, x ≠ g → p x = q x) (hcan : a.sock.Canonical)
    (hchange : supported p shape a ≠ supported q shape a) : a ∈ dependents g := by
  by_contra hnot
  apply hchange
  apply supported_congr
  intro x hread
  apply hsame
  rintro rfl
  exact hnot (mem_dependents_of_reads hcan hread)

/-- A floor on one wall leans on it: with the wall gone nothing bears it. -/
theorem floor_mem_dependents_wall :
    (⟨0, 1, Sock.squareFrom .zero 0⟩ : PieceAddr) ∈ dependents ⟨0, 0, Sock.edgeFrom .zero 0⟩ := by
  let wallOnly : Lookup := fun x => if x = ⟨0, 0, Sock.edgeFrom .zero 0⟩ then some .wall else none
  have hsame : ∀ x, x ≠ ⟨0, 0, Sock.edgeFrom .zero 0⟩ → wallOnly x = none :=
    fun x hx => if_neg hx
  have hchange : supported wallOnly .floor ⟨0, 1, Sock.squareFrom .zero 0⟩ ≠
      supported (fun _ => none) .floor ⟨0, 1, Sock.squareFrom .zero 0⟩ := by
    decide
  exact mem_dependents_of_supported_ne hsame (by decide) hchange

end BeforeColony.Pieces
