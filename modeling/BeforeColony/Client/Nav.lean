import BeforeColony.Lib.Shortest
import Mathlib.Data.List.Chain
import Mathlib.Data.List.GetD

/-!
# The course round what is in the way

The course the chart draws and the auto-nav flies: straight there where the way is clear, else the
shortest way through the points round the obstacles, their legs tested as the search reaches them
(`plot_shortest`). What is clear and how far apart two points are is measured in floating point,
which is left to the parameters; of the distances only what adding rounded ones keeps is used.
-/

set_option autoImplicit false

namespace BeforeColony.Nav

open Lib.Shortest

/-- The way from one place to another: where it starts first, where it ends last, and the turns
between. -/
structure Course (P : Type*) where
  points : List P
deriving DecidableEq, Repr

section

variable {P W : Type*} [Distances W] (distance : P → P → W)

def legs : List P → List W
  | a :: b :: rest => distance a b :: legs (b :: rest)
  | _ => []

def Course.length (c : Course P) : W := (legs distance c.points).foldl (· + ·) 0

/-- A point by its number, `here` for one there is none of. -/
def node (here : P) (nodes : List P) (i : ℕ) : P := nodes.getD i here

variable (clear : P → P → Bool)

def net (here : P) (nodes : List P) : Net W where
  n := nodes.length
  leg u v := distance (node here nodes u) (node here nodes v)
  clear u v := clear (node here nodes u) (node here nodes v)

/-- The course from `here` to `there`: straight there if the way is clear, else the shortest way through
the waypoints. If nothing gets there, straight there. -/
def plot (waypoints : List P) (here there : P) : Course P :=
  if clear here there then ⟨[here, there]⟩
  else
    let nodes := here :: there :: waypoints
    let g : Net W := net distance clear here nodes
    let s := search g
    if s.dist 1 = ⊤ then ⟨[here, there]⟩
    else ⟨((back s g.n 1).map (node here nodes)).reverse⟩

structure Way (waypoints : List P) (here there : P) (points : List P) : Prop where
  turns : ∃ mid, points = here :: (mid ++ [there]) ∧ ∀ p ∈ mid, p ∈ waypoints
  clear : points.IsChain fun a b => clear a b = true

variable {distance clear}

omit [Distances W] in
theorem legs_append (ps : List P) (p q : P) :
    legs distance (ps ++ [p] ++ [q]) = legs distance (ps ++ [p]) ++ [distance p q] := by
  induction ps with
  | nil => rfl
  | cons a ps ih =>
    cases ps with
    | nil => rfl
    | cons b ps =>
      simp only [List.cons_append, legs, List.cons.injEq, true_and] at ih ⊢
      exact ih

theorem length_append (ps : List P) (p q : P) :
    (Course.mk (ps ++ [p] ++ [q])).length distance =
      (Course.mk (ps ++ [p])).length distance + distance p q := by
  rw [Course.length, Course.length]
  dsimp only
  rw [legs_append, List.foldl_append, List.foldl_cons, List.foldl_nil]

variable {here : P} {nodes : List P}

theorem points_of_walk {l : List ℕ} {d : W} (h : Walk (net distance clear here nodes) l d) :
    ((l.map (node here nodes)).reverse.IsChain fun a b => clear a b = true) ∧
      (Course.mk (l.map (node here nodes)).reverse).length distance = d := by
  induction h with
  | start => exact ⟨List.isChain_singleton _, rfl⟩
  | @leg u v l d hwalk hv hclear ih =>
    obtain ⟨hchain, hlength⟩ := ih
    simp only [List.map_cons, List.reverse_cons] at hchain hlength ⊢
    constructor
    · rw [List.isChain_append]
      refine ⟨hchain, List.isChain_singleton _, ?_⟩
      simp only [List.getLast?_concat, Option.mem_some_iff, List.head?_cons, forall_eq']
      exact hclear
    · rw [length_append, hlength]
      rfl

theorem walk_of_points (hhere : node here nodes 0 = here) {ps : List P} (hps : ∀ p ∈ ps, p ∈ nodes)
    {v : ℕ} (hv : v < nodes.length)
    (hchain : (here :: (ps ++ [node here nodes v])).IsChain fun a b => clear a b = true) :
    ∃ l, Walk (net distance clear here nodes) (v :: l)
      ((Course.mk (here :: (ps ++ [node here nodes v]))).length distance) := by
  have hstep : ∀ (bs : List P) (u v : ℕ) (l : List ℕ), v < nodes.length →
      (bs ++ [node here nodes u] ++ [node here nodes v]).IsChain (fun a b => clear a b = true) →
      Walk (net distance clear here nodes) (u :: l)
        ((Course.mk (bs ++ [node here nodes u])).length distance) →
      Walk (net distance clear here nodes) (v :: u :: l)
        ((Course.mk (bs ++ [node here nodes u] ++ [node here nodes v])).length distance) := by
    intro bs u v l hv hchain hwalk
    rw [length_append]
    refine Walk.leg hwalk hv ?_
    rw [List.isChain_append] at hchain
    exact hchain.2.2 _ (List.getLast?_concat) _ rfl
  induction ps using List.reverseRecOn generalizing v with
  | nil =>
    have hlist : here :: ([] ++ [node here nodes v]) =
        [] ++ [node here nodes 0] ++ [node here nodes v] := by
      rw [hhere]
      rfl
    rw [hlist] at hchain ⊢
    exact ⟨[0], hstep [] 0 v [] hv hchain Walk.start⟩
  | append_singleton ps q ih =>
    obtain ⟨u, hu, hq⟩ := List.getElem_of_mem (hps q (by simp))
    have hnode : q = node here nodes u := by
      rw [node, List.getD_eq_getElem _ _ hu, hq]
    rw [hnode] at hchain ⊢
    have hassoc : here :: (ps ++ [node here nodes u] ++ [node here nodes v]) =
        here :: ps ++ [node here nodes u] ++ [node here nodes v] := by simp
    rw [hassoc] at hchain ⊢
    obtain ⟨l, hwalk⟩ := ih (fun p hp => hps p (List.mem_append_left _ hp)) hu
      (List.isChain_append.mp hchain).1
    exact ⟨u :: l, hstep (here :: ps) u v l hv hchain hwalk⟩

variable {waypoints : List P} {there : P}

variable (distance) in
theorem walk_of_way {points : List P} (h : Way clear waypoints here there points) :
    ∃ l, Walk (net distance clear here (here :: there :: waypoints)) (1 :: l)
      ((Course.mk points).length distance) := by
  obtain ⟨mid, rfl, hmid⟩ := h.turns
  have hnode : node here (here :: there :: waypoints) 1 = there := rfl
  rw [← hnode]
  exact walk_of_points rfl
    (fun p hp => List.mem_cons_of_mem _ (List.mem_cons_of_mem _ (hmid p hp))) (by simp) h.clear

theorem way_of_walk {l : List ℕ} {d : W}
    (h : Walk (net distance clear here (here :: there :: waypoints)) (1 :: l) d)
    (hnodup : (1 :: l).Nodup) :
    Way clear waypoints here there
      (((1 :: l).map (node here (here :: there :: waypoints))).reverse) := by
  refine ⟨?_, (points_of_walk h).1⟩
  have hlast := h.getLast
  have hlt := h.lt (by simp [net])
  cases hl : l.reverse with
  | nil =>
    rw [List.reverse_eq_nil_iff] at hl
    rw [hl] at hlast
    cases hlast
  | cons z mid =>
    have hl' : l = mid.reverse ++ [z] := by
      rw [← List.reverse_reverse l, hl, List.reverse_cons]
    subst hl'
    obtain rfl : z = 0 := by
      rw [← List.cons_append, List.getLast?_concat] at hlast
      exact Option.some.inj hlast
    refine ⟨mid.map (node here (here :: there :: waypoints)), ?_, ?_⟩
    · simp [node]
    · intro p hp
      obtain ⟨v, hv, rfl⟩ := List.mem_map.mp hp
      have hvlt : v < waypoints.length + 2 := hlt v (by simp [hv])
      rw [List.nodup_cons, List.nodup_append] at hnodup
      have hone : v ≠ 1 := by
        rintro rfl
        exact hnodup.1 (by simp [hv])
      have hzero : v ≠ 0 := by
        rintro rfl
        exact hnodup.2.2.2 0 (by simp [hv]) 0 (by simp) rfl
      obtain ⟨k, rfl⟩ : ∃ k, v = k + 2 := ⟨v - 2, by omega⟩
      have hk : k < waypoints.length := by omega
      simp only [node, List.getD_cons_succ]
      rw [List.getD_eq_getElem _ _ hk]
      exact List.getElem_mem hk

/-- The course is straight where the way is clear; else it is a way round, as short as any there is,
or there is none. -/
theorem plot_shortest (distance : P → P → W) (clear : P → P → Bool) (waypoints : List P)
    (here there : P) :
    (clear here there = true ∧
      (plot distance clear waypoints here there).points = [here, there]) ∨
    (clear here there = false ∧
      Way clear waypoints here there (plot distance clear waypoints here there).points ∧
      ∀ points, Way clear waypoints here there points →
        (plot distance clear waypoints here there).length distance ≤
          (Course.mk points).length distance) ∨
    ((plot distance clear waypoints here there).points = [here, there] ∧
      ∀ points, ¬Way clear waypoints here there points) := by
  cases hclear : clear here there with
  | true =>
    left
    rw [plot, if_pos hclear]
    exact ⟨rfl, rfl⟩
  | false =>
    right
    have hfar : ¬clear here there = true := by rw [hclear]; decide
    let g : Net W := net distance clear here (here :: there :: waypoints)
    have hn : 0 < g.n := Nat.succ_pos _
    rcases search_spec hn with ⟨htop, hnone⟩ | ⟨d, hd, hwalk, hnodup, hleast⟩
    · right
      rw [plot, if_neg hfar]
      dsimp only
      rw [if_pos htop]
      refine ⟨rfl, ?_⟩
      intro points hway
      obtain ⟨l, hl⟩ := walk_of_way distance hway
      exact hnone l _ hl
    · left
      have htop : (search g).dist 1 ≠ ⊤ := by
        rw [hd]
        exact WithTop.coe_ne_top
      have hplot : plot distance clear waypoints here there =
          ⟨((back (search g) g.n 1).map (node here (here :: there :: waypoints))).reverse⟩ := by
        rw [plot, if_neg hfar]
        exact if_neg htop
      rw [hplot]
      have hlength := (points_of_walk hwalk).2
      obtain ⟨l, hl⟩ := back_cons (search g) g.n 1
      rw [hl] at hwalk hnodup hlength ⊢
      refine ⟨rfl, way_of_walk hwalk hnodup, ?_⟩
      intro points hway
      obtain ⟨l', hl'⟩ := walk_of_way distance hway
      rw [hlength]
      exact hleast l' _ hl'

end

/-- Round a block: on a line of points too far apart to see past, through the one between. -/
theorem plot_shortest_block :
    let distance (a b : ℕ) := max a b - min a b
    let clear (a b : ℕ) := decide (max a b - min a b ≤ 2)
    Way clear [5, 2, 1, 3] 0 4 (@plot ℕ ℕ steps distance clear [5, 2, 1, 3] 0 4).points
      ∧ @Course.length ℕ ℕ steps distance (@plot ℕ ℕ steps distance clear [5, 2, 1, 3] 0 4) ≤ 4 := by
  intro distance clear
  have hround : Way clear [5, 2, 1, 3] 0 4 [0, 2, 4] := ⟨⟨[2], rfl, by decide⟩, by decide⟩
  rcases @plot_shortest ℕ ℕ steps distance clear [5, 2, 1, 3] 0 4 with
    ⟨hclear, -⟩ | ⟨-, hway, hleast⟩ | ⟨-, hnone⟩
  · exact absurd hclear (by decide)
  · exact ⟨hway, hleast _ hround⟩
  · exact absurd hround (hnone _)

end BeforeColony.Nav
