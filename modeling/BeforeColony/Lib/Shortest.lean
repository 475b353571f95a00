import Mathlib.Data.List.MinMax
import Mathlib.Data.List.Nodup
import Mathlib.Data.List.Perm.Subperm
import Mathlib.Order.WithBot
import Mathlib.Algebra.Order.Monoid.Unbundled.WithTop
import Mathlib.Algebra.Order.Group.Nat

/-!
# The shortest way over legs tested as they are reached

Dijkstra's search from point 0 to point 1: of the points reached the nearest is settled, and every
leg from it that would bring another nearer is tested then. Lengths are added one leg at a time and
need not associate, so rounded ones will do: adding a leg shortens nothing and keeps the order
(`Distances`). Where the search stops, the way traced back from point 1 is a walk over clear legs and no
walk is shorter, or no walk gets there (`search_spec`).
-/

set_option autoImplicit false

namespace Lib.Shortest

class Distances (W : Type*) extends LinearOrder W, Zero W, Add W where
  add_mono : ∀ {a b : W} (c : W), a ≤ b → a + c ≤ b + c
  le_add : ∀ a c : W, a ≤ a + c

/-- Whole steps. It is no instance, so that what is said of numbers elsewhere finds their own order. -/
@[reducible] def steps : Distances ℕ where
  toLinearOrder := Nat.instLinearOrder
  toZero := ⟨0⟩
  toAdd := ⟨Nat.add⟩
  add_mono c h := Nat.add_le_add_right h c
  le_add := Nat.le_add_right

/-- Points numbered below `n`, how long the leg between two is, and whether it is clear. -/
structure Net (W : Type*) where
  n : ℕ
  leg : ℕ → ℕ → W
  clear : ℕ → ℕ → Bool

/-- How far each point is known to be, which it was reached from, and which are settled. -/
structure Search (W : Type*) where
  dist : ℕ → WithTop W
  prev : ℕ → Option ℕ
  done : ℕ → Bool

variable {W : Type*} [Distances W] (g : Net W)

def start : Search W where
  dist v := if v = 0 then ((0 : W) : WithTop W) else ⊤
  prev _ := none
  done _ := false

/-- Of the points reached and not settled, the first of the nearest. -/
def nearest (s : Search W) : Option ℕ :=
  ((List.range g.n).filter fun v => !s.done v && decide (s.dist v ≠ ⊤)).argmin s.dist

def relax (u : ℕ) (s : Search W) (v : ℕ) : Search W :=
  if s.done v = true ∨ v = u then s
  else
    let d := s.dist u + (g.leg u v : WithTop W)
    if d < s.dist v ∧ g.clear u v = true then
      { s with dist := Function.update s.dist v d, prev := Function.update s.prev v (some u) }
    else s

/-- Point `u` settled, and every leg from it tried. -/
def settle (s : Search W) (u : ℕ) : Search W :=
  ((List.range g.n).tail).foldl (relax g u) { s with done := Function.update s.done u true }

/-- Settles the nearest till it is point 1 or there is none. -/
def loop : ℕ → Search W → Search W
  | 0, s => s
  | k + 1, s =>
    match nearest g s with
    | none => s
    | some u => if u = 1 then s else loop k (settle g s u)

/-- The search from point 0: each round settles a point, so there are no more than `n`. -/
def search : Search W := loop g g.n start

/-- The points traced back from `v` to where it was reached from. -/
def back (s : Search W) : ℕ → ℕ → List ℕ
  | 0, v => [v]
  | k + 1, v =>
    match s.prev v with
    | none => [v]
    | some u => v :: back s k u

/-- A walk over clear legs from point 0, its last point first, and how long it is. -/
inductive Walk : List ℕ → W → Prop where
  | start : Walk [0] 0
  | leg {u v : ℕ} {l : List ℕ} {d : W} : Walk (u :: l) d → v < g.n → g.clear u v = true →
      Walk (v :: u :: l) (d + g.leg u v)

variable {g}

theorem le_add_top (a : WithTop W) (c : W) : a ≤ a + (c : WithTop W) := by
  cases a with
  | top => exact le_top
  | coe a => exact WithTop.coe_le_coe.mpr (Distances.le_add a c)

theorem add_mono_top {a b : WithTop W} (c : W) (h : a ≤ b) :
    a + (c : WithTop W) ≤ b + (c : WithTop W) := by
  cases b with
  | top => exact le_top
  | coe b =>
    cases a with
    | top => exact absurd h (by simp)
    | coe a => exact WithTop.coe_le_coe.mpr (Distances.add_mono c (WithTop.coe_le_coe.mp h))

omit [Distances W] in
theorem back_cons (s : Search W) (k v : ℕ) : ∃ l, back s k v = v :: l := by
  cases k with
  | zero => exact ⟨[], rfl⟩
  | succ k => cases h : s.prev v with
    | none => exact ⟨[], by rw [back, h]⟩
    | some u => exact ⟨back s k u, by rw [back, h]⟩

theorem Walk.getLast {l : List ℕ} {d : W} (h : Walk g l d) : l.getLast? = some 0 := by
  induction h with
  | start => rfl
  | leg _ _ _ ih => rw [List.getLast?_cons_cons, ih]

theorem Walk.lt {l : List ℕ} {d : W} (h : Walk g l d) (hn : 0 < g.n) : ∀ v ∈ l, v < g.n := by
  induction h with
  | start => simpa using hn
  | leg _ hv _ ih =>
    intro x hx
    rcases List.mem_cons.mp hx with rfl | hx
    · exact hv
    · exact ih x hx

/-! ## The nearest -/

theorem nearest_eq_some {s : Search W} {u : ℕ} (h : nearest g s = some u) :
    u < g.n ∧ s.done u = false ∧ s.dist u ≠ ⊤ ∧
      ∀ v < g.n, s.done v = false → s.dist u ≤ s.dist v := by
  have hmem := List.argmin_mem h
  simp only [List.mem_filter, List.mem_range, Bool.and_eq_true, Bool.not_eq_true',
    decide_eq_true_eq] at hmem
  refine ⟨hmem.1, hmem.2.1, hmem.2.2, ?_⟩
  intro v hv hdone
  by_cases htop : s.dist v = ⊤
  · rw [htop]
    exact le_top
  · apply List.le_of_mem_argmin (f := s.dist) _ h
    simp [hv, hdone, htop]

theorem nearest_eq_none {s : Search W} (h : nearest g s = none) {v : ℕ} (hv : v < g.n)
    (hdone : s.done v = false) : s.dist v = ⊤ := by
  rw [nearest, List.argmin_eq_none, List.filter_eq_nil_iff] at h
  have hv' := h v (List.mem_range.mpr hv)
  simpa [hdone] using hv'

/-! ## What is traced back -/

/-- The points traced back from `v` to point 0, each leg clear and as long as it says, every point
after the first settled. -/
inductive Traced (g : Net W) (s : Search W) : ℕ → List ℕ → Prop where
  | start : s.prev 0 = none → Traced g s 0 [0]
  | leg {u v : ℕ} {l : List ℕ} : s.prev v = some u → s.done u = true → v < g.n →
      g.clear u v = true → s.dist v = s.dist u + (g.leg u v : WithTop W) → Traced g s u l →
      Traced g s v (v :: l)

namespace Traced

variable {s t : Search W} {v : ℕ} {l : List ℕ}

/-- What is traced back stays so while the settled points and the first keep what is known of
them. -/
theorem of_agree (hdone : ∀ x, s.done x = true →
      t.done x = true ∧ t.prev x = s.prev x ∧ t.dist x = s.dist x)
    (hv : t.prev v = s.prev v ∧ t.dist v = s.dist v) (h : Traced g s v l) : Traced g t v l := by
  induction h with
  | start hprev => exact start (hv.1.trans hprev)
  | leg hprev hu hn hclear hdist _ ih =>
    obtain ⟨hudone, huprev, hudist⟩ := hdone _ hu
    exact leg (hv.1.trans hprev) hudone hn hclear (by rw [hv.2, hudist, hdist])
      (ih ⟨huprev, hudist⟩)

theorem unique {l' : List ℕ} (h : Traced g s v l) (h' : Traced g s v l') : l = l' := by
  induction h generalizing l' with
  | start hprev =>
    cases h' with
    | start _ => rfl
    | leg hprev' => rw [hprev] at hprev'; cases hprev'
  | leg hprev _ _ _ _ _ ih =>
    cases h' with
    | start hprev' => rw [hprev] at hprev'; cases hprev'
    | leg hprev' _ _ _ _ htrace =>
      rw [hprev] at hprev'
      obtain rfl := Option.some.inj hprev'
      rw [ih htrace]

theorem exists_suffix (h : Traced g s v l) {x : ℕ} (hx : x ∈ l) :
    ∃ l', l'.length ≤ l.length ∧ Traced g s x l' := by
  induction h with
  | start hprev =>
    obtain rfl := List.mem_singleton.mp hx
    exact ⟨[0], le_rfl, start hprev⟩
  | leg hprev hu hn hclear hdist htrace ih =>
    rcases List.mem_cons.mp hx with rfl | hx
    · exact ⟨_, le_rfl, leg hprev hu hn hclear hdist htrace⟩
    · obtain ⟨l', hlen, hl'⟩ := ih hx
      exact ⟨l', Nat.le_succ_of_le hlen, hl'⟩

theorem nodup (h : Traced g s v l) : l.Nodup := by
  induction h with
  | start _ => exact List.nodup_singleton 0
  | leg hprev hu hn hclear hdist htrace ih =>
    refine List.nodup_cons.mpr ⟨?_, ih⟩
    intro hmem
    obtain ⟨l', hlen, hl'⟩ := htrace.exists_suffix hmem
    have heq := (leg hprev hu hn hclear hdist htrace).unique hl'
    rw [← heq, List.length_cons] at hlen
    omega

theorem lt (h : Traced g s v l) (hn : 0 < g.n) : ∀ x ∈ l, x < g.n := by
  induction h with
  | start _ =>
    intro x hx
    rw [List.mem_singleton.mp hx]
    exact hn
  | leg _ _ hv _ _ _ ih =>
    intro x hx
    rcases List.mem_cons.mp hx with rfl | hx
    · exact hv
    · exact ih x hx

theorem length_le (h : Traced g s v l) (hn : 0 < g.n) : l.length ≤ g.n := by
  have hsub : l.Subperm (List.range g.n) :=
    List.Nodup.subperm h.nodup fun x hx => List.mem_range.mpr (h.lt hn x hx)
  simpa using hsub.length_le

theorem back_eq (h : Traced g s v l) {k : ℕ} (hk : l.length ≤ k + 1) : back s k v = l := by
  induction h generalizing k with
  | start hprev => cases k <;> simp [back, hprev]
  | @leg u v l hprev _ _ _ _ htrace ih =>
    cases k with
    | zero =>
      cases htrace <;> simp at hk
    | succ k =>
      rw [back, hprev]
      simp only [List.cons.injEq, true_and]
      exact ih (by simpa using hk)

theorem walk (hsource : s.dist 0 = ((0 : W) : WithTop W)) (h : Traced g s v l) :
    ∃ d : W, s.dist v = (d : WithTop W) ∧ Walk g l d := by
  induction h with
  | start _ => exact ⟨0, hsource, Walk.start⟩
  | @leg u v l _ _ hn hclear hdist htrace ih =>
    obtain ⟨d, hd, hwalk⟩ := ih
    refine ⟨d + g.leg u v, by rw [hdist, hd, WithTop.coe_add], ?_⟩
    cases htrace with
    | start _ => exact Walk.leg hwalk hn hclear
    | leg _ _ _ _ _ _ => exact Walk.leg hwalk hn hclear

end Traced

/-! ## What the search keeps -/

/-- What is known while the legs in `tried` from settled points have been tried. -/
structure Inv (g : Net W) (tried : ℕ → ℕ → Prop) (s : Search W) : Prop where
  source : s.dist 0 = ((0 : W) : WithTop W)
  nonneg : ∀ v, ((0 : W) : WithTop W) ≤ s.dist v
  floor : ∀ u v, s.done u = true → v < g.n → s.done v = false → s.dist u ≤ s.dist v
  relaxed : ∀ u v, s.done u = true → v < g.n → g.clear u v = true → tried u v →
    s.dist v ≤ s.dist u + (g.leg u v : WithTop W)
  traced : ∀ v, s.dist v ≠ ⊤ → ∃ l, Traced g s v l

theorem inv_start : Inv g (fun _ _ => True) start where
  source := rfl
  nonneg v := by
    by_cases hv : v = 0 <;> simp [start, hv]
  floor u v hu _ _ := by simp [start] at hu
  relaxed u v hu _ _ _ := by simp [start] at hu
  traced v hv := by
    by_cases h : v = 0
    · subst h
      exact ⟨[0], Traced.start rfl⟩
    · exact absurd (if_neg h) hv

/-- Settling the nearest, none of its legs tried yet. -/
theorem Inv.mark {s : Search W} (h : Inv g (fun _ _ => True) s) {u : ℕ}
    (hnear : nearest g s = some u) :
    Inv g (fun w _ => w ≠ u) { s with done := Function.update s.done u true } := by
  obtain ⟨-, hundone, -, hleast⟩ := nearest_eq_some hnear
  have hold : ∀ w, w ≠ u → Function.update s.done u true w = s.done w :=
    fun w hw => Function.update_of_ne hw true s.done
  have hself : Function.update s.done u true u = true := Function.update_self u true s.done
  have hkept : ∀ w, s.done w = true → Function.update s.done u true w = true := by
    intro w hw
    by_cases hwu : w = u
    · rw [hwu, hself]
    · rw [hold w hwu, hw]
  refine ⟨h.source, h.nonneg, ?_, ?_, ?_⟩
  · intro w v hw hv hvdone
    dsimp only at hw hvdone ⊢
    have hvu : v ≠ u := by
      rintro rfl
      rw [hself] at hvdone
      cases hvdone
    rw [hold v hvu] at hvdone
    by_cases hwu : w = u
    · rw [hwu]
      exact hleast v hv hvdone
    · rw [hold w hwu] at hw
      exact h.floor w v hw hv hvdone
  · intro w v hw hv hclear hwu
    dsimp only at hw ⊢
    rw [hold w hwu] at hw
    exact h.relaxed w v hw hv hclear trivial
  · intro v hv
    obtain ⟨l, hl⟩ := h.traced v hv
    exact ⟨l, hl.of_agree (fun x hx => ⟨hkept x hx, rfl, rfl⟩) ⟨rfl, rfl⟩⟩

/-- What trying one leg does: nothing, where it brings its end no nearer or is not clear; else its
end is that near, reached by it. -/
theorem relax_cases (g : Net W) (u : ℕ) (s : Search W) (v : ℕ) :
    (relax g u s v = s ∧ (s.done v = true ∨ v = u ∨
      s.dist v ≤ s.dist u + (g.leg u v : WithTop W) ∨ g.clear u v = false)) ∨
    (s.done v = false ∧ v ≠ u ∧ g.clear u v = true ∧
      s.dist u + (g.leg u v : WithTop W) < s.dist v ∧
      relax g u s v = { s with
        dist := Function.update s.dist v (s.dist u + (g.leg u v : WithTop W))
        prev := Function.update s.prev v (some u) }) := by
  unfold relax
  split
  next hskip =>
    left
    rcases hskip with hdone | hsame
    · exact ⟨rfl, Or.inl hdone⟩
    · exact ⟨rfl, Or.inr (Or.inl hsame)⟩
  next hskip =>
    rw [not_or, Bool.not_eq_true] at hskip
    dsimp only
    split
    next hnearer => exact Or.inr ⟨hskip.1, hskip.2, hnearer.2, hnearer.1, rfl⟩
    next hnearer =>
      left
      rw [not_and_or, not_lt, Bool.not_eq_true] at hnearer
      exact ⟨rfl, Or.inr (Or.inr hnearer)⟩

theorem relax_done (u : ℕ) (s : Search W) (v : ℕ) : (relax g u s v).done = s.done := by
  rcases relax_cases g u s v with ⟨heq, -⟩ | ⟨-, -, -, -, heq⟩ <;> rw [heq]

theorem Inv.relax {u : ℕ} {tried : ℕ → ℕ → Prop} {s : Search W} (h : Inv g tried s)
    (hu : s.done u = true) (htop : s.dist u ≠ ⊤)
    (hlast : ∀ w, s.done w = true → s.dist w ≤ s.dist u) {v : ℕ} (hv : v < g.n) :
    Inv g (fun w x => tried w x ∨ w = u ∧ x = v) (relax g u s v) := by
  have hkeep : s.dist v ≤ s.dist u + (g.leg u v : WithTop W) ∨ g.clear u v = false →
      Inv g (fun w x => tried w x ∨ w = u ∧ x = v) s := by
    intro hnot
    refine ⟨h.source, h.nonneg, h.floor, ?_, h.traced⟩
    rintro w x hw hx hclear (htried | ⟨rfl, rfl⟩)
    · exact h.relaxed w x hw hx hclear htried
    · rcases hnot with hnot | hnot
      · exact hnot
      · rw [hnot] at hclear
        cases hclear
  rcases relax_cases g u s v with ⟨heq, hskip⟩ | ⟨hvdone, hvu, hclear, hnearer, heq⟩
  · rw [heq]
    rcases hskip with hdone | rfl | hnot
    · exact hkeep (Or.inl ((hlast v hdone).trans (le_add_top _ _)))
    · exact hkeep (Or.inl (le_add_top _ _))
    · exact hkeep hnot
  · rw [heq]
    have hne : ∀ x, s.done x = true → x ≠ v := by
      rintro x hx rfl
      rw [hvdone] at hx
      cases hx
    have hdist : ∀ x, x ≠ v → Function.update s.dist v
        (s.dist u + (g.leg u v : WithTop W)) x = s.dist x := fun x hx => Function.update_of_ne hx _ _
    have hprev : ∀ x, x ≠ v → Function.update s.prev v (some u) x = s.prev x :=
      fun x hx => Function.update_of_ne hx _ _
    have hself : Function.update s.dist v (s.dist u + (g.leg u v : WithTop W)) v =
        s.dist u + (g.leg u v : WithTop W) := Function.update_self v _ _
    have hless : ∀ x, Function.update s.dist v (s.dist u + (g.leg u v : WithTop W)) x ≤
        s.dist x := by
      intro x
      by_cases hx : x = v
      · rw [hx, hself]
        exact hnearer.le
      · rw [hdist x hx]
    refine ⟨?_, ?_, ?_, ?_, ?_⟩
    · have hzero : (0 : ℕ) ≠ v := by
        rintro rfl
        rw [h.source] at hnearer
        exact absurd (((h.nonneg u).trans (le_add_top _ _)).trans_lt hnearer) (lt_irrefl _)
      exact (hdist 0 hzero).trans h.source
    · intro x
      dsimp only
      by_cases hx : x = v
      · rw [hx, hself]
        exact (h.nonneg u).trans (le_add_top _ _)
      · rw [hdist x hx]
        exact h.nonneg x
    · intro w x hw hx hxdone
      dsimp only at hw hxdone ⊢
      rw [hdist w (hne w hw)]
      by_cases hxv : x = v
      · rw [hxv, hself]
        exact (hlast w hw).trans (le_add_top _ _)
      · rw [hdist x hxv]
        exact h.floor w x hw hx hxdone
    · rintro w x hw hx hwclear htried
      dsimp only at hw ⊢
      rw [hdist w (hne w hw)]
      rcases htried with htried | ⟨rfl, rfl⟩
      · exact (hless x).trans (h.relaxed w x hw hx hwclear htried)
      · exact hself.le
    · have hagree : ∀ {x : ℕ} {l : List ℕ}, x ≠ v → Traced g s x l →
          Traced g { s with
            dist := Function.update s.dist v (s.dist u + (g.leg u v : WithTop W))
            prev := Function.update s.prev v (some u) } x l := by
        intro x l hx hl
        refine Traced.of_agree (s := s) ?_ ⟨hprev x hx, hdist x hx⟩ hl
        intro y hy
        exact ⟨hy, hprev y (hne y hy), hdist y (hne y hy)⟩
      intro x hx
      dsimp only at hx
      by_cases hxv : x = v
      · obtain ⟨l, hl⟩ := h.traced u htop
        rw [hxv]
        refine ⟨v :: l, Traced.leg (u := u) ?_ hu hv hclear ?_ (hagree (Ne.symm hvu) hl)⟩
        · exact Function.update_self v (some u) s.prev
        · exact hself.trans (congrArg (· + (g.leg u v : WithTop W)) (hdist u (Ne.symm hvu)).symm)
      · rw [hdist x hxv] at hx
        obtain ⟨l, hl⟩ := h.traced x hx
        exact ⟨l, hagree hxv hl⟩

theorem relax_dist {u : ℕ} {s : Search W} {v w : ℕ} (hw : s.done w = true) :
    (relax g u s v).dist w = s.dist w := by
  rcases relax_cases g u s v with ⟨heq, -⟩ | ⟨hv, -, -, -, heq⟩
  · rw [heq]
  · rw [heq]
    apply Function.update_of_ne
    rintro rfl
    rw [hv] at hw
    cases hw

theorem Inv.relaxAll {u : ℕ} {vs : List ℕ} {tried : ℕ → ℕ → Prop} {s : Search W}
    (h : Inv g tried s) (hu : s.done u = true) (htop : s.dist u ≠ ⊤)
    (hlast : ∀ w, s.done w = true → s.dist w ≤ s.dist u) (hvs : ∀ v ∈ vs, v < g.n) :
    Inv g (fun w x => tried w x ∨ w = u ∧ x ∈ vs) (vs.foldl (Shortest.relax g u) s) := by
  induction vs generalizing tried s with
  | nil => simpa using h
  | cons v vs ih =>
    have hv := hvs v List.mem_cons_self
    have hnext := ih (h.relax hu htop hlast hv) (by rw [relax_done, hu])
      (by rw [relax_dist hu]; exact htop)
      (by
        intro w hw
        rw [relax_done] at hw
        rw [relax_dist hw, relax_dist hu]
        exact hlast w hw)
      (fun x hx => hvs x (List.mem_cons_of_mem v hx))
    have htried : (fun w x => (tried w x ∨ w = u ∧ x = v) ∨ w = u ∧ x ∈ vs) =
        fun w x => tried w x ∨ w = u ∧ x ∈ v :: vs := by
      funext w x
      rw [List.mem_cons, or_assoc, and_or_left]
    rw [htried] at hnext
    exact hnext

theorem Inv.settle {s : Search W} (h : Inv g (fun _ _ => True) s) {u : ℕ}
    (hnear : nearest g s = some u) : Inv g (fun _ _ => True) (settle g s u) := by
  obtain ⟨hn, hundone, htop, -⟩ := nearest_eq_some hnear
  have hmarked := h.mark hnear
  have hvs : ∀ v ∈ (List.range g.n).tail, v < g.n :=
    fun v hv => List.mem_range.mp (List.mem_of_mem_tail hv)
  have hall := hmarked.relaxAll
    (Function.update_self u true s.done) htop
    (by
      intro w hw
      dsimp only at hw ⊢
      by_cases hwu : w = u
      · rw [hwu]
      · rw [Function.update_of_ne hwu] at hw
        exact h.floor w u hw hn hundone)
    hvs
  refine ⟨hall.source, hall.nonneg, hall.floor, ?_, hall.traced⟩
  intro w v hw hv hclear _
  by_cases hzero : v = 0
  · rw [hzero]
    exact hall.source.le.trans ((hall.nonneg w).trans (le_add_top _ _))
  · apply hall.relaxed w v hw hv hclear
    by_cases hwu : w = u
    · right
      refine ⟨hwu, ?_⟩
      obtain ⟨n, hn'⟩ : ∃ n, g.n = n + 1 := ⟨g.n - 1, by omega⟩
      rw [hn', List.range_succ_eq_map, List.tail_cons, List.mem_map]
      exact ⟨v - 1, List.mem_range.mpr (by omega), by omega⟩
    · exact Or.inl hwu

/-! ## To the end of the search -/

def undone (g : Net W) (s : Search W) : ℕ := ((List.range g.n).filter fun v => !s.done v).length

theorem settle_done (s : Search W) (u : ℕ) :
    (settle g s u).done = Function.update s.done u true := by
  have hfold : ∀ (vs : List ℕ) (t : Search W), (vs.foldl (relax g u) t).done = t.done := by
    intro vs
    induction vs with
    | nil => intro t; rfl
    | cons v vs ih =>
      intro t
      rw [List.foldl_cons, ih, relax_done]
  exact hfold _ _

theorem filter_length_lt {α : Type*} {l : List α} {p q : α → Bool} (hle : ∀ x, q x = true → p x = true)
    {x : α} (hx : x ∈ l) (hp : p x = true) (hq : q x = false) :
    (l.filter q).length < (l.filter p).length := by
  have hsub : (l.filter q) = (l.filter p).filter q := by
    rw [List.filter_filter]
    congr 1
    funext y
    cases hqy : q y with
    | false => rfl
    | true => rw [hle y hqy, Bool.and_self]
  rw [hsub]
  refine lt_of_le_of_ne (List.length_filter_le q _) ?_
  intro heq
  have := List.length_filter_eq_length_iff.mp heq x (List.mem_filter.mpr ⟨hx, hp⟩)
  rw [hq] at this
  cases this

theorem undone_settle {s : Search W} {u : ℕ} (hn : u < g.n) (hu : s.done u = false) :
    undone g (settle g s u) < undone g s := by
  unfold undone
  rw [settle_done]
  apply filter_length_lt _ (List.mem_range.mpr hn)
  · simp [hu]
  · simp
  · intro x hx
    by_cases hxu : x = u
    · rw [hxu, Function.update_self] at hx
      cases hx
    · rwa [Function.update_of_ne hxu] at hx

/-- The search stops with point 1 the nearest or no point left to settle. -/
theorem loop_spec {k : ℕ} {s : Search W} (h : Inv g (fun _ _ => True) s) (hk : undone g s ≤ k) :
    Inv g (fun _ _ => True) (loop g k s) ∧
      (nearest g (loop g k s) = none ∨ nearest g (loop g k s) = some 1) := by
  induction k generalizing s with
  | zero =>
    refine ⟨h, Or.inl ?_⟩
    rw [loop]
    cases hnear : nearest g s with
    | none => rfl
    | some u =>
      obtain ⟨hn, hundone, -, -⟩ := nearest_eq_some hnear
      have := undone_settle (g := g) hn hundone
      omega
  | succ k ih =>
    rw [loop]
    cases hnear : nearest g s with
    | none => exact ⟨h, Or.inl hnear⟩
    | some u =>
      dsimp only
      split
      next hu => exact ⟨h, Or.inr (hu ▸ hnear)⟩
      next hu =>
        obtain ⟨hn, hundone, -, -⟩ := nearest_eq_some hnear
        have := undone_settle (g := g) hn hundone
        exact ih (h.settle hnear) (by omega)

/-- Where the search has stopped, a walk is no shorter than point 1 is near, or it is still among
settled points. -/
theorem dist_le_walk {s : Search W} (h : Inv g (fun _ _ => True) s) (hn : 0 < g.n)
    (hstop : nearest g s = none ∨ nearest g s = some 1) {l : List ℕ} {d : W} (hwalk : Walk g l d) :
    s.dist 1 ≤ (d : WithTop W) ∨
      ∀ v ∈ l.head?, s.done v = true ∧ s.dist v ≤ (d : WithTop W) := by
  have hreach : ∀ v < g.n, ∀ d : W, s.dist v ≤ (d : WithTop W) →
      s.dist 1 ≤ (d : WithTop W) ∨ s.done v = true := by
    intro v hv d hd
    cases hdone : s.done v with
    | true => exact Or.inr rfl
    | false =>
      left
      rcases hstop with hstop | hstop
      · rw [nearest_eq_none hstop hv hdone] at hd
        exact absurd hd (by simp)
      · exact ((nearest_eq_some hstop).2.2.2 v hv hdone).trans hd
  induction hwalk with
  | start =>
    rcases hreach 0 hn 0 h.source.le with hone | hdone
    · exact Or.inl hone
    · right
      intro v hv
      obtain rfl : (0 : ℕ) = v := by simpa using hv
      exact ⟨hdone, h.source.le⟩
  | @leg u v l d _ hv hclear ih =>
    have hgrow : (d : WithTop W) ≤ ((d + g.leg u v : W) : WithTop W) :=
      WithTop.coe_le_coe.mpr (Distances.le_add d _)
    rcases ih with hone | hsettled
    · exact Or.inl (hone.trans hgrow)
    · obtain ⟨hdone, hdist⟩ := hsettled u (by simp)
      have hle : s.dist v ≤ ((d + g.leg u v : W) : WithTop W) :=
        (h.relaxed u v hdone hv hclear trivial).trans (add_mono_top _ hdist)
      rcases hreach v hv _ hle with hone | hvdone
      · exact Or.inl hone
      · right
        intro x hx
        obtain rfl : v = x := by simpa using hx
        exact ⟨hvdone, hle⟩

/-- Either no walk gets to point 1, or what is traced back from it is one, with no point twice, and
none is shorter. -/
theorem search_spec (hn : 0 < g.n) :
    ((search g).dist 1 = ⊤ ∧ ∀ l d, ¬Walk g (1 :: l) d) ∨
    ∃ d : W, (search g).dist 1 = (d : WithTop W) ∧ Walk g (back (search g) g.n 1) d ∧
      (back (search g) g.n 1).Nodup ∧ ∀ l d', Walk g (1 :: l) d' → d ≤ d' := by
  have hundone : undone g (start : Search W) ≤ g.n :=
    (List.length_filter_le _ _).trans List.length_range.le
  obtain ⟨hinv, hstop⟩ := loop_spec inv_start hundone
  have hleast : ∀ l d, Walk g (1 :: l) d → (search g).dist 1 ≤ (d : WithTop W) := by
    intro l d hwalk
    rcases dist_le_walk hinv hn hstop hwalk with h | h
    · exact h
    · exact (h 1 (by simp)).2
  by_cases htop : (search g).dist 1 = ⊤
  · left
    refine ⟨htop, ?_⟩
    intro l d hwalk
    have := hleast l d hwalk
    rw [htop] at this
    exact absurd this (by simp)
  · right
    obtain ⟨l, hl⟩ := hinv.traced 1 htop
    obtain ⟨d, hd, hwalk⟩ := hl.walk hinv.source
    have hback : back (search g) g.n 1 = l :=
      hl.back_eq (Nat.le_succ_of_le (hl.length_le hn))
    refine ⟨d, hd, hback ▸ hwalk, hback ▸ hl.nodup, ?_⟩
    intro l' d' hwalk'
    have := hleast l' d' hwalk'
    change (search g).dist 1 ≤ _ at this
    rw [show (search g).dist 1 = (d : WithTop W) from hd] at this
    exact WithTop.coe_le_coe.mp this

end Lib.Shortest
