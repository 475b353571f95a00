import BeforeColony.Econ.Hangar
import BeforeColony.Econ.Suit

/-!
# The pilot's body

How much food is in a pilot, on the wall clock: awake it burns second for second, asleep at a quarter
of that, what a quarter leaves over waiting for the next time the clock is run. Times are unix
seconds and the counters stop at the most a `u32` holds.
-/

set_option autoImplicit false

namespace BeforeColony

open Lib

/-! ## What is eaten -/

/-- An hour, s. -/
def hour : ℕ := 3600

/-- A meal this good makes a pilot well fed. -/
def goodQuality : ℕ := 70

def staffQuality : ℕ := 50

inductive Dish where
  | rationBar | breakfast | orchardPlate | noodles | fishSupper
  deriving DecidableEq

namespace Dish

def name : Dish → String
  | rationBar => "Ration bar"
  | breakfast => "Colony breakfast"
  | orchardPlate => "Orchard plate"
  | noodles => "Noodle bowl"
  | fishSupper => "Canal fish supper"

/-- How long it keeps a pilot going, s awake. -/
def foodS : Dish → ℕ
  | rationBar => 3 * hour / 2
  | orchardPlate => 3 * hour
  | breakfast => 4 * hour
  | noodles => 5 * hour
  | fishSupper => 6 * hour

/-- What the staff's counter charges for it, cr. -/
def price : Dish → ℕ
  | rationBar => 8
  | orchardPlate => 18
  | breakfast => 20
  | noodles => 25
  | fishSupper => 40

end Dish

structure Meal where
  dish : Dish
  quality : ℕ
  deriving DecidableEq

namespace Meal

def staff (dish : Dish) : Meal := ⟨dish, staffQuality⟩

/-- How long it makes a pilot well fed, s. -/
def glowS (m : Meal) : ℕ :=
  if m.quality < goodQuality then 0 else m.dish.foodS * min m.quality 100 / 100

end Meal

inductive Fed where
  | fed | wellFed | peckish | hungry | starving
  deriving DecidableEq

def Fed.tag : Fed → String
  | fed => "FED"
  | wellFed => "WELL FED"
  | peckish => "PECKISH"
  | hungry => "HUNGRY"
  | starving => "STARVING"

/-! ## The body -/

/-- The most food a pilot holds, s awake. -/
def fullS : ℕ := 8 * hour
def peckishS : ℕ := hour
def starvingAfterS : ℕ := 3 * hour
/-- Asleep, food burns at this fraction of the waking rate. -/
def sleepDiv : ℕ := 4
/-- What an Arrival wakes with the first time. -/
def arrivalFoodS : ℕ := 5 * hour

structure Body where
  foodS : ℕ
  wellFedS : ℕ
  /-- How long they've been awake on an empty stomach. -/
  emptyS : ℕ
  awake : Bool
  /-- How far the clock has run, 0 before it starts. -/
  at_ : ℕ
  food_le : foodS ≤ u32Max
  wellFed_le : wellFedS ≤ u32Max
  empty_le : emptyS ≤ u32Max
  deriving DecidableEq

namespace Body

def arrival : Body where
  foodS := arrivalFoodS
  wellFedS := 0
  emptyS := 0
  awake := false
  at_ := 0
  food_le := by decide
  wellFed_le := by decide
  empty_le := by decide

/-- Food burnt, and the clock run to `at_`. -/
def burnt (b : Body) (burn at_ : ℕ) : Body :=
  { b with
    foodS := b.foodS - burn
    wellFedS := min (b.wellFedS - burn) (b.foodS - burn)
    at_
    food_le := (Nat.sub_le _ _).trans b.food_le
    wellFed_le := (min_le_right _ _).trans ((Nat.sub_le _ _).trans b.food_le) }

def starved (b : Body) (secs : ℕ) : Body :=
  { b with
    emptyS := min (b.emptyS + secs) u32Max
    empty_le := min_le_right _ _ }

/-- Runs the clock to `now`, at the rate for being awake or asleep. -/
def settle (b : Body) (now : ℕ) : Body :=
  if b.at_ = 0 then { b with at_ := now }
  else if now < b.at_ then b
  else if b.awake then
    let dt := min (now - b.at_) u32Max
    (b.starved (dt - b.foodS)).burnt dt now
  else
    let burn := (now - b.at_) / sleepDiv
    b.burnt (min burn u32Max) (b.at_ + burn * sleepDiv)

def wake (b : Body) (now : ℕ) : Body := { b.settle now with awake := true }

def sleep (b : Body) (now : ℕ) : Body := { b.settle now with awake := false }

def condition (b : Body) : Fed :=
  if b.foodS = 0 then if starvingAfterS ≤ b.emptyS then .starving else .hungry
  else if 0 < b.wellFedS then .wellFed
  else if b.foodS ≤ peckishS then .peckish
  else .fed

def fed (b : Body) (meal : Meal) : Body :=
  { b with
    foodS := min (b.foodS + meal.dish.foodS) fullS
    emptyS := 0
    wellFedS := min (max b.wellFedS meal.glowS) (min (b.foodS + meal.dish.foodS) fullS)
    food_le := (min_le_right _ _).trans (by decide)
    empty_le := Nat.zero_le _
    wellFed_le := (min_le_right _ _).trans ((min_le_right _ _).trans (by decide)) }

def eat (b : Body) (meal : Meal) (now : ℕ) : Body × Hangar.Done :=
  let b := b.settle now
  if fullS < b.foodS + meal.dish.foodS / 2 then (b, .error "you couldn't eat another bite")
  else (b.fed meal, .ok s!"{meal.dish.name.toUpper} · {(b.fed meal).condition.tag}")

/-- What the record keeps of a body in the world: a copy put to sleep. -/
def kept (b : Body) (now : ℕ) : Body := b.sleep now

def eatAtCounter (b : Body) (h : Hangar) (dish : Dish) (now : ℕ) : Body × Hangar × Hangar.Done :=
  if h.credits < dish.price then (b, h, .error s!"a {dish.name.toLower} is {dish.price} cr")
  else
    match b.eat (.staff dish) now with
    | (b, .error why) => (b, h, .error why)
    | (b, .ok _) =>
      (b, { h with credits := h.credits - dish.price },
        .ok s!"{dish.name.toUpper} · {dish.price} CR · {b.condition.tag}")

/-! ## Running the clock -/

def settleAll (b : Body) (times : List ℕ) : Body := times.foldl settle b

variable {b : Body} {now later : ℕ}

theorem ext_fields {a b : Body} (hfood : a.foodS = b.foodS) (hwell : a.wellFedS = b.wellFedS)
    (hempty : a.emptyS = b.emptyS) (hawake : a.awake = b.awake) (hat : a.at_ = b.at_) : a = b := by
  obtain ⟨_, _, _, _, _, _, _, _⟩ := a
  obtain ⟨_, _, _, _, _, _, _, _⟩ := b
  subst hfood hwell hempty hawake hat
  rfl

theorem settle_started (h : b.at_ = 0) : b.settle now = { b with at_ := now } := if_pos h

theorem settle_back (h : b.at_ ≠ 0) (hback : now < b.at_) : b.settle now = b := by
  rw [settle, if_neg h, if_pos hback]

theorem settle_awake (h : b.at_ ≠ 0) (hnow : b.at_ ≤ now) (hawake : b.awake = true) :
    b.settle now = (b.starved (min (now - b.at_) u32Max - b.foodS)).burnt
      (min (now - b.at_) u32Max) now := by
  rw [settle, if_neg h, if_neg (not_lt.mpr hnow), if_pos hawake]

theorem settle_asleep (h : b.at_ ≠ 0) (hnow : b.at_ ≤ now) (hasleep : b.awake = false) :
    b.settle now = b.burnt (min ((now - b.at_) / sleepDiv) u32Max)
      (b.at_ + (now - b.at_) / sleepDiv * sleepDiv) := by
  rw [settle, if_neg h, if_neg (not_lt.mpr hnow), if_neg (by rw [hasleep]; exact Bool.false_ne_true)]

/-- How long a body can go between settlings awake: the span the counters hold, or any if there is
no more food in it than time it has spent empty. -/
def InSpan (b : Body) (last : ℕ) : Prop :=
  b.awake = true → b.foodS ≤ b.emptyS ∨ last ≤ b.at_ + u32Max

/-- Burning stops at the most a counter holds, and so does food. -/
theorem sub_min_u32Max {food : ℕ} (h : food ≤ u32Max) (burn : ℕ) : food - min burn u32Max = food - burn := by
  omega

theorem min_min_add (a b : ℕ) : min (min a u32Max + b) u32Max = min (a + b) u32Max := by
  omega

/-- The time spent empty over two spans is that over both, if the counters hold both or start with no
less spent empty than there is food. -/
theorem empty_empty {food empty : ℕ} (burn rest : ℕ) (hfood : food ≤ u32Max)
    (hspan : food ≤ empty ∨ burn + rest ≤ u32Max) :
    min (min (empty + (min burn u32Max - food)) u32Max + (min rest u32Max - (food - burn))) u32Max
      = min (empty + (min (burn + rest) u32Max - food)) u32Max := by
  rw [min_min_add]
  by_cases hboth : burn + rest ≤ u32Max
  · rw [min_eq_left hboth, min_eq_left (by omega : burn ≤ u32Max),
      min_eq_left (by omega : rest ≤ u32Max)]
    congr 1
    omega
  · have hfull : u32Max ≤ empty + (min (burn + rest) u32Max - food) := by
      rw [min_eq_right (not_le.mp hboth).le]
      omega
    rw [min_eq_right hfull]
    apply min_eq_right
    rcases le_total burn u32Max with hburn | hburn
    · rw [min_eq_left hburn]
      omega
    · rw [min_eq_right hburn]
      omega

/-- Burning twice is burning once: past the most a counter holds there is no food left to burn. -/
theorem burnt_burnt (b : Body) (burn rest at_ last : ℕ) :
    (b.burnt (min burn u32Max) at_).burnt (min rest u32Max) last
      = b.burnt (min (rest + burn) u32Max) last := by
  have hfood : ∀ x, b.foodS - min x u32Max = b.foodS - x := sub_min_u32Max b.food_le
  have hwell : ∀ x, b.wellFedS - min x u32Max = b.wellFedS - x := sub_min_u32Max b.wellFed_le
  have hleft : b.foodS - burn - min rest u32Max = b.foodS - burn - rest :=
    sub_min_u32Max ((Nat.sub_le _ _).trans b.food_le) rest
  have hglow : min (b.wellFedS - burn) (b.foodS - burn) - min rest u32Max
      = min (b.wellFedS - burn) (b.foodS - burn) - rest :=
    sub_min_u32Max ((min_le_right _ _).trans ((Nat.sub_le _ _).trans b.food_le)) rest
  apply ext_fields
  · simp only [burnt, hfood, hleft]
    omega
  · simp only [burnt, hfood, hwell, hleft, hglow]
    omega
  · rfl
  · rfl
  · rfl

theorem settle_settle (h : b.at_ ≠ 0) (hlater : now ≤ later) (hspan : b.InSpan later) :
    (b.settle now).settle later = b.settle later := by
  by_cases hback : now < b.at_
  · rw [settle_back h hback]
  have hnow := not_lt.mp hback
  cases hawake : b.awake with
  | true =>
    rw [settle_awake h hnow hawake, settle_awake h (hnow.trans hlater) hawake]
    have hstarted : ((b.starved (min (now - b.at_) u32Max - b.foodS)).burnt
        (min (now - b.at_) u32Max) now).at_ ≠ 0 := ((Nat.pos_of_ne_zero h).trans_le hnow).ne'
    rw [settle_awake hstarted hlater hawake]
    have hspans : now - b.at_ + (later - now) = later - b.at_ := by omega
    have hempty := empty_empty (now - b.at_) (later - now) b.food_le
      ((hspan hawake).imp_right fun hlast => by omega)
    have hburnt := burnt_burnt b (now - b.at_) (later - now) now later
    rw [hspans] at hempty
    rw [Nat.add_comm, hspans] at hburnt
    have hfoods := congrArg foodS hburnt
    have hglows := congrArg wellFedS hburnt
    apply ext_fields
    · exact hfoods
    · exact hglows
    · simp only [burnt, starved, sub_min_u32Max b.food_le]
      exact hempty
    · rfl
    · rfl
  | false =>
    have hdiv : sleepDiv = 4 := rfl
    have hle : b.at_ + (now - b.at_) / sleepDiv * sleepDiv ≤ now := by rw [hdiv]; omega
    have hburn : (later - (b.at_ + (now - b.at_) / sleepDiv * sleepDiv)) / sleepDiv
        + (now - b.at_) / sleepDiv = (later - b.at_) / sleepDiv := by rw [hdiv]; omega
    rw [settle_asleep h hnow hawake, settle_asleep h (hnow.trans hlater) hawake, ← hburn]
    generalize (now - b.at_) / sleepDiv = burn at hle
    have hstarted : (b.burnt (min burn u32Max) (b.at_ + burn * sleepDiv)).at_ ≠ 0 := by
      simp only [burnt]
      omega
    rw [settle_asleep hstarted (hle.trans hlater) hawake, burnt_burnt]
    simp only [burnt]
    rw [Nat.add_mul, Nat.add_assoc, Nat.add_comm (burn * sleepDiv)]

theorem settle_at (h : b.at_ ≠ 0) (hnow : b.at_ ≤ now) : b.at_ ≤ (b.settle now).at_ := by
  cases hawake : b.awake with
  | true =>
    rw [settle_awake h hnow hawake]
    exact hnow
  | false =>
    rw [settle_asleep h hnow hawake]
    exact Nat.le_add_right _ _

theorem InSpan.settle (h : b.at_ ≠ 0) {last : ℕ} (hspan : b.InSpan last) :
    (b.settle now).InSpan last := by
  by_cases hback : now < b.at_
  · rw [settle_back h hback]
    exact hspan
  have hnow := not_lt.mp hback
  have hat := settle_at h hnow
  have hfood := b.food_le
  cases hawake : b.awake with
  | true =>
    intro _
    rcases hspan hawake with hless | hlast
    · left
      rw [settle_awake h hnow hawake]
      simp only [burnt, starved]
      omega
    · right
      omega
  | false =>
    intro hwoken
    rw [settle_asleep h hnow hawake] at hwoken
    exact absurd (hawake.symm.trans hwoken) Bool.false_ne_true

theorem started_settle (h : b.at_ ≠ 0) : (b.settle now).at_ ≠ 0 := by
  by_cases hback : now < b.at_
  · rwa [settle_back h hback]
  · have hat := settle_at h (not_lt.mp hback)
    omega

/-- Settled at each of some times is settled at the last. -/
theorem settleAll_eq (h : b.at_ ≠ 0) {times : List ℕ} (hne : times ≠ [])
    (hordered : times.Pairwise (· ≤ ·)) (hspan : b.InSpan (times.getLast hne)) :
    b.settleAll times = b.settle (times.getLast hne) := by
  induction times generalizing b with
  | nil => exact absurd rfl hne
  | cons now rest ih =>
    cases rest with
    | nil => rfl
    | cons next rest =>
      obtain ⟨hnow, hrest⟩ := List.pairwise_cons.mp hordered
      have hne' : next :: rest ≠ [] := List.cons_ne_nil _ _
      rw [List.getLast_cons hne'] at hspan ⊢
      have hlast : now ≤ (next :: rest).getLast hne' := hnow _ (List.getLast_mem hne')
      rw [← settle_settle h hlast hspan]
      exact ih (started_settle h) hne' hrest (hspan.settle h)

/-! ## What a body can come to -/

inductive Act where
  | settle (now : ℕ)
  | wake (now : ℕ)
  | sleep (now : ℕ)
  | eat (meal : Meal) (now : ℕ)
  | kept (now : ℕ)
  | eatAtCounter (h : Hangar) (dish : Dish) (now : ℕ)

def act (b : Body) : Act → Body
  | .settle now => b.settle now
  | .wake now => b.wake now
  | .sleep now => b.sleep now
  | .eat meal now => (b.eat meal now).1
  | .kept now => b.kept now
  | .eatAtCounter h dish now => (b.eatAtCounter h dish now).1

/-- No more food than full, and well fed no longer than fed. -/
structure Sated (b : Body) : Prop where
  full : b.foodS ≤ fullS
  glow : b.wellFedS ≤ b.foodS

theorem sated_arrival : arrival.Sated := ⟨by decide, by decide⟩

theorem Sated.burnt (h : b.Sated) (burn at_ : ℕ) : (b.burnt burn at_).Sated :=
  ⟨(Nat.sub_le _ _).trans h.full, min_le_right _ _⟩

theorem Sated.settle (h : b.Sated) (now : ℕ) : (b.settle now).Sated := by
  unfold Body.settle
  split
  · exact ⟨h.full, h.glow⟩
  · split
    · exact h
    · split
      · exact Sated.burnt (b := b.starved _) ⟨h.full, h.glow⟩ _ _
      · exact h.burnt _ _

theorem sated_fed (b : Body) (meal : Meal) : (b.fed meal).Sated := ⟨min_le_right _ _, min_le_right _ _⟩

theorem Sated.eat (h : b.Sated) (meal : Meal) (now : ℕ) : (b.eat meal now).1.Sated := by
  unfold Body.eat
  dsimp only
  split
  · exact h.settle now
  · exact sated_fed _ _

theorem Sated.act (h : b.Sated) (a : Act) : (b.act a).Sated := by
  cases a with
  | settle now => exact h.settle now
  | wake now => exact ⟨(h.settle now).full, (h.settle now).glow⟩
  | sleep now => exact ⟨(h.settle now).full, (h.settle now).glow⟩
  | eat meal now => exact h.eat meal now
  | kept now => exact ⟨(h.settle now).full, (h.settle now).glow⟩
  | eatAtCounter hangar dish now =>
    have heaten := h.eat (.staff dish) now
    unfold Body.act eatAtCounter
    dsimp only
    split
    · exact h
    · split
      · rename_i hrefused
        rwa [hrefused] at heaten
      · rename_i hpaid
        rwa [hpaid] at heaten

theorem sated_run (acts : List Act) : (acts.foldl Body.act arrival).Sated := by
  have hfold : ∀ b : Body, b.Sated → (acts.foldl Body.act b).Sated := by
    induction acts with
    | nil => exact fun _ h => h
    | cons a rest ih => exact fun b h => ih _ (h.act a)
  exact hfold arrival sated_arrival

/-- Settling a body often is settling it once, its clock started and awake no longer than the
counters hold; the first settling only starts the clock; a clock that goes back changes nothing;
asleep no time is spent empty; and food never exceeds full nor the time well fed food. -/
theorem settles_additively (b : Body) :
    (b.at_ ≠ 0 → ∀ (times : List ℕ) (hne : times ≠ []), times.Pairwise (· ≤ ·) →
      b.InSpan (times.getLast hne) → b.settleAll times = b.settle (times.getLast hne))
    ∧ (b.at_ = 0 → ∀ now, b.settle now = { b with at_ := now })
    ∧ (∀ now, now < b.at_ → b.settle now = b)
    ∧ (b.awake = false → ∀ now, (b.settle now).emptyS = b.emptyS)
    ∧ ∀ acts : List Act, (acts.foldl Body.act arrival).Sated := by
  refine ⟨?_, ?_, ?_, ?_, sated_run⟩
  · intro hstarted times hne hordered hspan
    exact settleAll_eq hstarted hne hordered hspan
  · intro hnew now
    exact settle_started hnew
  · intro now hback
    exact settle_back (by omega) hback
  · intro hasleep now
    unfold settle
    split
    · rfl
    · split
      · rfl
      · rw [if_neg (by rw [hasleep]; exact Bool.false_ne_true)]
        rfl

/-- Asleep for nine seconds, settled on the way. -/
theorem settles_additively_asleep :
    ({ arrival with at_ := 1 } : Body).settleAll [4, 6, 10]
      = ({ arrival with at_ := 1 } : Body).settle 10 :=
  (settles_additively { arrival with at_ := 1 }).1 (by decide) [4, 6, 10] (by decide) (by decide)
    (fun h => absurd h (by decide))

/-- A clock that hasn't started starts at the first of the times; and awake, a span past what the
counters hold is cut short once only, if the clock is run only once. -/
theorem settled_often_differs :
    ¬ (∀ (b : Body) (times : List ℕ) (hne : times ≠ []), times.Pairwise (· ≤ ·) →
      b.settleAll times = b.settle (times.getLast hne))
    ∧ ¬ ∀ (b : Body) (times : List ℕ) (hne : times ≠ []), b.at_ ≠ 0 → times.Pairwise (· ≤ ·) →
      b.settleAll times = b.settle (times.getLast hne) := by
  constructor
  · intro h
    have hfood := congrArg foodS (h arrival [4, 8] (by decide) (by decide))
    exact absurd hfood (by decide)
  · intro h
    have hempty := congrArg emptyS (h { arrival with awake := true, at_ := 1 } [2 ^ 32, 2 ^ 33]
      (by decide) (by decide) (by decide))
    exact absurd hempty (by decide)

end Body

end BeforeColony
