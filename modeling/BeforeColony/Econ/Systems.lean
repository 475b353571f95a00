import Mathlib.Data.Nat.Bitwise
import Mathlib.Tactic.IntervalCases
import BeforeColony.Econ.Hangar

/-!
# The systems inside a suit's parts

Each system stands in one part and is working, damaged or failed: two bits of a word.
A part on the shelf carries its own systems' faults, and a suit those of every part
fitted. `level_set` says what setting one system does to every other; what is read of a
part's faults and what replacing them does follow from it.
-/

set_option autoImplicit false

namespace BeforeColony

inductive System where
  | sensors | fireControl | reactor | tank | radiators | gyros | cockpit
  | actuatorL | actuatorR | legThrusters | mainThrusters | boosters
  deriving DecidableEq, Repr

namespace System

def all : List System :=
  [sensors, fireControl, reactor, tank, radiators, gyros, cockpit,
    actuatorL, actuatorR, legThrusters, mainThrusters, boosters]

def index : System → ℕ
  | sensors => 0 | fireControl => 1 | reactor => 2 | tank => 3 | radiators => 4
  | gyros => 5 | cockpit => 6 | actuatorL => 7 | actuatorR => 8 | legThrusters => 9
  | mainThrusters => 10 | boosters => 11

def part : System → Part
  | sensors | fireControl => .head
  | reactor | tank | radiators | gyros | cockpit => .torso
  | actuatorL => .armL
  | actuatorR => .armR
  | legThrusters => .legs
  | mainThrusters | boosters => .backpack

def name : System → String
  | sensors => "sensors" | fireControl => "fire control" | reactor => "reactor"
  | tank => "propellant tank" | radiators => "radiators" | gyros => "gyros"
  | cockpit => "cockpit" | actuatorL | actuatorR => "actuators"
  | legThrusters => "leg thrusters" | mainThrusters => "main thrusters"
  | boosters => "boosters"

def ofPart (p : Part) : List System := all.filter fun s => s.part = p

theorem mem_all (s : System) : s ∈ all := by
  cases s <;> decide

theorem mem_ofPart {s : System} {p : Part} : s ∈ ofPart p ↔ s.part = p := by
  simp [ofPart, mem_all]

theorem index_lt (s : System) : s.index < 12 := by
  cases s <;> decide

theorem index_injective : Function.Injective index := fun a b h => by
  have hall (x : System) : all[x.index]? = some x := by cases x <;> rfl
  exact Option.some.inj ((hall a).symm.trans (h ▸ hall b))

end System

namespace Faults

def ok : ℕ := 0
def damaged : ℕ := 1

def levelOf (f : Faults) (s : System) : ℕ := f.level s.index

/-- Writes a system's two bits of the 32-bit word. -/
def set (f : Faults) (s : System) (level : ℕ) : Faults :=
  let shift := 2 * s.index
  ⟨(f.word &&& (2 ^ 32 - 1 ^^^ 3 <<< shift)) ||| min level failed <<< shift⟩

def toList (f : Faults) : List (System × ℕ) :=
  (System.all.map fun s => (s, f.levelOf s)).filter fun e => e.2 ≠ ok

def ofPart (f : Faults) (p : Part) : Faults :=
  (System.ofPart p).foldl (fun out s => out.set s (f.levelOf s)) none

def withPart (f : Faults) (p : Part) (g : Faults) : Faults :=
  (System.ofPart p).foldl (fun out s => out.set s (g.levelOf s)) f

def all (p : Part) (level : ℕ) : Faults :=
  none.withPart p ((System.ofPart p).foldl (fun out s => out.set s level) none)

def levelName (level : ℕ) : String :=
  if level = damaged then "damaged" else if level = failed then "failed" else "ok"

def display (f : Faults) : String :=
  ", ".intercalate (f.toList.map fun e => s!"{e.1.name} {levelName e.2}")

theorem levelOf_le (f : Faults) (s : System) : f.levelOf s ≤ failed := min_le_right _ _

@[simp] theorem levelOf_none (s : System) : none.levelOf s = 0 := by
  simp [levelOf, level, none]

theorem testBit_pair (w j k : ℕ) : (w >>> (2 * j) % 4).testBit k
    = (decide (k < 2) && w.testBit (2 * j + k)) := by
  rw [show 4 = 2 ^ 2 from rfl, Nat.testBit_mod_two_pow, Nat.testBit_shiftRight]

theorem testBit_lt_four {n k : ℕ} (hn : n < 4) (hk : 2 ≤ k) : n.testBit k = false :=
  Nat.testBit_lt_two_pow (hn.trans_le (Nat.pow_le_pow_right (by decide) hk : 2 ^ 2 ≤ 2 ^ k))

theorem pair_set (f : Faults) (s s' : System) (level : ℕ) :
    (f.set s level).word >>> (2 * s'.index) % 4
      = if s' = s then min level failed else f.word >>> (2 * s'.index) % 4 := by
  have hlevel : min level failed < 4 := (min_le_right _ _).trans_lt (by decide)
  have hs := s.index_lt
  have hs' := s'.index_lt
  apply Nat.eq_of_testBit_eq
  intro k
  rw [testBit_pair]
  have hword : (f.set s level).word.testBit (2 * s'.index + k)
      = (f.word.testBit (2 * s'.index + k)
          && (decide (2 * s'.index + k < 32)
            ^^ (decide (2 * s.index ≤ 2 * s'.index + k)
              && decide (2 * s'.index + k - 2 * s.index < 2)))
        || decide (2 * s.index ≤ 2 * s'.index + k)
          && (min level failed).testBit (2 * s'.index + k - 2 * s.index)) := by
    have hthree (n : ℕ) : Nat.testBit 3 n = decide (n < 2) := Nat.testBit_two_pow_sub_one 2 n
    simp only [set, Nat.testBit_or, Nat.testBit_and, Nat.testBit_xor, Nat.testBit_shiftLeft,
      Nat.testBit_two_pow_sub_one, hthree]
  by_cases hk : k < 2
  · by_cases hss : s' = s
    · subst hss
      rw [if_pos rfl, hword]
      have h32 : 2 * s'.index + k < 32 := by omega
      simp [hk, h32]
    · rw [if_neg hss, testBit_pair, hword]
      have hne : s'.index ≠ s.index := fun h => hss (System.index_injective h)
      have h32 : 2 * s'.index + k < 32 := by omega
      rcases Nat.lt_or_gt_of_ne hne with hlt | hgt
      · have hbelow : ¬ 2 * s.index ≤ 2 * s'.index + k := by omega
        simp [hbelow, h32]
      · have habove : ¬ 2 * s'.index + k - 2 * s.index < 2 := by omega
        have hbit := testBit_lt_four hlevel (Nat.not_lt.mp habove)
        simp [habove, hbit, h32]
  · by_cases hss : s' = s
    · rw [if_pos hss, testBit_lt_four hlevel (Nat.not_lt.mp hk)]
      simp [hk]
    · rw [if_neg hss, testBit_pair]
      simp [hk]

theorem levelOf_set (f : Faults) (s s' : System) (level : ℕ) :
    (f.set s level).levelOf s' = if s' = s then min level failed else f.levelOf s' := by
  unfold levelOf Faults.level
  rw [pair_set]
  split
  · exact min_eq_left (min_le_right _ _)
  · rfl

theorem levelOf_foldl (g : System → ℕ) (l : List System) (f : Faults) (s : System) :
    (l.foldl (fun out s => out.set s (g s)) f).levelOf s
      = if s ∈ l then min (g s) failed else f.levelOf s := by
  induction l generalizing f with
  | nil => simp
  | cons a rest ih =>
    rw [List.foldl_cons, ih, levelOf_set]
    by_cases hrest : s ∈ rest
    · simp [hrest]
    · by_cases ha : s = a
      · simp [ha]
      · simp [hrest, ha]

theorem levelOf_ofPart (f : Faults) (p : Part) (s : System) :
    (f.ofPart p).levelOf s = if s.part = p then f.levelOf s else 0 := by
  unfold ofPart
  rw [levelOf_foldl, levelOf_none]
  simp only [System.mem_ofPart, min_eq_left (levelOf_le f s)]

theorem levelOf_withPart (f : Faults) (p : Part) (g : Faults) (s : System) :
    (f.withPart p g).levelOf s = if s.part = p then g.levelOf s else f.levelOf s := by
  unfold withPart
  rw [levelOf_foldl]
  simp only [System.mem_ofPart, min_eq_left (levelOf_le g s)]

/-- What is read of a part's faults depends on its systems' levels alone. -/
theorem ofPart_congr {f g : Faults} {p : Part}
    (h : ∀ s : System, s.part = p → f.levelOf s = g.levelOf s) : f.ofPart p = g.ofPart p := by
  unfold ofPart
  have hmem : ∀ s ∈ System.ofPart p, f.levelOf s = g.levelOf s := fun s hs =>
    h s (System.mem_ofPart.mp hs)
  generalize System.ofPart p = l at hmem
  generalize none = out
  induction l generalizing out with
  | nil => rfl
  | cons a rest ih =>
    rw [List.foldl_cons, List.foldl_cons, hmem a List.mem_cons_self]
    exact ih (fun s hs => hmem s (List.mem_cons_of_mem a hs)) _

@[simp] theorem ofPart_ofPart (f : Faults) (p : Part) : (f.ofPart p).ofPart p = f.ofPart p :=
  ofPart_congr fun s hs => by rw [levelOf_ofPart, if_pos hs]

theorem ofPart_withPart_self (f : Faults) (p : Part) (g : Faults) :
    (f.withPart p g).ofPart p = g.ofPart p :=
  ofPart_congr fun s hs => by rw [levelOf_withPart, if_pos hs]

theorem ofPart_withPart_of_ne (f : Faults) {p q : Part} (g : Faults) (h : q ≠ p) :
    (f.withPart p g).ofPart q = f.ofPart q :=
  ofPart_congr fun s hs => by
    rw [levelOf_withPart, if_neg fun hp => h (hs.symm.trans hp)]

end Faults

end BeforeColony
