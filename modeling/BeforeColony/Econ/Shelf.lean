import BeforeColony.Econ.Hangar

/-!
# What else is done with the stores

Taking the best or the worst part of a kind off the shelf, as much as there is of a good,
and lists of goods all together or not at all.
-/

set_option autoImplicit false

namespace BeforeColony

open Lib

namespace Stores

def ofKind (line : FrameId) (part : Part) (u : PartUnit) : Bool := u.line = line && u.part = part

def takeBestPart (s : Stores) (line : FrameId) (part : Part) : Option (PartUnit × Stores) :=
  (s.parts.find? (ofKind line part)).map fun u =>
    (u, { s with parts := s.parts.eraseP (ofKind line part) })

def takeWorstPart (s : Stores) (line : FrameId) (part : Part) : Option (PartUnit × Stores) :=
  (s.parts.reverse.find? (ofKind line part)).map fun u =>
    (u, { s with parts := (s.parts.reverse.eraseP (ofKind line part)).reverse })

/-- Takes up to `qty`, and says how much it took. -/
def takeUpTo (s : Stores) (item : Item) (qty : ℕ) : ℕ × Stores :=
  let n := min (s.get item) qty
  (n, (s.take item n).getD s)

def hasAll (s : Stores) (needs : List (Item × ℕ)) (times : ℕ) : Bool :=
  needs.all fun e => s.has e.1 (e.2 * times)

/-- Takes every one of `needs`, or nothing. -/
def takeAll (s : Stores) (needs : List (Item × ℕ)) (times : ℕ) : Option Stores :=
  if ¬ s.hasAll needs times then none
  else some (needs.foldl (fun s e => (s.take e.1 (e.2 * times)).getD s) s)

def addGoods (s : Stores) (goods : List (Item × ℕ)) : Stores :=
  goods.foldl (fun s e => s.add e.1 e.2) s

end Stores

end BeforeColony
