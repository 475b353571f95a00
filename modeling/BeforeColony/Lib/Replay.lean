import Mathlib.Data.List.Nodup
import Mathlib.Logic.Function.Basic

/-!
# Replaying updates

A replica of a map is told of its changes one by one and each writes over what it had under that
key. What is left of it is the last it was told of each key, and what it started with of the others.
-/

set_option autoImplicit false

namespace Lib

universe u v

variable {κ : Type u} {β : Type v} [DecidableEq κ]

/-- What a map holds once it has been told the updates, the first of them first. -/
def replay (us : List (κ × β)) (view : κ → β) : κ → β :=
  us.foldl (fun f u => Function.update f u.1 u.2) view

namespace Replay

theorem append (us vs : List (κ × β)) (view : κ → β) :
    replay (us ++ vs) view = replay vs (replay us view) := List.foldl_append

theorem snoc (us : List (κ × β)) (k : κ) (v : β) (view : κ → β) :
    replay (us ++ [(k, v)]) view = Function.update (replay us view) k v := by
  rw [append]
  rfl

theorem of_notMem {us : List (κ × β)} {k : κ} (h : k ∉ us.map Prod.fst) (view : κ → β) :
    replay us view k = view k := by
  induction us generalizing view with
  | nil => rfl
  | cons u rest ih =>
    rw [List.map_cons, List.mem_cons, not_or] at h
    change replay rest (Function.update view u.1 u.2) k = view k
    rw [ih h.2, Function.update_of_ne h.1]

/-- What it holds of a key depends on what it held of that key alone. -/
theorem congr_at {us : List (κ × β)} {k : κ} {view view' : κ → β} (h : view k = view' k) :
    replay us view k = replay us view' k := by
  induction us generalizing view view' with
  | nil => exact h
  | cons u rest ih =>
    apply ih
    change Function.update view u.1 u.2 k = Function.update view' u.1 u.2 k
    by_cases hk : k = u.1
    · rw [hk, Function.update_self, Function.update_self]
    · rw [Function.update_of_ne hk, Function.update_of_ne hk]
      exact h

/-- Told of a key, it holds what anyone told the same holds. -/
theorem of_mem {us : List (κ × β)} {k : κ} (h : k ∈ us.map Prod.fst) (view view' : κ → β) :
    replay us view k = replay us view' k := by
  induction us generalizing view view' with
  | nil => exact nomatch h
  | cons u rest ih =>
    change replay rest (Function.update view u.1 u.2) k
      = replay rest (Function.update view' u.1 u.2) k
    by_cases hk : k = u.1
    · apply congr_at
      rw [hk, Function.update_self, Function.update_self]
    · rw [List.map_cons, List.mem_cons] at h
      exact ih (h.resolve_left hk) _ _

theorem of_entry {us : List (κ × β)} (hnodup : (us.map Prod.fst).Nodup) {k : κ} {v : β}
    (h : (k, v) ∈ us) (view : κ → β) : replay us view k = v := by
  induction us generalizing view with
  | nil => exact nomatch h
  | cons u rest ih =>
    rw [List.map_cons, List.nodup_cons] at hnodup
    change replay rest (Function.update view u.1 u.2) k = v
    rcases List.mem_cons.mp h with heq | hrest
    · subst heq
      rw [of_notMem hnodup.1, Function.update_self]
    · exact ih hnodup.2 hrest _

/-- Told of a key, it holds what is said of it in the end, whatever was said before. -/
theorem of_suffix {vs : List (κ × β)} {k : κ} (h : k ∈ vs.map Prod.fst) (us : List (κ × β))
    (view view' : κ → β) : replay (us ++ vs) view k = replay vs view' k := by
  rw [append]
  exact of_mem h _ _

theorem skip {mid : List (κ × β)} {k : κ} (h : k ∉ mid.map Prod.fst) (us vs : List (κ × β))
    (view : κ → β) : replay (us ++ (mid ++ vs)) view k = replay (us ++ vs) view k := by
  rw [append, append, append]
  apply congr_at
  exact of_notMem h _

theorem move {us : List (κ × β)} {u : κ × β} (h : u.1 ∉ us.map Prod.fst) (vs : List (κ × β))
    (view : κ → β) : replay (us ++ u :: vs) view = replay (u :: (us ++ vs)) view := by
  funext k
  by_cases hk : k = u.1
  · subst hk
    change _ = replay (us ++ vs) (Function.update view u.1 u.2) u.1
    rw [append, append]
    change replay vs (Function.update (replay us view) u.1 u.2) u.1 = _
    apply congr_at
    rw [of_notMem h, Function.update_self, Function.update_self]
  · change _ = replay (us ++ vs) (Function.update view u.1 u.2) k
    have hskip : k ∉ [u].map Prod.fst := by
      simpa using hk
    rw [List.append_cons, List.append_assoc, skip hskip us vs view]
    apply congr_at
    rw [Function.update_of_ne hk]

end Replay

end Lib
