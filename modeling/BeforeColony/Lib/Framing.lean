import Mathlib.Data.List.Basic
import Mathlib.Algebra.Order.Group.Nat

/-!
# Frames in a stream

A framing says, from a stream's first symbols, how long its first frame is, and reads a whole
frame. Taking frames off the front is the same whatever pieces the stream comes in, and gives back
the frames that were put together.
-/

set_option autoImplicit false

namespace Lib

/-- Frames `φ` in a stream of symbols `α`, or an error `ε`. -/
structure Framing (α φ ε : Type) where
  /-- How many symbols tell a frame's length. -/
  head : ℕ
  head_pos : 0 < head
  size : List α → Except ε ℕ
  head_le : ∀ {l n}, size l = .ok n → head ≤ n
  parse : List α → Except ε φ

namespace Framing

variable {α φ ε : Type} (p : Framing α φ ε)

/-- The first frame and its length; none if it isn't whole yet. -/
def decode (buf : List α) : Except ε (Option (φ × ℕ)) :=
  if buf.length < p.head then .ok none
  else
    match p.size (buf.take p.head) with
    | .error e => .error e
    | .ok n =>
      if buf.length < n then .ok none
      else (p.parse (buf.take n)).map fun f => some (f, n)

variable {p} {buf : List α} {f : φ} {n : ℕ}

theorem decode_short (h : buf.length < p.head) : p.decode buf = .ok none := if_pos h

@[simp] theorem decode_nil : p.decode [] = .ok none := decode_short p.head_pos

theorem decode_ok (h : p.decode buf = .ok (some (f, n))) :
    p.size (buf.take p.head) = .ok n ∧ p.parse (buf.take n) = .ok f ∧ p.head ≤ n ∧ n ≤ buf.length := by
  unfold decode at h
  split at h
  · cases h
  · split at h
    · cases h
    · rename_i m hsize
      split at h
      · cases h
      · rename_i hwhole
        cases hparse : p.parse (buf.take m) with
        | error e =>
          rw [hparse] at h
          cases h
        | ok f' =>
          rw [hparse] at h
          cases h
          exact ⟨hsize, hparse, p.head_le hsize, not_lt.mp hwhole⟩

theorem decode_whole (hsize : p.size (buf.take p.head) = .ok n) (hle : n ≤ buf.length)
    (hparse : p.parse (buf.take n) = .ok f) : p.decode buf = .ok (some (f, n)) := by
  have hhead := (p.head_le hsize).trans hle
  simp only [decode, if_neg (not_lt.mpr hhead), hsize, if_neg (not_lt.mpr hle), hparse, Except.map]

theorem length_drop_lt (h : p.decode buf = .ok (some (f, n))) :
    (buf.drop n).length < buf.length := by
  obtain ⟨-, -, hhead, hle⟩ := decode_ok h
  have hpos := p.head_pos
  rw [List.length_drop]
  omega

/-- What is known of a stream's first frame stays so, whatever comes after. -/
theorem decode_append (h : p.decode buf ≠ .ok none) (more : List α) :
    p.decode (buf ++ more) = p.decode buf := by
  by_cases hshort : buf.length < p.head
  · exact (h (decode_short hshort)).elim
  · have hlong : ¬ (buf ++ more).length < p.head := by
      rw [List.length_append]
      omega
    have htake : (buf ++ more).take p.head = buf.take p.head :=
      List.take_append_of_le_length (not_lt.mp hshort)
    simp only [decode, if_neg hshort, if_neg hlong, htake] at h ⊢
    cases hsize : p.size (buf.take p.head) with
    | error e => rfl
    | ok n =>
      simp only [hsize] at h ⊢
      by_cases hpart : buf.length < n
      · rw [if_pos hpart] at h
        exact (h rfl).elim
      · have hwhole : ¬ (buf ++ more).length < n := by
          rw [List.length_append]
          omega
        rw [if_neg hpart, if_neg hwhole, List.take_append_of_le_length (not_lt.mp hpart)]

/-! ## Taking every frame -/

variable (p) in
/-- Takes every whole frame off the front: the frames, and what is left, or what is wrong with it. -/
def takeAll (buf : List α) : List φ × Except ε (List α) :=
  match _h : p.decode buf with
  | .error e => ([], .error e)
  | .ok none => ([], .ok buf)
  | .ok (some (f, n)) =>
    let later := takeAll (buf.drop n)
    (f :: later.1, later.2)
termination_by buf.length
decreasing_by exact length_drop_lt ‹_›

theorem takeAll_error {e : ε} (h : p.decode buf = .error e) : p.takeAll buf = ([], .error e) := by
  rw [takeAll]
  split
  · rename_i heq
    cases h.symm.trans heq
    rfl
  · rename_i heq
    cases h.symm.trans heq
  · rename_i heq
    cases h.symm.trans heq

theorem takeAll_none (h : p.decode buf = .ok none) : p.takeAll buf = ([], .ok buf) := by
  rw [takeAll]
  split
  · rename_i heq
    cases h.symm.trans heq
  · rfl
  · rename_i heq
    cases h.symm.trans heq

theorem takeAll_some (h : p.decode buf = .ok (some (f, n))) :
    p.takeAll buf = (f :: (p.takeAll (buf.drop n)).1, (p.takeAll (buf.drop n)).2) := by
  rw [takeAll]
  split
  · rename_i heq
    cases h.symm.trans heq
  · rename_i heq
    cases h.symm.trans heq
  · rename_i heq
    cases h.symm.trans heq
    rfl

/-- To prove something of what is taken off a stream: at an error, at the end, and for a frame
before what is taken off the rest. -/
theorem takeAll_induct {motive : List α → Prop}
    (error : ∀ buf e, p.decode buf = .error e → motive buf)
    (done : ∀ buf, p.decode buf = .ok none → motive buf)
    (frame : ∀ buf f n, p.decode buf = .ok (some (f, n)) → motive (buf.drop n) → motive buf)
    (buf : List α) : motive buf := by
  induction hlength : buf.length using Nat.strongRecOn generalizing buf with
  | ind m ih =>
    cases hdecode : p.decode buf with
    | error e => exact error buf e hdecode
    | ok o =>
      cases o with
      | none => exact done buf hdecode
      | some fn =>
        exact frame buf fn.1 fn.2 hdecode (ih _ (hlength ▸ length_drop_lt hdecode) _ rfl)

theorem takeAll_count (buf : List α) : p.head * (p.takeAll buf).1.length ≤ buf.length := by
  induction buf using takeAll_induct (p := p) with
  | error buf e h => simp [takeAll_error h]
  | done buf h => simp [takeAll_none h]
  | frame buf f n h ih =>
    obtain ⟨-, -, hhead, hle⟩ := decode_ok h
    rw [takeAll_some h, List.length_cons, Nat.mul_succ]
    rw [List.length_drop] at ih
    omega

theorem takeAll_rest {rest : List α} (h : (p.takeAll buf).2 = .ok rest) : p.decode rest = .ok none := by
  induction buf using takeAll_induct (p := p) with
  | error buf e he =>
    rw [takeAll_error he] at h
    cases h
  | done buf hd =>
    rw [takeAll_none hd] at h
    cases h
    exact hd
  | frame buf f n hf ih =>
    rw [takeAll_some hf] at h
    exact ih h

/-- Goes on with what was left, unless that was an error. -/
def goOn (o : List φ × Except ε (List α)) (next : List α → List φ × Except ε (List α)) :
    List φ × Except ε (List α) :=
  match o.2 with
  | .error _ => o
  | .ok rest => (o.1 ++ (next rest).1, (next rest).2)

/-- Frames are taken off a longer stream as off its beginning, then off what that leaves. -/
theorem takeAll_append (buf more : List α) :
    p.takeAll (buf ++ more) = goOn (p.takeAll buf) fun rest => p.takeAll (rest ++ more) := by
  induction buf using takeAll_induct (p := p) with
  | error buf e h =>
    have hlong : p.decode (buf ++ more) = .error e := by
      rw [decode_append _ more, h]
      rw [h]
      intro hnone
      cases hnone
    rw [takeAll_error h, takeAll_error hlong]
    rfl
  | done buf h =>
    rw [takeAll_none h]
    rfl
  | frame buf f n h ih =>
    have hlong : p.decode (buf ++ more) = .ok (some (f, n)) := by
      rw [decode_append _ more, h]
      rw [h]
      intro hnone
      cases hnone
    have hle := (decode_ok h).2.2.2
    rw [takeAll_some h, takeAll_some hlong, List.drop_append_of_le_length hle, ih]
    cases hrest : (p.takeAll (buf.drop n)).2 with
    | error e => simp only [goOn, hrest]
    | ok rest => simp only [goOn, hrest, List.cons_append]

/-! ## In pieces -/

variable (p) in
/-- A piece more of the stream, behind what was left; after an error, nothing. -/
def feed (state : List φ × Except ε (List α)) (piece : List α) : List φ × Except ε (List α) :=
  goOn state fun pending => p.takeAll (pending ++ piece)

theorem foldl_feed_error {state : List φ × Except ε (List α)} {e : ε} (h : state.2 = .error e)
    (pieces : List (List α)) : pieces.foldl p.feed state = state := by
  induction pieces with
  | nil => rfl
  | cons piece rest ih =>
    have hsame : p.feed state piece = state := by simp only [feed, goOn, h]
    rw [List.foldl_cons, hsame, ih]

/-- What comes of a stream doesn't depend on its pieces. -/
theorem foldl_feed (pieces : List (List α)) {pending : List α} (h : p.decode pending = .ok none)
    (fs : List φ) :
    pieces.foldl p.feed (fs, .ok pending)
      = (fs ++ (p.takeAll (pending ++ pieces.flatten)).1, (p.takeAll (pending ++ pieces.flatten)).2) := by
  induction pieces generalizing fs pending with
  | nil =>
    rw [List.flatten_nil, List.append_nil, takeAll_none h, List.append_nil]
    rfl
  | cons piece rest ih =>
    rw [List.foldl_cons, List.flatten_cons, ← List.append_assoc, takeAll_append]
    cases hleft : (p.takeAll (pending ++ piece)).2 with
    | error e =>
      have hstate : (p.feed (fs, .ok pending) piece).2 = .error e := hleft
      rw [foldl_feed_error hstate]
      simp only [feed, goOn, hleft]
    | ok left =>
      have hstate : p.feed (fs, .ok pending) piece
          = (fs ++ (p.takeAll (pending ++ piece)).1, .ok left) := Prod.ext rfl hleft
      rw [hstate, ih (takeAll_rest hleft)]
      simp only [goOn, hleft, List.append_assoc]

/-! ## Frames put together -/

variable (p) in
structure Encodes (l : List α) (f : φ) : Prop where
  size : p.size (l.take p.head) = .ok l.length
  parse : p.parse l = .ok f

namespace Encodes

variable {l : List α}

theorem head_le (h : p.Encodes l f) : p.head ≤ l.length := p.head_le h.size

theorem decode (h : p.Encodes l f) (more : List α) :
    p.decode (l ++ more) = .ok (some (f, l.length)) := by
  have hparse : p.parse ((l ++ more).take l.length) = .ok f := by
    rw [List.take_left]
    exact h.parse
  refine decode_whole ?_ (by simp) hparse
  rw [List.take_append_of_le_length h.head_le]
  exact h.size

/-- Of a part of a frame nothing is known but that it isn't whole. -/
theorem decode_part (h : p.Encodes l f) {part : List α} (hpart : part <+: l)
    (hlt : part.length < l.length) : p.decode part = .ok none := by
  by_cases hshort : part.length < p.head
  · exact decode_short hshort
  · have htake : part.take p.head = l.take p.head := by
      obtain ⟨rest, rfl⟩ := hpart
      rw [List.take_append_of_le_length (not_lt.mp hshort)]
    simp only [Framing.decode, if_neg hshort, htake, h.size, if_pos hlt]

end Encodes

/-- Frames put together are taken off one by one, and a part of one after them is left. -/
theorem takeAll_flatten {ls : List (List α)} {fs : List φ} (h : List.Forall₂ p.Encodes ls fs)
    {part : List α} (hpart : p.decode part = .ok none) :
    p.takeAll (ls.flatten ++ part) = (fs, .ok part) := by
  induction h with
  | nil => exact takeAll_none hpart
  | @cons l f ls fs hl _ ih =>
    have hdecode := hl.decode (ls.flatten ++ part)
    rw [List.flatten_cons, List.append_assoc, takeAll_some hdecode, List.drop_left, ih]

end Framing

end Lib
