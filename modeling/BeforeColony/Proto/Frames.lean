import BeforeColony.Proto.Control

/-!
# Frames off the control stream

A frame's first three bytes tell its length and its kind, so the stream is a framing: what is
decoded of it doesn't depend on the pieces it comes in, and no slice is out of bounds.
-/

set_option autoImplicit false

namespace BeforeColony

open Lib

namespace Frame

def Unfit (tag : UInt8) (payload : ℕ) : Prop :=
  payload = 0 ∨ tag = passTag ∧ payload > maxPass + 1
    ∨ tag ≠ hangarTag ∧ tag ≠ passTag ∧ payload + 2 > maxFrame

instance (tag : UInt8) (payload : ℕ) : Decidable (Unfit tag payload) :=
  inferInstanceAs (Decidable (_ ∨ _))

/-- How long a frame is, from its length and tag. -/
def size : List UInt8 → Except DecodeError ℕ
  | [low, high, tag] =>
    let payload := Bytes.fromLeBytes [low, high]
    if Unfit tag payload then .error .invalid else .ok (payload + 2)
  | _ => .error .invalid

def parse : List UInt8 → Except DecodeError Frame
  | _ :: _ :: tag :: body =>
    if tag = passTag then .ok (.pass body)
    else if tag = hangarTag then .ok (.hangar body)
    else (ControlMsg.read.run' (tag :: body)).map .msg
  | _ => .error .truncated

def framing : Framing UInt8 Frame DecodeError where
  head := 3
  head_pos := by decide
  size := size
  head_le {l n} h := by
    unfold size at h
    split at h
    · dsimp only at h
      split at h
      · cases h
      · rename_i hfit
        cases h
        have hpos := (not_or.mp hfit).1
        omega
    · cases h
  parse := parse

variable {low high tag : UInt8} {rest : List UInt8}

theorem size_cons : size ((low :: high :: tag :: rest).take 3)
    = if Unfit tag (Bytes.fromLeBytes [low, high]) then .error .invalid
      else .ok (Bytes.fromLeBytes [low, high] + 2) := rfl

theorem payload_cons : Slicing.payload (low :: high :: rest)
    = pure (Bytes.fromLeBytes [low, high]) := rfl

theorem slice_ok {buf : List UInt8} {i j : ℕ} (hij : i ≤ j) (hj : j ≤ buf.length) :
    Slicing.slice buf i j = pure ((buf.take j).drop i) := if_pos ⟨hij, hj⟩

theorem decode_cons (low high tag : UInt8) (rest : List UInt8) :
    framing.decode (low :: high :: tag :: rest)
      = if Unfit tag (Bytes.fromLeBytes [low, high]) then .error .invalid
        else if rest.length + 3 < Bytes.fromLeBytes [low, high] + 2 then .ok none
        else (parse ((low :: high :: tag :: rest).take (Bytes.fromLeBytes [low, high] + 2))).map
          fun f => some (f, Bytes.fromLeBytes [low, high] + 2) := by
  have hlong : ¬ (low :: high :: tag :: rest).length < 3 := by simp
  unfold Framing.decode
  rw [show framing.head = 3 from rfl, if_neg hlong, show framing.size = size from rfl, size_cons]
  split
  · rename_i hsize
    split at hsize
    · rename_i hunfit
      cases hsize
      rw [if_pos hunfit]
    · cases hsize
  · rename_i hsize
    split at hsize
    · cases hsize
    · rename_i hfit
      cases hsize
      rw [if_neg hfit]
      rfl

theorem msg_decode_cons (low high : UInt8) (rest : List UInt8) :
    ControlMsg.decode (low :: high :: rest)
      = ExceptT.mk (some (
        if Bytes.fromLeBytes [low, high] = 0 ∨ Bytes.fromLeBytes [low, high] + 2 > maxFrame then
          .error .invalid
        else if rest.length + 2 < Bytes.fromLeBytes [low, high] + 2 then .ok none
        else (ControlMsg.read.run' (rest.take (Bytes.fromLeBytes [low, high]))).map
          fun m => some (m, Bytes.fromLeBytes [low, high] + 2))) := by
  have hlong : ¬ (low :: high :: rest).length < 2 := by simp
  unfold ControlMsg.decode
  rw [if_neg hlong, payload_cons, pure_bind]
  split
  · rfl
  · simp only [List.length_cons]
    split
    · rfl
    · rename_i hwhole
      rw [slice_ok (Nat.le_add_right _ _) (by simp only [List.length_cons]; omega), pure_bind,
        Nat.add_comm 2]
      change (liftM (ControlMsg.read.run' (rest.take (Bytes.fromLeBytes [low, high]))) >>= _) = _
      cases ControlMsg.read.run' (rest.take (Bytes.fromLeBytes [low, high])) with
      | error e => rfl
      | ok m => rfl

theorem parse_take {payload : ℕ} (hpos : payload ≠ 0) :
    parse ((low :: high :: tag :: rest).take (payload + 2))
      = if tag = passTag then .ok (.pass (rest.take (payload - 1)))
        else if tag = hangarTag then .ok (.hangar (rest.take (payload - 1)))
        else (ControlMsg.read.run' ((tag :: rest).take payload)).map .msg := by
  obtain ⟨n, rfl⟩ := Nat.exists_eq_succ_of_ne_zero hpos
  rfl

/-- Decoding a frame is the framing's, and takes no slice out of bounds. -/
theorem decode_eq (buf : List UInt8) : decode buf = ExceptT.mk (some (framing.decode buf)) := by
  match buf with
  | [] => rfl
  | [_] => rfl
  | [_, _] => rfl
  | low :: high :: tag :: rest =>
    have hlong : ¬ (low :: high :: tag :: rest).length < 3 := by simp
    have htag : Slicing.get (low :: high :: tag :: rest) 2 = pure tag := rfl
    rw [decode_cons]
    unfold decode
    rw [if_neg hlong, htag, pure_bind]
    generalize hpayload : Bytes.fromLeBytes [low, high] = payload
    split
    · rename_i hmsg
      have hunfit : Unfit tag payload ↔ payload = 0 ∨ payload + 2 > maxFrame := by
        simp only [Unfit, hmsg.1, hmsg.2, ne_eq, not_false_eq_true, true_and, false_and, false_or]
      rw [msg_decode_cons, hpayload]
      simp only [hunfit, List.length_cons]
      split
      · rfl
      · rename_i hfit
        split
        · rfl
        · rw [parse_take (not_or.mp hfit).1, if_neg hmsg.2, if_neg hmsg.1]
          cases ControlMsg.read.run' ((tag :: rest).take payload) with
          | error e => rfl
          | ok m => rfl
    · rename_i hbody
      have hkind : tag = hangarTag ∨ tag = passTag := by
        by_contra hno
        exact hbody (not_or.mp hno)
      have hunfit : Unfit tag payload ↔ payload = 0 ∨ (tag = passTag ∧ payload > maxPass + 1) := by
        have hmsg : ¬ (tag ≠ hangarTag ∧ tag ≠ passTag ∧ payload + 2 > maxFrame) :=
          fun h => hbody ⟨h.1, h.2.1⟩
        simp only [Unfit, hmsg, or_false]
      rw [payload_cons, hpayload, pure_bind]
      simp only [hunfit, List.length_cons]
      split
      · rfl
      · rename_i hfit
        have hpos := (not_or.mp hfit).1
        split
        · rfl
        · rename_i hwhole
          have hslice : (List.take (payload + 2) (low :: high :: tag :: rest)).drop 3
              = rest.take (payload - 1) := by
            obtain ⟨n, rfl⟩ := Nat.exists_eq_succ_of_ne_zero hpos
            rfl
          rw [slice_ok (by omega) (by simp only [List.length_cons]; omega), pure_bind, hslice,
            parse_take hpos]
          rcases hkind with rfl | rfl
          · rfl
          · rfl

/-- A decoded frame takes three bytes at least, and no more than there are. -/
theorem decode_used {buf : List UInt8} {frame : Frame} {used : ℕ}
    (h : decode buf = ExceptT.mk (some (.ok (some (frame, used))))) :
    3 ≤ used ∧ used ≤ buf.length := by
  rw [decode_eq] at h
  have hframing : framing.decode buf = .ok (some (frame, used)) := Option.some.inj h
  exact ⟨(Framing.decode_ok hframing).2.2.1, (Framing.decode_ok hframing).2.2.2⟩

/-! ## Reading a stream -/

/-- Takes every whole frame off what is pending: the frames, and what is left, or what is wrong with
it. -/
def loop (pending : List UInt8) : Option (List Frame × Except DecodeError (List UInt8)) :=
  match _h : decode pending with
  | none => none
  | some (.error e) => some ([], .error e)
  | some (.ok none) => some ([], .ok pending)
  | some (.ok (some (frame, used))) =>
    (loop (pending.drop used)).map fun later => (frame :: later.1, later.2)
termination_by pending.length
decreasing_by
  have hused := decode_used ‹_›
  rw [List.length_drop]
  omega

/-- A piece more: it goes behind what is pending. After an error nothing is read. -/
def feed (state : List Frame × Except DecodeError (List UInt8)) (piece : List UInt8) :
    Option (List Frame × Except DecodeError (List UInt8)) :=
  match state.2 with
  | .error _ => some state
  | .ok pending => (loop (pending ++ piece)).map fun o => (state.1 ++ o.1, o.2)

def stream (pieces : List (List UInt8)) : Option (List Frame × Except DecodeError (List UInt8)) :=
  pieces.foldlM feed ([], .ok [])

theorem loop_eq (pending : List UInt8) : loop pending = some (framing.takeAll pending) := by
  induction pending using Framing.takeAll_induct (p := framing) with
  | error buf e h =>
    rw [loop, Framing.takeAll_error h]
    have heq := decode_eq buf
    rw [h] at heq
    split <;> rename_i hdecode <;> cases heq.symm.trans hdecode
    rfl
  | done buf h =>
    rw [loop, Framing.takeAll_none h]
    have heq := decode_eq buf
    rw [h] at heq
    split <;> rename_i hdecode <;> cases heq.symm.trans hdecode
    rfl
  | frame buf f n h ih =>
    rw [loop, Framing.takeAll_some h]
    have heq := decode_eq buf
    rw [h] at heq
    split <;> rename_i hdecode <;> cases heq.symm.trans hdecode
    rw [ih]
    rfl

theorem feed_eq (state : List Frame × Except DecodeError (List UInt8)) (piece : List UInt8) :
    feed state piece = some (framing.feed state piece) := by
  unfold feed Framing.feed Framing.goOn
  cases state.2 with
  | error e => rfl
  | ok pending =>
    dsimp only
    rw [loop_eq]
    rfl

theorem stream_eq (pieces : List (List UInt8)) : stream pieces = loop pieces.flatten := by
  have hfold (state : List Frame × Except DecodeError (List UInt8)) :
      pieces.foldlM feed state = some (pieces.foldl framing.feed state) := by
    induction pieces generalizing state with
    | nil => rfl
    | cons piece rest ih =>
      rw [List.foldlM_cons, feed_eq, List.foldl_cons]
      exact ih _
  rw [stream, hfold, Framing.foldl_feed pieces Framing.decode_nil, loop_eq, List.nil_append,
    List.nil_append]

/-! ## What a frame can be -/

/-- A body its frame has room for. A message's names and domains carry their own bounds. -/
def InRange : Frame → Prop
  | msg _ => True
  | hangar body => body.length < 2 ^ 16 - 1
  | pass body => body.length ≤ maxPass

theorem inRange_parse {l : List UInt8} {frame : Frame} (hsize : size (l.take 3) = .ok l.length)
    (hparse : parse l = .ok frame) : frame.InRange := by
  unfold parse at hparse
  split at hparse
  · rename_i low high tag body
    rw [size_cons] at hsize
    split at hsize
    · cases hsize
    · rename_i hfit
      have hlength : Bytes.fromLeBytes [low, high] + 2 = body.length + 3 := Except.ok.inj hsize
      have hlt : Bytes.fromLeBytes [low, high] < 2 ^ 16 := Bytes.fromLeBytes_lt [low, high]
      split at hparse
      · rename_i htag
        cases hparse
        have hshort : ¬ Bytes.fromLeBytes [low, high] > maxPass + 1 :=
          fun hlong => hfit (Or.inr (Or.inl ⟨htag, hlong⟩))
        change body.length ≤ maxPass
        omega
      · split at hparse
        · cases hparse
          change body.length < 2 ^ 16 - 1
          omega
        · cases hread : ControlMsg.read.run' (tag :: body) with
          | error e =>
            rw [hread] at hparse
            cases hparse
          | ok m =>
            rw [hread] at hparse
            cases hparse
            trivial
  · cases hparse

theorem inRange_decode {buf : List UInt8} {frame : Frame} {used : ℕ}
    (h : framing.decode buf = .ok (some (frame, used))) : frame.InRange := by
  obtain ⟨hsize, hparse, hhead, hle⟩ := Framing.decode_ok h
  have hlength : (buf.take used).length = used := List.length_take_of_le hle
  have hthree : 3 ≤ used := hhead
  refine inRange_parse ?_ hparse
  rw [List.take_take, min_eq_left hthree, hlength]
  exact hsize

theorem inRange_takeAll (buf : List UInt8) : ∀ f ∈ (framing.takeAll buf).1, f.InRange := by
  induction buf using Framing.takeAll_induct (p := framing) with
  | error buf e h =>
    rw [Framing.takeAll_error h]
    exact List.forall_mem_nil _
  | done buf h =>
    rw [Framing.takeAll_none h]
    exact List.forall_mem_nil _
  | frame buf f n h ih =>
    rw [Framing.takeAll_some h]
    exact List.forall_mem_cons.mpr ⟨inRange_decode h, ih⟩

/-- Whatever the bytes, reading them ends; each frame took three at least and is in range, and an
error stays, whatever follows. -/
theorem loop_sound (buf : List UInt8) : ∃ o, loop buf = some o ∧ 3 * o.1.length ≤ buf.length
    ∧ (∀ f ∈ o.1, f.InRange) ∧ ∀ e, o.2 = .error e → ∀ more, loop (buf ++ more) = some o := by
  refine ⟨framing.takeAll buf, loop_eq buf, Framing.takeAll_count (p := framing) buf,
    inRange_takeAll buf, fun e he more => ?_⟩
  rw [loop_eq, Framing.takeAll_append]
  simp only [Framing.goOn, he]

end Frame

end BeforeColony
