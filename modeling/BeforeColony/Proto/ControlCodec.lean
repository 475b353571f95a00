import BeforeColony.Proto.Frames

/-!
# Writing the control stream

Messages, hangar bodies and passes are written each into a frame of its own, or refused where the
frame would be too long. What the frames put together say is read off them again, in whatever
pieces the stream comes.
-/

set_option autoImplicit false

namespace Lib.Bytes

theorem store_zero (l b : List UInt8) : store l 0 b = b ++ l.drop b.length := by
  rw [store, List.take_zero, List.nil_append, Nat.zero_add]

theorem store_nil (l : List UInt8) (i : ℕ) : store l i [] = l := by
  rw [store, List.append_nil, List.length_nil, Nat.add_zero, List.take_append_drop]

/-- Storing on from where the last bytes ended stores both. -/
theorem store_store {l a : List UInt8} {i : ℕ} (h : i + a.length ≤ l.length) (b : List UInt8) :
    store (store l i a) (i + a.length) b = store l i (a ++ b) := by
  have hhead : (l.take i ++ a).length = i + a.length := by
    rw [List.length_append, List.length_take]
    omega
  have htake : (store l i a).take (i + a.length) = l.take i ++ a := by
    rw [store, ← hhead, List.take_left]
  have hdrop : (store l i a).drop (i + a.length + b.length) = l.drop (i + (a ++ b).length) := by
    rw [store, ← hhead, List.drop_append, List.drop_of_length_le (Nat.le_add_right _ _), hhead,
      Nat.add_sub_cancel_left, List.drop_drop, List.nil_append, List.length_append, Nat.add_assoc]
  rw [store, htake, hdrop, store, List.append_assoc (l.take i) a b]

end Lib.Bytes

namespace BeforeColony

open Lib

/-! ## Writing -/

/-- Where a message is written: the buffer, how far it is filled, and whether all has fit. -/
structure Cursor where
  buf : List UInt8
  pos : ℕ
  ok : Bool

/-- Writes some bytes, whole or not at all; after some that didn't fit, none. -/
def Cursor.bytes (p : Cursor) (b : List UInt8) : Cursor :=
  if p.ok = false ∨ p.pos + b.length > min p.buf.length maxFrame then { p with ok := false }
  else { p with buf := Bytes.store p.buf p.pos b, pos := p.pos + b.length }

namespace ControlMsg

def u8 (v : UInt8) : List UInt8 := [v]

def u16 (v : UInt16) : List UInt8 := Bytes.leBytes 2 v.toNat

def u32 (v : UInt32) : List UInt8 := Bytes.leBytes 4 v.toNat

def u64 (v : UInt64) : List UInt8 := Bytes.leBytes 8 v.toNat

def name (n : Name) : List (List UInt8) :=
  [u8 (.ofNat (Bytes.utf8 n.text).length), Bytes.utf8 n.text]

/-- What is written of a message, piece by piece, its tag first. -/
def put : ControlMsg → List (List UInt8)
  | hello version pilot frame faction n flags resume =>
    [u8 1, u16 version, u8 (.ofNat pilot.index), u8 (.ofNat frame.index), u8 (.ofNat faction.index)]
      ++ name n ++ [u8 flags] ++ if flags &&& helloResume ≠ 0 then [resume.val] else []
  | welcome version clientSlot tick tickHz sector orreryAllowed maxDatagram fieldSeed fieldRocks
      flags landmarks faction =>
    [u8 2, u16 version, u16 clientSlot, u32 tick, u8 tickHz, u8 sector,
      u8 (if orreryAllowed then 1 else 0), u16 maxDatagram, u32 fieldSeed, u16 fieldRocks, u8 flags,
      u8 landmarks, u8 (.ofNat faction.index)]
  | reject reason => [u8 3, u8 (.ofNat reason.index)]
  | roster slot pilot n flags => [u8 4, u16 slot, u8 (.ofNat pilot.index)] ++ name n ++ [u8 flags]
  | respawn frame => [u8 5, u8 (.ofNat frame.index)]
  | bye reason => [u8 6, u8 reason]
  | challenge nonce issuedAt domain =>
    [u8 7, nonce.val, u64 issuedAt, u8 (.ofNat domain.bytes.length), domain.bytes]
  | auth address signature => [u8 8, address.val, signature.val]
  | authSolana key signature => [u8 12, key.val, signature.val]
  | token t => [u8 9, t.val]
  | notice code n => [u8 10, u8 code] ++ name n

/-- Writes one frame into a buffer: its length, and the buffer then; none if it doesn't fit. -/
def encode (m : ControlMsg) (buf : List UInt8) : Option (ℕ × List UInt8) :=
  let p := m.put.foldl Cursor.bytes ⟨buf, 2, true⟩
  if p.ok then some (p.pos, Bytes.store p.buf 0 (Bytes.leBytes 2 (p.pos - 2))) else none

end ControlMsg

/-- Writes a hangar frame: its length, and the buffer then; none if it's too long for a frame or for
the buffer. -/
def encodeHangar (payload out : List UInt8) : Option (ℕ × List UInt8) :=
  let len := payload.length + 1
  if len > 2 ^ 16 - 1 ∨ out.length < len + 2 then none
  else some (len + 2,
    Bytes.store (Bytes.store (Bytes.store out 0 (Bytes.leBytes 2 len)) 2 [hangarTag]) 3 payload)

def encodePass (pass out : List UInt8) : Option (ℕ × List UInt8) :=
  if pass.length > maxPass then none
  else (encodeHangar pass out).map fun o => (o.1, Bytes.store o.2 2 [passTag])

def Frame.encode : Frame → List UInt8 → Option (ℕ × List UInt8)
  | .msg m => m.encode
  | .hangar body => encodeHangar body
  | .pass body => encodePass body

/-! ## What is written -/

namespace Frame

def payload : Frame → List UInt8
  | msg m => m.put.flatten
  | hangar body => hangarTag :: body
  | pass body => passTag :: body

def wire (f : Frame) : List UInt8 := Bytes.leBytes 2 f.payload.length ++ f.payload

/-- The longest frame of the kind, its length included. -/
def limit : Frame → ℕ
  | msg _ => maxFrame
  | hangar _ => 2 + (2 ^ 16 - 1)
  | pass _ => 3 + maxPass

variable {f : Frame} {m : ControlMsg} {buf l b : List UInt8}

theorem length_wire (f : Frame) : f.wire.length = 2 + f.payload.length := by
  rw [wire, List.length_append, Bytes.length_leBytes]

def written (buf l : List UInt8) : Cursor := ⟨Bytes.store buf 2 l, 2 + l.length, true⟩

theorem bytes_written (h : 2 + (l ++ b).length ≤ min buf.length maxFrame) :
    (written buf l).bytes b = written buf (l ++ b) := by
  rw [List.length_append] at h
  have hl : 2 + l.length ≤ buf.length := by omega
  have hlen : (Bytes.store buf 2 l).length = buf.length := Bytes.length_store hl
  have hfits : ¬ ((written buf l).ok = false
      ∨ (written buf l).pos + b.length > min (written buf l).buf.length maxFrame) := by
    simp only [written, hlen, Bool.true_eq_false, false_or]
    omega
  rw [Cursor.bytes, if_neg hfits]
  simp only [written, Bytes.store_store hl, List.length_append, Nat.add_assoc]

theorem bytes_full (h : min buf.length maxFrame < 2 + (l ++ b).length)
    (hl : 2 + l.length ≤ buf.length) : ((written buf l).bytes b).ok = false := by
  rw [List.length_append] at h
  have hlen : (Bytes.store buf 2 l).length = buf.length := Bytes.length_store hl
  have hover : (written buf l).ok = false
      ∨ (written buf l).pos + b.length > min (written buf l).buf.length maxFrame := by
    simp only [written, hlen, Bool.true_eq_false, false_or]
    omega
  rw [Cursor.bytes, if_pos hover]

theorem foldl_bytes_not_ok (ls : List (List UInt8)) {p : Cursor} (h : p.ok = false) :
    (ls.foldl Cursor.bytes p).ok = false := by
  induction ls generalizing p with
  | nil => exact h
  | cons b rest ih =>
    apply ih
    rw [Cursor.bytes, if_pos (Or.inl h)]

/-- The pieces are written one behind the other if there is room for them all. -/
theorem foldl_bytes (ls : List (List UInt8)) (hl : 2 + l.length ≤ min buf.length maxFrame) :
    if 2 + (l ++ ls.flatten).length ≤ min buf.length maxFrame
    then ls.foldl Cursor.bytes (written buf l) = written buf (l ++ ls.flatten)
    else (ls.foldl Cursor.bytes (written buf l)).ok = false := by
  induction ls generalizing l with
  | nil => rw [List.flatten_nil, List.append_nil, if_pos hl, List.foldl_nil]
  | cons b rest ih =>
    rw [List.flatten_cons, ← List.append_assoc, List.foldl_cons]
    by_cases hb : 2 + (l ++ b).length ≤ min buf.length maxFrame
    · rw [bytes_written hb]
      exact ih hb
    · rw [if_neg]
      · apply foldl_bytes_not_ok
        exact bytes_full (not_le.mp hb) (hl.trans (min_le_left _ _))
      · intro hall
        apply hb
        rw [List.length_append] at hall
        omega

theorem put_tag (m : ControlMsg) :
    ∃ tag rest, m.put.flatten = tag :: rest ∧ tag ≠ hangarTag ∧ tag ≠ passTag := by
  cases m <;> exact ⟨_, _, rfl, by decide, by decide⟩

theorem encode_msg (m : ControlMsg) (buf : List UInt8) :
    m.encode buf = if (msg m).wire.length ≤ min buf.length maxFrame
      then some ((msg m).wire.length, (msg m).wire ++ buf.drop (msg m).wire.length) else none := by
  have hlength : (msg m).wire.length = 2 + m.put.flatten.length := length_wire _
  unfold ControlMsg.encode
  dsimp only
  by_cases hroom : 2 ≤ min buf.length maxFrame
  · have hstart : (⟨buf, 2, true⟩ : Cursor) = written buf [] := by
      rw [written, Bytes.store_nil]
      rfl
    have hfold := foldl_bytes (l := []) m.put hroom
    rw [List.nil_append, ← hstart] at hfold
    by_cases hfits : 2 + m.put.flatten.length ≤ min buf.length maxFrame
    · rw [if_pos hfits] at hfold
      have hwhole : buf.length = (Bytes.store buf 2 m.put.flatten).length :=
        (Bytes.length_store (hfits.trans (min_le_left _ _))).symm
      have hhead : (buf.take 2 ++ m.put.flatten).length = 2 + m.put.flatten.length := by
        rw [List.length_append, List.length_take]
        omega
      have htwo : (buf.take 2).length = 2 := by
        rw [List.length_take]
        omega
      have hok : (written buf m.put.flatten).ok = true := rfl
      rw [hfold, if_pos hok, hlength, if_pos hfits]
      simp only [written, Nat.add_sub_cancel_left, Bytes.store_zero, Bytes.length_leBytes]
      rw [wire, Bytes.store, List.append_assoc (buf.take 2), List.drop_left' htwo]
      simp only [payload, List.append_assoc]
    · rw [if_neg hfits] at hfold
      rw [hfold, hlength, if_neg hfits]
      rfl
  · have hnone : (m.put.foldl Cursor.bytes ⟨buf, 2, true⟩).ok = false := by
      obtain ⟨tag, rest, htag, -, -⟩ := put_tag m
      cases hput : m.put with
      | nil =>
        rw [hput] at htag
        cases htag
      | cons b rest =>
        rw [List.foldl_cons]
        apply foldl_bytes_not_ok
        rw [Cursor.bytes, if_pos]
        right
        dsimp only
        omega
    rw [hnone, if_neg Bool.false_ne_true, if_neg]
    omega

theorem encodeHangar_eq (body out : List UInt8) :
    encodeHangar body out
      = if (hangar body).wire.length ≤ min out.length (hangar body).limit
        then some ((hangar body).wire.length, (hangar body).wire ++ out.drop (hangar body).wire.length)
        else none := by
  have hlength : (hangar body).wire.length = body.length + 1 + 2 := by
    rw [length_wire, payload, List.length_cons]
    omega
  unfold encodeHangar
  dsimp only
  by_cases hlong : body.length + 1 > 2 ^ 16 - 1 ∨ out.length < body.length + 1 + 2
  · rw [if_pos hlong, if_neg]
    rw [hlength, limit]
    omega
  · have hroom : body.length + 1 + 2 ≤ out.length := by omega
    rw [if_neg hlong, hlength, if_pos (by rw [limit]; omega)]
    have htag : Bytes.store (Bytes.store out 0 (Bytes.leBytes 2 (body.length + 1))) 2 [hangarTag]
        = Bytes.store out 0 (Bytes.leBytes 2 (body.length + 1) ++ [hangarTag]) := by
      rw [← Bytes.store_store (by rw [Bytes.length_leBytes]; omega), Bytes.length_leBytes]
    have hbody (head : List UInt8) (h : head.length = 3) :
        Bytes.store (Bytes.store out 0 head) 3 body = Bytes.store out 0 (head ++ body) := by
      rw [← Bytes.store_store (by omega), h]
    rw [htag, hbody _ (by simp), Bytes.store_zero]
    simp only [wire, payload, List.length_append, List.length_cons, Bytes.length_leBytes,
      List.append_assoc, List.cons_append, List.nil_append]
    rw [Nat.add_comm 2]

/-- A frame is written whole, or refused where it is too long for its kind or for the buffer. -/
theorem encode_eq (f : Frame) (buf : List UInt8) :
    f.encode buf = if f.wire.length ≤ min buf.length f.limit
      then some (f.wire.length, f.wire ++ buf.drop f.wire.length) else none := by
  cases f with
  | msg m => exact encode_msg m buf
  | hangar body => exact encodeHangar_eq body buf
  | pass body =>
    have hlength : (pass body).wire.length = 3 + body.length := by
      rw [length_wire, payload, List.length_cons]
      omega
    have hsame : (hangar body).wire.length = (pass body).wire.length := by
      rw [length_wire, length_wire]
      rfl
    change encodePass body buf = _
    unfold encodePass
    by_cases hlong : body.length > maxPass
    · rw [if_pos hlong, if_neg]
      rw [hlength, limit]
      omega
    · rw [if_neg hlong, encodeHangar_eq, hsame, hlength]
      have hshort : 3 + body.length ≤ (hangar body).limit := by
        rw [limit]
        unfold maxPass at hlong
        omega
      by_cases hroom : 3 + body.length ≤ buf.length
      · rw [if_pos (le_min hroom hshort), if_pos (le_min hroom (by rw [limit]; omega)),
          Option.map_some]
        have htwo (head rest : List UInt8) (h : head.length = 2) (t t' : UInt8) :
            Bytes.store (head ++ t :: rest) 2 [t'] = head ++ t' :: rest := by
          rw [Bytes.store, List.take_left' h, List.drop_append, List.drop_of_length_le (by simp [h])]
          simp [h]
        simp only [wire, payload, List.append_assoc, List.cons_append]
        rw [htwo _ _ (Bytes.length_leBytes 2 _)]
        rfl
      · rw [if_neg (by omega), if_neg (by omega), Option.map_none]

end Frame

/-! ## Reading it back -/

/-- From bytes that begin so, this is read and the rest left. -/
def Reader.Reads {α : Type} (r : Reader α) (l : List UInt8) (a : α) : Prop :=
  ∀ rest, r.run (l ++ rest) = .ok (a, rest)

namespace Reader.Reads

variable {α β : Type} {r : Reader α} {k : α → Reader β} {j : Name → Reader β} {l s : List UInt8}
  {a : α} {b : β}

theorem pure (a : α) : Reads (Pure.pure a : Reader α) [] a := fun _ => rfl

theorem bind (h : Reads r l a) (hk : Reads (k a) s b) : Reads (r >>= k) (l ++ s) b := by
  intro rest
  rw [StateT.run_bind, List.append_assoc, h]
  exact hk rest

theorem take {n : ℕ} (b : Block n) : Reads (Reader.take n) b.val b := by
  intro rest
  have hle : n ≤ (b.val ++ rest).length := by
    rw [List.length_append, b.property]
    exact Nat.le_add_right _ _
  change Reader.take n (b.val ++ rest) = _
  rw [Reader.take, dif_pos hle]
  congr 2
  · exact Subtype.ext (List.take_left' b.property)
  · exact List.drop_left' b.property

theorem map (h : Reads r l a) (f : α → β) : Reads (do return f (← r)) l (f a) := by
  have hbind := h.bind (k := fun x => Pure.pure (f x)) (pure (f a))
  rwa [List.append_nil] at hbind

theorem word {n w : ℕ} (h : w < 2 ^ (8 * n)) : Reads (Reader.word n) (Bytes.leBytes n w) w := by
  have hmap := (take ⟨Bytes.leBytes n w, Bytes.length_leBytes n w⟩).map
    fun b => Bytes.fromLeBytes b.val
  rwa [Bytes.fromLeBytes_leBytes h] at hmap

theorem u8 (v : UInt8) : Reads Reader.u8 (ControlMsg.u8 v) v := by
  have hmap := (word (n := 1) v.toNat_lt).map UInt8.ofNat
  have hbytes : Bytes.leBytes 1 v.toNat = ControlMsg.u8 v := by
    rw [Bytes.leBytes_succ, UInt8.ofNat_toNat]
    rfl
  rwa [hbytes, UInt8.ofNat_toNat] at hmap

theorem u16 (v : UInt16) : Reads Reader.u16 (ControlMsg.u16 v) v := by
  have hmap := (word (n := 2) v.toNat_lt).map UInt16.ofNat
  rwa [UInt16.ofNat_toNat] at hmap

theorem u32 (v : UInt32) : Reads Reader.u32 (ControlMsg.u32 v) v := by
  have hmap := (word (n := 4) v.toNat_lt).map UInt32.ofNat
  rwa [UInt32.ofNat_toNat] at hmap

theorem u64 (v : UInt64) : Reads Reader.u64 (ControlMsg.u64 v) v := by
  have hmap := (word (n := 8) v.toNat_lt).map UInt64.ofNat
  rwa [UInt64.ofNat_toNat] at hmap

theorem toNat_ofNat {n : ℕ} (h : n < 256) : (UInt8.ofNat n).toNat = n := by
  rw [UInt8.toNat_ofNat', Nat.mod_eq_of_lt h]

theorem text (n : Name) :
    Reads (do return Name.new (← Reader.orInvalid (Bytes.ofUtf8? (Bytes.utf8 n.text)))) [] n := by
  have hname := pure (Name.new n.text)
  rw [Name.new_text] at hname
  rw [Bytes.ofUtf8?_utf8]
  change Reads (Pure.pure (Name.new n.text)) [] n
  rwa [Name.new_text]

theorem name (n : Name) (hj : Reads (j n) s b) :
    Reads (Reader.name >>= j)
      (ControlMsg.u8 (.ofNat (Bytes.utf8 n.text).length) ++ (Bytes.utf8 n.text ++ s)) b := by
  have hshort : ¬ (Bytes.utf8 n.text).length > maxName := not_lt.mpr n.short
  have hlen : (UInt8.ofNat (Bytes.utf8 n.text).length).toNat = (Bytes.utf8 n.text).length :=
    toNat_ofNat (n.short.trans_lt (by decide))
  have hname : Reads Reader.name
      (ControlMsg.u8 (.ofNat (Bytes.utf8 n.text).length) ++ (Bytes.utf8 n.text ++ [])) n := by
    apply (u8 (.ofNat (Bytes.utf8 n.text).length)).bind
    dsimp only
    rw [hlen, if_neg hshort]
    apply (take ⟨Bytes.utf8 n.text, rfl⟩).bind
    exact text n
  rw [List.append_nil] at hname
  rw [← List.append_assoc]
  exact hname.bind hj

theorem frame (f : FrameId) : Reads Reader.frame (ControlMsg.u8 (.ofNat f.index)) f := by
  have hread := (u8 (.ofNat f.index)).bind
    (k := fun v => Reader.orInvalid (FrameId.fromBits v.toNat)) (s := []) (b := f) (by
      rw [toNat_ofNat (f.index_lt.trans (by decide)), FrameId.fromBits_index]
      exact pure f)
  rwa [List.append_nil] at hread

theorem pilot_u8 (k : PilotKind) : PilotKind.fromBits (UInt8.ofNat k.index).toNat = k := by
  rw [toNat_ofNat (k.index_lt.trans (by decide)), PilotKind.fromBits_index]

theorem faction_u8 (f : Faction) : Faction.fromBits (UInt8.ofNat f.index).toNat = f := by
  rw [toNat_ofNat (f.index_lt.trans (by decide)), Faction.fromBits_index]

theorem reason_u8 (r : RejectReason) : RejectReason.fromU8 (UInt8.ofNat r.index).toNat = r := by
  rw [toNat_ofNat r.index_lt, RejectReason.fromU8_index]

theorem domain_utf8 (d : Domain) : ∃ text, Bytes.ofUtf8? d.bytes = some text := by
  have hascii : ∀ b ∈ d.bytes, b < 128 := by
    intro b hb
    have hgraphic := d.graphic b hb
    simp only [isAsciiGraphic, Bool.and_eq_true, decide_eq_true_eq] at hgraphic
    have hle : b.toNat ≤ 126 := hgraphic.2
    exact UInt8.lt_iff_toNat_lt.mpr (Nat.lt_of_le_of_lt hle (by decide))
  rw [← Bytes.utf8_ascii hascii]
  exact ⟨_, Bytes.ofUtf8?_utf8 _⟩

end Reader.Reads

/-- What a message's reader gets: of a Hello of another protocol the version alone, and of one that
doesn't say it has a token no token. -/
def ControlMsg.received : ControlMsg → ControlMsg
  | hello version pilot frame faction n flags resume =>
    if version = protocolVersion then
      hello version pilot frame faction n flags
        (if flags &&& helloResume ≠ 0 then resume else Block.zero _)
    else hello version .human .argo .almagest (Name.new []) 0 (Block.zero _)
  | m => m

namespace Reader.Reads

open ControlMsg in
theorem hello (version : UInt16) (pilot : PilotKind) (f : FrameId) (faction : Faction) (n : Name)
    (flags : UInt8) (resume : Block tokenBytes) :
    ∃ l, l <+: (hello version pilot f faction n flags resume).put.flatten
      ∧ Reads read l (hello version pilot f faction n flags resume).received := by
  by_cases hversion : version = protocolVersion
  · refine ⟨_, List.prefix_rfl, ?_⟩
    apply (Reads.u8 1).bind
    apply (Reads.u16 version).bind
    rw [received, if_pos hversion, if_pos hversion]
    apply (Reads.u8 (.ofNat pilot.index)).bind
    apply (Reads.frame f).bind
    apply (Reads.u8 (.ofNat faction.index)).bind
    apply Reads.name n
    apply (Reads.u8 flags).bind
    rw [pilot_u8, faction_u8]
    split
    · apply (Reads.take resume).bind
      exact Reads.pure _
    · exact Reads.pure _
  · refine ⟨ControlMsg.u8 1 ++ (ControlMsg.u16 version ++ []), ?_, ?_⟩
    · rw [List.append_nil]
      exact ⟨_, rfl⟩
    · apply (Reads.u8 1).bind
      apply (Reads.u16 version).bind
      rw [received, if_neg hversion, if_neg hversion]
      exact Reads.pure _

open ControlMsg in
theorem msg_received (m : ControlMsg) : ∃ l, l <+: m.put.flatten ∧ Reads read l m.received := by
  cases m with
  | hello version pilot f faction n flags resume =>
    exact Reads.hello version pilot f faction n flags resume
  | welcome version clientSlot tick tickHz sector orreryAllowed maxDatagram fieldSeed fieldRocks
      flags landmarks faction =>
    refine ⟨_, List.prefix_rfl, ?_⟩
    apply (Reads.u8 2).bind
    apply (Reads.u16 version).bind
    apply (Reads.u16 clientSlot).bind
    apply (Reads.u32 tick).bind
    apply (Reads.u8 tickHz).bind
    apply (Reads.u8 sector).bind
    apply (Reads.u8 (if orreryAllowed then 1 else 0)).bind
    apply (Reads.u16 maxDatagram).bind
    apply (Reads.u32 fieldSeed).bind
    apply (Reads.u16 fieldRocks).bind
    apply (Reads.u8 flags).bind
    apply (Reads.u8 landmarks).bind
    apply (Reads.u8 (.ofNat faction.index)).bind
    rw [faction_u8]
    cases orreryAllowed
    · exact Reads.pure _
    · exact Reads.pure _
  | reject reason =>
    refine ⟨_, List.prefix_rfl, ?_⟩
    apply (Reads.u8 3).bind
    apply (Reads.u8 (.ofNat reason.index)).bind
    rw [reason_u8]
    exact Reads.pure _
  | roster slot pilot n flags =>
    refine ⟨_, List.prefix_rfl, ?_⟩
    apply (Reads.u8 4).bind
    apply (Reads.u16 slot).bind
    apply (Reads.u8 (.ofNat pilot.index)).bind
    apply Reads.name n
    apply (Reads.u8 flags).bind
    rw [pilot_u8]
    exact Reads.pure _
  | respawn frame =>
    refine ⟨_, List.prefix_rfl, ?_⟩
    apply (Reads.u8 5).bind
    apply (Reads.frame frame).bind
    exact Reads.pure _
  | bye reason =>
    refine ⟨_, List.prefix_rfl, ?_⟩
    apply (Reads.u8 6).bind
    apply (Reads.u8 reason).bind
    exact Reads.pure _
  | challenge nonce issuedAt domain =>
    refine ⟨_, List.prefix_rfl, ?_⟩
    have hlen : (UInt8.ofNat domain.bytes.length).toNat = domain.bytes.length :=
      toNat_ofNat (domain.short.trans_lt (by decide))
    apply (Reads.u8 7).bind
    apply (Reads.take nonce).bind
    apply (Reads.u64 issuedAt).bind
    apply (Reads.u8 (.ofNat domain.bytes.length)).bind
    rw [hlen, if_neg (not_lt.mpr domain.short)]
    apply (Reads.take ⟨domain.bytes, rfl⟩).bind
    obtain ⟨text, htext⟩ := domain_utf8 domain
    dsimp only
    rw [htext, Domain.new_bytes]
    exact Reads.pure _
  | auth address signature =>
    refine ⟨_, List.prefix_rfl, ?_⟩
    apply (Reads.u8 8).bind
    apply (Reads.take address).bind
    apply (Reads.take signature).bind
    exact Reads.pure _
  | authSolana key signature =>
    refine ⟨_, List.prefix_rfl, ?_⟩
    apply (Reads.u8 12).bind
    apply (Reads.take key).bind
    apply (Reads.take signature).bind
    exact Reads.pure _
  | token t =>
    refine ⟨_, List.prefix_rfl, ?_⟩
    apply (Reads.u8 9).bind
    apply (Reads.take t).bind
    exact Reads.pure _
  | notice code n =>
    refine ⟨_, List.prefix_rfl, ?_⟩
    apply (Reads.u8 10).bind
    apply (Reads.u8 code).bind
    apply Reads.name n
    exact Reads.pure _

end Reader.Reads

theorem ControlMsg.read_put (m : ControlMsg) : read.run' m.put.flatten = .ok m.received := by
  obtain ⟨l, ⟨rest, hrest⟩, hreads⟩ := Reader.Reads.msg_received m
  have hrun : read.run (l ++ rest) = .ok (m.received, rest) := hreads rest
  rw [← hrest]
  change Prod.fst <$> read.run (l ++ rest) = _
  rw [hrun]
  rfl

namespace Frame

def received : Frame → Frame
  | msg m => msg m.received
  | f => f

/-- The bytes are a frame's, as it was written into some buffer. -/
def Written (f : Frame) (l : List UInt8) : Prop :=
  ∃ buf n out, f.encode buf = some (n, out) ∧ l = out.take n

variable {f : Frame} {l : List UInt8}

theorem payload_tag (f : Frame) : ∃ tag rest, f.payload = tag :: rest := by
  cases f with
  | msg m =>
    obtain ⟨tag, rest, htag, -, -⟩ := put_tag m
    exact ⟨tag, rest, htag⟩
  | hangar body => exact ⟨hangarTag, body, rfl⟩
  | pass body => exact ⟨passTag, body, rfl⟩

theorem Written.eq_wire (h : f.Written l) : l = f.wire ∧ f.wire.length ≤ f.limit := by
  obtain ⟨buf, n, out, hencode, rfl⟩ := h
  rw [encode_eq] at hencode
  split at hencode
  · rename_i hfits
    cases hencode
    exact ⟨List.take_left, hfits.trans (min_le_right _ _)⟩
  · cases hencode

theorem leBytes_two (n : ℕ) : Bytes.leBytes 2 n = [.ofNat n, .ofNat (n / 256)] := by
  rw [Bytes.leBytes_succ, Bytes.leBytes_succ]
  rfl

/-- A frame of its kind's length at most is one to the reader, and says what was put in it. -/
theorem encodes (hshort : f.wire.length ≤ f.limit) : framing.Encodes f.wire f.received := by
  obtain ⟨tag, rest, hpayload⟩ := payload_tag f
  have hlength := length_wire f
  have hlt : f.payload.length < 2 ^ (8 * 2) := by
    cases f <;> simp only [limit, maxFrame, maxPass] at hshort <;> omega
  have hle := leBytes_two f.payload.length
  have hvalue := Bytes.fromLeBytes_leBytes hlt
  have hwire : f.wire = .ofNat f.payload.length :: .ofNat (f.payload.length / 256) :: tag :: rest := by
    rw [wire, hle, hpayload]
    rfl
  rw [hle] at hvalue
  have hfit : ¬ Unfit tag f.payload.length := by
    rw [hpayload] at hlength ⊢
    simp only [List.length_cons] at hlength
    cases f with
    | msg m =>
      obtain ⟨tag', rest', htag, hhangar, hpass⟩ := put_tag m
      cases hpayload.symm.trans htag
      simp only [limit] at hshort
      simp only [Unfit, hpass, List.length_cons, false_and, false_or]
      omega
    | hangar body =>
      cases hpayload
      simp [Unfit, hangarTag, passTag]
    | pass body =>
      cases hpayload
      simp only [limit] at hshort
      simp only [Unfit, List.length_cons, ne_eq, not_true_eq_false, and_false, false_and, or_false,
        true_and]
      omega
  constructor
  · rw [hwire, show framing.head = 3 from rfl, show framing.size = size from rfl, size_cons, hvalue,
      if_neg hfit, ← hwire, hlength, Nat.add_comm 2]
  · rw [hwire]
    cases f with
    | msg m =>
      obtain ⟨tag', rest', htag, hhangar, hpass⟩ := put_tag m
      cases hpayload.symm.trans htag
      have hread := ControlMsg.read_put m
      rw [htag] at hread
      change (if tag = passTag then _ else _) = _
      rw [if_neg hpass, if_neg hhangar, hread]
      rfl
    | hangar body =>
      cases hpayload
      rfl
    | pass body =>
      cases hpayload
      rfl

theorem encodes_all {fs : List Frame} {ls : List (List UInt8)} (h : List.Forall₂ Written fs ls) :
    List.Forall₂ framing.Encodes ls (fs.map received) := by
  induction h with
  | nil => exact .nil
  | cons hframe _ ih =>
    obtain ⟨rfl, hshort⟩ := hframe.eq_wire
    exact .cons (encodes hshort) ih

/-- Frames put together come out as they went in, whatever pieces they come in. -/
theorem stream_written {fs : List Frame} {ls pieces : List (List UInt8)}
    (h : List.Forall₂ Written fs ls) (hpieces : pieces.flatten = ls.flatten) :
    stream pieces = some (fs.map received, .ok []) := by
  have hall := Framing.takeAll_flatten (encodes_all h) Framing.decode_nil
  rw [List.append_nil] at hall
  rw [stream_eq, loop_eq, hpieces, hall]

theorem decode_part (h : f.Written l) {part : List UInt8} (hpart : part <+: l) (hne : part ≠ l) :
    decode part = pure none := by
  obtain ⟨rfl, hshort⟩ := h.eq_wire
  have hlt : part.length < f.wire.length :=
    lt_of_le_of_ne hpart.length_le fun heq => hne (hpart.eq_of_length heq)
  rw [decode_eq, (encodes hshort).decode_part hpart hlt]
  rfl

theorem encode_eq_none_iff (f : Frame) (buf : List UInt8) :
    f.encode buf = none ↔ min buf.length f.limit < f.wire.length := by
  rw [encode_eq]
  split
  next hfits => exact iff_of_false (by simp) (not_lt.mpr hfits)
  next hlong => exact iff_of_true rfl (not_le.mp hlong)

/-- A message is read off its frame, whatever follows. -/
theorem decode_msg {m : ControlMsg} {buf out : List UInt8} {n : ℕ}
    (h : m.encode buf = some (n, out)) (more : List UInt8) :
    ControlMsg.decode (out.take n ++ more) = pure (some (m.received, n)) := by
  have hn : n = (msg m).wire.length := by
    rw [encode_msg] at h
    split at h <;> cases h
    rfl
  have hwritten : (msg m).Written (out.take n) := ⟨buf, n, out, h, rfl⟩
  obtain ⟨hwire, hshort⟩ := hwritten.eq_wire
  have hlength := length_wire (msg m)
  obtain ⟨tag, rest, htag, -, -⟩ := put_tag m
  have hpos : m.put.flatten.length ≠ 0 := by
    rw [htag]
    exact Nat.succ_ne_zero _
  simp only [payload, limit] at hlength hshort
  have hvalue : Bytes.fromLeBytes [.ofNat m.put.flatten.length, .ofNat (m.put.flatten.length / 256)]
      = m.put.flatten.length := by
    rw [← leBytes_two]
    apply Bytes.fromLeBytes_leBytes
    unfold maxFrame at hshort
    omega
  rw [hwire, wire, payload, leBytes_two, List.append_assoc, List.cons_append, List.cons_append,
    List.nil_append, msg_decode_cons, hvalue, if_neg (by omega), List.length_append, if_neg (by omega),
    List.take_left, ControlMsg.read_put, hn, hlength, Nat.add_comm 2]
  rfl

/-- The frames of any sequence come out of the stream as they went in, in whatever pieces it is read:
a message as its reader gets it, the rest as they were. -/
theorem control_stream_framing :
    (∀ (fs : List Frame) (ls pieces : List (List UInt8)), List.Forall₂ Written fs ls →
      pieces.flatten = ls.flatten → stream pieces = some (fs.map received, .ok []))
    ∧ (∀ (f : Frame) (l part : List UInt8), f.Written l → part <+: l → part ≠ l →
      decode part = pure none)
    ∧ (∀ (f : Frame) (buf : List UInt8) (used : ℕ), decode buf = pure (some (f, used)) →
      3 ≤ used ∧ used ≤ buf.length)
    ∧ (∀ (f : Frame) (buf : List UInt8),
      f.encode buf = none ↔ min buf.length f.limit < f.wire.length)
    ∧ ∀ (m : ControlMsg) (buf out more : List UInt8) (n : ℕ), m.encode buf = some (n, out) →
      ControlMsg.decode (out.take n ++ more) = pure (some (m.received, n)) :=
  ⟨fun _ _ _ hwritten hpieces => stream_written hwritten hpieces,
    fun _ _ _ hwritten hpart hne => decode_part hwritten hpart hne,
    fun _ _ _ hdecode => decode_used hdecode,
    encode_eq_none_iff,
    fun _ _ _ more _ hencode => decode_msg hencode more⟩

/-- A goodbye and a hangar message, read a few bytes at a time. -/
theorem control_stream_framing_goodbye :
    stream [[2], [0, 6, 0, 3], [0, 11, 123, 125]]
        = some ([.msg (.bye 0), .hangar [123, 125]], .ok [])
      ∧ decode [2, 0, 6] = pure none
      ∧ (3 ≤ 5 ∧ 5 ≤ ([3, 0, 11, 123, 125] : List UInt8).length)
      ∧ ControlMsg.decode ([2, 0, 6, 0] ++ [3]) = pure (some (.bye 0, 4)) := by
  have hbye : ControlMsg.encode (.bye 0) [0, 0, 0, 0] = some (4, [2, 0, 6, 0]) := by decide
  have hmsg : Written (.msg (.bye 0)) [2, 0, 6, 0] := ⟨[0, 0, 0, 0], 4, _, hbye, rfl⟩
  have hhangar : Written (.hangar [123, 125]) [3, 0, 11, 123, 125] :=
    ⟨[0, 0, 0, 0, 0], 5, [3, 0, 11, 123, 125], by decide, rfl⟩
  obtain ⟨hstream, hpart, hused, -, hdecode⟩ := control_stream_framing
  exact ⟨hstream _ _ _ (.cons hmsg (.cons hhangar .nil)) rfl, hpart _ _ _ hmsg ⟨[0], rfl⟩ (by decide),
    hused (.hangar [123, 125]) [3, 0, 11, 123, 125] 5 rfl, hdecode _ _ _ [3] _ hbye⟩

/-- Of an agent's Hello in another protocol a person's Hello is read. -/
theorem another_protocols_hello :
    ¬ ∀ (m : ControlMsg) (buf out : List UInt8) (n : ℕ), m.encode buf = some (n, out) →
      ControlMsg.decode (out.take n) = pure (some (m, n)) := by
  intro hall
  have hencode : ControlMsg.encode
      (.hello 43 .agent .argo .colonies (Name.new []) 0 (Block.zero _)) (List.replicate 16 0)
      = some (10, [8, 0, 1, 43, 0, 1, 0, 1, 0, 0, 0, 0, 0, 0, 0, 0]) := by decide
  have hread := decode_msg hencode []
  rw [List.append_nil] at hread
  have hsame := Except.ok.inj (Option.some.inj ((hall _ _ _ _ hencode).symm.trans hread))
  have hpilot := congrArg Prod.fst (Option.some.inj hsame)
  revert hpilot
  decide

end Frame

end BeforeColony
