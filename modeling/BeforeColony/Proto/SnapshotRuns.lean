import BeforeColony.Proto.Snapshot

/-!
# What a snapshot's reader does with any bytes

Each of its calls goes on from where it was and ends; a record it gives took a bit at least, was
there whole, and is in range. Past the end no call gives one.
-/

set_option autoImplicit false

namespace BeforeColony

open Lib

/-! ## The records -/

/-- A suit's record as a reader makes it: on its grids, but for a velocity's differences. -/
structure QEntity.Coded (q : QEntity) : Prop where
  slot : q.slot < 2 ^ slotBits
  generation : q.generation < 4
  on : ∀ on, q.on = some on → on.body.InRange
  pos : ∀ k, q.pos k < 2 ^ posBitsOf q.on
  vel : ∀ k, -2 ^ 31 ≤ q.vel k ∧ q.vel k < 2 ^ 31
  rotLargest : q.rotLargest < 4
  rot : ∀ k, q.rot k < 2 ^ entityRotBits
  aim : ∀ k, q.aim k < 2 ^ entityAimBits
  flags : q.flags < 2 ^ entFlagsBits
  parts : ∀ k, q.parts k < 2 ^ 3

theorem safe_rot :
    Safe readRot fun r => r.1 < 4 ∧ ∀ k, r.2 k < 2 ^ entityRotBits :=
  .bind (.bits (by decide)) fun _ hlargest =>
    ((Safe.bits (by decide)).array 3).map fun _ hcodes => ⟨hlargest, hcodes⟩

theorem safe_vel (on : Option RiderOn) :
    Safe (readVel on) fun v => ∀ k, -2 ^ 31 ≤ v k ∧ v k < 2 ^ 31 := by
  refine Safe.array (P := fun c : ℤ => -2 ^ 31 ≤ c ∧ c < 2 ^ 31) ?_ 3
  cases on with
  | none =>
    refine (Safe.bits (by decide)).map fun v hv => ⟨by omega, ?_⟩
    have hlt : (v : ℤ) < 2 ^ velBits := by exact_mod_cast hv
    exact hlt.trans (by decide)
  | some on =>
    refine (Safe.i32 (by decide) (by decide)).mono fun v hv => ?_
    exact ⟨le_trans (by decide) hv.1, hv.2.trans (by decide)⟩

theorem safe_on :
    Safe QEntity.readOn fun on => ∀ o, on = some o → o.body.InRange := by
  refine .bind .bool fun rides _ => ?_
  split
  · refine .bind BodyRef.safe_read fun body hbody => ?_
    refine Safe.bool.map fun aloft _ => ?_
    rintro o ⟨⟩
    exact hbody
  · exact .pure nofun

theorem QEntity.safe_absolute {slot : ℕ} (hslot : slot < 2 ^ slotBits) :
    Safe (readAbsolute slot) Coded := by
  refine .bind (.bits (by decide)) fun generation hgeneration => ?_
  refine .bind (.bits (by decide)) fun code _ => ?_
  split
  · exact .invalid
  · refine .bind (.bits (by decide)) fun faction _ => ?_
    refine .bind (.bits (by decide)) fun pilot _ => ?_
    refine .bind safe_on fun on hon => ?_
    refine .bind ((Safe.bits (posBitsOf_le on)).array 3) fun pos hpos => ?_
    refine .bind safe_rot fun rot hrot => ?_
    refine .bind (safe_vel on) fun vel hvel => ?_
    refine .bind ((Safe.bits (by decide)).array 2) fun aim haim => ?_
    refine .bind (.bits (by decide)) fun flags hflags => ?_
    refine ((Safe.bits (by decide)).array _).map fun parts hparts => ?_
    exact ⟨hslot, hgeneration, hon, hpos, hvel, hrot.1, hrot.2, haim, hflags, hparts⟩

theorem safe_group {α : Type} {P : α → Prop} {n small medium : ℕ} {same : α}
    {put : (Fin n → ℤ) → α} {rd : Read α} (hs : 0 < small ∧ small ≤ 32)
    (hm : 0 < medium ∧ medium ≤ 32) (hsame : P same) (hput : ∀ d, P (put d)) (hrd : Safe rd P) :
    Safe (Group.read n small medium same put rd) P := by
  refine .bind (.bits (by decide)) fun mode _ => ?_
  split
  · exact .pure hsame
  · exact ((Safe.i32 hs.1 hs.2).array n).map fun d _ => hput d
  · exact ((Safe.i32 hm.1 hm.2).array n).map fun d _ => hput d
  · exact hrd

theorem safe_aloft {on : Option RiderOn} (hon : ∀ o, on = some o → o.body.InRange) :
    Safe (Delta.readAloft on) fun on' =>
      posBitsOf on' = posBitsOf on ∧ ∀ o, on' = some o → o.body.InRange := by
  unfold Delta.readAloft
  split
  · exact .pure ⟨rfl, nofun⟩
  · rename_i o
    refine Safe.bool.map fun aloft _ => ⟨rfl, ?_⟩
    rintro o' ⟨⟩
    exact hon o rfl

theorem asI32_mem (c : ℤ) : -2 ^ 31 ≤ Delta.asI32 c ∧ Delta.asI32 c < 2 ^ 31 :=
  BitString.signed_mem (by decide) (BitString.unsigned_lt 32 c)

theorem Delta.safe_read {base : QEntity} (hbase : base.Coded) (back : ℕ) :
    Safe (read base back) QEntity.Coded := by
  refine .bind (safe_aloft hbase.on) fun on hon => ?_
  refine .bind (safe_group (by decide) (by decide) hbase.vel (fun d k => asI32_mem _) (safe_vel on))
    fun vel hvel => ?_
  refine .bind (P := fun pos => ∀ k, pos k < 2 ^ posBitsOf on) (safe_group (by decide) (by decide)
    (fun k => PersonDelta.put_lt ..) (fun d k => PersonDelta.put_lt ..)
    ((Safe.bits (posBitsOf_le on)).array 3)) fun pos hpos => ?_
  refine .bind (P := fun r : ℕ × (Fin 3 → ℕ) => r.1 < 4 ∧ ∀ k, r.2 k < 2 ^ entityRotBits)
    (safe_group (by decide) (by decide) ⟨hbase.rotLargest, hbase.rot⟩
      (fun d => ⟨hbase.rotLargest, fun k => PersonDelta.put_lt ..⟩) safe_rot) fun rot hrot => ?_
  refine .bind (P := fun aim : Fin 2 → ℕ => ∀ k, aim k < 2 ^ entityAimBits)
    (safe_group (by decide) (by decide) hbase.aim (fun d k => PersonDelta.put_lt ..)
      ((Safe.bits (by decide)).array 2)) fun aim haim => ?_
  refine .bind (PersonDelta.safe_unless hbase.flags (.bits (by decide))) fun flags hflags => ?_
  refine (PersonDelta.safe_unless (P := fun parts : Fin Part.count → ℕ => ∀ k, parts k < 2 ^ 3)
    hbase.parts ((Safe.bits (by decide)).array _)).map fun parts hparts => ?_
  exact ⟨hbase.slot, hbase.generation, hon.2, hpos, hvel, hrot.1, hrot.2, haim, hflags, hparts⟩

theorem safe_suit {baseline : ℕ → ℕ → Option QEntity}
    (hbaseline : ∀ slot tick q, baseline slot tick = some q → q.Coded) (tick : ℕ) :
    Safe (readSuit baseline tick) QEntity.Coded := by
  refine .whole (.bind (.bits (by decide)) fun slot hslot => .bind .bool fun delta _ => ?_)
  split
  · refine .bind (.bits (by decide)) fun back _ => .bind .check fun _ _ => ?_
    split
    · exact .fail nofun
    · rename_i base hbase
      refine Delta.safe_read ?_ back
      unfold baselineFor at hbase
      split at hbase
      · exact hbaseline _ _ base (Option.filter_eq_some_iff.mp hbase).1
      · cases hbase
  · exact QEntity.safe_absolute hslot

theorem safe_person (walked : ℕ → ℕ → ℕ → ℤ × ℤ) {baseline : ℕ → ℕ → Option QPerson}
    (hbaseline : ∀ id tick q, baseline id tick = some q → q.InRange) (tick : ℕ) :
    Safe (readPerson walked baseline tick) QPerson.InRange := by
  refine .whole (.bind (.bits (by decide)) fun id hid => .bind .bool fun delta _ => ?_)
  split
  · refine .bind (.bits (by decide)) fun back _ => .bind .check fun _ _ => ?_
    split
    · exact .fail nofun
    · rename_i base hbase
      refine PersonDelta.safe_read walked ?_ back
      unfold personFor at hbase
      split at hbase
      · exact hbaseline _ _ base (Option.filter_eq_some_iff.mp hbase).1
      · cases hbase
  · exact QPerson.safe_absolute hid

namespace SnapshotHeader

structure InRange (h : SnapshotHeader) : Prop where
  tick : h.tick < 2 ^ 32
  seq : h.seq < 2 ^ 16
  stream : h.stream < 2 ^ 8
  ackInputTick : h.ackInputTick < 2 ^ 32
  inputHealth : -2 ^ 7 ≤ h.inputHealth ∧ h.inputHealth < 2 ^ 7
  timeEchoMs : h.timeEchoMs < 2 ^ 16
  echoHoldMs : h.echoHoldMs < 2 ^ 8
  tidiPct : h.tidiPct < 2 ^ 8
  flags : h.flags < 2 ^ 8

theorem safe_read : Safe read InRange := by
  refine .whole (.bind (.bits (by decide)) fun kind _ => ?_)
  split
  · exact .fail nofun
  · refine .bind (.bits (by decide)) fun tick htick => ?_
    refine .bind (.bits (by decide)) fun seq hseq => ?_
    refine .bind (.bits (by decide)) fun stream hstream => ?_
    refine .bind (.bits (by decide)) fun ackInputTick hack => ?_
    refine .bind (.i32 (by decide) (by decide)) fun inputHealth hhealth => ?_
    refine .bind (.bits (by decide)) fun timeEchoMs hecho => ?_
    refine .bind (.bits (by decide)) fun echoHoldMs hhold => ?_
    refine .bind (.bits (by decide)) fun tidiPct htidi => ?_
    refine (Safe.bits (by decide)).map fun flags hflags => ?_
    exact ⟨htick, hseq, hstream, hack, hhealth, hecho, hhold, htidi, hflags⟩

end SnapshotHeader

/-! ## What a call can do -/

/-- From one reader of a snapshot to another: the header as it was, no stage gone back, and bits
read on, by reads of words. -/
structure SnapshotReader.Goes (s s' : SnapshotReader) : Prop where
  header : s'.header = s.header
  stage : s.stage.index ≤ s'.stage.index
  onward : s.r.Onward s'.r
  words : ∀ r : Words.BitReader, r.Within → r.view = s.r →
    ∃ r', r.Leads r' ∧ r'.Within ∧ r'.view = s'.r

/-- From `s`, `m` goes on, says the bytes are cut short only past their end, and makes what `Q`
says. -/
structure Ends {α : Type} (m : Decode α) (s : SnapshotReader) (Q : α → SnapshotReader → Prop) :
    Prop where
  goes : s.Goes (m s).2
  truncated : (m s).1 = .error .truncated → (m s).2.r.overflow = true
  ok : ∀ a, (m s).1 = .ok a → Q a (m s).2

namespace SnapshotReader

variable {s s' s'' : SnapshotReader}

theorem Goes.refl (s : SnapshotReader) : s.Goes s :=
  ⟨rfl, le_rfl, .refl s.r, fun r hr hview => ⟨r, .refl r, hr, hview⟩⟩

theorem Goes.trans (h : s.Goes s') (h' : s'.Goes s'') : s.Goes s'' where
  header := h'.header.trans h.header
  stage := h.stage.trans h'.stage
  onward := h.onward.trans h'.onward
  words r hr hview := by
    obtain ⟨r₁, hlead, hwithin, hview₁⟩ := h.words r hr hview
    obtain ⟨r₂, hlead', hwithin', hview₂⟩ := h'.words r₁ hwithin hview₁
    exact ⟨r₂, hlead.trans hlead', hwithin', hview₂⟩

end SnapshotReader

namespace Ends

open SnapshotReader

variable {α β : Type} {s : SnapshotReader} {P : α → SnapshotReader → Prop}
  {Q : β → SnapshotReader → Prop} {m : Decode α} {f : α → Decode β}

theorem pure {a : α} (h : P a s) : Ends (Pure.pure a) s P :=
  ⟨.refl s, nofun, fun _ ha => Except.ok.inj ha ▸ h⟩

theorem throw {e : DecodeError} (he : e ≠ .truncated) : Ends (MonadExcept.throw e : Decode α) s P :=
  ⟨.refl s, fun h => (he (Except.error.inj h)).elim, nofun⟩

theorem mono {P' : α → SnapshotReader → Prop} (h : Ends m s P)
    (hP : ∀ a s', s.Goes s' → P a s' → P' a s') : Ends m s P' :=
  ⟨h.goes, h.truncated, fun a ha => hP a _ h.goes (h.ok a ha)⟩

theorem bind (h : Ends m s P) (hf : ∀ a s', s.Goes s' → P a s' → Ends (f a) s' Q) :
    Ends (m >>= f) s Q := by
  have hbind : (m >>= f) s = match m s with
      | (.ok a, s') => f a s'
      | (.error e, s') => (.error e, s') := by
    change (match m s with | (a, s') => ExceptT.bindCont f a s') = _
    cases m s with
    | mk a s' => cases a <;> rfl
  obtain ⟨hgoes, htruncated, hok⟩ := h
  generalize m s = o at hbind hgoes htruncated hok
  obtain ⟨a, s'⟩ := o
  cases a with
  | ok a =>
    have hlater := hf a s' hgoes (hok a rfl)
    exact ⟨by rw [hbind]; exact hgoes.trans hlater.goes, by rw [hbind]; exact hlater.truncated,
      by rw [hbind]; exact hlater.ok⟩
  | error e =>
    refine ⟨by rw [hbind]; exact hgoes, ?_, ?_⟩
    · rw [hbind]
      intro he
      exact htruncated (congrArg Except.error (Except.error.inj he))
    · rw [hbind]
      exact nofun

theorem get {f : SnapshotReader → Decode β} (h : Ends (f s) s Q) : Ends (MonadState.get >>= f) s Q :=
  ⟨h.goes, h.truncated, h.ok⟩

theorem setStage {stage : Stage} (hstage : s.stage.index ≤ stage.index) :
    Ends (SnapshotReader.setStage stage) s fun _ s' => s' = { s with stage } :=
  ⟨⟨rfl, hstage, .refl s.r, fun r hr hview => ⟨r, .refl r, hr, hview⟩⟩, nofun, fun _ _ => rfl⟩

theorem onBits {P : α → Prop} {rd : Read α} (h : Safe rd P) :
    Ends (SnapshotReader.onBits rd) s fun a s' =>
      P a ∧ rd s.r = (.ok a, s'.r) ∧ s'.stage = s.stage where
  goes := by
    refine ⟨rfl, le_rfl, h.onward s.r, fun r hr hview => ?_⟩
    obtain ⟨r', hlead, hwithin, hview'⟩ := h.leads hr
    rw [hview] at hview'
    exact ⟨r', hlead, hwithin, hview'.symm⟩
  truncated htruncated := h.truncated (Prod.ext htruncated rfl)
  ok a ha := by
    have hrd : rd s.r = (.ok a, (rd s.r).2) := Prod.ext ha rfl
    exact ⟨h.ok hrd, hrd, rfl⟩

end Ends

/-! ## The sections -/

namespace SnapshotReader

/-- A record taken from `s` on is in range, and took a bit at least that was there. -/
structure Took {α : Type} (P : α → Prop) (s : SnapshotReader) (o : Option α) (s' : SnapshotReader) :
    Prop where
  range : ∀ a, o = some a → P a
  there : o.isSome = true → s'.r.overflow = false ∧ s'.r.rest.length < s.r.rest.length

variable {α : Type} {P : α → Prop} {s s' s'' : SnapshotReader} {o : Option α}

theorem Took.none : Took P s none s' := ⟨nofun, nofun⟩

theorem Took.of_goes (h : s.Goes s') (ht : Took P s' o s'') : Took P s o s'' :=
  ⟨ht.range, fun ho => ⟨(ht.there ho).1, (ht.there ho).2.trans_le h.onward.length_le⟩⟩

theorem ends_bit : Ends (onBits readBool) s fun b s' => s'.stage = s.stage
    ∧ (b = true → s'.r.overflow = false ∧ s'.r.rest.length < s.r.rest.length) := by
  refine (Ends.onBits .bool).mono fun b s' _ hb => ⟨hb.2.2, ?_⟩
  rintro rfl
  obtain ⟨hlength, hok⟩ := readBool_true hb.2.1
  exact ⟨hok, by omega⟩

theorem ends_whole {rd : Read α} (h : Safe rd P) (hwhole : ∀ r a r', rd r = (.ok a, r') →
      r'.overflow = false) (hbit : s'.r.rest.length < s.r.rest.length) :
    Ends (onBits rd) s' fun a s'' => Took P s (some a) s'' ∧ s''.stage = s'.stage := by
  refine (Ends.onBits h).mono fun a s'' hgoes ha => ⟨⟨?_, fun _ => ⟨?_, ?_⟩⟩, ha.2.2⟩
  · rintro _ ⟨⟩
    exact ha.1
  · exact hwhole _ _ _ ha.2.1
  · exact hgoes.onward.length_le.trans_lt hbit

theorem ends_present {after : Stage} (hafter : s.stage.index ≤ after.index) {rd : Read α}
    (h : Safe rd P) :
    Ends (present after rd) s fun o s' => Took P s o s' ∧ s'.stage = after := by
  refine (Ends.setStage hafter).bind fun _ s₁ _ hset => ?_
  subst hset
  refine ends_bit.bind fun b s₂ _ hbit => ?_
  split
  · rename_i hb
    refine (ends_whole (s := s) h.whole (fun _ _ _ hrd => (whole_ok hrd).2) (hbit.2 hb).2).bind
      fun a s₃ _ ha => .pure ⟨ha.1, ha.2.trans hbit.1⟩
  · exact (Ends.onBits .check).bind fun _ s₃ _ hcheck => .pure ⟨.none, hcheck.2.2.trans hbit.1⟩

theorem ends_own : Ends own s fun o s' => Took OwnState.InRange s o s' ∧ s'.stage = .orrery := by
  refine .get ?_
  split
  · exact .throw nofun
  · rename_i hstage
    rw [not_not] at hstage
    exact ends_present (by rw [hstage]; decide) OwnState.safe_read

theorem ends_orrery :
    Ends orrery s fun o s' => Took OrreryInfo.InRange s o s' ∧ s'.stage = .events := by
  have hrest (s : SnapshotReader) : Ends (do
      if (← get).stage ≠ .orrery then throw .invalid
      else present .events OrreryInfo.read) s fun o s' =>
        Took OrreryInfo.InRange s o s' ∧ s'.stage = .events := by
    refine .get ?_
    split
    · exact .throw nofun
    · rename_i hstage
      rw [not_not] at hstage
      exact ends_present (by rw [hstage]; decide) OrreryInfo.safe_read
  refine .get ?_
  split
  · refine ends_own.bind fun _ s₁ hgoes _ => ?_
    exact (hrest s₁).mono fun o s₂ _ ho => ⟨ho.1.of_goes hgoes, ho.2⟩
  · exact hrest s

theorem ends_more {after : Stage} (hafter : s.stage.index ≤ after.index) :
    Ends (more after) s fun b s' =>
      (b = true → s'.stage = s.stage ∧ s'.r.rest.length < s.r.rest.length)
        ∧ (b = false → s'.stage = after) := by
  refine ends_bit.bind fun b s₁ _ hbit => ?_
  split
  · rename_i hb
    exact .pure ⟨fun _ => ⟨hbit.1, (hbit.2 hb).2⟩, nofun⟩
  · refine (Ends.setStage (by rw [hbit.1]; exact hafter)).bind fun _ s₂ _ hset => ?_
    subst hset
    exact (Ends.onBits .check).bind fun _ s₃ _ hcheck => .pure ⟨nofun, fun _ => hcheck.2.2⟩

theorem ends_listed {here after : Stage} (hlt : here.index ≤ after.index)
    {rd : SnapshotHeader → Read α} (h : Safe (rd s.header) P)
    (hwhole : ∀ r a r', rd s.header r = (.ok a, r') → r'.overflow = false) :
    Ends (listed here after rd) s fun o s' =>
      Took P s o s' ∧ (s.stage = here → o = none → s'.stage = after) := by
  refine .get ?_
  split
  · rename_i hstage
    exact .pure ⟨.none, fun hhere => (hstage hhere).elim⟩
  · rename_i hstage
    rw [not_not] at hstage
    refine (ends_more (by rw [hstage]; exact hlt)).bind fun b s₁ hgoes hmore => ?_
    split
    · rename_i hb
      refine .get ?_
      rw [hgoes.header]
      exact (ends_whole h hwhole (hmore.1 hb).2).bind fun a s₂ _ ha => .pure ⟨ha.1, nofun⟩
    · rename_i hb
      exact .pure ⟨.none, fun _ _ => hmore.2 (Bool.eq_false_iff.mpr hb)⟩

theorem whole_there {rd : Read α} (r : BitReader) (a : α) (r' : BitReader)
    (h : whole rd r = (.ok a, r')) : r'.overflow = false :=
  (whole_ok h).2

variable (walked : ℕ → ℕ → ℕ → ℤ × ℤ)

theorem ends_event (hs : s.header.tick < 2 ^ 32) :
    Ends eventHere s fun o s' =>
      Took Event.InRange s o s' ∧ (s.stage = .events → o = none → s'.stage = .rocks) :=
  ends_listed (by decide) (Event.safe_read hs) whole_there

theorem ends_rock :
    Ends rockHere s fun o s' =>
      Took RockState.InRange s o s' ∧ (s.stage = .rocks → o = none → s'.stage = .missiles) :=
  ends_listed (by decide) (Safe.whole RockState.safe_read) whole_there

theorem ends_missile :
    Ends missileHere s fun o s' =>
      Took MissileState.InRange s o s' ∧ (s.stage = .missiles → o = none → s'.stage = .entities) :=
  ends_listed (by decide) (Safe.whole MissileState.safe_read) whole_there

theorem ends_entity {baseline : ℕ → ℕ → Option QEntity}
    (hbaseline : ∀ slot tick q, baseline slot tick = some q → q.Coded) :
    Ends (entityHere baseline) s fun o s' =>
      Took QEntity.Coded s o s' ∧ (s.stage = .entities → o = none → s'.stage = .objects) :=
  ends_listed (by decide) (safe_suit hbaseline _) whole_there

theorem ends_object (hs : s.header.tick < 2 ^ 32) :
    Ends objectHere s fun o s' => Took ObjectState.InRange s o s'
      ∧ (s.stage = .objects → o = none → s'.stage = .footOwn ∨ s'.stage = .done) := by
  refine .get ?_
  dsimp only
  split
  · refine (ends_listed (by decide) (Safe.whole (ObjectState.safe_read hs)) whole_there).mono ?_
    exact fun o s' _ ho => ⟨ho.1, fun hhere hnone => Or.inl (ho.2 hhere hnone)⟩
  · refine (ends_listed (by decide) (Safe.whole (ObjectState.safe_read hs)) whole_there).mono ?_
    exact fun o s' _ ho => ⟨ho.1, fun hhere hnone => Or.inr (ho.2 hhere hnone)⟩

theorem ends_footOwn :
    Ends footOwnHere s fun o s' =>
      Took FootOwn.InRange s o s' ∧ (s.stage = .footOwn → s'.stage = .people) := by
  refine .get ?_
  split
  · rename_i hstage
    exact .pure ⟨.none, fun hhere => (hstage hhere).elim⟩
  · rename_i hstage
    rw [not_not] at hstage
    refine (ends_present (by rw [hstage]; decide) FootOwn.safe_read).mono fun o s' _ ho => ?_
    exact ⟨ho.1, fun _ => ho.2⟩

theorem ends_person {baseline : ℕ → ℕ → Option QPerson}
    (hbaseline : ∀ id tick q, baseline id tick = some q → q.InRange) :
    Ends (personHere walked baseline) s fun o s' =>
      Took QPerson.InRange s o s' ∧ (s.stage = .people → o = none → s'.stage = .done) :=
  ends_listed (by decide) (safe_person walked hbaseline _) whole_there

/-! ## Skipping -/

theorem index_le (stage : Stage) : stage.index ≤ Stage.done.index := by
  cases stage <;> decide

theorem left_lt (h : s.Goes s')
    (hon : s'.r.rest.length < s.r.rest.length ∨ s.stage.index < s'.stage.index) :
    s'.left < s.left := by
  have hlength := h.onward.length_le
  have hstage := h.stage
  have hlast := index_le s'.stage
  unfold left
  omega

theorem left_listed {here : Stage} (h : s.Goes s') (hhere : s.stage = here) (ht : Took P s o s')
    (hend : o = none → here.index < s'.stage.index) : s'.left < s.left := by
  refine left_lt h ?_
  cases ho : o with
  | none => exact Or.inr (hhere ▸ hend ho)
  | some a => exact Or.inl (ht.there (by rw [ho]; rfl)).2

theorem ends_dropNext (hs : s.header.tick < 2 ^ 32) (hstage : s.stage ≠ .done) :
    Ends (dropNext walked) s fun _ s' => s'.left < s.left := by
  refine .get ?_
  cases hhere : s.stage with
  | own =>
    refine ends_orrery.bind fun o s' hgoes ho => .pure (left_lt hgoes (Or.inr ?_))
    rw [hhere, ho.2]
    decide
  | orrery =>
    refine ends_orrery.bind fun o s' hgoes ho => .pure (left_lt hgoes (Or.inr ?_))
    rw [hhere, ho.2]
    decide
  | events =>
    refine (ends_event hs).bind fun o s' hgoes ho => .pure (left_listed hgoes hhere ho.1 ?_)
    exact fun hnone => by rw [ho.2 hhere hnone]; decide
  | rocks =>
    refine ends_rock.bind fun o s' hgoes ho => .pure (left_listed hgoes hhere ho.1 ?_)
    exact fun hnone => by rw [ho.2 hhere hnone]; decide
  | missiles =>
    refine ends_missile.bind fun o s' hgoes ho => .pure (left_listed hgoes hhere ho.1 ?_)
    exact fun hnone => by rw [ho.2 hhere hnone]; decide
  | entities =>
    refine (ends_entity fun _ _ _ h => by cases h).bind fun o s' hgoes ho =>
      .pure (left_listed hgoes hhere ho.1 ?_)
    exact fun hnone => by rw [ho.2 hhere hnone]; decide
  | objects =>
    refine (ends_object hs).bind fun o s' hgoes ho => .pure (left_listed hgoes hhere ho.1 ?_)
    intro hnone
    rcases ho.2 hhere hnone with hnext | hnext <;> rw [hnext] <;> decide
  | footOwn =>
    refine ends_footOwn.bind fun o s' hgoes ho => .pure (left_lt hgoes (Or.inr ?_))
    rw [ho.2 hhere, hhere]
    decide
  | people =>
    refine (ends_person walked fun _ _ _ h => by cases h).bind fun o s' hgoes ho =>
      .pure (left_listed hgoes hhere ho.1 ?_)
    exact fun hnone => by rw [ho.2 hhere hnone]; decide
  | done => exact (hstage hhere).elim

theorem skipTurn_error (stage : Stage) (e : DecodeError) (s : SnapshotReader) (n : ℕ) :
    (skipTurn walked stage)^[n] (.error e, s) = (.error e, s) :=
  Function.iterate_fixed rfl n

theorem skipTurn_done {stage : Stage} (h : stage.index ≤ s.stage.index) (n : ℕ) :
    (skipTurn walked stage)^[n] (.ok (), s) = (.ok (), s) := by
  have hfixed : skipTurn walked stage (.ok (), s) = (.ok (), s) := if_neg (not_lt.mpr h)
  exact Function.iterate_fixed hfixed n

theorem ends_skipTurns (stage : Stage) (n : ℕ) (hs : s.header.tick < 2 ^ 32) (hn : s.left ≤ n) :
    Ends (fun s => (skipTurn walked stage)^[n] (.ok (), s)) s fun _ s' =>
      stage.index ≤ s'.stage.index := by
  induction n generalizing s with
  | zero =>
    refine .pure ((index_le stage).trans ?_)
    unfold left at hn
    omega
  | succ n ih =>
    by_cases hskip : s.stage.index < stage.index
    · have hdone : s.stage ≠ .done := by
        rintro heq
        rw [heq] at hskip
        exact absurd hskip (not_lt.mpr (index_le stage))
      obtain ⟨hgoes, htruncated, hok⟩ := ends_dropNext walked hs hdone
      have hturn : (skipTurn walked stage)^[n + 1] (.ok (), s)
          = (skipTurn walked stage)^[n] (dropNext walked s) :=
        congrArg _ (if_pos hskip)
      generalize dropNext walked s = o at hgoes htruncated hok hturn
      obtain ⟨o, s'⟩ := o
      cases o with
      | ok u =>
        have hlater := ih (hgoes.header ▸ hs) (Nat.le_of_lt_succ ((hok u rfl).trans_le hn))
        exact ⟨by rw [hturn]; exact hgoes.trans hlater.goes, by rw [hturn]; exact hlater.truncated,
          by rw [hturn]; exact hlater.ok⟩
      | error e =>
        rw [skipTurn_error] at hturn
        exact ⟨by rw [hturn]; exact hgoes, by rw [hturn]; exact htruncated,
          by rw [hturn]; exact nofun⟩
    · have hstay := skipTurn_done walked (not_lt.mp hskip) (n + 1)
      exact ⟨by rw [hstay]; exact .refl s, by rw [hstay]; exact nofun,
        by rw [hstay]; exact fun _ _ => not_lt.mp hskip⟩

theorem ends_skipTo (stage : Stage) (hs : s.header.tick < 2 ^ 32) :
    Ends (skipTo walked stage) s fun _ s' => stage.index ≤ s'.stage.index := by
  have h := ends_skipTurns walked stage s.left hs le_rfl
  exact ⟨h.goes, h.truncated, h.ok⟩

theorem skipTo_there {stage : Stage} (h : stage.index ≤ s.stage.index) :
    skipTo walked stage s = (.ok (), s) :=
  skipTurn_done walked h s.left

theorem next_there {stage : Stage} (h : stage.index ≤ s.stage.index) (m : Decode α) :
    (do
      skipTo walked stage
      m) s = m s := by
  change (match skipTo walked stage s with | (a, s') => ExceptT.bindCont (fun _ => m) a s') = _
  rw [skipTo_there walked h]
  rfl

end SnapshotReader

/-! ## Any calls -/

/-- What a caller holds to undo deltas against is what a reader made. -/
def Call.InRange : Call → Prop
  | entity baseline => ∀ slot tick q, baseline slot tick = some q → q.Coded
  | person baseline => ∀ id tick q, baseline id tick = some q → q.InRange
  | _ => True

def Record.InRange : Record → Prop
  | own o => o.InRange
  | orrery z => z.InRange
  | event e => e.InRange
  | rock s => s.InRange
  | missile m => m.InRange
  | entity q => q.Coded
  | object o => o.InRange
  | footOwn f => f.InRange
  | person q => q.InRange

namespace SnapshotReader

variable {α β : Type} {P : α → Prop} {Q : β → Prop} {s s' : SnapshotReader} {o : Option α}
  (walked : ℕ → ℕ → ℕ → ℤ × ℤ)

theorem Took.map {f : α → β} (h : Took P s o s') (hf : ∀ a, P a → Q (f a)) :
    Took Q s (o.map f) s' := by
  refine ⟨fun b hb => ?_, fun ho => h.there (by simpa using ho)⟩
  obtain ⟨a, ha, rfl⟩ := Option.map_eq_some_iff.mp hb
  exact hf a (h.range a ha)

/-- What a call gives once what comes before its section is skipped. -/
theorem ends_next {m : Decode (Option α)} (stage : Stage) (hs : s.header.tick < 2 ^ 32)
    (h : ∀ s', s'.header.tick < 2 ^ 32 → Ends m s' fun o s'' => Took P s' o s'') :
    Ends (do
      skipTo walked stage
      m) s fun o s' => Took P s o s' :=
  (ends_skipTo walked stage hs).bind fun _ s₁ hgoes _ =>
    (h s₁ (hgoes.header ▸ hs)).mono fun _ _ _ ho => ho.of_goes hgoes

theorem ends_given {m : Decode (Option α)} {f : α → Record}
    (h : Ends m s fun o s' => Took P s o s') (hf : ∀ a, P a → (f a).InRange) :
    Ends (do
      let o ← m
      return o.map f) s fun o s' => Took Record.InRange s o s' :=
  h.bind fun _ _ _ ho => .pure (ho.map hf)

theorem ends_call {c : Call} (hs : s.header.tick < 2 ^ 32) (hc : c.InRange) :
    Ends (call walked c) s fun o s' => Took Record.InRange s o s' := by
  cases c with
  | own => exact ends_given (ends_own.mono fun _ _ _ ho => ho.1) fun _ h => h
  | orrery => exact ends_given (ends_orrery.mono fun _ _ _ ho => ho.1) fun _ h => h
  | event =>
    refine ends_given (ends_next walked .events hs fun s' hs' => ?_) fun _ h => h
    exact (ends_event hs').mono fun _ _ _ ho => ho.1
  | rock =>
    refine ends_given (ends_next walked .rocks hs fun s' hs' => ?_) fun _ h => h
    exact ends_rock.mono fun _ _ _ ho => ho.1
  | missile =>
    refine ends_given (ends_next walked .missiles hs fun s' hs' => ?_) fun _ h => h
    exact ends_missile.mono fun _ _ _ ho => ho.1
  | entity baseline =>
    refine ends_given (ends_next walked .entities hs fun s' hs' => ?_) fun _ h => h
    exact (ends_entity hc).mono fun _ _ _ ho => ho.1
  | object =>
    refine ends_given (ends_next walked .objects hs fun s' hs' => ?_) fun _ h => h
    exact (ends_object hs').mono fun _ _ _ ho => ho.1
  | footOwn =>
    refine ends_given (ends_next walked .footOwn hs fun s' hs' => ?_) fun _ h => h
    exact ends_footOwn.mono fun _ _ _ ho => ho.1
  | person baseline =>
    refine ends_given (ends_next walked .people hs fun s' hs' => ?_) fun _ h => h
    exact (ends_person walked hc).mono fun _ _ _ ho => ho.1

theorem call_given {c : Call} (hs : s.header.tick < 2 ^ 32) (hc : c.InRange) {rec : Record}
    (h : given (call walked c s).1 = some rec) :
    rec.InRange ∧ (call walked c s).2.r.overflow = false
      ∧ (call walked c s).2.r.rest.length < s.r.rest.length := by
  have hends := ends_call walked hs hc
  cases ho : (call walked c s).1 with
  | error e =>
    rw [ho] at h
    cases h
  | ok o =>
    rw [ho] at h
    have htook := hends.ok o ho
    exact ⟨htook.range rec h, htook.there (by rw [show o = some rec from h]; rfl)⟩

theorem calls_past (hs : s.header.tick < 2 ^ 32) (cs : List Call) (hcs : ∀ c ∈ cs, c.InRange)
    (hpast : s.r.overflow = true) : ∀ o ∈ (calls walked cs s).1, given o = none := by
  induction cs generalizing s with
  | nil => exact fun _ ho => absurd ho List.not_mem_nil
  | cons c rest ih =>
    have hc := hcs c List.mem_cons_self
    have hgoes := (ends_call walked hs hc).goes
    intro o ho
    rcases List.mem_cons.mp ho with rfl | ho
    · rw [Option.eq_none_iff_forall_not_mem]
      intro rec hrec
      have hthere := (call_given walked hs hc hrec).2.1
      rw [hgoes.onward.overflow hpast] at hthere
      cases hthere
    · exact ih (hgoes.header ▸ hs) (fun c' hc' => hcs c' (List.mem_cons_of_mem c hc'))
        (hgoes.onward.overflow hpast) o ho

/-- What calls give, from any reader: records in range, no more of them than bits, and none after
the bytes were found cut short. -/
theorem calls_sound (hs : s.header.tick < 2 ^ 32) (cs : List Call) (hcs : ∀ c ∈ cs, c.InRange) :
    s.Goes (calls walked cs s).2
      ∧ (∀ rec ∈ (calls walked cs s).1.filterMap given, rec.InRange)
      ∧ ((calls walked cs s).1.filterMap given).length + (calls walked cs s).2.r.rest.length
        ≤ s.r.rest.length
      ∧ (calls walked cs s).1.Pairwise fun o o' => o = .error .truncated → given o' = none := by
  induction cs generalizing s with
  | nil => exact ⟨.refl s, fun _ ho => absurd ho List.not_mem_nil, by simp [calls], .nil⟩
  | cons c rest ih =>
    have hc := hcs c List.mem_cons_self
    have hrest : ∀ c' ∈ rest, c'.InRange := fun c' hc' => hcs c' (List.mem_cons_of_mem c hc')
    have hends := ends_call walked hs hc
    have hs' : (call walked c s).2.header.tick < 2 ^ 32 := hends.goes.header ▸ hs
    obtain ⟨hgoes, hrange, hcount, hcut⟩ := ih hs' hrest
    have hfew : ((calls walked (c :: rest) s).1.filterMap given).length
        + (calls walked (c :: rest) s).2.r.rest.length ≤ s.r.rest.length := by
      have hlength := hends.goes.onward.length_le
      simp only [calls, List.filterMap_cons]
      split
      · omega
      · rename_i rec hrec
        have htook := (call_given walked hs hc hrec).2.2
        rw [List.length_cons]
        omega
    refine ⟨hends.goes.trans hgoes, ?_, hfew, List.pairwise_cons.mpr ⟨?_, hcut⟩⟩
    · intro rec hrec
      obtain ⟨o, ho, hgiven⟩ := List.mem_filterMap.mp hrec
      rcases List.mem_cons.mp ho with rfl | ho
      · exact (call_given walked hs hc hgiven).1
      · exact hrange rec (List.mem_filterMap.mpr ⟨o, ho, hgiven⟩)
    · intro o' ho' hcutshort
      exact calls_past walked hs' rest hrest (hends.truncated hcutshort) o' ho'

end SnapshotReader

end BeforeColony
