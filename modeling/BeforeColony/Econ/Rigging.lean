import BeforeColony.Econ.Bay

/-!
# What each change to a suit keeps

A suit stays put together as one is (`Suit.Rigged`) whatever is fitted to it, taken off it
or shot off it. Its tank is what its line and its equipment make it, so only a change of
equipment changes it. A weapon's part is asked for by `Suit.hung` alone: `Suit.arm` is the
one change that need not keep that.
-/

set_option autoImplicit false

namespace BeforeColony

namespace Suit

variable {s s' : Suit}

theorem isFitted_attach (s : Suit) (p : Part) (u : PartUnit) (q : Part) :
    (s.attach p u).isFitted q = (decide (q = p) || s.isFitted q) := by
  by_cases h : q = p
  · subst h
    simp [isFitted, attach]
  · simp [isFitted, attach, h]

theorem isFitted_detach (s : Suit) (p q : Part) :
    (s.detach p).isFitted q = (decide (q ≠ p) && s.isFitted q) := by
  by_cases h : q = p
  · subst h
    simp [isFitted, detach]
  · simp [isFitted, detach, h]

/-! ### The tank -/

theorem Rigged.equipment_eq (h : s.Rigged) : s.equipment = s.modules := by
  have hfitted : (fun i => if s.isFitted (moduleMounts i) then s.modules i else none)
      = s.modules := by
    funext i
    cases hi : s.modules i with
    | none => simp
    | some k =>
      obtain ⟨hpart, hfit⟩ := h.modules i k hi
      rw [← hpart, if_pos hfit]
  unfold equipment
  rw [hfitted]
  funext i
  unfold cleanModules
  cases hi : s.modules i with
  | none => rfl
  | some k =>
    have hpart := (h.modules i k hi).1
    have hfirst : ∀ j < i, s.modules j = some k → moduleMounts j ≠ k.part :=
      fun j hj hjk => absurd (h.single j i k hjk hi) hj.ne
    have hall : ((List.finRange 5).all fun j =>
        ! (decide (j < i) && decide (s.modules j = some k) && decide (moduleMounts j = k.part)))
        = true := by
      rw [List.all_eq_true]
      intro j _
      by_contra hj
      simp only [Bool.not_eq_true, Bool.not_eq_false', Bool.and_eq_true, decide_eq_true_eq] at hj
      exact hfirst j hj.1.1 hj.1.2 hj.2
    rw [Option.filter_some, hall, decide_eq_true hpart]
    rfl

theorem Rigged.carries_iff (h : s.Rigged) (k : ModuleKind) :
    s.carries k = true ↔ ∃ i, s.modules i = some k := by
  simp [carries, h.equipment_eq]

theorem Rigged.tank_le (h : s.Rigged) (h' : s'.Rigged) (hline : s'.line = s.line)
    (hmodules : ∀ i k, s.modules i = some k → ∃ j, s'.modules j = some k) :
    s.tank ≤ s'.tank := by
  have hcarries (k : ModuleKind) (hk : s.carries k = true) : s'.carries k = true := by
    obtain ⟨i, hi⟩ := (h.carries_iff k).mp hk
    exact (h'.carries_iff k).mpr (hmodules i k hi)
  have hext : (if s.carries .extendedTank then 5 else 4)
      ≤ (if s'.carries .extendedTank then 5 else 4) := by
    have := hcarries .extendedTank
    split <;> split <;> simp_all
  have haux : (if s.carries .auxiliaryTank then 7 else 5)
      ≤ (if s'.carries .auxiliaryTank then 7 else 5) := by
    have := hcarries .auxiliaryTank
    split <;> split <;> simp_all
  unfold tank
  rw [hline]
  exact Nat.div_le_div_right (Nat.mul_le_mul (Nat.mul_le_mul_left _ hext) haux)

theorem Rigged.tank_eq (h : s.Rigged) (h' : s'.Rigged) (hline : s'.line = s.line)
    (hmodules : s'.modules = s.modules) : s'.tank = s.tank :=
  Nat.le_antisymm
    (h'.tank_le h hline.symm fun i _ hi => ⟨i, hmodules ▸ hi⟩)
    (h.tank_le h' hline fun i _ hi => ⟨i, hmodules ▸ hi⟩)

/-! ### Where things go -/

theorem slotFor_part {item : Item} {p : Part} (h : s.slotFor item = some (.part p)) :
    item = .part s.line p ∧ s.isFitted p = false := by
  cases item with
  | part line part =>
    simp only [slotFor, Option.ite_none_right_eq_some, Option.some.injEq, Slot.part.injEq] at h
    obtain ⟨⟨rfl, hfree⟩, rfl⟩ := h
    exact ⟨rfl, Bool.eq_false_iff.mpr hfree⟩
  | weapon w => simp [slotFor] at h
  | module k => simp [slotFor] at h
  | _ => simp [slotFor] at h

theorem slotFor_mount {item : Item} {m : ℕ} (h : s.slotFor item = some (.mount m)) :
    ∃ (w : WeaponKind) (n : Fin 3), item = .weapon w ∧ m = n ∧ s.weaponOn n = some w
      ∧ s.mounts n = false := by
  cases item with
  | weapon w =>
    simp only [slotFor, Option.map_eq_some_iff, Slot.mount.injEq] at h
    obtain ⟨n, hn, rfl⟩ := h
    have := List.find?_some hn
    simp only [Bool.and_eq_true, decide_eq_true_eq, Bool.not_eq_true'] at this
    exact ⟨w, n, rfl, rfl, this.1, this.2⟩
  | part line part => simp [slotFor] at h
  | module k => simp [slotFor] at h
  | _ => simp [slotFor] at h

theorem slotFor_module {item : Item} {i : ℕ} (h : s.slotFor item = some (.module i)) :
    ∃ (k : ModuleKind) (j : Fin 5), item = .module k ∧ i = j ∧ k.part = moduleMounts j
      ∧ s.modules j = none ∧ (∀ j', s.modules j' ≠ some k) ∧ s.isFitted k.part = true := by
  cases item with
  | module k =>
    simp only [slotFor, Option.ite_none_right_eq_some, Option.map_eq_some_iff,
      Slot.module.injEq] at h
    obtain ⟨⟨hnew, hfit⟩, j, hj, rfl⟩ := h
    have := List.find?_some hj
    simp only [Bool.and_eq_true, decide_eq_true_eq, Option.isNone_iff_eq_none] at this
    exact ⟨k, j, rfl, rfl, this.1.symm, this.2, by simpa using hnew, hfit⟩
  | part line part => simp [slotFor] at h
  | weapon w => simp [slotFor] at h
  | _ => simp [slotFor] at h

theorem mountHasItsPart_mono (hline : s'.line = s.line)
    (hfit : ∀ p, s.isFitted p = true → s'.isFitted p = true) {m : Fin 3}
    (h : s.mountHasItsPart m = true) : s'.mountHasItsPart m = true := by
  revert h
  unfold mountHasItsPart
  rw [hline]
  cases (frameLoadout s.line m).map Mount.arm with
  | none => exact id
  | some arm =>
    cases arm with
    | both =>
      simp only [Bool.and_eq_true]
      exact fun h => ⟨hfit _ h.1, hfit _ h.2⟩
    | _ => exact hfit _

/-! ### Fitting -/

theorem Rigged.attach (h : s.Rigged) (p : Part) (u : PartUnit) : (s.attach p u).Rigged where
  torso := by rw [isFitted_attach, h.torso, Bool.or_true]
  armed := h.armed
  modules i k hi := by
    obtain ⟨hpart, hfit⟩ := h.modules i k hi
    exact ⟨hpart, by rw [isFitted_attach, hfit, Bool.or_true]⟩
  single := h.single
  ammo := h.ammo
  unarmed := h.unarmed
  faults sys hsys := by
    rw [isFitted_attach]
    by_cases hp : sys.part = p
    · simp [hp]
    · have hlevel : (s.attach p u).faults.levelOf sys = s.faults.levelOf sys := by
        simp [Suit.attach, Faults.levelOf_withPart, hp]
      rw [h.faults sys (hlevel ▸ hsys), Bool.or_true]

theorem Rigged.equip (h : s.Rigged) {k : ModuleKind} {j : Fin 5} (hpart : k.part = moduleMounts j)
    (hnew : ∀ j', s.modules j' ≠ some k) (hfit : s.isFitted k.part = true) :
    (s.equip j k).Rigged where
  torso := h.torso
  armed := h.armed
  modules i k' hi := by
    simp only [Suit.equip, Fin.val_inj] at hi
    split at hi
    · rename_i hij
      cases hi
      exact ⟨hij ▸ hpart, hfit⟩
    · exact h.modules i k' hi
  single i i' k' hi hi' := by
    simp only [Suit.equip, Fin.val_inj] at hi hi'
    split at hi
    · rename_i hij
      cases hi
      split at hi'
      · rename_i hij'
        rw [hij, hij']
      · exact absurd hi' (hnew i')
    · split at hi'
      · cases hi'
        exact absurd hi (hnew i)
      · exact h.single i i' k' hi hi'
  ammo := h.ammo
  unarmed := h.unarmed
  faults := h.faults

theorem Rigged.arm (h : s.Rigged) {m : Fin 3} (hm : (s.weaponOn m).isSome = true) :
    (s.arm m).Rigged where
  torso := h.torso
  armed n hn := by
    by_cases hnm : n = m
    · exact hnm ▸ hm
    · exact h.armed n (by simpa [Suit.arm, Fin.val_inj, hnm] using hn)
  modules := h.modules
  single := h.single
  ammo n := by
    simp only [Suit.arm]
    split
    · exact Nat.zero_le _
    · exact h.ammo n
  unarmed n hn := by
    simp only [Suit.arm] at hn ⊢
    split
    · rfl
    · rename_i hnm
      exact h.unarmed n (by simpa [hnm] using hn)
  faults := h.faults

/-! ### Taking off -/

/-- Taking the weapons off some mounts, one after another. -/
theorem foldl_disarm (l : List (Fin 3)) (s : Suit) :
    l.foldl disarm s = { s with
      mounts := fun n => if n ∈ l then false else s.mounts n
      ammo := fun n => if n ∈ l then 0 else s.ammo n } := by
  induction l generalizing s with
  | nil => simp
  | cons m rest ih =>
    rw [List.foldl_cons, ih]
    simp only [disarm, mk.injEq, true_and]
    constructor
    · funext n
      by_cases hn : n = m <;> simp [hn]
    · refine ⟨?_, trivial⟩
      funext n
      by_cases hn : n = m <;> simp [hn]

theorem Rigged.disarm (h : s.Rigged) (m : Fin 3) : (s.disarm m).Rigged where
  torso := h.torso
  armed n hn := by
    by_cases hnm : n = m
    · simp [Suit.disarm, hnm] at hn
    · exact h.armed n (by simpa [Suit.disarm, hnm] using hn)
  modules := h.modules
  single := h.single
  ammo n := by
    by_cases hnm : n = m
    · simp [Suit.disarm, hnm]
    · have hammo : (s.disarm m).ammo n = s.ammo n := Function.update_of_ne hnm _ _
      exact hammo.trans_le (h.ammo n)
  unarmed n hn := by
    by_cases hnm : n = m
    · simp [Suit.disarm, hnm]
    · simpa [Suit.disarm, hnm] using h.unarmed n (by simpa [Suit.disarm, hnm] using hn)
  faults := h.faults

theorem Rigged.foldl_disarm (h : s.Rigged) (l : List (Fin 3)) :
    (l.foldl Suit.disarm s).Rigged := by
  induction l generalizing s with
  | nil => exact h
  | cons m rest ih => exact ih (h.disarm m)

theorem Rigged.unequip (h : s.Rigged) (i : Fin 5) : (s.unequip i).Rigged where
  torso := h.torso
  armed := h.armed
  modules j k hj := by
    by_cases hji : j = i
    · simp [Suit.unequip, hji] at hj
    · exact h.modules j k (by simpa [Suit.unequip, hji] using hj)
  single j j' k hj hj' := by
    by_cases hji : j = i
    · simp [Suit.unequip, hji] at hj
    · by_cases hji' : j' = i
      · simp [Suit.unequip, hji'] at hj'
      · exact h.single j j' k (by simpa [Suit.unequip, hji] using hj)
          (by simpa [Suit.unequip, hji'] using hj')
  ammo := h.ammo
  unarmed := h.unarmed
  faults := h.faults

theorem Rigged.detach (h : s.Rigged) {p : Part} (hp : p ≠ .torso) : (s.detach p).Rigged where
  torso := by rw [isFitted_detach, h.torso, Bool.and_true, decide_eq_true_iff]; exact hp.symm
  armed := h.armed
  modules i k hi := by
    simp only [Suit.detach, Option.ite_none_left_eq_some] at hi
    obtain ⟨hpart, hfit⟩ := h.modules i k hi.2
    refine ⟨hpart, ?_⟩
    rw [isFitted_detach, hfit, Bool.and_true, decide_eq_true_iff, hpart]
    exact hi.1
  single i j k hi hj := by
    simp only [Suit.detach, Option.ite_none_left_eq_some] at hi hj
    exact h.single i j k hi.2 hj.2
  ammo := h.ammo
  unarmed := h.unarmed
  faults sys hsys := by
    have hlevel : (s.detach p).faults.levelOf sys
        = if sys.part = p then 0 else s.faults.levelOf sys := by
      simp [Suit.detach, Faults.levelOf_withPart]
    rw [hlevel] at hsys
    rw [isFitted_detach]
    by_cases hpart : sys.part = p
    · simp [hpart] at hsys
    · rw [if_neg hpart] at hsys
      simp [hpart, h.faults sys hsys]

/-- Once what is loose is off, every weapon left has its part. -/
theorem hung_of_loose_off {m : Fin 3} (hm : (s.loose.foldl disarm s).mounts m = true) :
    (s.loose.foldl disarm s).mountHasItsPart m = true := by
  rw [foldl_disarm] at hm ⊢
  simp only [loose, List.mem_filter, List.mem_finRange, true_and] at hm
  split at hm
  · cases hm
  · rename_i hloose
    show s.mountHasItsPart m = true
    simpa [hm] using hloose

/-! ### New suits -/

theorem complete_rigged (line : FrameId) : (complete line).Rigged where
  torso := rfl
  armed m hm := by simpa [complete, weaponOn] using hm
  modules _ _ hi := by cases hi
  single _ _ _ hi := by cases hi
  ammo m := by
    revert m
    cases line <;> decide
  unarmed m hm := by
    have hnone : frameLoadout line m = none := by simpa [complete] using hm
    simp [complete, hnone]
  faults _ hsys := absurd (Faults.levelOf_none _) hsys

theorem on_wellFormed (u : PartUnit) : (on u).WellFormed where
  torso := rfl
  armed _ hm := by cases hm
  modules _ _ hi := by cases hi
  single _ _ _ hi := by cases hi
  ammo _ := Nat.zero_le _
  unarmed _ _ := rfl
  faults sys hsys := by
    have hlevel : (on u).faults.levelOf sys = if sys.part = .torso then u.faults.levelOf sys else 0 := by
      simp [on, Faults.levelOf_withPart]
    rw [hlevel] at hsys
    by_cases hpart : sys.part = .torso
    · simp [isFitted, on, hpart]
    · simp [hpart] at hsys
  hung _ hm := by cases hm
  propellant := Nat.zero_le _

theorem wornArgo_wellFormed : wornArgo.WellFormed where
  torso := rfl
  armed := by decide
  modules _ _ hi := by cases hi
  single _ _ _ hi := by cases hi
  ammo := by decide
  unarmed := by decide
  faults sys _ := by cases sys <;> rfl
  hung := by decide
  propellant := Nat.div_le_self _ _

/-! ### Coming home -/

theorem levelOf_foldl_withPart (g : Part → Faults) (l : List Part) (f : Faults) (sys : System) :
    (l.foldl (fun f p => f.withPart p (g p)) f).levelOf sys
      = if sys.part ∈ l then (g sys.part).levelOf sys else f.levelOf sys := by
  induction l generalizing f with
  | nil => simp
  | cons p rest ih =>
    rw [List.foldl_cons, ih, Faults.levelOf_withPart]
    by_cases hrest : sys.part ∈ rest
    · simp [hrest]
    · by_cases hp : sys.part = p
      · simp [hp]
      · simp [hrest, hp]

theorem Rigged.cameHome (h : s.Rigged) (home : Homecoming) : (s.cameHome home).WellFormed where
  torso := rfl
  armed m hm := by
    simp only [Suit.cameHome, Bool.and_eq_true] at hm
    exact h.armed m hm.1.1
  modules i k hi := by
    simp only [Suit.cameHome, Option.ite_none_left_eq_some, not_or, Decidable.not_not] at hi
    have hpart := (h.modules i k hi.2).1
    exact ⟨hpart, hpart ▸ hi.1.1⟩
  single i j k hi hj := by
    simp only [Suit.cameHome, Option.ite_none_left_eq_some] at hi hj
    exact h.single i j k hi.2 hj.2
  ammo m := by
    simp only [Suit.cameHome]
    split
    · exact min_le_right _ _
    · exact Nat.zero_le _
  unarmed m hm := by
    simp only [Suit.cameHome] at hm ⊢
    rw [hm, if_neg Bool.false_ne_true]
  faults sys hsys := by
    simp only [Suit.cameHome] at hsys
    rw [levelOf_foldl_withPart] at hsys
    have hmem : sys.part ∈ Part.all := by cases sys <;> decide
    rw [if_pos hmem] at hsys
    split at hsys
    · rename_i hfit
      exact hfit
    · exact absurd (Faults.levelOf_none sys) hsys
  hung m hm := by
    simp only [Suit.cameHome, Bool.and_eq_true] at hm
    exact hm.2
  propellant := (min_le_left _ _).trans (min_le_right _ _)

end Suit

end BeforeColony
