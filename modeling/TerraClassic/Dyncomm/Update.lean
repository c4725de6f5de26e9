import TerraClassic.Dyncomm.Effects

/-! # The weekly update

    `UpdateAllBondedValidatorRates` gives each bonded validator the larger of its
    target and its new minimum, raises the maximum rate to the minimum where it
    is lower, and stores the minimum.  Targets, and validators that are not
    bonded, stay as they are (`updateAll_spec`).
-/

namespace TerraClassic.Dyncomm

/-! ### The minimum commission -/

/-- The minimum depends on the validator's tokens and on a few numbers that the
    update does not write. -/
structure SameRules (s s' : State) : Prop where
  params : s'.params = s.params
  lastTotalPower : s'.staking.lastTotalPower = s.staking.lastTotalPower
  minCommissionRate : s'.staking.minCommissionRate = s.staking.minCommissionRate

theorem SameRules.refl (s : State) : SameRules s s := ⟨rfl, rfl, rfl⟩

theorem SameRules.trans {s₁ s₂ s₃ : State} (h₁ : SameRules s₁ s₂) (h₂ : SameRules s₂ s₃) :
    SameRules s₁ s₃ :=
  ⟨h₂.params.trans h₁.params, h₂.lastTotalPower.trans h₁.lastTotalPower,
    h₂.minCommissionRate.trans h₁.minCommissionRate⟩

theorem SameRules.calculateDynCommission {s s' : State} (h : SameRules s s') {val val' : Validator}
    (hval : val'.tokens = val.tokens) :
    calculateDynCommission s' val' = calculateDynCommission s val := by
  unfold Dyncomm.calculateDynCommission calculateVotingPower
  rw [h.params, h.lastTotalPower, h.minCommissionRate, hval]

/-- The minimum is at most one: the cap and staking's own minimum are. -/
theorem calculateDynCommission_le_one {s : State} (hparams : s.params.Valid)
    (hmin : s.staking.MinRateOk) {val : Validator} {m : Dec}
    (h : calculateDynCommission s val = some m) : m ≤ Dec.one := by
  simp only [calculateDynCommission] at h
  obtain ⟨d, hd, h⟩ := Option.bind_eq_some_iff.mp h
  obtain ⟨x, _, h⟩ := Option.bind_eq_some_iff.mp h
  obtain ⟨factorA, _, h⟩ := Option.bind_eq_some_iff.mp h
  obtain ⟨quotient, _, h⟩ := Option.bind_eq_some_iff.mp h
  obtain ⟨factorB, _, h⟩ := Option.bind_eq_some_iff.mp h
  obtain ⟨minComm, hminComm, h⟩ := Option.bind_eq_some_iff.mp h
  obtain ⟨y, _, h⟩ := Option.bind_eq_some_iff.mp h
  have hd : d.i = s.params.cap.i * 100 := by rw [(Dec.checked_eq_some.mp hd).2]
  have hminComm : minComm.i = s.staking.minCommissionRate.i * 100 := by
    rw [(Dec.checked_eq_some.mp hminComm).2]
  have hcapOne : s.params.cap.i ≤ decOne := Dec.le_def.mp hparams.cap.2
  have hminOne : s.staking.minCommissionRate.i ≤ decOne := Dec.le_def.mp hmin.2
  have hminNonneg := hmin.1
  -- the last two comparisons of the source, as one number each
  set capped := if y > d then d else y with hcapped
  set raised := if minComm > capped then minComm else capped with hraised
  have hcap : capped.i ≤ d.i := by
    rw [hcapped]
    split
    · exact le_rfl
    · next hle => exact Dec.le_def.mp (not_lt.mp hle)
  have hbounds : 0 ≤ raised.i ∧ raised.i ≤ 100 * decOne := by
    rw [hraised]
    split
    · omega
    · next hle =>
      have := Dec.le_def.mp (not_lt.mp hle)
      omega
  have hm : m.i = raised.i.tdiv 100 := by
    have h : some (⟨raised.i.tdiv 100⟩ : Dec) = some m := h
    rw [← Option.some.inj h]
  apply Dec.le_def.mpr
  show m.i ≤ decOne
  rw [hm, Int.tdiv_eq_ediv_of_nonneg hbounds.1]
  omega

/-! ### One validator -/

/-- The record that the update writes. -/
def updated (validator : Validator) (targetRate minRate : Dec) : Validator :=
  { validator with
    commission := { validator.commission with
      rate := max targetRate minRate
      maxRate := max validator.commission.maxRate minRate } }

theorem updateValidatorMinRates_eq {bech32 : Bech32} {s s' : State} {entry : ValAddr × Validator}
    (h : updateValidatorMinRates bech32 s entry = some s') :
    ∃ m, calculateDynCommission s entry.2 = some m ∧
      s' = { s with
        staking := { s.staking with
          validators := s.staking.validators.set entry.1 (updated entry.2
            (getTargetCommissionRate s.rates (bech32.valAddressString entry.1)) m) }
        rates := setDynCommissionRate s.rates (bech32.valAddressString entry.1) m } := by
  have hmax : ∀ a m : Dec, (if a < m then m else a) = max a m := by
    intro a m
    rcases lt_or_ge a m with hlt | hge
    · rw [if_pos hlt, max_eq_right hlt.le]
    · rw [if_neg (not_lt.mpr hge), max_eq_left hge]
  unfold updateValidatorMinRates at h
  obtain ⟨m, hm, h⟩ := Option.bind_eq_some_iff.mp h
  refine ⟨m, hm, ?_⟩
  rw [← Option.some.inj h, hmax, hmax]
  rfl

/-! ### All validators -/

/-- Every validator's address string parses to the validator. -/
def Keyed (bech32 : Bech32) (st : Staking) : Prop :=
  ∀ v k, st.commissionOf v = some k →
    bech32.valAddressFromBech32 (bech32.valAddressString v) = .ok v

/-- What the update leaves alone. -/
structure UpdateFrame (s s' : State) : Prop where
  rules : SameRules s s'
  targets : ∀ address,
    getTargetCommissionRate s'.rates address = getTargetCommissionRate s.rates address

theorem UpdateFrame.refl (s : State) : UpdateFrame s s := ⟨SameRules.refl s, fun _ => rfl⟩

theorem UpdateFrame.trans {s₁ s₂ s₃ : State} (h₁ : UpdateFrame s₁ s₂) (h₂ : UpdateFrame s₂ s₃) :
    UpdateFrame s₁ s₃ :=
  ⟨h₁.rules.trans h₂.rules, fun a => (h₂.targets a).trans (h₁.targets a)⟩

/-- What the update does to one validator. -/
def UpdatedIn (bech32 : Bech32) (s s' : State) (v : ValAddr) (val : Validator) : Prop :=
  if val.bonded then
    ∃ m, calculateDynCommission s val = some m ∧
      s'.staking.validators.get v = some (updated val
        (getTargetCommissionRate s.rates (bech32.valAddressString v)) m) ∧
      getDynCommissionRate s'.rates (bech32.valAddressString v) = m
  else s'.staking.validators.get v = some val

/-- One round of the loop: what it does to its validator, and that it leaves the
    others and their records alone. -/
theorem updateIfBonded_spec {bech32 : Bech32} {e : ValAddr × Validator} {s s' : State}
    (hget : s.staking.validators.get e.1 = some e.2) (h : updateIfBonded bech32 s e = some s') :
    UpdateFrame s s' ∧ UpdatedIn bech32 s s' e.1 e.2 ∧
    (∀ u, e.1 ≠ u → s'.staking.validators.get u = s.staking.validators.get u) ∧
    ∀ address, bech32.valAddressString e.1 ≠ address →
      getDynCommissionRate s'.rates address = getDynCommissionRate s.rates address := by
  unfold updateIfBonded at h
  cases hbonded : e.2.bonded with
  | false =>
    rw [hbonded] at h
    rw [← Option.some.inj h]
    refine ⟨UpdateFrame.refl s, ?_, fun _ _ => rfl, fun _ _ => rfl⟩
    unfold UpdatedIn
    rw [hbonded]
    exact hget
  | true =>
    rw [hbonded] at h
    obtain ⟨m, hm, rfl⟩ := updateValidatorMinRates_eq h
    refine ⟨⟨⟨rfl, rfl, rfl⟩, fun a => getTargetCommissionRate_setDyn _ _ _ _⟩, ?_, ?_, ?_⟩
    · unfold UpdatedIn
      rw [hbonded]
      refine ⟨m, hm, SortedMap.get_set_self _ _ _, ?_⟩
      rw [getDynCommissionRate_setDyn, if_pos rfl]
    · intro u hu
      exact SortedMap.get_set_ne _ _ (Ne.symm hu)
    · intro a ha
      rw [getDynCommissionRate_setDyn, if_neg (Ne.symm ha)]

/-- The loop over some of the validators.  The others, and their records, are not
    touched. -/
theorem foldlM_updateIfBonded {bech32 : Bech32} {l : List (ValAddr × Validator)}
    (hnodup : (l.map (fun e => bech32.valAddressString e.1)).Nodup) {s s' : State}
    (hget : ∀ e ∈ l, s.staking.validators.get e.1 = some e.2)
    (h : l.foldlM (updateIfBonded bech32) s = some s') :
    UpdateFrame s s' ∧
    (∀ e ∈ l, UpdatedIn bech32 s s' e.1 e.2) ∧
    (∀ u, (∀ e ∈ l, e.1 ≠ u) → s'.staking.validators.get u = s.staking.validators.get u) ∧
    ∀ address, (∀ e ∈ l, bech32.valAddressString e.1 ≠ address) →
      getDynCommissionRate s'.rates address = getDynCommissionRate s.rates address := by
  induction l generalizing s with
  | nil =>
    rw [← Option.some.inj h]
    exact ⟨UpdateFrame.refl s, fun e he => absurd he List.not_mem_nil, fun _ _ => rfl,
      fun _ _ => rfl⟩
  | cons e rest ih =>
    rw [List.foldlM_cons] at h
    obtain ⟨s₁, hfirst, hrest⟩ := Option.bind_eq_some_iff.mp h
    rw [List.map_cons, List.nodup_cons] at hnodup
    have hkey : ∀ e' ∈ rest, bech32.valAddressString e'.1 ≠ bech32.valAddressString e.1 := by
      intro e' he' heq
      exact hnodup.1 (List.mem_map.mpr ⟨e', he', heq⟩)
    have hne : ∀ e' ∈ rest, e'.1 ≠ e.1 := fun e' he' heq => hkey e' he' (by rw [heq])
    -- the first round, then the rest from the state it left
    obtain ⟨hframe₁, hupdated₁, hothers₁, hrecords₁⟩ :=
      updateIfBonded_spec (hget e List.mem_cons_self) hfirst
    have hget₁ : ∀ e' ∈ rest, s₁.staking.validators.get e'.1 = some e'.2 := by
      intro e' he'
      rw [hothers₁ e'.1 (Ne.symm (hne e' he'))]
      exact hget e' (List.mem_cons_of_mem _ he')
    obtain ⟨hframe, hupdated, hothers, hrecords⟩ := ih hnodup.2 hget₁ hrest
    refine ⟨hframe₁.trans hframe, ?_, ?_, ?_⟩
    · intro e' he'
      rcases List.mem_cons.mp he' with rfl | he'
      · unfold UpdatedIn at hupdated₁ ⊢
        rw [hothers e'.1 hne, hrecords _ hkey]
        exact hupdated₁
      · have hthis := hupdated e' he'
        unfold UpdatedIn at hthis ⊢
        rwa [hframe₁.rules.calculateDynCommission rfl, hframe₁.targets] at hthis
    · intro u hu
      rw [hothers u (fun e' he' => hu e' (List.mem_cons_of_mem _ he')),
        hothers₁ u (hu e List.mem_cons_self)]
    · intro a ha
      rw [hrecords a (fun e' he' => ha e' (List.mem_cons_of_mem _ he')),
        hrecords₁ a (ha e List.mem_cons_self)]

/-- `UpdateAllBondedValidatorRates`, validator by validator. -/
theorem updateAll_spec {bech32 : Bech32} {s s' : State} (hkeyed : Keyed bech32 s.staking)
    (h : updateAllBondedValidatorRates bech32 s = some s') :
    UpdateFrame s s' ∧
    (∀ v val, s.staking.validators.get v = some val → UpdatedIn bech32 s s' v val) ∧
    ∀ v, s.staking.validators.get v = none → s'.staking.validators.get v = none := by
  have hparse : ∀ e ∈ s.staking.validators.entries,
      bech32.valAddressFromBech32 (bech32.valAddressString e.1) = .ok e.1 := by
    intro e he
    exact hkeyed e.1 e.2.commission
      (Staking.commissionOf_eq_some.mpr ⟨e.2, SortedMap.mem_entries.mp he, rfl⟩)
  -- different validators have different records
  have hnodup : (s.staking.validators.entries.map
      (fun e => bech32.valAddressString e.1)).Nodup := by
    apply List.Nodup.map_on _ s.staking.validators.entries_nodup
    intro e he e' he' heq
    have hkey : e.1 = e'.1 := by
      have hfirst := hparse e he
      rw [heq, hparse e' he'] at hfirst
      exact (Except.ok.inj hfirst).symm
    by_contra hne
    exact SortedMap.key_ne_of_ne he he' hne hkey
  obtain ⟨hframe, hupdated, hothers, _⟩ := foldlM_updateIfBonded hnodup
    (fun e he => SortedMap.mem_entries.mp he) h
  refine ⟨hframe, fun v val hv => hupdated (v, val) (SortedMap.mem_entries.mpr hv), ?_⟩
  intro v hv
  rw [hothers v, hv]
  intro e he heq
  have := SortedMap.mem_entries.mp he
  rw [heq, hv] at this
  cases this

/-- Every validator after the update was there before it, and was updated if it was
    bonded. -/
theorem updateAll_get {bech32 : Bech32} {s s' : State} (hkeyed : Keyed bech32 s.staking)
    (h : updateAllBondedValidatorRates bech32 s = some s') {v : ValAddr} {val' : Validator}
    (hv : s'.staking.validators.get v = some val') :
    ∃ val, s.staking.validators.get v = some val ∧
      ((∃ m, calculateDynCommission s val = some m ∧
          val' = updated val (getTargetCommissionRate s.rates (bech32.valAddressString v)) m ∧
          getDynCommissionRate s'.rates (bech32.valAddressString v) = m) ∨
        (val' = val ∧ val.bonded = false)) := by
  obtain ⟨_, hupdated, hnone⟩ := updateAll_spec hkeyed h
  cases hget : s.staking.validators.get v with
  | none =>
    rw [hnone v hget] at hv
    cases hv
  | some val =>
    refine ⟨val, rfl, ?_⟩
    have hthis := hupdated v val hget
    unfold UpdatedIn at hthis
    rw [hv] at hthis
    cases hbonded : val.bonded with
    | true =>
      rw [hbonded] at hthis
      obtain ⟨m, hm, hval', hrecord⟩ := hthis
      exact Or.inl ⟨m, hm, Option.some.inj hval', hrecord⟩
    | false =>
      rw [hbonded] at hthis
      exact Or.inr ⟨Option.some.inj hthis, rfl⟩

theorem updateAll_keyed {bech32 : Bech32} {s s' : State} (hkeyed : Keyed bech32 s.staking)
    (h : updateAllBondedValidatorRates bech32 s = some s') : Keyed bech32 s'.staking := by
  intro v k hk
  obtain ⟨val', hval', _⟩ := Staking.commissionOf_eq_some.mp hk
  obtain ⟨val, hval, _⟩ := updateAll_get hkeyed h hval'
  exact hkeyed v val.commission (Staking.commissionOf_eq_some.mpr ⟨val, hval, rfl⟩)

/-- The end blocker updates in the last block of a week and does nothing in the others. -/
theorem endBlocker_eq (bech32 : Bech32) (height : BlockHeight) (s : State) :
    endBlocker bech32 height s =
      if toUint64 ((height.val : ℤ) + 1) % blocksPerWeek.toNat = 0 then
        updateAllBondedValidatorRates bech32 s
      else some s := by
  have hweek : isPeriodLastBlock height blocksPerWeek =
      some (toUint64 ((height.val : ℤ) + 1) % blocksPerWeek.toNat == 0) := if_neg (by decide)
  unfold endBlocker
  rw [hweek, Option.bind_eq_bind, Option.bind_some]
  by_cases hlast : toUint64 ((height.val : ℤ) + 1) % blocksPerWeek.toNat = 0
  · simp [hlast]
  · simp [hlast]

end TerraClassic.Dyncomm
