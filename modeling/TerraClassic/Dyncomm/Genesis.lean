import TerraClassic.Dyncomm.Target

/-! # Export and import

    `ExportGenesis` writes the parameters and every record.  `InitGenesis` reads the
    parameters only: it takes each target from the staking record again, where the
    weekly update has written the larger of target and minimum.  A validator whose
    target is below its minimum comes back with the minimum as its target.
-/

namespace TerraClassic.Dyncomm

variable {W : Type}

/-! ### The genesis file -/

/-- `types.GenesisState`; a record is written with its address. -/
structure GenesisState where
  params : Params
  validatorCommissionRates : List (String × ValidatorCommissionRate)
  deriving DecidableEq

/-- `ExportGenesis`. -/
def exportGenesis (s : State) : GenesisState where
  params := s.params
  validatorCommissionRates := s.rates.entries

/-- `InitGenesis` on a chain without records, with the given staking state.  The
    records in the file are not read. -/
def importGenesis (bech32 : Bech32) (data : GenesisState) (staking : Staking) : Option State :=
  initGenesis bech32 data.params ⟨staking, data.params, ∅⟩

/-- What the import of an exported state has to restore, where `updated` is the
    original state after an update: every target, and the minimum and the rate of
    every bonded validator. -/
structure Restored (bech32 : Bech32) (s updated imported : State) : Prop where
  target : ∀ v val, s.staking.validators.get v = some val →
    getTargetCommissionRate imported.rates (bech32.valAddressString v) =
      getTargetCommissionRate s.rates (bech32.valAddressString v)
  minimum : ∀ v val, s.staking.validators.get v = some val → val.bonded = true →
    getDynCommissionRate imported.rates (bech32.valAddressString v) =
      getDynCommissionRate updated.rates (bech32.valAddressString v)
  rate : ∀ v val, s.staking.validators.get v = some val → val.bonded = true →
    (imported.staking.commissionOf v).map Commission.rate =
      (updated.staking.commissionOf v).map Commission.rate

/-- Every validator's target is the rate in its staking record. -/
def TargetsEffective (bech32 : Bech32) (s : State) : Prop :=
  ∀ v val, s.staking.validators.get v = some val →
    getTargetCommissionRate s.rates (bech32.valAddressString v) = val.commission.rate

/-! ### When the update returns -/

theorem updateIfBonded_isSome_iff (bech32 : Bech32) {s : State} {e : ValAddr × Validator} :
    (updateIfBonded bech32 s e).isSome ↔
      (e.2.bonded = true → (calculateDynCommission s e.2).isSome) := by
  unfold updateIfBonded
  cases hbonded : e.2.bonded with
  | false => simp
  | true =>
    unfold updateValidatorMinRates
    simp only [Bool.not_true, Bool.false_eq_true, if_false, forall_true_left]
    cases hm : calculateDynCommission s e.2 with
    | none => rfl
    | some m => rfl

/-- The loop returns when the minimum of each bonded validator can be computed; what
    it writes on the way does not matter. -/
theorem foldlM_updateIfBonded_isSome_iff {bech32 : Bech32} {l : List (ValAddr × Validator)}
    {s₀ s : State} (hrules : SameRules s₀ s) :
    (l.foldlM (updateIfBonded bech32) s).isSome ↔
      ∀ e ∈ l, e.2.bonded = true → (calculateDynCommission s₀ e.2).isSome := by
  induction l generalizing s with
  | nil => simp
  | cons e rest ih =>
    rw [List.foldlM_cons, List.forall_mem_cons, ← hrules.calculateDynCommission rfl,
      ← updateIfBonded_isSome_iff bech32]
    cases hfirst : updateIfBonded bech32 s e with
    | none => simp
    | some s₁ =>
      have hrules₁ : SameRules s s₁ := by
        unfold updateIfBonded at hfirst
        split at hfirst
        · cases hfirst
          exact SameRules.refl s
        · obtain ⟨m, _, rfl⟩ := updateValidatorMinRates_eq hfirst
          exact ⟨rfl, rfl, rfl⟩
      simpa using ih (hrules.trans hrules₁)

/-- Of two states with the same rules and validators both can be updated, or neither. -/
theorem updateAll_isSome_congr {bech32 : Bech32} {s s' : State} (hrules : SameRules s s')
    (hvalidators : s'.staking.validators = s.staking.validators) :
    (updateAllBondedValidatorRates bech32 s').isSome ↔
      (updateAllBondedValidatorRates bech32 s).isSome := by
  unfold updateAllBondedValidatorRates
  rw [foldlM_updateIfBonded_isSome_iff hrules,
    foldlM_updateIfBonded_isSome_iff (SameRules.refl s), hvalidators]

/-! ### One export and import -/

/-- The import updates the state in which each target is the staking rate. -/
theorem importGenesis_eq {bech32 : Bech32} {s : State} (hparams : s.params.Valid) :
    importGenesis bech32 (exportGenesis s) s.staking =
      updateAllBondedValidatorRates bech32
        (genesisState bech32 s.params ⟨s.staking, s.params, ∅⟩) := by
  unfold importGenesis initGenesis
  rw [show (exportGenesis s).params = s.params from rfl, Params.checkPairs_eq_ok.mpr hparams]
  unfold genesisState setTargets genesisChoices
  rw [List.foldl_map]

/-- The import restores the state exactly when the targets are the staking rates. -/
theorem restored_iff {bech32 : Bech32} {s updated imported : State}
    (hkeyed : Keyed bech32 s.staking) (hparams : s.params.Valid)
    (hupdated : updateAllBondedValidatorRates bech32 s = some updated)
    (himported : importGenesis bech32 (exportGenesis s) s.staking = some imported) :
    Restored bech32 s updated imported ↔ TargetsEffective bech32 s := by
  rw [importGenesis_eq hparams] at himported
  set fresh := genesisState bech32 s.params ⟨s.staking, s.params, ∅⟩ with hfresh
  have hrules : SameRules s fresh := ⟨rfl, rfl, rfl⟩
  have hkeyedFresh : Keyed bech32 fresh.staking := hkeyed
  obtain ⟨hframe, hall, _⟩ := updateAll_spec hkeyed hupdated
  obtain ⟨hframe', hall', _⟩ := updateAll_spec hkeyedFresh himported
  have htarget : ∀ v val, s.staking.validators.get v = some val →
      getTargetCommissionRate fresh.rates (bech32.valAddressString v) = val.commission.rate :=
    fun v val hval => genesisState_target (s := ⟨s.staking, s.params, ∅⟩) hkeyed hval
  constructor
  · -- the imported target is the staking rate, in any case
    intro h v val hval
    rw [← h.target v val hval, hframe'.targets, htarget v val hval]
  · intro h
    -- the two updates start from the same target and compute the same minimum
    have hsame : ∀ v val, s.staking.validators.get v = some val → val.bonded = true →
        ∃ m, (getDynCommissionRate imported.rates (bech32.valAddressString v) = m ∧
            getDynCommissionRate updated.rates (bech32.valAddressString v) = m) ∧
          imported.staking.validators.get v = updated.staking.validators.get v := by
      intro v val hval hbonded
      have hthis := hall v val hval
      have hthis' := hall' v val hval
      unfold UpdatedIn at hthis hthis'
      rw [if_pos hbonded] at hthis hthis'
      obtain ⟨m, hm, hget, hdyn⟩ := hthis
      obtain ⟨m', hm', hget', hdyn'⟩ := hthis'
      rw [hrules.calculateDynCommission rfl, hm] at hm'
      cases hm'
      refine ⟨m, ⟨hdyn', hdyn⟩, ?_⟩
      rw [hget, hget', htarget v val hval, h v val hval]
    refine ⟨?_, ?_, ?_⟩
    · intro v val hval
      rw [hframe'.targets, htarget v val hval, h v val hval]
    · intro v val hval hbonded
      obtain ⟨m, ⟨hdyn', hdyn⟩, _⟩ := hsame v val hval hbonded
      rw [hdyn', hdyn]
    · intro v val hval hbonded
      obtain ⟨_, _, hget⟩ := hsame v val hval hbonded
      unfold Staking.commissionOf
      rw [hget]

/-! ### Runs -/

/-- What every reachable state has: keyed validators and checked parameters. -/
structure Reachable (bech32 : Bech32) (s : State) : Prop where
  keyed : Keyed bech32 s.staking
  params : s.params.Valid

theorem step_reachable {sdk : Sdk W} {s s' : RunState W} {e : Event W}
    (h : step sdk s e = some s') (hs : Reachable sdk.bech32 s.chain.state) :
    Reachable sdk.bech32 s'.chain.state := by
  cases step_cases h with
  | refused => exact hs
  | delivered hdeliver =>
    obtain ⟨_, heffects, _, hparams⟩ := deliverTx_effects hdeliver
    refine ⟨?_, hparams ▸ hs.params⟩
    intro v k hk
    -- a validator that a choice created was parsed from the choice's spelling
    rcases heffects.rate hk with ⟨c, hlast, _⟩ | ⟨_, hbefore⟩
    · exact sdk.codec _ _ (of_decide_eq_true (isFor_of_lastChoice hlast))
    · exact hs.keyed v k hbefore
  | @updated state hupdate =>
    refine ⟨updateAll_keyed hs.keyed hupdate, ?_⟩
    show state.params.Valid
    rw [(updateAll_spec hs.keyed hupdate).1.rules.params]
    exact hs.params
  | staking world changes =>
    have hquiet := foldl_apply_quiet changes s.chain.state.staking
    exact ⟨fun v k hk => hs.keyed v k (hquiet.commission v k hk), hs.params⟩
  | params hok => exact ⟨hs.keyed, Params.checkPairs_eq_ok.mp hok⟩

theorem startRun_reachable {sdk : Sdk W} {params : Params} {c : Chain W} {start : RunState W}
    (h : startRun sdk params c = some start) (hkeyed : Keyed sdk.bech32 c.state.staking) :
    Reachable sdk.bech32 start.chain.state := by
  obtain ⟨hvalid, _, hupdate⟩ := startRun_eq h
  have hkeyed₀ : Keyed sdk.bech32 (genesisState sdk.bech32 params c.state).staking := hkeyed
  refine ⟨updateAll_keyed hkeyed₀ hupdate, ?_⟩
  rw [(updateAll_spec hkeyed₀ hupdate).1.rules.params]
  exact hvalid

/-- In every reachable state that can be updated: an export and import returns, and it
    restores the targets, minimums and rates exactly when the target of every validator
    is the rate in its staking record. -/
theorem genesis_round_trip_iff (sdk : Sdk W) (params : Params) (genesis : Chain W)
    (hkeyed : Keyed sdk.bech32 genesis.state.staking) (start : RunState W)
    (hstart : startRun sdk params genesis = some start) (events : List (Event W))
    (s : RunState W) (hrun : Run.run (step sdk) events start = some s) (updated : State)
    (hupdated : updateAllBondedValidatorRates sdk.bech32 s.chain.state = some updated) :
    ∃ imported, importGenesis sdk.bech32 (exportGenesis s.chain.state) s.chain.state.staking =
        some imported ∧
      (Restored sdk.bech32 s.chain.state updated imported ↔
        TargetsEffective sdk.bech32 s.chain.state) := by
  have hs : Reachable sdk.bech32 s.chain.state := Run.run_invariant
    (fun _ _ _ hstep hinv => step_reachable hstep hinv) hrun (startRun_reachable hstart hkeyed)
  have hsome : (importGenesis sdk.bech32 (exportGenesis s.chain.state)
      s.chain.state.staking).isSome := by
    rw [importGenesis_eq hs.params]
    have hrules : SameRules s.chain.state (genesisState sdk.bech32 s.chain.state.params
        ⟨s.chain.state.staking, s.chain.state.params, ∅⟩) := ⟨rfl, rfl, rfl⟩
    refine (updateAll_isSome_congr hrules rfl).mpr ?_
    rw [hupdated]
    rfl
  obtain ⟨imported, himported⟩ := Option.isSome_iff_exists.mp hsome
  exact ⟨imported, himported, restored_iff hs.keyed hs.params hupdated himported⟩

/-- The operator's target and rate. -/
def targetAndRate (s : State) : Option (Dec × Dec) :=
  (s.staking.commissionOf "a").map (fun k =>
    (getTargetCommissionRate s.rates "terravaloper1a", k.rate))

/-- An operator that chose 40%, above its minimum, gets its state back. -/
theorem genesis_round_trip_above_minimum :
    ∃ s updated imported, smallRun [.deliver [editTo "terravaloper1a" 40]] = some s ∧
      updateAllBondedValidatorRates oneOperator s.chain.state = some updated ∧
      importGenesis oneOperator (exportGenesis s.chain.state) s.chain.state.staking =
        some imported ∧
      Restored oneOperator s.chain.state updated imported := by
  have hsome : (smallRun [.deliver [editTo "terravaloper1a" 40]]).isSome = true := by
    decide +kernel
  obtain ⟨s, hs⟩ := Option.isSome_iff_exists.mp hsome
  obtain ⟨start, hstart, hrun⟩ := Option.bind_eq_some_iff.mp hs
  have hupdate : ((smallRun [.deliver [editTo "terravaloper1a" 40]]).bind (fun s =>
      updateAllBondedValidatorRates oneOperator s.chain.state)).isSome = true := by decide +kernel
  rw [hs, Option.bind_some] at hupdate
  obtain ⟨updated, hupdated⟩ := Option.isSome_iff_exists.mp hupdate
  have hkeys : (smallRun [.deliver [editTo "terravaloper1a" 40]]).map (fun s =>
      s.chain.state.staking.validators.entries.all (fun e =>
        getTargetCommissionRate s.chain.state.rates (oneOperator.valAddressString e.1) =
          e.2.commission.rate)) = some true := by decide +kernel
  rw [hs, Option.map_some, Option.some.injEq, List.all_eq_true] at hkeys
  obtain ⟨imported, himported, hiff⟩ := genesis_round_trip_iff smallSdk defaultParams smallChain
    smallChain_keyed start hstart _ s hrun updated hupdated
  refine ⟨s, updated, imported, hs, hupdated, himported, hiff.mpr ?_⟩
  intro v val hval
  exact of_decide_eq_true (hkeys (v, val) (SortedMap.mem_entries.mpr hval))

/-- Right after genesis the operator has a target of 10% under a minimum of 20%; an
    export and import makes the minimum its target. -/
theorem genesis_round_trip_fails :
    (smallRun []).bind (fun s => targetAndRate s.chain.state) =
      some (Dec.withPrec 10 2, Dec.withPrec 20 2) ∧
    ((smallRun []).bind (fun s => importGenesis oneOperator (exportGenesis s.chain.state)
      s.chain.state.staking)).bind targetAndRate =
      some (Dec.withPrec 20 2, Dec.withPrec 20 2) ∧
    Dec.withPrec 20 2 ≠ Dec.withPrec 10 2 := by
  refine ⟨by decide +kernel, by decide +kernel, by decide⟩

end TerraClassic.Dyncomm
