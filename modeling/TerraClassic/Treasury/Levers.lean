import TerraClassic.Treasury.Keeper

/-! # The policy levers stay inside their constraints

    The tax rate and the reward weight change in one place only, the policy
    updates of an epoch's last block after the probation, and there they are
    the result of a `Clamp` (`endBlocker_levers`).  In a run the other modules
    put whatever indicators, taxes and rates they like before each block.
-/

namespace TerraClassic.Treasury

/-! ### What the end blocker does to the levers -/

/-- The block updates the policies. -/
def updates (height : BlockHeight) (params : Params) : Prop :=
  isPeriodLastBlock height blocksPerWeek = some true ∧ inProbation height params = false

/-- Parameters and levers are the same. -/
structure SameLevers (st st' : Store) : Prop where
  params : st'.params = st.params
  taxRate : getTaxRate st' = getTaxRate st
  rewardWeight : getRewardWeight st' = getRewardWeight st

/-- Both levers were clamped, each from its old value. -/
structure ClampedLevers (st st' : Store) : Prop where
  params : st'.params = st.params
  taxRate : ∃ newRate, st.params.taxPolicy.clamp (getTaxRate st) newRate = some (getTaxRate st')
  rewardWeight : ∃ newRate, st.params.rewardPolicy.clamp (getRewardWeight st) newRate =
    some (getRewardWeight st')

theorem updateIndicators_sameLevers {k : Keepers} {bank : Bank} {height : BlockHeight}
    {st st' : Store} (h : updateIndicators k bank height st = some st') : SameLevers st st' := by
  unfold updateIndicators at h
  obtain ⟨taxRewards, _, h⟩ := Option.bind_eq_some_iff.mp h
  obtain ⟨tr, _, h⟩ := Option.bind_eq_some_iff.mp h
  obtain ⟨amount, _, h⟩ := Option.bind_eq_some_iff.mp h
  obtain ⟨reward, _, h⟩ := Option.bind_eq_some_iff.mp h
  obtain ⟨sr, _, h⟩ := Option.bind_eq_some_iff.mp h
  rw [← Option.some.inj h]
  exact ⟨rfl, rfl, rfl⟩

theorem updateTaxPolicy_clamp {height : BlockHeight} {st st' : Store}
    (h : updateTaxPolicy height st = some st') :
    st'.params = st.params ∧ getRewardWeight st' = getRewardWeight st ∧
      ∃ newRate, st.params.taxPolicy.clamp (getTaxRate st) newRate = some (getTaxRate st') := by
  unfold updateTaxPolicy at h
  obtain ⟨tlYear, _, h⟩ := Option.bind_eq_some_iff.mp h
  obtain ⟨tlMonth, _, h⟩ := Option.bind_eq_some_iff.mp h
  obtain ⟨newRate, _, h⟩ := Option.bind_eq_some_iff.mp h
  obtain ⟨clamped, hclamp, h⟩ := Option.bind_eq_some_iff.mp h
  rw [← Option.some.inj h]
  exact ⟨rfl, rfl, newRate, hclamp⟩

theorem updateRewardPolicy_clamp {height : BlockHeight} {st st' : Store}
    (h : updateRewardPolicy height st = some st') :
    st'.params = st.params ∧ getTaxRate st' = getTaxRate st ∧
      ∃ newRate, st.params.rewardPolicy.clamp (getRewardWeight st) newRate =
        some (getRewardWeight st') := by
  unfold updateRewardPolicy at h
  obtain ⟨seigniorageSum, _, h⟩ := Option.bind_eq_some_iff.mp h
  obtain ⟨totalSum, _, h⟩ := Option.bind_eq_some_iff.mp h
  obtain ⟨newRate, _, h⟩ := Option.bind_eq_some_iff.mp h
  obtain ⟨clamped, hclamp, h⟩ := Option.bind_eq_some_iff.mp h
  rw [← Option.some.inj h]
  exact ⟨rfl, rfl, newRate, hclamp⟩

theorem updateTaxCap_sameLevers {k : Keepers} {st st' : Store} (h : updateTaxCap k st = some st') :
    SameLevers st st' := by
  unfold updateTaxCap at h
  obtain ⟨cap, _, h⟩ := Option.bind_eq_some_iff.mp h
  obtain ⟨caps, _, h⟩ := Option.bind_eq_some_iff.mp h
  rw [← Option.some.inj h]
  exact ⟨rfl, rfl, rfl⟩

/-- What a block may do to the levers. -/
def LeverStep (height : BlockHeight) (st st' : Store) : Prop :=
  (updates height st.params → ClampedLevers st st') ∧
    (¬ updates height st.params → SameLevers st st')

theorem updatePolicies_levers {k : Keepers} {height : BlockHeight} {st st' : Store}
    (h : updatePolicies k height st = some st') :
    (inProbation height st.params = false → ClampedLevers st st') ∧
      (inProbation height st.params = true → SameLevers st st') := by
  unfold updatePolicies at h
  split at h
  · next hprobation =>
    rw [← Option.some.inj h, hprobation]
    exact ⟨nofun, fun _ => ⟨rfl, rfl, rfl⟩⟩
  · next hprobation =>
    obtain ⟨st₁, htax, h⟩ := Option.bind_eq_some_iff.mp h
    obtain ⟨st₂, hreward, hcap⟩ := Option.bind_eq_some_iff.mp h
    obtain ⟨hparams₁, hweight₁, newTax, hnewTax⟩ := updateTaxPolicy_clamp htax
    obtain ⟨hparams₂, hrate₂, newWeight, hnewWeight⟩ := updateRewardPolicy_clamp hreward
    have hsame := updateTaxCap_sameLevers hcap
    refine ⟨fun _ => ⟨by rw [hsame.params, hparams₂, hparams₁], ⟨newTax, ?_⟩, ⟨newWeight, ?_⟩⟩,
      fun hin => absurd hin hprobation⟩
    · rw [hsame.taxRate, hrate₂]
      exact hnewTax
    · rw [hsame.rewardWeight, ← hparams₁, ← hweight₁]
      exact hnewWeight

/-- All that the end blocker does to the levers. -/
theorem endBlocker_levers {k : Keepers} {height : BlockHeight} {bank : Bank} {st : Store}
    {out : Bank × Store} (h : endBlocker k height bank st = some out) :
    LeverStep height st out.2 := by
  simp only [endBlocker] at h
  obtain ⟨weekEnds, hweek, h⟩ := Option.bind_eq_some_iff.mp h
  cases weekEnds with
  | false =>
    rw [← Option.some.inj h]
    refine ⟨fun hupdates => ?_, fun _ => ⟨rfl, rfl, rfl⟩⟩
    have hend := hupdates.1
    rw [hweek] at hend
    cases hend
  | true =>
    obtain ⟨st₁, hindicators, h⟩ := Option.bind_eq_some_iff.mp h
    obtain ⟨st₂, hpolicies, h⟩ := Option.bind_eq_some_iff.mp h
    -- the indicators come first and leave parameters and levers alone
    have hsame := updateIndicators_sameLevers hindicators
    obtain ⟨hafter, hduring⟩ := updatePolicies_levers hpolicies
    rw [hsame.params] at hafter hduring
    rw [← Option.some.inj h]
    constructor
    · intro hupdates
      have hclamped := hafter hupdates.2
      refine ⟨hclamped.params.trans hsame.params, ?_, ?_⟩
      · rw [← hsame.params, ← hsame.taxRate]
        exact hclamped.taxRate
      · rw [← hsame.params, ← hsame.rewardWeight]
        exact hclamped.rewardWeight
    · intro hnot
      have hsame' := hduring (Bool.eq_true_of_not_eq_false (fun hin => hnot ⟨hweek, hin⟩))
      exact ⟨hsame'.params.trans hsame.params, hsame'.taxRate.trans hsame.taxRate,
        hsame'.rewardWeight.trans hsame.rewardWeight⟩

/-! ### Runs -/

/-- A block: the other modules as they are at its end, and the taxes, indicators,
    caps and issuance that are then in the store. -/
structure Block where
  keepers : Keepers
  height : BlockHeight
  bank : Bank
  taxCaps : SortedMap Denom ℤ
  taxProceeds : Coins
  epochInitialIssuance : Coins
  tr : SortedMap ℤ Dec
  sr : SortedMap ℤ Dec
  tsl : SortedMap ℤ ℤ

/-- The store before the block's end; parameters and levers are the old ones. -/
def Store.atBlock (st : Store) (b : Block) : Store :=
  { st with
    taxCaps := b.taxCaps, taxProceeds := b.taxProceeds
    epochInitialIssuance := b.epochInitialIssuance, tr := b.tr, sr := b.sr, tsl := b.tsl }

/-- The store after a block. -/
def step (st : Store) (b : Block) : Option Store :=
  (endBlocker b.keepers b.height b.bank (st.atBlock b)).map Prod.snd

theorem step_levers {st st' : Store} {b : Block} (h : step st b = some st') :
    LeverStep b.height st st' := by
  obtain ⟨out, hout, hst'⟩ := Option.map_eq_some_iff.mp h
  have hlevers := endBlocker_levers hout
  rw [hst'] at hlevers
  -- the block's own store has the same parameters and levers
  refine ⟨fun hupdates => ?_, fun hnot => ?_⟩
  · have hclamped := hlevers.1 hupdates
    exact ⟨hclamped.params, hclamped.taxRate, hclamped.rewardWeight⟩
  · have hsame := hlevers.2 hnot
    exact ⟨hsame.params, hsame.taxRate, hsame.rewardWeight⟩

/-- A value inside the range of a policy. -/
def InRange (pc : PolicyConstraints) (rate : Dec) : Prop := pc.rateMin ≤ rate ∧ rate ≤ pc.rateMax

/-- The invariant of a run with fixed parameters. -/
structure LeversOk (params : Params) (st : Store) : Prop where
  sameParams : st.params = params
  taxRate : InRange params.taxPolicy (getTaxRate st)
  rewardWeight : InRange params.rewardPolicy (getRewardWeight st)

theorem step_leversOk {params : Params} (htax : params.taxPolicy.Valid)
    (hreward : params.rewardPolicy.Valid) {st st' : Store} {b : Block}
    (h : step st b = some st') (hst : LeversOk params st) : LeversOk params st' := by
  by_cases hupdates : updates b.height st.params
  · have hlevers := (step_levers h).1 hupdates
    obtain ⟨newTax, hnewTax⟩ := hlevers.taxRate
    obtain ⟨newWeight, hnewWeight⟩ := hlevers.rewardWeight
    rw [hst.sameParams] at hnewTax hnewWeight
    exact ⟨hlevers.params.trans hst.sameParams, (PolicyConstraints.clamp_ok htax hnewTax).1,
      (PolicyConstraints.clamp_ok hreward hnewWeight).1⟩
  · have hlevers := (step_levers h).2 hupdates
    refine ⟨hlevers.params.trans hst.sameParams, ?_, ?_⟩
    · rw [hlevers.taxRate]
      exact hst.taxRate
    · rw [hlevers.rewardWeight]
      exact hst.rewardWeight

theorem initGenesis_leversOk {validDenom : Denom → Bool} {data : GenesisState}
    (h : validateGenesis validDenom data = .ok ()) (k : Keepers) (bank : Bank) :
    LeversOk data.params (initGenesis k bank data) := by
  obtain ⟨htax, hreward⟩ := validateGenesis_ok h
  unfold initGenesis
  split
  · exact ⟨rfl, htax.2, hreward.2⟩
  · exact ⟨rfl, htax.2, hreward.2⟩

/-- One block moves a lever that is in range by at most a step, and not at all
    unless it updates the policies. -/
theorem step_change {params : Params} (htax : params.taxPolicy.Valid)
    (hreward : params.rewardPolicy.Valid) {st st' : Store} {b : Block}
    (h : step st b = some st') (hst : LeversOk params st) :
    |(getTaxRate st').i - (getTaxRate st).i| ≤ params.taxPolicy.changeRateMax.i ∧
    |(getRewardWeight st').i - (getRewardWeight st).i| ≤ params.rewardPolicy.changeRateMax.i ∧
    (¬ updates b.height params →
      getTaxRate st' = getTaxRate st ∧ getRewardWeight st' = getRewardWeight st) := by
  by_cases hupdates : updates b.height st.params
  · have hlevers := (step_levers h).1 hupdates
    obtain ⟨newTax, hnewTax⟩ := hlevers.taxRate
    obtain ⟨newWeight, hnewWeight⟩ := hlevers.rewardWeight
    rw [hst.sameParams] at hnewTax hnewWeight
    exact ⟨(PolicyConstraints.clamp_ok htax hnewTax).2 hst.taxRate.1 hst.taxRate.2,
      (PolicyConstraints.clamp_ok hreward hnewWeight).2 hst.rewardWeight.1 hst.rewardWeight.2,
      fun hnot => absurd (hst.sameParams ▸ hupdates) hnot⟩
  · have hlevers := (step_levers h).2 hupdates
    rw [hlevers.taxRate, hlevers.rewardWeight, sub_self, sub_self, abs_zero]
    exact ⟨htax.changeRateMax_nonneg, hreward.changeRateMax_nonneg, fun _ => ⟨rfl, rfl⟩⟩

/-- From a genesis that passes, along every run of blocks: both levers are in range,
    and the next block moves each by at most a step, none if it does not update the
    policies.  And whatever the levers are, under parameters that pass their checks a
    block that updates the policies brings both into range. -/
theorem levers_within_constraints (validDenom : Denom → Bool) (data : GenesisState)
    (hgenesis : validateGenesis validDenom data = .ok ()) (k : Keepers) (bank : Bank)
    (blocks : List Block) (st : Store)
    (hrun : Run.run step blocks (initGenesis k bank data) = some st) :
    (InRange data.params.taxPolicy (getTaxRate st) ∧
      InRange data.params.rewardPolicy (getRewardWeight st)) ∧
    (∀ b st', step st b = some st' →
      |(getTaxRate st').i - (getTaxRate st).i| ≤ data.params.taxPolicy.changeRateMax.i ∧
      |(getRewardWeight st').i - (getRewardWeight st).i| ≤
        data.params.rewardPolicy.changeRateMax.i ∧
      (¬ updates b.height data.params →
        getTaxRate st' = getTaxRate st ∧ getRewardWeight st' = getRewardWeight st)) ∧
    ∀ (old new : Store) (b : Block), old.params.checkPairs validDenom = .ok () →
      updates b.height old.params → step old b = some new →
      InRange old.params.taxPolicy (getTaxRate new) ∧
        InRange old.params.rewardPolicy (getRewardWeight new) := by
  obtain ⟨⟨htax, _⟩, ⟨hreward, _⟩⟩ := validateGenesis_ok hgenesis
  -- along the run both levers are in range
  have hst : LeversOk data.params st := Run.run_invariant
    (fun _ _ _ hstep hinv => step_leversOk htax hreward hstep hinv) hrun
    (initGenesis_leversOk hgenesis k bank)
  refine ⟨⟨hst.taxRate, hst.rewardWeight⟩, ?_, ?_⟩
  · intro b st' hstep
    exact step_change htax hreward hstep hst
  · intro old new b hparams hupdates hstep
    -- no assumption on the old levers: the range comes last in `Clamp`
    have hvalid := Params.checkPairs_ok hparams
    have hlevers := (step_levers hstep).1 hupdates
    obtain ⟨newTax, hnewTax⟩ := hlevers.taxRate
    obtain ⟨newWeight, hnewWeight⟩ := hlevers.rewardWeight
    exact ⟨(PolicyConstraints.clamp_ok hvalid.taxPolicy hnewTax).1,
      (PolicyConstraints.clamp_ok hvalid.rewardPolicy hnewWeight).1⟩

/-! ### A small chain, for examples -/

/-- An oracle without rates, and one million staked Luna. -/
def smallKeepers : Keepers where
  market := ⟨Market.defaultParams, Oracle.smallStore [], smallBankConfig⟩
  whitelist := ["uusd"]
  totalBondedTokens := 1000000

/-- A million Luna and nothing to burn. -/
def smallBank : Bank where
  supply := fun d => if d = microLunaDenom then 1000000000000 else 0
  burnAccount := ∅
  covered := fun _ => Nat.zero_le _
  supply_lt := fun d => by split <;> norm_num

/-- The default genesis. -/
def defaultGenesis : GenesisState where
  params := defaultParams
  taxRate := defaultTaxRate
  rewardWeight := defaultRewardWeight
  taxCaps := []
  taxProceeds := ∅
  epochInitialIssuance := ∅
  epochStates := []

/-- The last block of the first epoch after the probation, with the given rewards
    in the epoch before. -/
def probationEnds (taxReward seigniorageReward : Dec) : Block where
  keepers := smallKeepers
  height := ⟨1310399, by norm_num⟩
  bank := smallBank
  taxCaps := ∅
  taxProceeds := ∅
  epochInitialIssuance := ∅
  tr := (∅ : SortedMap ℤ Dec).set 11 taxReward
  sr := (∅ : SortedMap ℤ Dec).set 11 seigniorageReward
  tsl := (∅ : SortedMap ℤ ℤ).set 11 1000000

/-- Without revenues both levers go up by one step. -/
theorem levers_within_constraints_hike :
    ∃ st, Run.run step [probationEnds Dec.zero Dec.zero]
        (initGenesis smallKeepers smallBank defaultGenesis) = some st ∧
      (getTaxRate st, getRewardWeight st) = (Dec.withPrec 125 5, Dec.withPrec 75 3) ∧
      InRange defaultParams.taxPolicy (getTaxRate st) ∧
      InRange defaultParams.rewardPolicy (getRewardWeight st) := by
  have hrun : (Run.run step [probationEnds Dec.zero Dec.zero]
      (initGenesis smallKeepers smallBank defaultGenesis)).map
        (fun st => (getTaxRate st, getRewardWeight st)) =
      some (Dec.withPrec 125 5, Dec.withPrec 75 3) := by decide +kernel
  obtain ⟨st, hst, hlevers⟩ := Option.map_eq_some_iff.mp hrun
  exact ⟨st, hst, hlevers, (levers_within_constraints (fun _ => true) defaultGenesis
    (by decide +kernel) smallKeepers smallBank _ st hst).1⟩

end TerraClassic.Treasury
