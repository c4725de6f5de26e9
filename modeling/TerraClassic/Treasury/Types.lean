import TerraClassic.Lib.Run
import TerraClassic.Sdk.Coins

/-! # Treasury types: constraints, parameters, genesis

    `x/treasury/types`: the policy constraints with `Clamp`, the parameters with
    their two checks (`Params.Validate` at genesis, the validators of
    `ParamSetPairs` at every change), and the check of a genesis state.

    `validDenom` is `sdk.ValidateDenom`.
-/

namespace TerraClassic.Treasury

/-! ### Tax proceeds -/

/-- The tax proceeds after `RecordEpochTaxProceeds`. -/
def addTaxProceeds (proceeds delta : Coins) : Option Coins :=
  if delta.isZero then some proceeds else proceeds.checkedAdd delta

theorem addTaxProceeds_ok {proceeds delta proceeds' : Coins}
    (h : addTaxProceeds proceeds delta = some proceeds') (denom : Denom) :
    proceeds'.amountOf denom = proceeds.amountOf denom + delta.amountOf denom := by
  unfold addTaxProceeds at h
  split at h
  · next hzero =>
    cases h
    rw [(Coins.isZero_iff delta).mp hzero denom, add_zero]
  · obtain rfl := Coins.checkedAdd_ok h
    exact Coins.amountOf_add _ _ _

/-! ### Policy constraints -/

/-- `types.PolicyConstraints`. -/
structure PolicyConstraints where
  rateMin : Dec
  rateMax : Dec
  cap : Coin
  changeRateMax : Dec
  deriving DecidableEq, Repr

/-- The step limit of `Clamp`. -/
def PolicyConstraints.limitStep (pc : PolicyConstraints) (prevRate newRate : Dec) :
    Option Dec := do
  let delta ← newRate.sub prevRate
  if newRate > prevRate then
    if delta > pc.changeRateMax then prevRate.add pc.changeRateMax else return newRate
  else
    -- `delta.Abs()`, which is not checked
    if (⟨|delta.i|⟩ : Dec) > pc.changeRateMax then prevRate.sub pc.changeRateMax
    else return newRate

/-- The range limit of `Clamp`. -/
def PolicyConstraints.limitRange (pc : PolicyConstraints) (newRate : Dec) : Dec :=
  if newRate < pc.rateMin then pc.rateMin
  else if newRate > pc.rateMax then pc.rateMax
  else newRate

/-- `Clamp`: the step limit first, the range second. -/
def PolicyConstraints.clamp (pc : PolicyConstraints) (prevRate newRate : Dec) : Option Dec := do
  let newRate ← pc.limitStep prevRate newRate
  return pc.limitRange newRate

/-! ### Parameters -/

/-- `types.Params`. -/
structure Params where
  taxPolicy : PolicyConstraints
  rewardPolicy : PolicyConstraints
  seigniorageBurdenTarget : Dec
  miningIncrement : Dec
  windowShort : UInt64
  windowLong : UInt64
  windowProbation : UInt64
  burnTaxSplit : Dec
  minInitialDepositRatio : Dec
  deriving DecidableEq

def defaultTaxRate : Dec := Dec.withPrec 1 3

def defaultRewardWeight : Dec := Dec.withPrec 5 2

/-- `DefaultParams`. -/
def defaultParams : Params where
  taxPolicy := ⟨Dec.withPrec 5 4, Dec.withPrec 1 2, ⟨microSDRDenom, 1000000⟩, Dec.withPrec 25 5⟩
  rewardPolicy := ⟨Dec.withPrec 5 2, Dec.withPrec 50 2, ⟨"unused", 0⟩, Dec.withPrec 25 3⟩
  seigniorageBurdenTarget := Dec.withPrec 67 2
  miningIncrement := Dec.withPrec 107 2
  windowShort := 4
  windowLong := 52
  windowProbation := 12
  burnTaxSplit := Dec.withPrec 1 1
  minInitialDepositRatio := Dec.zero

/-- What a parameter check prints: a text and the value it was given. -/
inductive ParamError where
  | policy (text : String) (v : PolicyConstraints)
  | dec (text : String) (v : Dec)
  | text (text : String)
  deriving DecidableEq, Repr

/-- `Coin.IsValid`. -/
def coinIsValid (validDenom : Denom → Bool) (coin : Coin) : Bool :=
  validDenom coin.denom && 0 ≤ coin.amount

/-- `validateTaxPolicy`. -/
def validateTaxPolicy (validDenom : Denom → Bool) (v : PolicyConstraints) :
    Except ParamError Unit :=
  if v.rateMin.isNegative then .error (.policy "rate min must be positive: " v)
  else if v.rateMax < v.rateMin then
    .error (.policy "rate max must be bigger than rate min: " v)
  else if !coinIsValid validDenom v.cap then .error (.policy "cap is invalid: " v)
  else if v.changeRateMax.isNegative then .error (.policy "max change rate must be positive: " v)
  else .ok ()

/-- `validateRewardPolicy`, which does not check the cap. -/
def validateRewardPolicy (v : PolicyConstraints) : Except ParamError Unit :=
  if v.rateMin.isNegative then .error (.policy "rate min must be positive: " v)
  else if v.rateMax < v.rateMin then
    .error (.policy "rate max must be bigger than rate min: " v)
  else if v.changeRateMax.isNegative then .error (.policy "max change rate must be positive: " v)
  else .ok ()

/-- The check of a parameter that must not be negative. -/
def validateNonNegative (name : String) (v : Dec) : Except ParamError Unit :=
  if v.isNegative then .error (.dec (name ++ " must be positive: ") v) else .ok ()

def validateSeigniorageBurdenTarget : Dec → Except ParamError Unit :=
  validateNonNegative "seigniorage burden target"

def validateMiningIncrement : Dec → Except ParamError Unit :=
  validateNonNegative "mining increment"

def validateBurnTaxSplit : Dec → Except ParamError Unit := validateNonNegative "burn tax split"

def validateMinInitialDepositRatio (v : Dec) : Except ParamError Unit := do
  validateNonNegative "min initial deposit ratio" v
  if v > Dec.one then
    .error (.dec "min initial deposit ratio must less than or equal 1.0: " v)
  else .ok ()

/-- The validators of `ParamSetPairs`.  Those of the three windows accept every
    `uint64`. -/
def Params.checkPairs (validDenom : Denom → Bool) (p : Params) : Except ParamError Unit := do
  validateTaxPolicy validDenom p.taxPolicy
  validateRewardPolicy p.rewardPolicy
  validateSeigniorageBurdenTarget p.seigniorageBurdenTarget
  validateMiningIncrement p.miningIncrement
  validateBurnTaxSplit p.burnTaxSplit
  validateMinInitialDepositRatio p.minInitialDepositRatio

/-- The part of `Params.Validate` that is the same for both policies; the tax
    policy's cap is checked in between. -/
def validatePolicy (name minText : String) (v : PolicyConstraints) (capOk : Bool) :
    Except ParamError Unit :=
  if v.rateMax < v.rateMin then
    .error (.text ("treasury " ++ name ++ ".RateMax " ++ v.rateMax.string ++
      " must be greater than " ++ name ++ ".RateMin " ++ v.rateMin.string))
  else if v.rateMin.isNegative then
    .error (.dec ("treasury parameter " ++ name ++ ".RateMin must be " ++ minText ++ ": ")
      v.rateMin)
  else if !capOk then .error (.text ("treasury parameter " ++ name ++ ".Cap is invalid"))
  else if v.changeRateMax.isNegative then
    .error (.dec ("treasury parameter " ++ name ++ ".ChangeRateMax must be positive: ")
      v.changeRateMax)
  else .ok ()

/-- `Params.Validate`. -/
def Params.validate (validDenom : Denom → Bool) (p : Params) : Except ParamError Unit := do
  validatePolicy "TaxPolicy" "zero or positive" p.taxPolicy
    (coinIsValid validDenom p.taxPolicy.cap)
  validatePolicy "RewardPolicy" "positive" p.rewardPolicy true
  validateNonNegative "treasury parameter SeigniorageBurdenTarget" p.seigniorageBurdenTarget
  validateNonNegative "treasury parameter MiningIncrement" p.miningIncrement
  if p.windowLong ≤ p.windowShort then
    .error (.text ("treasury parameter WindowLong must be bigger than WindowShort: (" ++
      toString p.windowLong ++ ", " ++ toString p.windowShort ++ ")"))
  else .ok ()

/-! ### Genesis -/

/-- `types.EpochState`. -/
structure EpochState where
  epoch : UInt64
  taxReward : Dec
  seigniorageReward : Dec
  totalStakedLuna : ℤ
  deriving DecidableEq

/-- `types.GenesisState`. -/
structure GenesisState where
  params : Params
  taxRate : Dec
  rewardWeight : Dec
  taxCaps : List (Denom × ℤ)
  taxProceeds : Coins
  epochInitialIssuance : Coins
  epochStates : List EpochState
  deriving DecidableEq

/-- `ValidateGenesis`. -/
def validateGenesis (validDenom : Denom → Bool) (data : GenesisState) :
    Except ParamError Unit :=
  if data.taxRate < data.params.taxPolicy.rateMin ∨
      data.taxRate > data.params.taxPolicy.rateMax then
    .error (.text ("tax_rate must less than RateMax(" ++ data.params.taxPolicy.rateMax.string ++
      ") and bigger than RateMin(" ++ data.params.taxPolicy.rateMin.string ++ ")"))
  else if data.rewardWeight < data.params.rewardPolicy.rateMin ∨
      data.rewardWeight > data.params.rewardPolicy.rateMax then
    .error (.text ("reward_weight must less than WeightMax(" ++
      data.params.rewardPolicy.rateMax.string ++ ") and bigger than RateMin(" ++
      data.params.rewardPolicy.rateMin.string ++ ")"))
  else data.params.validate validDenom

/-! ### What the checks guarantee -/

/-- A policy that every check accepts. -/
structure PolicyConstraints.Valid (pc : PolicyConstraints) : Prop where
  rateMin_nonneg : 0 ≤ pc.rateMin.i
  rateMin_le : pc.rateMin ≤ pc.rateMax
  changeRateMax_nonneg : 0 ≤ pc.changeRateMax.i

theorem isNegative_iff {d : Dec} : d.isNegative = true ↔ d.i < 0 := by
  unfold Dec.isNegative
  exact decide_eq_true_iff

theorem validateTaxPolicy_ok {validDenom : Denom → Bool} {v : PolicyConstraints}
    (h : validateTaxPolicy validDenom v = .ok ()) :
    v.Valid ∧ validDenom v.cap.denom = true ∧ 0 ≤ v.cap.amount := by
  unfold validateTaxPolicy at h
  split at h
  · cases h
  · next hmin =>
    split at h
    · cases h
    · next hmax =>
      split at h
      · cases h
      · next hcap =>
        split at h
        · cases h
        · next hchange =>
          rw [isNegative_iff, not_lt] at hmin hchange
          have hcap : coinIsValid validDenom v.cap = true := by simpa using hcap
          unfold coinIsValid at hcap
          rw [Bool.and_eq_true, decide_eq_true_eq] at hcap
          exact ⟨⟨hmin, not_lt.mp hmax, hchange⟩, hcap.1, hcap.2⟩

theorem validateRewardPolicy_ok {v : PolicyConstraints} (h : validateRewardPolicy v = .ok ()) :
    v.Valid := by
  unfold validateRewardPolicy at h
  split at h
  · cases h
  · next hmin =>
    split at h
    · cases h
    · next hmax =>
      split at h
      · cases h
      · next hchange =>
        rw [isNegative_iff, not_lt] at hmin hchange
        exact ⟨hmin, not_lt.mp hmax, hchange⟩

theorem validatePolicy_ok {name minText : String} {v : PolicyConstraints} {capOk : Bool}
    (h : validatePolicy name minText v capOk = .ok ()) : v.Valid := by
  unfold validatePolicy at h
  split at h
  · cases h
  · next hmax =>
    split at h
    · cases h
    · next hmin =>
      split at h
      · cases h
      · split at h
        · cases h
        · next hchange =>
          rw [isNegative_iff, not_lt] at hmin hchange
          exact ⟨hmin, not_lt.mp hmax, hchange⟩

theorem validateNonNegative_ok {name : String} {v : Dec}
    (h : validateNonNegative name v = .ok ()) : 0 ≤ v.i := by
  unfold validateNonNegative at h
  split at h
  · cases h
  · next hneg => rwa [isNegative_iff, not_lt] at hneg

/-- What the end blocker relies on. -/
structure Params.Valid (validDenom : Denom → Bool) (p : Params) : Prop where
  taxPolicy : p.taxPolicy.Valid
  rewardPolicy : p.rewardPolicy.Valid
  cap : validDenom p.taxPolicy.cap.denom = true ∧ 0 ≤ p.taxPolicy.cap.amount
  seigniorageBurdenTarget : 0 ≤ p.seigniorageBurdenTarget.i
  miningIncrement : 0 ≤ p.miningIncrement.i

theorem Params.checkPairs_ok {validDenom : Denom → Bool} {p : Params}
    (h : p.checkPairs validDenom = .ok ()) : p.Valid validDenom := by
  unfold Params.checkPairs at h
  obtain ⟨htax, h⟩ := Run.check_eq_ok.mp h
  obtain ⟨hreward, h⟩ := Run.check_eq_ok.mp h
  obtain ⟨htarget, h⟩ := Run.check_eq_ok.mp h
  obtain ⟨hincrement, _⟩ := Run.check_eq_ok.mp h
  obtain ⟨htax, hcap⟩ := validateTaxPolicy_ok htax
  exact ⟨htax, validateRewardPolicy_ok hreward, hcap, validateNonNegative_ok htarget,
    validateNonNegative_ok hincrement⟩

/-- A genesis state that passes starts inside both ranges. -/
theorem validateGenesis_ok {validDenom : Denom → Bool} {data : GenesisState}
    (h : validateGenesis validDenom data = .ok ()) :
    (data.params.taxPolicy.Valid ∧ data.params.taxPolicy.rateMin ≤ data.taxRate ∧
      data.taxRate ≤ data.params.taxPolicy.rateMax) ∧
    (data.params.rewardPolicy.Valid ∧ data.params.rewardPolicy.rateMin ≤ data.rewardWeight ∧
      data.rewardWeight ≤ data.params.rewardPolicy.rateMax) := by
  unfold validateGenesis at h
  split at h
  · cases h
  · next htax =>
    split at h
    · cases h
    · next hreward =>
      obtain ⟨hpolicy, h⟩ := Run.check_eq_ok.mp h
      obtain ⟨hpolicy', _⟩ := Run.check_eq_ok.mp h
      obtain ⟨htmin, htmax⟩ := not_or.mp htax
      obtain ⟨hrmin, hrmax⟩ := not_or.mp hreward
      exact ⟨⟨validatePolicy_ok hpolicy, not_lt.mp htmin, not_lt.mp htmax⟩,
        ⟨validatePolicy_ok hpolicy', not_lt.mp hrmin, not_lt.mp hrmax⟩⟩

/-! ### Clamp -/

/-- The range comes second, so the result is always inside it. -/
theorem PolicyConstraints.limitRange_bounds {pc : PolicyConstraints} (h : pc.Valid)
    (newRate : Dec) : pc.rateMin ≤ pc.limitRange newRate ∧ pc.limitRange newRate ≤ pc.rateMax := by
  unfold PolicyConstraints.limitRange
  split
  · exact ⟨le_rfl, h.rateMin_le⟩
  · next hmin =>
    split
    · exact ⟨h.rateMin_le, le_rfl⟩
    · next hmax => exact ⟨not_lt.mp hmin, not_lt.mp hmax⟩

/-- The step limit, on raw values. -/
theorem PolicyConstraints.limitStep_bounds {pc : PolicyConstraints} (h : pc.Valid)
    {prevRate newRate limited : Dec} (hlimited : pc.limitStep prevRate newRate = some limited) :
    |limited.i - prevRate.i| ≤ pc.changeRateMax.i := by
  have hnonneg := h.changeRateMax_nonneg
  unfold PolicyConstraints.limitStep at hlimited
  obtain ⟨delta, hdelta, hlimited⟩ := Option.bind_eq_some_iff.mp hlimited
  have hdelta := Dec.sub_raw hdelta
  split at hlimited
  · next hgt =>
    have hgt := Dec.lt_def.mp hgt
    split at hlimited
    · rw [Dec.add_raw hlimited, abs_le]
      omega
    · next hstep =>
      have hstep := Dec.le_def.mp (not_lt.mp hstep)
      rw [← Option.some.inj hlimited, abs_le]
      omega
  · split at hlimited
    · rw [Dec.sub_raw hlimited, abs_le]
      omega
    · next hstep =>
      have hstep : |delta.i| ≤ pc.changeRateMax.i := Dec.le_def.mp (not_lt.mp hstep)
      rw [← Option.some.inj hlimited, ← hdelta]
      exact hstep

/-- From inside the range, the range limit moves back towards the old value. -/
theorem PolicyConstraints.limitRange_step {pc : PolicyConstraints} {prevRate limited : Dec}
    (hmin : pc.rateMin ≤ prevRate) (hmax : prevRate ≤ pc.rateMax) :
    |(pc.limitRange limited).i - prevRate.i| ≤ |limited.i - prevRate.i| := by
  have hmin := Dec.le_def.mp hmin
  have hmax := Dec.le_def.mp hmax
  unfold PolicyConstraints.limitRange
  split
  · next hlow =>
    have hlow := Dec.lt_def.mp hlow
    -- `limited` is below the range and `prevRate` inside it
    rw [abs_of_nonpos (by omega), abs_of_nonpos (by omega)]
    omega
  · split
    · next hhigh =>
      have hhigh := Dec.lt_def.mp hhigh
      rw [abs_of_nonneg (by omega), abs_of_nonneg (by omega)]
      omega
    · exact le_rfl

/-- `Clamp` returns a value of the range, and from inside the range one at most a
    step away. -/
theorem PolicyConstraints.clamp_ok {pc : PolicyConstraints} (h : pc.Valid)
    {prevRate newRate clamped : Dec} (hclamp : pc.clamp prevRate newRate = some clamped) :
    (pc.rateMin ≤ clamped ∧ clamped ≤ pc.rateMax) ∧
      (pc.rateMin ≤ prevRate → prevRate ≤ pc.rateMax →
        |clamped.i - prevRate.i| ≤ pc.changeRateMax.i) := by
  unfold PolicyConstraints.clamp at hclamp
  obtain ⟨limited, hlimited, hclamp⟩ := Option.bind_eq_some_iff.mp hclamp
  rw [← Option.some.inj hclamp]
  refine ⟨pc.limitRange_bounds h limited, ?_⟩
  intro hmin hmax
  exact (PolicyConstraints.limitRange_step hmin hmax).trans
    (PolicyConstraints.limitStep_bounds h hlimited)

end TerraClassic.Treasury
