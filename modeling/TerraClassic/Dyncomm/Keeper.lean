import TerraClassic.Lib.Run
import TerraClassic.Oracle.Types
import TerraClassic.Sdk.Coins

/-! # The dynamic commission keeper

    Once a week `UpdateAllBondedValidatorRates` computes a minimum commission
    for each bonded validator from its voting power and writes the larger of
    the minimum and the operator's target into the staking record.

    * `Staking`: what dyncomm reads and writes of the staking module, which is
      not part of this repository.  A validator's `OperatorAddress` is the
      bech32 string of its operator, so the records carry no address of their own.
    * `rates`: the dyncomm store, keyed by address *strings*.  One record holds
      both the minimum and the target; each setter keeps the other's field.
-/

namespace TerraClassic.Dyncomm

/-! ### Parameters -/

structure Params where
  maxZero : Dec
  slopeBase : Dec
  slopeVpImpact : Dec
  cap : Dec
  deriving DecidableEq, Repr

def defaultParams : Params where
  maxZero := Dec.withPrec 5 1
  slopeBase := Dec.withPrec 2 0
  slopeVpImpact := Dec.withPrec 10 0
  cap := Dec.withPrec 2 1

/-- The check of a parameter that is a fraction. -/
def validateFraction (name : String) (v : Dec) : Except String Unit :=
  if v.isNegative then .error (name ++ " shall be 0 or positive: " ++ v.string)
  else if v > Dec.one then .error (name ++ " shall be less than 1.0: " ++ v.string)
  else .ok ()

def validateMaxZero : Dec → Except String Unit := validateFraction "max zero"

def validateCap : Dec → Except String Unit := validateFraction "cap"

def validateSlopeBase (v : Dec) : Except String Unit :=
  if v.isNegative then .error ("slope base must be positive or Zero: " ++ v.string) else .ok ()

def validateSlopeVpImpact (v : Dec) : Except String Unit :=
  if !v.isPositive then .error ("slope vp impact must be positive: " ++ v.string) else .ok ()

/-- The validators of `ParamSetPairs`, which `SetParams` runs. -/
def Params.checkPairs (p : Params) : Except String Unit := do
  validateMaxZero p.maxZero
  validateSlopeBase p.slopeBase
  validateSlopeVpImpact p.slopeVpImpact
  validateCap p.cap

/-- `Params.Validate`. -/
def Params.validate (p : Params) : Except String Unit := do
  if p.slopeBase.isNegative then
    throw ("slope base must be positive or zero, is " ++ p.slopeBase.string)
  if !p.slopeVpImpact.isPositive then
    throw ("solpe vp impact should be positive, is " ++ p.slopeVpImpact.string)
  validateFraction "cap" p.cap
  validateFraction "max zero" p.maxZero

/-- The parameter values that both checks accept. -/
structure Params.Valid (p : Params) : Prop where
  maxZero : 0 ≤ p.maxZero.i ∧ p.maxZero ≤ Dec.one
  slopeBase : 0 ≤ p.slopeBase.i
  slopeVpImpact : 0 < p.slopeVpImpact.i
  cap : 0 ≤ p.cap.i ∧ p.cap ≤ Dec.one

theorem validateFraction_eq_ok {name : String} {v : Dec} :
    validateFraction name v = .ok () ↔ 0 ≤ v.i ∧ v ≤ Dec.one := by
  unfold validateFraction Dec.isNegative
  by_cases hneg : v.i < 0
  · simp [hneg]
  · by_cases hone : v > Dec.one
    · simp [hneg, hone]
    · simp [hneg, hone, not_lt.mp hneg, not_lt.mp hone]

theorem Params.checkPairs_eq_ok {p : Params} : p.checkPairs = .ok () ↔ p.Valid := by
  have hbase : validateSlopeBase p.slopeBase = .ok () ↔ 0 ≤ p.slopeBase.i := by
    unfold validateSlopeBase Dec.isNegative
    by_cases h : p.slopeBase.i < 0
    · simp [h]
    · simp [h, not_lt.mp h]
  have himpact : validateSlopeVpImpact p.slopeVpImpact = .ok () ↔ 0 < p.slopeVpImpact.i := by
    unfold validateSlopeVpImpact Dec.isPositive
    by_cases h : 0 < p.slopeVpImpact.i
    · simp [h]
    · simp [h]
  unfold Params.checkPairs validateMaxZero validateCap
  rw [Run.check_eq_ok, Run.check_eq_ok, Run.check_eq_ok, hbase, himpact, validateFraction_eq_ok,
    validateFraction_eq_ok]
  exact ⟨fun ⟨h₁, h₂, h₃, h₄⟩ => ⟨h₁, h₂, h₃, h₄⟩, fun h => ⟨h.1, h.2, h.3, h.4⟩⟩

/-- The two checks differ in their texts only. -/
theorem Params.validate_eq_ok {p : Params} : p.validate = .ok () ↔ p.Valid := by
  unfold Params.validate Dec.isNegative Dec.isPositive
  by_cases hbase : p.slopeBase.i < 0
  · constructor
    · intro h
      simp [hbase] at h
      cases h
    · intro h
      exact absurd h.slopeBase (not_le.mpr hbase)
  · by_cases himpact : 0 < p.slopeVpImpact.i
    · simp only [hbase, himpact, decide_true, decide_false, Bool.not_true, Bool.false_eq_true,
        if_false, Run.check_eq_ok, validateFraction_eq_ok]
      exact ⟨fun ⟨hcap, hzero⟩ => ⟨hzero, not_lt.mp hbase, himpact, hcap⟩, fun h => ⟨h.4, h.1⟩⟩
    · constructor
      · intro h
        simp [hbase, himpact] at h
        cases h
      · intro h
        exact absurd h.slopeVpImpact himpact

/-! ### The staking module -/

/-- `stakingtypes.Commission`. -/
structure Commission where
  rate : Dec
  maxRate : Dec
  maxChangeRate : Dec
  updateTime : ℤ
  deriving DecidableEq, Repr

/-- A validator's staking record. -/
structure Validator where
  tokens : ℤ
  bonded : Bool
  commission : Commission
  deriving DecidableEq, Repr

/-- The staking state. -/
structure Staking where
  validators : SortedMap ValAddr Validator
  lastTotalPower : ℤ
  minCommissionRate : Dec
  blockTime : ℤ
  deriving DecidableEq

/-- `sdk.DefaultPowerReduction`. -/
def powerReduction : ℤ := 1000000

/-- `Int.Int64`, which panics out of range. -/
def int64 (x : ℤ) : Option ℤ := if -2 ^ 63 ≤ x ∧ x < 2 ^ 63 then some x else none

/-- `sdk.TokensToConsensusPower`. -/
def tokensToConsensusPower (tokens : ℤ) : Option ℤ := int64 (tokens.tdiv powerReduction)

/-! ### The store -/

/-- `types.ValidatorCommissionRate`, without the address, which is the key. -/
structure ValidatorCommissionRate where
  minCommissionRate : Dec
  targetCommissionRate : Dec
  deriving DecidableEq, Repr

/-- The records, by address string. -/
abbrev Rates : Type := SortedMap String ValidatorCommissionRate

/-- `GetDynCommissionRate`; zero when there is no record. -/
def getDynCommissionRate (rates : Rates) (validator : String) : Dec :=
  match rates.get validator with
  | some record => record.minCommissionRate
  | none => Dec.zero

/-- `GetTargetCommissionRate`; zero when there is no record. -/
def getTargetCommissionRate (rates : Rates) (validator : String) : Dec :=
  match rates.get validator with
  | some record => record.targetCommissionRate
  | none => Dec.zero

/-- `SetDynCommissionRate`. -/
def setDynCommissionRate (rates : Rates) (validator : String) (rate : Dec) : Rates :=
  rates.set validator ⟨rate, getTargetCommissionRate rates validator⟩

/-- `SetTargetCommissionRate`. -/
def setTargetCommissionRate (rates : Rates) (validator : String) (rate : Dec) : Rates :=
  rates.set validator ⟨getDynCommissionRate rates validator, rate⟩

@[simp] theorem getDynCommissionRate_setTarget (rates : Rates) (v w : String) (rate : Dec) :
    getDynCommissionRate (setTargetCommissionRate rates v rate) w =
      getDynCommissionRate rates w := by
  unfold setTargetCommissionRate
  by_cases h : w = v
  · rw [h]
    simp [getDynCommissionRate]
  · simp [getDynCommissionRate, h]

theorem getTargetCommissionRate_setTarget (rates : Rates) (v w : String) (rate : Dec) :
    getTargetCommissionRate (setTargetCommissionRate rates v rate) w =
      if w = v then rate else getTargetCommissionRate rates w := by
  unfold setTargetCommissionRate
  by_cases h : w = v
  · simp [getTargetCommissionRate, h]
  · simp [getTargetCommissionRate, h]

@[simp] theorem getTargetCommissionRate_setDyn (rates : Rates) (v w : String) (rate : Dec) :
    getTargetCommissionRate (setDynCommissionRate rates v rate) w =
      getTargetCommissionRate rates w := by
  unfold setDynCommissionRate
  by_cases h : w = v
  · rw [h]
    simp [getTargetCommissionRate]
  · simp [getTargetCommissionRate, h]

theorem getDynCommissionRate_setDyn (rates : Rates) (v w : String) (rate : Dec) :
    getDynCommissionRate (setDynCommissionRate rates v rate) w =
      if w = v then rate else getDynCommissionRate rates w := by
  unfold setDynCommissionRate
  by_cases h : w = v
  · simp [getDynCommissionRate, h]
  · simp [getDynCommissionRate, h]

/-! ### The minimum commission -/

/-- The chain as dyncomm sees it. -/
structure State where
  staking : Staking
  params : Params
  rates : Rates
  deriving DecidableEq

/-- `CalculateVotingPower`, in percent. -/
def calculateVotingPower (s : State) (validator : Validator) : Option Dec := do
  let totalPower ← int64 s.staking.lastTotalPower
  let validatorPower ← tokensToConsensusPower validator.tokens
  let share ← (Dec.ofInt validatorPower).quoInt64 totalPower
  share.mulInt 100

/-- `CalculateDynCommission`. -/
def calculateDynCommission (s : State) (validator : Validator) : Option Dec := do
  let a := s.params.maxZero
  let b := s.params.slopeBase
  let c := s.params.slopeVpImpact
  -- percent from here to the last line
  let d ← s.params.cap.mulInt 100
  let x ← calculateVotingPower s validator
  let factorA ← x.sub a
  let quotient ← x.quo c
  let factorB ← quotient.add b
  let minComm ← s.staking.minCommissionRate.mulInt 100
  let y ← factorA.mul factorB
  let y := if y > d then d else y
  -- staking's minimum is applied last, over the cap
  let y := if minComm > y then minComm else y
  y.quoInt64 100

/-! ### The weekly update -/

/-- `UpdateValidatorMinRates`.  The new minimum pushes the rate, and the maximum
    rate too. -/
def updateValidatorMinRates (bech32 : Bech32) (s : State) (entry : ValAddr × Validator) :
    Option State := do
  let operatorAddress := bech32.valAddressString entry.1
  let validator := entry.2
  let minRate ← calculateDynCommission s validator
  let targetRate := getTargetCommissionRate s.rates operatorAddress
  let newRate := if targetRate < minRate then minRate else targetRate
  let newMaxRate :=
    if validator.commission.maxRate < minRate then minRate else validator.commission.maxRate
  let newValidator := { validator with
    commission := ⟨newRate, newMaxRate, validator.commission.maxChangeRate,
      validator.commission.updateTime⟩ }
  return { s with
    staking := { s.staking with validators := s.staking.validators.set entry.1 newValidator }
    rates := setDynCommissionRate s.rates operatorAddress minRate }

/-- One round of `IterateValidators`. -/
def updateIfBonded (bech32 : Bech32) (s : State) (entry : ValAddr × Validator) : Option State :=
  if !entry.2.bonded then some s else updateValidatorMinRates bech32 s entry

/-- `UpdateAllBondedValidatorRates`. -/
def updateAllBondedValidatorRates (bech32 : Bech32) (s : State) : Option State :=
  s.staking.validators.entries.foldlM (updateIfBonded bech32) s

/-- `EndBlocker`. -/
def endBlocker (bech32 : Bech32) (height : BlockHeight) (s : State) : Option State := do
  let weekEnds ← isPeriodLastBlock height blocksPerWeek
  if !weekEnds then return s
  else updateAllBondedValidatorRates bech32 s

/-- `InitGenesis`: the current rates become the operators' targets. -/
def initGenesis (bech32 : Bech32) (params : Params) (s : State) : Option State :=
  match params.checkPairs with
  | .error _ => none
  | .ok () =>
    let rates := s.staking.validators.entries.foldl (fun rates entry =>
      setTargetCommissionRate rates (bech32.valAddressString entry.1) entry.2.commission.rate)
      s.rates
    updateAllBondedValidatorRates bech32 { s with params := params, rates := rates }

end TerraClassic.Dyncomm
