import TerraClassic.Market.Swap
import TerraClassic.Treasury.Types

/-! # The treasury keeper and its end blocker

    At the last block of each week the treasury aligns the week's taxes and
    seigniorage to SDR, keeps them as indicators of the epoch, and, after the
    probation, moves the tax rate and the reward weight by what the indicators
    say.

    * `Store`: the treasury store.  Values that are missing in the store are read
      with a default.
    * `Bank`: the supply and the burn account.  The burn account holds a part of
      the supply, so burning it never fails.
    * A panic is `none`.
-/

namespace TerraClassic.Treasury

open Market (computeInternalSwap newDecCoinFromCoin newDecCoinFromDec truncateDecimal)

/-! ### State -/

/-- The treasury store. -/
structure Store where
  params : Params
  taxRate : Option Dec
  rewardWeight : Option Dec
  taxCaps : SortedMap Denom ℤ
  taxProceeds : Coins
  epochInitialIssuance : Coins
  tr : SortedMap ℤ Dec
  sr : SortedMap ℤ Dec
  tsl : SortedMap ℤ ℤ

/-- `GetTaxRate`. -/
def getTaxRate (st : Store) : Dec := st.taxRate.getD defaultTaxRate

/-- `GetRewardWeight`. -/
def getRewardWeight (st : Store) : Dec := st.rewardWeight.getD defaultRewardWeight

/-- `GetTR`. -/
def getTR (st : Store) (epoch : ℤ) : Dec := st.tr.getD epoch Dec.zero

/-- `GetSR`. -/
def getSR (st : Store) (epoch : ℤ) : Dec := st.sr.getD epoch Dec.zero

/-- `GetTSL`. -/
def getTSL (st : Store) (epoch : ℤ) : ℤ := st.tsl.getD epoch 0

/-- What the treasury uses of the bank. -/
structure Bank where
  supply : Denom → ℕ
  burnAccount : SortedMap Denom ℕ
  covered : ∀ d, burnAccount.getD d 0 ≤ supply d
  supply_lt : ∀ d, supply d < 2 ^ 256

/-- The other modules, as they are in one block. -/
structure Keepers where
  market : Market.Keeper
  /-- The names of the oracle's whitelist. -/
  whitelist : List Denom
  totalBondedTokens : ℕ

/-! ### The burn account -/

/-- `BurnCoinsFromBurnAccount`. -/
def burnCoinsFromBurnAccount (bank : Bank) : Bank where
  supply := fun d => bank.supply d - bank.burnAccount.getD d 0
  burnAccount := ∅
  covered := fun _ => Nat.zero_le _
  supply_lt := fun d => lt_of_le_of_lt (Nat.sub_le _ _) (bank.supply_lt d)

/-! ### Indicators -/

/-- `GetEpoch`. -/
def getEpoch (height : BlockHeight) : ℤ := (height.val : ℤ).tdiv blocksPerWeek.toNat

theorem getEpoch_eq (height : BlockHeight) : getEpoch height = (height.val : ℤ) / 100800 :=
  Int.tdiv_eq_ediv_of_nonneg (Int.natCast_nonneg _)

theorem getEpoch_nonneg (height : BlockHeight) : 0 ≤ getEpoch height := by
  rw [getEpoch_eq]
  omega

theorem getEpoch_succ_lt (height : BlockHeight) : getEpoch height + 1 < 2 ^ 63 := by
  have hheight := height.isLt
  rw [getEpoch_eq]
  omega

/-- One coin of `alignCoins`.  A swap that returns an error is skipped; one that
    panics is not. -/
def alignCoin (k : Market.Keeper) (denom : Denom) (alignedAmt : Dec) (coinReward : DecCoin) :
    Option Dec :=
  if coinReward.denom ≠ denom then
    match computeInternalSwap k coinReward denom with
    | .error .panicked => none
    | .error _ => some alignedAmt
    | .ok swappedReward => alignedAmt.add swappedReward.amount
  else alignedAmt.add coinReward.amount

/-- `alignCoins`. -/
def alignCoins (k : Market.Keeper) (coins : List DecCoin) (denom : Denom) : Option Dec :=
  coins.foldlM (alignCoin k denom) Dec.zero

/-- `sdk.NewDecCoinsFromCoins`: zero coins are dropped, an invalid one panics. -/
def newDecCoinsFromCoins (k : Market.Keeper) (coins : Coins) : Option (List DecCoin) :=
  (coins.entries.filter (fun coin => coin.2 ≠ 0)).mapM
    (fun coin => newDecCoinFromCoin k ⟨coin.1, coin.2⟩)

/-- `PeekEpochSeigniorage`. -/
def peekEpochSeigniorage (bank : Bank) (st : Store) : ℤ :=
  let epochSeigniorage :=
    st.epochInitialIssuance.amountOf microLunaDenom - bank.supply microLunaDenom
  if epochSeigniorage < 0 then 0 else epochSeigniorage

/-- `UpdateIndicators`. -/
def updateIndicators (k : Keepers) (bank : Bank) (height : BlockHeight) (st : Store) :
    Option Store := do
  let epoch := getEpoch height
  let taxRewards ← newDecCoinsFromCoins k.market st.taxProceeds
  let tr ← alignCoins k.market taxRewards microSDRDenom
  let seigniorageRewardsAmt ← (getRewardWeight st).mulInt (peekEpochSeigniorage bank st)
  -- the reward weight is that of the epoch that ends, the policies come later
  let seigniorageReward ← newDecCoinFromDec k.market microLunaDenom seigniorageRewardsAmt
  let sr ← alignCoins k.market [seigniorageReward] microSDRDenom
  return { st with
    tsl := st.tsl.set epoch k.totalBondedTokens
    tr := st.tr.set epoch tr
    taxProceeds := ∅
    sr := st.sr.set epoch sr }

/-- `TRL`: the taxes for each unit of staked Luna. -/
def trl (st : Store) (epoch : ℤ) : Dec :=
  let tr := getTR st epoch
  let tsl := getTSL st epoch
  if tr.isZero || tsl = 0 then Dec.zero else ⟨tr.i.tdiv tsl⟩

theorem trl_nonneg {st : Store} {epoch : ℤ} (htr : 0 ≤ (getTR st epoch).i)
    (htsl : 0 ≤ getTSL st epoch) : 0 ≤ (trl st epoch).i := by
  unfold trl
  simp only
  split
  · exact le_rfl
  · exact Int.tdiv_nonneg htr htsl

/-- `MR`. -/
def mr (st : Store) (epoch : ℤ) : Option Dec := (getTR st epoch).add (getSR st epoch)

/-- The epochs that the loop `for i := curEpoch; i >= 0 && i > curEpoch-epochs; i--`
    visits.  The difference is an `int64`. -/
def visitedEpochs (curEpoch epochs : ℤ) : List ℤ :=
  (((List.range (curEpoch + 1).toNat).reverse.map (fun i => (i : ℤ))).takeWhile
    (fun i => toInt64 (curEpoch - epochs) < i))

/-- `sumIndicator`. -/
def sumIndicator (indicator : ℤ → Option Dec) (curEpoch epochs : ℤ) : Option Dec :=
  (visitedEpochs curEpoch epochs).foldlM (fun sum i => do
    let val ← indicator i
    sum.add val) Dec.zero

/-- `rollingAverageIndicator`. -/
def rollingAverageIndicator (indicator : ℤ → Option Dec) (curEpoch epochs : ℤ) :
    Option Dec := do
  let sum ← sumIndicator indicator curEpoch epochs
  let computedEpochs : ℤ := (visitedEpochs curEpoch epochs).length
  if computedEpochs = 0 then return sum else sum.quoInt64 computedEpochs

/-! ### Policies -/

/-- A window parameter, cast to `int64`. -/
def windowInt64 (window : UInt64) : ℤ := toInt64 window.toNat

/-- The tax rate before the clamp: hiked as much as possible without revenues. -/
def unclampedTaxRate (params : Params) (oldTaxRate tlYear tlMonth : Dec) : Option Dec :=
  if tlMonth = Dec.zero then some params.taxPolicy.rateMax
  else do
    let growth ← tlYear.mul params.miningIncrement
    let product ← oldTaxRate.mul growth
    product.quo tlMonth

/-- `UpdateTaxPolicy`. -/
def updateTaxPolicy (height : BlockHeight) (st : Store) : Option Store := do
  let params := st.params
  let oldTaxRate := getTaxRate st
  let tlYear ← rollingAverageIndicator (fun i => some (trl st i)) (getEpoch height)
    (windowInt64 params.windowLong)
  let tlMonth ← rollingAverageIndicator (fun i => some (trl st i)) (getEpoch height)
    (windowInt64 params.windowShort)
  let newTaxRate ← unclampedTaxRate params oldTaxRate tlYear tlMonth
  let newTaxRate ← params.taxPolicy.clamp oldTaxRate newTaxRate
  return { st with taxRate := some newTaxRate }

/-- The reward weight before the clamp.  The test is on the sums, the division is by
    their rounded quotient. -/
def unclampedRewardWeight (params : Params) (oldWeight seigniorageSum totalSum : Dec) :
    Option Dec :=
  if totalSum = Dec.zero ∨ seigniorageSum = Dec.zero then some params.rewardPolicy.rateMax
  else do
    let sb ← seigniorageSum.quo totalSum
    -- `sb` is zero here when the seigniorage is less than half a unit of the total
    let factor ← params.seigniorageBurdenTarget.quo sb
    oldWeight.mul factor

/-- `UpdateRewardPolicy`. -/
def updateRewardPolicy (height : BlockHeight) (st : Store) : Option Store := do
  let params := st.params
  let oldWeight := getRewardWeight st
  let seigniorageSum ← sumIndicator (fun i => some (getSR st i)) (getEpoch height)
    (windowInt64 params.windowShort)
  let totalSum ← sumIndicator (mr st) (getEpoch height) (windowInt64 params.windowShort)
  let newRewardWeight ← unclampedRewardWeight params oldWeight seigniorageSum totalSum
  let newRewardWeight ← params.rewardPolicy.clamp oldWeight newRewardWeight
  return { st with rewardWeight := some newRewardWeight }

/-- One denom of `UpdateTaxCap`. -/
def updateTaxCapOf (k : Market.Keeper) (taxPolicyCap : DecCoin) (taxCaps : SortedMap Denom ℤ)
    (denom : Denom) : Option (SortedMap Denom ℤ) :=
  if denom = taxPolicyCap.denom then some taxCaps
  else
    match computeInternalSwap k taxPolicyCap denom with
    | .error .panicked => none
    | .error _ => some taxCaps
    | .ok newDecCap => do
      -- the fraction of the cap is dropped
      let (newCap, _) ← truncateDecimal k newDecCap
      return taxCaps.set newCap.denom newCap.amount

/-- `UpdateTaxCap`. -/
def updateTaxCap (k : Keepers) (st : Store) : Option Store := do
  let taxPolicyCap ← newDecCoinFromCoin k.market st.params.taxPolicy.cap
  let taxCaps ← k.whitelist.foldlM (updateTaxCapOf k.market taxPolicyCap) st.taxCaps
  return { st with taxCaps := taxCaps }

/-- `RecordEpochInitialIssuance`. -/
def recordEpochInitialIssuance (k : Keepers) (bank : Bank) (st : Store) : Store :=
  { st with
    epochInitialIssuance := (microLunaDenom :: k.whitelist).foldl
      (fun issuance denom => issuance.set denom (bank.supply denom : ℤ)) ∅ }

/-! ### The end blocker -/

/-- `ctx.BlockHeight() < int64(core.BlocksPerWeek*k.WindowProbation(ctx))`; the
    product is a `uint64`. -/
def inProbation (height : BlockHeight) (params : Params) : Bool :=
  (height.val : ℤ) < toInt64 (blocksPerWeek * params.windowProbation).toNat

/-- The policy updates; during the probation there are none. -/
def updatePolicies (k : Keepers) (height : BlockHeight) (st : Store) : Option Store :=
  if inProbation height st.params then some st
  else do
    let st ← updateTaxPolicy height st
    let st ← updateRewardPolicy height st
    updateTaxCap k st

/-- `EndBlocker`. -/
def endBlocker (k : Keepers) (height : BlockHeight) (bank : Bank) (st : Store) :
    Option (Bank × Store) := do
  let bank := burnCoinsFromBurnAccount bank
  let weekEnds ← isPeriodLastBlock height blocksPerWeek
  if !weekEnds then return (bank, st)
  else
    let st ← updateIndicators k bank height st
    let st ← updatePolicies k height st
    return (bank, recordEpochInitialIssuance k bank st)

/-- `InitGenesis`; an empty issuance is recorded from the current supply. -/
def initGenesis (k : Keepers) (bank : Bank) (data : GenesisState) : Store :=
  let st : Store := {
    params := data.params
    taxRate := some data.taxRate
    rewardWeight := some data.rewardWeight
    taxCaps := data.taxCaps.foldl (fun caps e => caps.set e.1 e.2) ∅
    taxProceeds := data.taxProceeds
    epochInitialIssuance := data.epochInitialIssuance
    tr := data.epochStates.foldl (fun m e => m.set (toInt64 e.epoch.toNat) e.taxReward) ∅
    sr := data.epochStates.foldl (fun m e => m.set (toInt64 e.epoch.toNat) e.seigniorageReward) ∅
    tsl := data.epochStates.foldl (fun m e => m.set (toInt64 e.epoch.toNat) e.totalStakedLuna) ∅ }
  if data.epochInitialIssuance.isZero then recordEpochInitialIssuance k bank st else st

end TerraClassic.Treasury
