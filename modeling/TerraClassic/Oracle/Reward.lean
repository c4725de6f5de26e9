import TerraClassic.Oracle.Keeper

/-! # Paying the ballot winners

    `RewardBallotWinners` splits a share of each reward pool among the
    claims, by weight, and sends the sum to the distribution account.
-/

namespace TerraClassic.Oracle

/-- What `RewardBallotWinners` does to the other modules: the coins passed to
    `AllocateTokensToValidator` for each validator, and the coins sent from the
    oracle account to the distribution account. -/
structure Reward where
  allocated : SortedMap ValAddr Coins
  sent : Coins
  deriving DecidableEq

/-- No reward. -/
def Reward.none : Reward := ⟨∅, ∅⟩

/-- `ballotPowerSum`, an `int64` sum of the weights. -/
def ballotPowerSum (winners : List (ValAddr × Claim)) : ℤ :=
  winners.foldl (fun sum winner => toInt64 (sum + winner.2.weight)) 0

/-- Add the period's share of one reward pool; an empty pool is skipped. -/
def addPeriodReward (bank : BankKeeper) (distributionRatio : Dec) (periodRewards : DecCoins)
    (denom : Denom) : Option DecCoins := do
  let rewardPool ← bank.getBalance denom
  if rewardPool = 0 then
    return periodRewards
  else
    let amount ← (Dec.ofInt rewardPool).mul distributionRatio
    let coin ← DecCoins.newDecCoinFromDec denom amount
    periodRewards.add coin

/-- The coins a winner gets: its weight's share of the period's rewards. -/
def rewardCoins (periodRewards : DecCoins) (powerSum weight : ℤ) : Option Coins := do
  let share ← (Dec.ofInt weight).quoInt64 powerSum
  let products ← periodRewards.mulDec share
  DecCoins.truncateDecimal products

/-- One round of the payout loop.  For an unknown validator the debug log calls
    `GetMoniker` on a nil interface, which panics. -/
def doleOut (staking : StakingKeeper) (periodRewards : DecCoins) (powerSum : ℤ) (reward : Reward)
    (winner : ValAddr × Claim) : Option Reward := do
  let coins ← rewardCoins periodRewards powerSum winner.2.weight
  match staking.validators.get winner.2.recipient with
  | some _ =>
    if coins.isZero then return reward
    else
      return { allocated := reward.allocated.set winner.2.recipient
                 ((reward.allocated.getD winner.2.recipient ∅).add coins),
               sent := reward.sent.add coins }
  | none => failure

/-- `SendCoinsFromModuleToModule` succeeds when the oracle account holds the coins. -/
def BankKeeper.covers (bank : BankKeeper) (coins : Coins) : Bool :=
  coins.entries.all (fun coin => coin.2 ≤ bank.balance coin.1)

/-- `RewardBallotWinners`.  A failed send panics. -/
def rewardBallotWinners (sched : Schedule) (k : Keepers) (votePeriod : ℤ)
    (rewardDistributionWindow : ℤ) (voteTargets : SortedMap Denom Dec)
    (ballotWinners : SortedMap ValAddr Claim) : Option Reward := do
  let rewardDenoms :=
    microLunaDenom :: (sched.range .rewardDenoms voteTargets.entries).map Prod.fst
  let powerSum := ballotPowerSum (sched.range .powerSum ballotWinners.entries)
  if powerSum = 0 then
    return Reward.none
  else
    let distributionRatio ← (Dec.ofInt votePeriod).quoInt64 rewardDistributionWindow
    let periodRewards ← rewardDenoms.foldlM (addPeriodReward k.bank distributionRatio) ∅
    let reward ← (sched.range .doleOut ballotWinners.entries).foldlM
      (doleOut k.staking periodRewards powerSum) Reward.none
    if k.bank.covers reward.sent then return reward else failure

end TerraClassic.Oracle
