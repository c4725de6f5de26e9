import TerraClassic.Oracle.Keeper

/-! # Building and tallying ballots

    `OrganizeBallotByDenom`, `PickReferenceTerra` and `Tally`: the part of
    the end blocker that turns stored votes into exchange rates and claims.
-/

namespace TerraClassic.Oracle

/-! ### Organizing the ballots -/

/-- Append one tuple of a vote to the ballot of its denom.  An abstain vote
    has no power. -/
def appendTuple (claimPower : ℤ) (voterAddr : ValAddr)
    (votes : SortedMap Denom ExchangeRateBallot) (tuple : ExchangeRateTuple) :
    SortedMap Denom ExchangeRateBallot :=
  let tmpPower := if !tuple.exchangeRate.isPositive then 0 else claimPower
  votes.set tuple.denom
    (votes.getD tuple.denom [] ++ [⟨tuple.denom, tuple.exchangeRate, voterAddr, tmpPower⟩])

/-- `aggregateHandler`: only votes of claimed validators count. -/
def aggregateHandler (validatorClaimMap : SortedMap ValAddr Claim)
    (votes : SortedMap Denom ExchangeRateBallot)
    (entry : ValAddr × AggregateExchangeRateVote) : SortedMap Denom ExchangeRateBallot :=
  match validatorClaimMap.get entry.2.voter with
  | some claim => entry.2.exchangeRateTuples.foldl (appendTuple claim.power entry.1) votes
  | none => votes

/-- `OrganizeBallotByDenom`. -/
def organizeBallotByDenom (sched : Schedule) (validatorClaimMap : SortedMap ValAddr Claim)
    (stored : SortedMap ValAddr AggregateExchangeRateVote) :
    SortedMap Denom ExchangeRateBallot :=
  let votes := stored.entries.foldl (aggregateHandler validatorClaimMap) ∅
  (sched.range .organize votes.entries).foldl
    (fun sorted entry => sorted.set entry.1 (sched.sort entry.2)) votes

/-! ### Choosing the reference denom -/

/-- `ballotIsPassing`. -/
def ballotIsPassing (ballot : ExchangeRateBallot) (thresholdVotes : ℤ) : ℤ × Bool :=
  (power ballot, power ballot ≠ 0 && thresholdVotes ≤ power ballot)

/-- The power a ballot needs: `RoundInt(VoteThreshold * totalBondedPower)`. -/
def thresholdVotes (voteThreshold : Dec) (totalBondedPower : ℕ) : Option ℤ := do
  let product ← voteThreshold.mulInt totalBondedPower
  return product.roundInt

/-- The variables of the loop in `PickReferenceTerra`. -/
structure PickState where
  largestBallotPower : ℤ
  referenceTerra : Denom
  voteTargets : SortedMap Denom Dec
  voteMap : SortedMap Denom ExchangeRateBallot

/-- One round of the loop in `PickReferenceTerra`. -/
def pickStep (threshold : ℤ) (s : PickState) (entry : Denom × ExchangeRateBallot) : PickState :=
  let denom := entry.1
  if (s.voteTargets.get denom).isNone then
    -- not a vote target
    { s with voteMap := s.voteMap.erase denom }
  else
    match ballotIsPassing entry.2 threshold with
    | (_, false) =>
      { s with voteTargets := s.voteTargets.erase denom, voteMap := s.voteMap.erase denom }
    | (ballotPower, true) =>
      if ballotPower > s.largestBallotPower ∨ s.largestBallotPower = 0 then
        { s with referenceTerra := denom, largestBallotPower := ballotPower }
      else if s.largestBallotPower = ballotPower ∧ s.referenceTerra > denom then
        { s with referenceTerra := denom }
      else s

/-- `PickReferenceTerra`; the two maps are changed in place. -/
def pickReferenceTerra (sched : Schedule) (threshold : ℤ) (voteTargets : SortedMap Denom Dec)
    (voteMap : SortedMap Denom ExchangeRateBallot) : PickState :=
  (sched.range .pick voteMap.entries).foldl (pickStep threshold) ⟨0, "", voteTargets, voteMap⟩

/-! ### Tally -/

/-- The first half of the winner test: `rate` within `spread` of the median.
    The upper bound is only computed when the lower one is met. -/
def withinBand (weightedMedian rewardSpread rate : Dec) : Option Bool := do
  let lower ← weightedMedian.sub rewardSpread
  if lower ≤ rate then
    let upper ← weightedMedian.add rewardSpread
    return rate ≤ upper
  else
    return false

/-- Credit a vote to the claim of its voter. -/
def creditClaim (validatorClaimMap : SortedMap ValAddr Claim) (vote : VoteForTally) :
    SortedMap ValAddr Claim :=
  let claim := validatorClaimMap.getD vote.voter default
  validatorClaimMap.set vote.voter
    { claim with weight := toInt64 (claim.weight + vote.power), winCount := claim.winCount + 1 }

/-- The spread around the median that still wins: half the reward band of the
    median, or the standard deviation when that is larger. -/
def rewardSpread (float : FloatSqrt) (pb : ExchangeRateBallot) (rewardBand : Dec) :
    Option Dec := do
  let standardDeviation := standardDeviation float pb (weightedMedian pb)
  let halfBand ← rewardBand.quoInt64 2
  let spread ← (weightedMedian pb).mul halfBand
  return if spread < standardDeviation then standardDeviation else spread

/-- One round of the loop in `Tally`: winners and abstain voters are credited. -/
def tallyVote (median spread : Dec) (claims : SortedMap ValAddr Claim) (vote : VoteForTally) :
    Option (SortedMap ValAddr Claim) := do
  let inBand ← withinBand median spread vote.exchangeRate
  return if inBand || !vote.exchangeRate.isPositive then creditClaim claims vote else claims

/-- `Tally`.  The ballot must be sorted. -/
def tally (float : FloatSqrt) (pb : ExchangeRateBallot) (rewardBand : Dec)
    (validatorClaimMap : SortedMap ValAddr Claim) : Option (Dec × SortedMap ValAddr Claim) := do
  let spread ← rewardSpread float pb rewardBand
  let claims ← pb.foldlM (tallyVote (weightedMedian pb) spread) validatorClaimMap
  return (weightedMedian pb, claims)

/-- The claims and exchange rates that the tally loop of the end blocker writes. -/
structure TallyState where
  claims : SortedMap ValAddr Claim
  exchangeRates : SortedMap Denom Dec

/-- One round of the tally loop: convert the ballot to cross rates, tally it,
    convert the median back and store it. -/
def tallyStep (sched : Schedule) (float : FloatSqrt) (rewardBand : Dec) (referenceTerra : Denom)
    (voteMapRT : SortedMap ValAddr Dec) (exchangeRateRT : Dec) (s : TallyState)
    (entry : Denom × ExchangeRateBallot) : Option TallyState := do
  if entry.1 ≠ referenceTerra then
    let cross ← toCrossRate entry.2 voteMapRT
    let (exchangeRate, claims) ← tally float (sched.sort cross) rewardBand s.claims
    let exchangeRate ← exchangeRateRT.quo exchangeRate
    return ⟨claims, s.exchangeRates.set entry.1 exchangeRate⟩
  else
    let (exchangeRate, claims) ← tally float entry.2 rewardBand s.claims
    return ⟨claims, s.exchangeRates.set entry.1 exchangeRate⟩

/-- The tally loop of the end blocker, over the ballots that passed. -/
def tallyBallots (sched : Schedule) (float : FloatSqrt) (rewardBand : Dec)
    (referenceTerra : Denom) (voteMap : SortedMap Denom ExchangeRateBallot) (s : TallyState) :
    Option TallyState :=
  if referenceTerra = "" then some s
  else
    let ballotRT := voteMap.getD referenceTerra []
    (sched.range .tally voteMap.entries).foldlM
      (tallyStep sched float rewardBand referenceTerra (toMap ballotRT) (weightedMedian ballotRT)) s

end TerraClassic.Oracle
