import TerraClassic.Sdk.Coins

/-! # Oracle types: parameters, votes, ballots and claims

    The data of `x/oracle/types`: the governance parameters with their
    validation, the stored prevotes and votes, and the ballots that the end
    blocker builds from them.

    The bech32 text of a stored voter is read as its address.
-/

namespace TerraClassic

/-- A block height: an `int64` that is never negative. -/
abbrev BlockHeight : Type := Fin (2 ^ 63)

/-- `core.BlocksPerWeek`: ten blocks a minute. -/
def blocksPerWeek : UInt64 := 10 * 60 * 24 * 7

/-- `core.IsPeriodLastBlock`.  The remainder by zero panics. -/
def isPeriodLastBlock (height : BlockHeight) (blocksPerPeriod : UInt64) : Option Bool :=
  if blocksPerPeriod = 0 then none
  else some (toUint64 ((height.val : ℤ) + 1) % blocksPerPeriod.toNat == 0)

namespace Oracle

/-! ### Parameters -/

/-- An entry of the whitelist. -/
structure DenomItem where
  name : Denom
  tobinTax : Dec
  deriving DecidableEq, Repr

/-- `Params`. -/
structure Params where
  votePeriod : UInt64
  voteThreshold : Dec
  rewardBand : Dec
  rewardDistributionWindow : UInt64
  whitelist : List DenomItem
  slashFraction : Dec
  slashWindow : UInt64
  minValidPerWindow : Dec
  deriving DecidableEq

/-- Outside `[0, 1]`. -/
def notInUnit (d : Dec) : Bool := Dec.one < d || d.isNegative

/-- The check `Validate` makes on each whitelisted denom. -/
def validateDenomItem (denom : DenomItem) : Except String Unit := do
  if notInUnit denom.tobinTax then
    throw "oracle parameter Whitelist Denom must have TobinTax between [0, 1]"
  if denom.name.utf8ByteSize = 0 then
    throw "oracle parameter Whitelist Denom must have name"

/-- `Params.Validate`. -/
def Params.validate (p : Params) : Except String Unit := do
  if p.votePeriod = 0 then
    throw ("oracle parameter VotePeriod must be > 0, is " ++ toString p.votePeriod)
  if p.voteThreshold ≤ Dec.withPrec 33 2 then
    throw "oracle parameter VoteThreshold must be greater than 33 percent"
  if notInUnit p.rewardBand then
    throw "oracle parameter RewardBand must be between [0, 1]"
  if p.rewardDistributionWindow < p.votePeriod then
    throw ("oracle parameter RewardDistributionWindow must be greater than or " ++
      "equal with VotePeriod")
  if notInUnit p.slashFraction then
    throw "oracle parameter SlashFraction must be between [0, 1]"
  if p.slashWindow < p.votePeriod then
    throw "oracle parameter SlashWindow must be greater than or equal with VotePeriod"
  if notInUnit p.minValidPerWindow then
    throw "oracle parameter MinValidPerWindow must be between [0, 1]"
  p.whitelist.forM validateDenomItem

/-! ### Votes -/

/-- `ExchangeRateTuple`. -/
structure ExchangeRateTuple where
  denom : Denom
  exchangeRate : Dec
  deriving DecidableEq, Repr

/-- `AggregateExchangeRatePrevote`. -/
structure AggregateExchangeRatePrevote where
  hash : String
  voter : ValAddr
  submitBlock : UInt64
  deriving DecidableEq, Repr

/-- `AggregateExchangeRateVote`. -/
structure AggregateExchangeRateVote where
  exchangeRateTuples : List ExchangeRateTuple
  voter : ValAddr
  deriving DecidableEq, Repr

/-! ### Ballots -/

/-- `VoteForTally`: one vote of a ballot, with the power behind it. -/
structure VoteForTally where
  denom : Denom
  exchangeRate : Dec
  voter : ValAddr
  power : ℤ
  deriving DecidableEq, Repr

/-- `ExchangeRateBallot`. -/
abbrev ExchangeRateBallot : Type := List VoteForTally

/-- `ToMap`: the positive rate of each voter; a later vote overwrites. -/
def toMap (pb : ExchangeRateBallot) : SortedMap ValAddr Dec :=
  pb.foldl (fun m vote =>
    if vote.exchangeRate.isPositive then m.set vote.voter vote.exchangeRate else m) ∅

/-- One vote of `ToCrossRate`: the base over the rate, or an abstain vote when
    the voter has no base rate or abstained. -/
def crossVote (bases : SortedMap ValAddr Dec) (vote : VoteForTally) : Option VoteForTally :=
  match bases.get vote.voter with
  | some exchangeRateRT =>
    if vote.exchangeRate.isPositive then do
      let rate ← exchangeRateRT.quo vote.exchangeRate
      return { vote with exchangeRate := rate }
    else some { vote with exchangeRate := Dec.zero, power := 0 }
  | none => some { vote with exchangeRate := Dec.zero, power := 0 }

/-- `ToCrossRate`. -/
def toCrossRate (pb : ExchangeRateBallot) (bases : SortedMap ValAddr Dec) :
    Option ExchangeRateBallot :=
  pb.mapM (crossVote bases)

/-- `Power`, an `int64` sum. -/
def power (pb : ExchangeRateBallot) : ℤ :=
  pb.foldl (fun totalPower vote => toInt64 (totalPower + vote.power)) 0

/-- The loop of `WeightedMedian`: add up the power until it reaches `half`. -/
def medianFrom (half : ℤ) : ℤ → ExchangeRateBallot → Dec
  | _, [] => Dec.zero
  | pivot, v :: rest =>
    if half ≤ toInt64 (pivot + v.power) then v.exchangeRate
    else medianFrom half (toInt64 (pivot + v.power)) rest

/-- `WeightedMedian`.  The ballot must be sorted. -/
def weightedMedian (pb : ExchangeRateBallot) : Dec :=
  medianFrom ((power pb).tdiv 2) 0 pb

/-- The float part of `StandardDeviation`: parse the variance as a float, take
    the square root, print it with six decimals and parse it back as a decimal,
    which checks the bit bound. -/
structure FloatSqrt where
  sqrt : Dec → Dec
  sqrt_nonneg : ∀ v, 0 ≤ (sqrt v).i
  sqrt_fits : ∀ v, Dec.Fits (sqrt v).i

/-- The sum of squared deviations in `StandardDeviation`. -/
def squaredDeviations (pb : ExchangeRateBallot) (median : Dec) : Option Dec :=
  pb.foldlM (fun sum v => do
    let deviation ← v.exchangeRate.sub median
    let square ← deviation.mul deviation
    sum.add square) Dec.zero

/-- `StandardDeviation`.  A panic inside is recovered and gives zero. -/
def standardDeviation (fs : FloatSqrt) (pb : ExchangeRateBallot) (median : Dec) : Dec :=
  if pb.length = 0 then Dec.zero
  else
    match squaredDeviations pb median with
    | none => Dec.zero
    | some sum =>
      match sum.quoInt64 pb.length with
      | none => Dec.zero
      | some variance => fs.sqrt variance

/-- The order of `Less`: votes by exchange rate. -/
def SortedByRate (pb : ExchangeRateBallot) : Prop :=
  pb.Pairwise (fun v w => v.exchangeRate ≤ w.exchangeRate)

/-- `Claim`.  `WinCount` counts votes of one block, so its `int64` cannot
    overflow; `Weight` is an `int64` sum of powers. -/
structure Claim where
  power : ℤ
  weight : ℤ
  winCount : ℕ
  recipient : ValAddr
  deriving DecidableEq, Repr

/-- The claim a Go map returns for a missing key. -/
instance : Inhabited Claim := ⟨⟨0, 0, 0, ""⟩⟩

end Oracle

end TerraClassic
