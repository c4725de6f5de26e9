import TerraClassic.Oracle.Reward
import TerraClassic.Oracle.Tally

/-! # The oracle end blocker

    `EndBlocker` as a function from the store before to everything it
    changes: the store, the claims it built on the way, the rewards, the
    registered denom metadata and the slashes.  `none` is a panic, which
    halts the chain.
-/

namespace TerraClassic.Oracle

/-! ### The claim map -/

/-- The loop that builds the claim map: bonded validators in power order, until
    `remaining` of them are found. -/
def claimLoop (validators : SortedMap ValAddr Validator) :
    ℕ → List ValAddr → SortedMap ValAddr Claim → Option (SortedMap ValAddr Claim)
  | 0, _, claims => some claims
  | _, [], claims => some claims
  | remaining + 1, valAddr :: rest, claims =>
    match validators.get valAddr with
    | none => none
    | some validator =>
      if validator.bonded then
        claimLoop validators remaining rest
          (claims.set valAddr ⟨validator.consensusPower, 0, 0, valAddr⟩)
      else claimLoop validators (remaining + 1) rest claims

/-- `validatorClaimMap` before the tally. -/
def buildClaims (staking : StakingKeeper) : Option (SortedMap ValAddr Claim) :=
  claimLoop staking.validators staking.maxValidators staking.powerIndex ∅

/-! ### Miss counting -/

/-- Charge one claim unless it won, or abstained on, every vote target left. -/
def missStep (voteTargetsLen : ℕ) (missCounters : SortedMap ValAddr UInt64)
    (entry : ValAddr × Claim) : SortedMap ValAddr UInt64 :=
  if entry.2.winCount = voteTargetsLen then missCounters
  else missCounters.set entry.2.recipient (getMissCounter missCounters entry.2.recipient + 1)

/-- The miss counting loop. -/
def countMisses (sched : Schedule) (voteTargetsLen : ℕ) (claims : SortedMap ValAddr Claim)
    (missCounters : SortedMap ValAddr UInt64) : SortedMap ValAddr UInt64 :=
  (sched.range .miss claims.entries).foldl (missStep voteTargetsLen) missCounters

/-! ### Clearing the ballots and applying the whitelist -/

/-- The test of `ClearBallots`: the sum is taken in `uint64` and then read as
    an `int64`. -/
def prevoteExpired (height : BlockHeight) (votePeriod : UInt64)
    (prevote : AggregateExchangeRatePrevote) : Bool :=
  (height.val : ℤ) > toInt64 (prevote.submitBlock + votePeriod).toNat

/-- The prevotes `ClearBallots` keeps.  It deletes every vote. -/
def clearPrevotes (height : BlockHeight) (votePeriod : UInt64)
    (prevotes : SortedMap ValAddr AggregateExchangeRatePrevote) :
    SortedMap ValAddr AggregateExchangeRatePrevote :=
  prevotes.filter (fun _ prevote => !prevoteExpired height votePeriod prevote)

/-- The metadata `ApplyWhitelist` registers.  Slicing a name of one byte runs
    out of range.  (Names are ASCII, so bytes and characters agree.) -/
def denomMetadata (name : Denom) : Option Metadata :=
  if name.utf8ByteSize ≤ 1 then none
  else
    let display := (name.drop 1).toString
    some {
      description := "The native stable token of the Terra Columbus."
      denomUnits := [
        ⟨"u" ++ display, 0, ["micro" ++ display]⟩,
        ⟨"m" ++ display, 3, ["milli" ++ display]⟩,
        ⟨display, 6, []⟩]
      base := name
      display := display
      name := display.toUpper ++ " TERRA"
      symbol := (display.dropEnd 1).toString.toUpper ++ "T" }

/-- `updateRequired` in `ApplyWhitelist`. -/
def updateRequired (whitelist : List DenomItem) (voteTargets : SortedMap Denom Dec) : Bool :=
  if voteTargets.size ≠ whitelist.length then true
  else whitelist.any (fun item => voteTargets.get item.name ≠ some item.tobinTax)

/-- The tobin taxes and the bank metadata. -/
structure TargetState where
  tobinTaxes : SortedMap Denom Dec
  metadata : SortedMap Denom Metadata

/-- One round of the loop in `ApplyWhitelist`. -/
def applyItem (s : TargetState) (item : DenomItem) : Option TargetState := do
  let tobinTaxes := s.tobinTaxes.set item.name item.tobinTax
  if (s.metadata.get item.name).isNone then
    let metadata ← denomMetadata item.name
    return ⟨tobinTaxes, s.metadata.set item.name metadata⟩
  else
    return ⟨tobinTaxes, s.metadata⟩

/-- `ApplyWhitelist`. -/
def applyWhitelist (whitelist : List DenomItem) (voteTargets : SortedMap Denom Dec)
    (s : TargetState) : Option TargetState :=
  if updateRequired whitelist voteTargets then
    whitelist.foldlM applyItem { s with tobinTaxes := ∅ }
  else some s

/-! ### Slashing -/

/-- One call of `Slash`, followed by `Jail`. -/
structure SlashEvent where
  consAddr : String
  distributionHeight : ℤ
  power : ℕ
  slashFraction : Dec
  deriving DecidableEq, Repr

/-- `votePeriodsPerWindow`; `TruncateInt64` panics outside `int64`. -/
def votePeriodsPerWindow (params : Params) : Option ℕ := do
  let quotient ← (Dec.ofInt (toInt64 params.slashWindow.toNat)).quoInt64
    (toInt64 params.votePeriod.toNat)
  if toInt64 quotient.truncateInt = quotient.truncateInt then
    return toUint64 quotient.truncateInt
  else failure

/-- `validVoteRate`: `uint64` subtraction, read as an `int64`. -/
def validVoteRate (periods : ℕ) (missCounter : UInt64) : Option Dec :=
  (Dec.ofInt (toInt64 (toUint64 ((periods : ℤ) - missCounter.toNat)))).quoInt64
    (toInt64 periods)

/-- One round of the loop in `SlashAndResetMissCounters`. -/
def slashStep (staking : StakingKeeper) (params : Params) (height : BlockHeight) (periods : ℕ)
    (slashes : List SlashEvent) (entry : ValAddr × UInt64) : Option (List SlashEvent) := do
  let rate ← validVoteRate periods entry.2
  if rate < params.minValidPerWindow then
    match staking.validators.get entry.1 with
    | none => failure
    | some validator =>
      if validator.bonded && !validator.jailed then do
        let consAddr ← validator.consAddr
        return slashes ++ [⟨consAddr, (height.val : ℤ) - 1 - 1,
          validator.consensusPower, params.slashFraction⟩]
      else return slashes
  else return slashes

/-- `SlashAndResetMissCounters`: the slashes; every counter is deleted. -/
def slashAndResetMissCounters (staking : StakingKeeper) (params : Params) (height : BlockHeight)
    (missCounters : SortedMap ValAddr UInt64) : Option (List SlashEvent) := do
  let periods ← votePeriodsPerWindow params
  missCounters.entries.foldlM (slashStep staking params height periods) []

/-! ### The end blocker -/

/-- Everything the end blocker changes. -/
structure Outcome where
  store : Store
  claims : SortedMap ValAddr Claim
  reward : Reward
  metadata : SortedMap Denom Metadata
  slashes : List SlashEvent

/-- The part of `EndBlocker` at the last block of a vote period. -/
def endVotePeriod (sched : Schedule) (k : Keepers) (params : Params) (height : BlockHeight)
    (st : Store) : Option Outcome := do
  let claims ← buildClaims k.staking
  let voteMap := organizeBallotByDenom sched claims st.votes
  let threshold ← thresholdVotes params.voteThreshold k.staking.totalBondedPower
  let pick := pickReferenceTerra sched threshold st.tobinTaxes voteMap
  -- every old exchange rate was cleared
  let tallied ← tallyBallots sched k.float params.rewardBand pick.referenceTerra pick.voteMap
    ⟨claims, ∅⟩
  let missCounters := countMisses sched pick.voteTargets.size tallied.claims st.missCounters
  let reward ← rewardBallotWinners sched k (toInt64 params.votePeriod.toNat)
    (toInt64 params.rewardDistributionWindow.toNat) pick.voteTargets tallied.claims
  let targets ← applyWhitelist params.whitelist pick.voteTargets
    ⟨st.tobinTaxes, k.bank.metadata⟩
  return {
    store := {
      exchangeRates := tallied.exchangeRates
      feederDelegations := st.feederDelegations
      missCounters := missCounters
      prevotes := clearPrevotes height params.votePeriod st.prevotes
      votes := ∅
      tobinTaxes := targets.tobinTaxes }
    claims := tallied.claims
    reward := reward
    metadata := targets.metadata
    slashes := [] }

/-- `EndBlocker`. -/
def endBlocker (sched : Schedule) (k : Keepers) (params : Params) (height : BlockHeight)
    (st : Store) : Option Outcome := do
  let votePeriodEnds ← isPeriodLastBlock height params.votePeriod
  let outcome ←
    if votePeriodEnds then endVotePeriod sched k params height st
    else some ⟨st, ∅, Reward.none, k.bank.metadata, []⟩
  let slashWindowEnds ← isPeriodLastBlock height params.slashWindow
  if slashWindowEnds then
    let slashes ← slashAndResetMissCounters k.staking params height outcome.store.missCounters
    return { outcome with
      store := { outcome.store with missCounters := ∅ }
      slashes := slashes }
  else
    return outcome

end TerraClassic.Oracle
