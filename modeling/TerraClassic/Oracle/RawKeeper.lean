import TerraClassic.Oracle.Chain
import TerraClassic.Oracle.RawStore

/-! # The oracle over its key-value store

    The message server and the end blocker on the byte-keyed store of `RawStore`: each
    loop runs over an iterator, each key is made from the bytes of an address, and a stored
    vote is matched with the claims by the text of its voter.

    Staking and the claims know an address by the string of its bytes with the length in
    front, one character a byte (`addressOf`), so strings come in the order of the keys.
    A panic is `none`, and in a message handler the error that baseapp recovers.
-/

namespace TerraClassic.Oracle.Raw

open SdkError (wrapErr orPanic)

/-! ### Addresses and denoms -/

def byteChar (b : Byte) : Char := Char.ofNat b.val

/-- An address outside the store. -/
def addressOf (bz : Bytes) : String :=
  String.ofList ((Fin.ofNat 256 bz.length :: bz).map byteChar)

/-- The characters of a string, each as a byte. -/
def bytesOf (s : String) : Bytes := s.toList.map (fun c => Fin.ofNat 256 c.toNat)

/-- The bytes of an address, without the length. -/
def addressBytes (v : ValAddr) : Bytes := (bytesOf v).tail

/-- `string(key)`.  Only denoms that are texts are ever stored. -/
def denomOf (bz : Bytes) : Denom :=
  (String.fromUTF8? ⟨(bz.map (fun b => UInt8.ofNat b.val)).toArray⟩).getD ""

/-- The library functions of the messages, over the bytes of addresses. -/
structure ByteCodec extends AddressCodec where
  parseDecCoin : String → Except String (Denom × Dec)
  truncatedHash : String → List UInt8
  parseDecCoin_named : ∀ s denom rate, parseDecCoin s = .ok (denom, rate) → denom ≠ ""
  parseDecCoin_nonneg : ∀ s denom rate, parseDecCoin s = .ok (denom, rate) → 0 ≤ rate.i

/-- The same functions over the strings of addresses. -/
def ByteCodec.toCodec (codec : ByteCodec) : Codec where
  accAddressFromBech32 := fun s => (codec.accAddressFromBech32 s).map addressOf
  valAddressFromBech32 := fun s => (codec.valAddressFromBech32 s).map addressOf
  accAddressString := fun a => codec.accAddressString (addressBytes a)
  valAddressString := fun v => codec.valAddressString (addressBytes v)
  parseDecCoin := codec.parseDecCoin
  truncatedHash := codec.truncatedHash
  parseDecCoin_named := codec.parseDecCoin_named
  parseDecCoin_nonneg := codec.parseDecCoin_nonneg

/-! ### Getters -/

/-- `store.Get` and `MustUnmarshal`; the outer failure is the panic. -/
def fetch {V : Type} (kv : KVStore) (key : Bytes) (unmarshal : Value → Option V) :
    Option (Option V) :=
  match kv.get key with
  | none => some none
  | some value => (unmarshal value).map some

/-- `GetLunaExchangeRate`; the inner failure is `ErrUnknownDenom`. -/
def getLunaExchangeRate (kv : KVStore) (denom : Denom) : Option (Option Dec) :=
  if denom = microLunaDenom then some (some Dec.one)
  else fetch kv (getExchangeRateKey (utf8 denom)) Value.asDec

/-- `GetFeederDelegation`: by default the right is the validator's own. -/
def getFeederDelegation (kv : KVStore) (operator : Bytes) : Option Bytes := do
  let key ← getFeederDelegationKey operator
  let feeder ← fetch kv key Value.asAddress
  return feeder.getD operator

/-- `GetMissCounter`. -/
def getMissCounter (kv : KVStore) (operator : Bytes) : Option UInt64 := do
  let key ← getMissCounterKey operator
  let missCounter ← fetch kv key Value.asUint64
  return missCounter.getD 0

/-- `GetAggregateExchangeRatePrevote`; the inner failure is `ErrNoAggregatePrevote`. -/
def getAggregateExchangeRatePrevote (kv : KVStore) (voter : Bytes) :
    Option (Option AggregateExchangeRatePrevote) := do
  let key ← getAggregateExchangeRatePrevoteKey voter
  fetch kv key Value.asPrevote

/-- `GetAggregateExchangeRateVote`; the inner failure is `ErrNoAggregateVote`. -/
def getAggregateExchangeRateVote (kv : KVStore) (voter : Bytes) :
    Option (Option AggregateExchangeRateVote) := do
  let key ← getAggregateExchangeRateVoteKey voter
  fetch kv key Value.asVote

/-- `GetTobinTax`; the inner failure is `ErrNoTobinTax`. -/
def getTobinTax (kv : KVStore) (denom : Denom) : Option (Option Dec) :=
  fetch kv (getTobinTaxKey (utf8 denom)) Value.asDec

/-- `IsVoteTarget`. -/
def isVoteTarget (kv : KVStore) (denom : Denom) : Option Bool :=
  (getTobinTax kv denom).map Option.isSome

/-! ### Message handlers -/

/-- The first check of `ValidateFeeder`: a feeder that is not the validator needs its
    consent. -/
def checkFeeder (codec : ByteCodec) (kv : KVStore) (feederAddr validatorAddr : Bytes) :
    Except MsgError Unit :=
  if feederAddr ≠ validatorAddr then do
    let delegate ← orPanic (getFeederDelegation kv validatorAddr)
    if delegate ≠ feederAddr then
      throw (.wrap .noVotingPermission (codec.accAddressString feederAddr))
  else .ok ()

/-- `ValidateFeeder`. -/
def validateFeeder (codec : ByteCodec) (staking : StakingKeeper) (kv : KVStore)
    (feederAddr validatorAddr : Bytes) : Except MsgError Unit := do
  checkFeeder codec kv feederAddr validatorAddr
  if ((staking.validators.get (addressOf validatorAddr)).filter Validator.bonded).isNone then
    throw (.wrap .noValidatorFound
      ("validator " ++ codec.valAddressString validatorAddr ++ " is not active set"))

/-- `AggregateExchangeRatePrevote`. -/
def aggregateExchangeRatePrevote (codec : ByteCodec) (staking : StakingKeeper)
    (height : BlockHeight) (msg : MsgAggregateExchangeRatePrevote) (kv : KVStore) :
    Except MsgError KVStore := do
  let valAddr ← parseAddress (codec.valAddressFromBech32 msg.validator)
  let feederAddr ← parseAddress (codec.accAddressFromBech32 msg.feeder)
  validateFeeder codec staking kv feederAddr valAddr
  let voteHash ← wrapErr .invalidHash id (aggregateVoteHashFromHexString msg.hash)
  orPanic (setAggregateExchangeRatePrevote kv valAddr
    ⟨hexEncode voteHash, codec.valAddressString valAddr, UInt64.ofNat height.val⟩)

/-- One round of the check of the denoms in `AggregateExchangeRateVote`. -/
def checkTarget (kv : KVStore) (tuple : ExchangeRateTuple) : Except MsgError Unit := do
  let found ← orPanic (isVoteTarget kv tuple.denom)
  if !found then throw (.wrap .unknownDenom tuple.denom)

/-- The rest of `AggregateExchangeRateVote`, once a prevote is found. -/
def revealVote (codec : ByteCodec) (votePeriod : UInt64) (height : BlockHeight)
    (msg : MsgAggregateExchangeRateVote) (valAddr : Bytes)
    (aggregatePrevote : AggregateExchangeRatePrevote) (kv : KVStore) :
    Except MsgError KVStore := do
  -- dividing by a zero vote period panics
  if votePeriod = 0 then throw .panicked
  if !revealPeriod height aggregatePrevote.submitBlock votePeriod then
    throw (.registered .revealPeriodMissMatch)
  let exchangeRateTuples ← wrapErr .invalidCoins id
    (parseExchangeRateTuples codec.toCodec msg.exchangeRates)
  exchangeRateTuples.forM (checkTarget kv)
  let hash := hexEncode (codec.truncatedHash
    (msg.salt ++ ":" ++ msg.exchangeRates ++ ":" ++ codec.valAddressString valAddr))
  if aggregatePrevote.hash ≠ hash then
    throw (.wrap .verificationFailed
      ("must be given " ++ aggregatePrevote.hash ++ " not " ++ hash))
  let kv ← orPanic (setAggregateExchangeRateVote kv valAddr
    ⟨exchangeRateTuples, codec.valAddressString valAddr⟩)
  orPanic (deleteAggregateExchangeRatePrevote kv valAddr)

/-- `AggregateExchangeRateVote`. -/
def aggregateExchangeRateVote (codec : ByteCodec) (staking : StakingKeeper)
    (votePeriod : UInt64) (height : BlockHeight) (msg : MsgAggregateExchangeRateVote)
    (kv : KVStore) : Except MsgError KVStore := do
  let valAddr ← parseAddress (codec.valAddressFromBech32 msg.validator)
  let feederAddr ← parseAddress (codec.accAddressFromBech32 msg.feeder)
  validateFeeder codec staking kv feederAddr valAddr
  match ← orPanic (getAggregateExchangeRatePrevote kv valAddr) with
  | none => throw (.wrap .noAggregatePrevote msg.validator)
  | some aggregatePrevote => revealVote codec votePeriod height msg valAddr aggregatePrevote kv

/-- `DelegateFeedConsent`. -/
def delegateFeedConsent (codec : ByteCodec) (staking : StakingKeeper)
    (msg : MsgDelegateFeedConsent) (kv : KVStore) : Except MsgError KVStore := do
  let operatorAddr ← parseAddress (codec.valAddressFromBech32 msg.operator)
  let delegateAddr ← parseAddress (codec.accAddressFromBech32 msg.delegate)
  match staking.validators.get (addressOf operatorAddr) with
  | none => throw (.wrap .noValidatorFound msg.operator)
  | some _ => orPanic (setFeederDelegation kv operatorAddr delegateAddr)

/-! ### The end of a vote period -/

/-- The map of the tobin taxes by denom. -/
def readVoteTargets (kv : KVStore) : Option (SortedMap Denom Dec) := do
  let tobinTaxes ← iterateTobinTaxes kv
  return tobinTaxes.foldl (fun targets e => targets.set (denomOf e.1) e.2) ∅

/-- The loop that deletes every exchange rate. -/
def clearExchangeRates (kv : KVStore) : Option KVStore := do
  let rates ← iterateLunaExchangeRates kv
  return rates.foldl (fun kv e => deleteLunaExchangeRate kv e.1) kv

/-- `validatorClaimMap[voter]`: the map is keyed by the texts of the operators. -/
def claimOf (codec : ByteCodec) (claims : SortedMap ValAddr Claim) (voter : String) :
    Option Claim :=
  (claims.entries.find? (fun e => codec.valAddressString (addressBytes e.1) = voter)).map Prod.snd

/-- `aggregateHandler`. -/
def aggregateHandler (codec : ByteCodec) (claims : SortedMap ValAddr Claim)
    (votes : SortedMap Denom ExchangeRateBallot) (entry : Bytes × AggregateExchangeRateVote) :
    SortedMap Denom ExchangeRateBallot :=
  match claimOf codec claims entry.2.voter with
  | some claim =>
    entry.2.exchangeRateTuples.foldl (appendTuple claim.power (addressOf entry.1)) votes
  | none => votes

/-- `OrganizeBallotByDenom`. -/
def organizeBallotByDenom (codec : ByteCodec) (sched : Schedule)
    (claims : SortedMap ValAddr Claim) (kv : KVStore) :
    Option (SortedMap Denom ExchangeRateBallot) := do
  let stored ← iterateAggregateExchangeRateVotes kv
  let votes := stored.foldl (aggregateHandler codec claims) ∅
  return (sched.range .organize votes.entries).foldl
    (fun sorted entry => sorted.set entry.1 (sched.sort entry.2)) votes

/-- The claims and the store in the tally loop. -/
structure TallyState where
  claims : SortedMap ValAddr Claim
  kv : KVStore

/-- One round of the tally loop. -/
def tallyStep (sched : Schedule) (float : FloatSqrt) (rewardBand : Dec) (referenceTerra : Denom)
    (voteMapRT : SortedMap ValAddr Dec) (exchangeRateRT : Dec) (s : TallyState)
    (entry : Denom × ExchangeRateBallot) : Option TallyState := do
  if entry.1 ≠ referenceTerra then
    let cross ← toCrossRate entry.2 voteMapRT
    let (exchangeRate, claims) ← tally float (sched.sort cross) rewardBand s.claims
    let exchangeRate ← exchangeRateRT.quo exchangeRate
    return ⟨claims, setLunaExchangeRate s.kv (utf8 entry.1) exchangeRate⟩
  else
    let (exchangeRate, claims) ← tally float entry.2 rewardBand s.claims
    return ⟨claims, setLunaExchangeRate s.kv (utf8 entry.1) exchangeRate⟩

/-- The tally loop. -/
def tallyBallots (sched : Schedule) (float : FloatSqrt) (rewardBand : Dec)
    (referenceTerra : Denom) (voteMap : SortedMap Denom ExchangeRateBallot) (s : TallyState) :
    Option TallyState :=
  if referenceTerra = "" then some s
  else
    let ballotRT := voteMap.getD referenceTerra []
    (sched.range .tally voteMap.entries).foldlM
      (tallyStep sched float rewardBand referenceTerra (toMap ballotRT) (weightedMedian ballotRT)) s

/-- One round of the miss counting loop. -/
def missStep (voteTargetsLen : ℕ) (kv : KVStore) (entry : ValAddr × Claim) : Option KVStore :=
  if entry.2.winCount = voteTargetsLen then some kv
  else do
    let missCounter ← getMissCounter kv (addressBytes entry.2.recipient)
    setMissCounter kv (addressBytes entry.2.recipient) (missCounter + 1)

/-- The miss counting loop. -/
def countMisses (sched : Schedule) (voteTargetsLen : ℕ) (claims : SortedMap ValAddr Claim)
    (kv : KVStore) : Option KVStore :=
  (sched.range .miss claims.entries).foldlM (missStep voteTargetsLen) kv

/-- The loop of `ClearBallots` over the prevotes. -/
def clearPrevote (height : BlockHeight) (votePeriod : UInt64) (kv : KVStore)
    (entry : Bytes × AggregateExchangeRatePrevote) : Option KVStore :=
  if (height.val : ℤ) > toInt64 (entry.2.submitBlock + votePeriod).toNat then
    deleteAggregateExchangeRatePrevote kv entry.1
  else some kv

/-- `ClearBallots`. -/
def clearBallots (height : BlockHeight) (votePeriod : UInt64) (kv : KVStore) :
    Option KVStore := do
  let prevotes ← iterateAggregateExchangeRatePrevotes kv
  let kv ← prevotes.foldlM (clearPrevote height votePeriod) kv
  let votes ← iterateAggregateExchangeRateVotes kv
  votes.foldlM (fun kv e => deleteAggregateExchangeRateVote kv e.1) kv

/-- The store and the bank metadata in `ApplyWhitelist`. -/
structure TargetState where
  kv : KVStore
  metadata : SortedMap Denom Metadata

/-- One round of the loop in `ApplyWhitelist`. -/
def applyItem (s : TargetState) (item : DenomItem) : Option TargetState := do
  let kv := setTobinTax s.kv (utf8 item.name) item.tobinTax
  if (s.metadata.get item.name).isNone then
    let metadata ← denomMetadata item.name
    return ⟨kv, s.metadata.set item.name metadata⟩
  else
    return ⟨kv, s.metadata⟩

/-- `ApplyWhitelist`. -/
def applyWhitelist (whitelist : List DenomItem) (voteTargets : SortedMap Denom Dec)
    (s : TargetState) : Option TargetState :=
  if updateRequired whitelist voteTargets then
    whitelist.foldlM applyItem { s with kv := clearTobinTaxes s.kv }
  else some s

/-! ### The end blocker -/

/-- The slashes so far, and the store. -/
structure SlashState where
  slashes : List SlashEvent
  kv : KVStore

/-- One round of the loop in `SlashAndResetMissCounters`. -/
def slashAndDelete (staking : StakingKeeper) (params : Params) (height : BlockHeight)
    (periods : ℕ) (s : SlashState) (entry : Bytes × UInt64) : Option SlashState := do
  let slashes ← slashStep staking params height periods s.slashes (addressOf entry.1, entry.2)
  let kv ← deleteMissCounter s.kv entry.1
  return ⟨slashes, kv⟩

/-- `SlashAndResetMissCounters`. -/
def slashAndResetMissCounters (staking : StakingKeeper) (params : Params) (height : BlockHeight)
    (kv : KVStore) : Option SlashState := do
  let periods ← votePeriodsPerWindow params
  let missCounters ← iterateMissCounters kv
  missCounters.foldlM (slashAndDelete staking params height periods) ⟨[], kv⟩

/-- Everything the end blocker changes. -/
structure Outcome where
  kv : KVStore
  claims : SortedMap ValAddr Claim
  reward : Reward
  metadata : SortedMap Denom Metadata
  slashes : List SlashEvent

/-- The part of `EndBlocker` at the last block of a vote period. -/
def endVotePeriod (codec : ByteCodec) (sched : Schedule) (k : Keepers) (params : Params)
    (height : BlockHeight) (kv : KVStore) : Option Outcome := do
  let claims ← buildClaims k.staking
  let voteTargets ← readVoteTargets kv
  let kv ← clearExchangeRates kv
  let voteMap ← organizeBallotByDenom codec sched claims kv
  let threshold ← thresholdVotes params.voteThreshold k.staking.totalBondedPower
  let pick := pickReferenceTerra sched threshold voteTargets voteMap
  let tallied ← tallyBallots sched k.float params.rewardBand pick.referenceTerra pick.voteMap
    ⟨claims, kv⟩
  let kv ← countMisses sched pick.voteTargets.size tallied.claims tallied.kv
  let reward ← rewardBallotWinners sched k (toInt64 params.votePeriod.toNat)
    (toInt64 params.rewardDistributionWindow.toNat) pick.voteTargets tallied.claims
  let kv ← clearBallots height params.votePeriod kv
  let targets ← applyWhitelist params.whitelist pick.voteTargets ⟨kv, k.bank.metadata⟩
  return ⟨targets.kv, tallied.claims, reward, targets.metadata, []⟩

/-- The part of `EndBlocker` at the last block of a slash window. -/
def endSlashWindow (k : Keepers) (params : Params) (height : BlockHeight) (outcome : Outcome) :
    Option Outcome := do
  let slashWindowEnds ← isPeriodLastBlock height params.slashWindow
  if slashWindowEnds then
    let s ← slashAndResetMissCounters k.staking params height outcome.kv
    return { outcome with kv := s.kv, slashes := s.slashes }
  else
    return outcome

/-- `EndBlocker`. -/
def endBlocker (codec : ByteCodec) (sched : Schedule) (k : Keepers) (params : Params)
    (height : BlockHeight) (kv : KVStore) : Option Outcome := do
  let votePeriodEnds ← isPeriodLastBlock height params.votePeriod
  let outcome ← (if votePeriodEnds then endVotePeriod codec sched k params height kv
    else some ⟨kv, ∅, Reward.none, k.bank.metadata, []⟩)
  endSlashWindow k params height outcome

/-! ### Runs -/

structure ChainState where
  height : BlockHeight
  kv : KVStore

/-- Keep the store of a message that was accepted; one that fails changes nothing. -/
def ChainState.deliver (s : ChainState) : Except MsgError KVStore → ChainState
  | .ok kv => { s with kv := kv }
  | .error _ => s

/-- Deliver one message, or end the block. -/
def step (codec : ByteCodec) (votePeriod : UInt64) (s : ChainState) : Event → Option ChainState
  | .prevote staking msg => some (s.deliver (do
      msg.validateBasic codec.toCodec
      aggregateExchangeRatePrevote codec staking s.height msg s.kv))
  | .vote staking msg => some (s.deliver (do
      msg.validateBasic codec.toCodec
      aggregateExchangeRateVote codec staking votePeriod s.height msg s.kv))
  | .delegate staking msg => some (s.deliver (do
      msg.validateBasic codec.toCodec
      delegateFeedConsent codec staking msg s.kv))
  | .endBlock sched k params => do
    let outcome ← endBlocker codec sched k { params with votePeriod := votePeriod } s.height s.kv
    if h : s.height.val + 1 < 2 ^ 63 then
      return { height := ⟨s.height.val + 1, h⟩, kv := outcome.kv }
    else failure

end TerraClassic.Oracle.Raw
