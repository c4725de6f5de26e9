import TerraClassic.Lib.KeySpace
import TerraClassic.Oracle.RawStore
import TerraClassic.Treasury.Genesis

/-! # The treasury's key-value store, byte by byte

    The keeper functions of `x/treasury/keeper` over one map from byte strings to values,
    and the end blocker, the genesis import and the proposals over that.  Nine families of
    keys share the map, told apart by their first byte.  Denoms and exempt addresses follow
    it as they are, epochs as eight bytes with the lowest first.

    Values are kept as the messages that the protobuf codec writes and reads; a value of
    another message does not unmarshal, which panics.  A panic is `none`.  The parameters
    are in the parameter store.
-/

namespace TerraClassic.Treasury.Raw

open Oracle.Raw (Byte Bytes utf8)
open Market (newDecCoinFromCoin newDecCoinFromDec computeInternalSwap truncateDecimal)

/-! ### Keys -/

/-- `TaxRateKey`. -/
def taxRateKey : Bytes := [0x01]

/-- `RewardWeightKey`. -/
def rewardWeightKey : Bytes := [0x02]

/-- `TaxProceedsKey`. -/
def taxProceedsKey : Bytes := [0x04]

/-- `EpochInitialIssuanceKey`. -/
def epochInitialIssuanceKey : Bytes := [0x05]

/-- `GetTaxCapKey`. -/
def getTaxCapKey (denom : Denom) : Bytes := 0x03 :: utf8 denom

/-- `binary.LittleEndian.PutUint64` of an `int64` that is cast to `uint64`. -/
def putUint64 (epoch : ℤ) : Bytes := KeySpace.leBytes 8 (toUint64 epoch)

/-- `GetSubkeyByEpoch`. -/
def getSubkeyByEpoch (first : Byte) (epoch : ℤ) : Bytes := first :: putUint64 epoch

/-- `GetTRKey`. -/
def getTRKey : ℤ → Bytes := getSubkeyByEpoch 0x06

/-- `GetSRKey`. -/
def getSRKey : ℤ → Bytes := getSubkeyByEpoch 0x07

/-- `GetTSLKey`. -/
def getTSLKey : ℤ → Bytes := getSubkeyByEpoch 0x08

/-- A key of the prefix store under `BurnTaxExemptionListPrefix`. -/
def exemptionKey (address : String) : Bytes := 0x20 :: utf8 address

/-! ### Values -/

/-- The messages of the store. -/
inductive Value where
  /-- `sdk.DecProto`. -/
  | dec (d : Dec)
  /-- `sdk.IntProto`. -/
  | int (n : ℤ)
  /-- `types.EpochTaxProceeds`. -/
  | taxProceeds (coins : Coins)
  /-- `types.EpochInitialIssuance`. -/
  | issuance (coins : Coins)
  /-- The mark of an exempt address, which is never read. -/
  | bytes (bz : Bytes)

def Value.asDec : Value → Option Dec
  | .dec d => some d
  | _ => none

def Value.asInt : Value → Option ℤ
  | .int n => some n
  | _ => none

def Value.asTaxProceeds : Value → Option Coins
  | .taxProceeds coins => some coins
  | _ => none

def Value.asIssuance : Value → Option Coins
  | .issuance coins => some coins
  | _ => none

/-! ### The keeper -/

/-- The key-value store of the treasury. -/
abbrev KVStore : Type := SortedMap Bytes Value

/-- The module's state. -/
structure State where
  kv : KVStore
  params : Params

/-- `store.Get`, a default where it has nothing, and `MustUnmarshal`. -/
def read {V : Type} (kv : KVStore) (key : Bytes) (unmarshal : Value → Option V) (missing : V) :
    Option V :=
  match kv.get key with
  | none => some missing
  | some value => unmarshal value

/-- `GetTaxRate`. -/
def getTaxRate (kv : KVStore) : Option Dec := read kv taxRateKey Value.asDec defaultTaxRate

/-- `SetTaxRate`. -/
def setTaxRate (kv : KVStore) (taxRate : Dec) : KVStore := kv.set taxRateKey (.dec taxRate)

/-- `GetRewardWeight`. -/
def getRewardWeight (kv : KVStore) : Option Dec :=
  read kv rewardWeightKey Value.asDec defaultRewardWeight

/-- `SetRewardWeight`. -/
def setRewardWeight (kv : KVStore) (rewardWeight : Dec) : KVStore :=
  kv.set rewardWeightKey (.dec rewardWeight)

/-- `SetTaxCap`. -/
def setTaxCap (kv : KVStore) (denom : Denom) (cap : ℤ) : KVStore :=
  kv.set (getTaxCapKey denom) (.int cap)

/-- `GetTaxCap`: the cap of the tax policy where none is registered. -/
def getTaxCap (s : State) (denom : Denom) : Option ℤ :=
  read s.kv (getTaxCapKey denom) Value.asInt s.params.taxPolicy.cap.amount

/-- `IterateTaxCap` with a handler that does not stop: the denoms as byte strings. -/
def iterateTaxCap (kv : KVStore) : Option (List (Bytes × ℤ)) := KeySpace.iterate Value.asInt kv 0x03

/-- `PeekEpochTaxProceeds`. -/
def peekEpochTaxProceeds (kv : KVStore) : Option Coins :=
  read kv taxProceedsKey Value.asTaxProceeds ∅

/-- `SetEpochTaxProceeds`. -/
def setEpochTaxProceeds (kv : KVStore) (taxProceeds : Coins) : KVStore :=
  kv.set taxProceedsKey (.taxProceeds taxProceeds)

/-- `RecordEpochTaxProceeds`. -/
def recordEpochTaxProceeds (delta : Coins) (kv : KVStore) : Option KVStore :=
  if delta.isZero then some kv
  else do
    let proceeds ← peekEpochTaxProceeds kv
    let proceeds ← proceeds.checkedAdd delta
    return setEpochTaxProceeds kv proceeds

/-- `GetEpochInitialIssuance`. -/
def getEpochInitialIssuance (kv : KVStore) : Option Coins :=
  read kv epochInitialIssuanceKey Value.asIssuance ∅

/-- `SetEpochInitialIssuance`. -/
def setEpochInitialIssuance (kv : KVStore) (issuance : Coins) : KVStore :=
  kv.set epochInitialIssuanceKey (.issuance issuance)

/-- `RecordEpochInitialIssuance`. -/
def recordEpochInitialIssuance (k : Keepers) (bank : Bank) (kv : KVStore) : KVStore :=
  setEpochInitialIssuance kv ((microLunaDenom :: k.whitelist).foldl
    (fun issuance denom => issuance.set denom (bank.supply denom : ℤ)) ∅)

/-- `PeekEpochSeigniorage`. -/
def peekEpochSeigniorage (bank : Bank) (kv : KVStore) : Option ℤ := do
  let issuance ← getEpochInitialIssuance kv
  let epochSeigniorage := issuance.amountOf microLunaDenom - bank.supply microLunaDenom
  return if epochSeigniorage < 0 then 0 else epochSeigniorage

/-- `GetTR`. -/
def getTR (kv : KVStore) (epoch : ℤ) : Option Dec := read kv (getTRKey epoch) Value.asDec Dec.zero

/-- `SetTR`. -/
def setTR (kv : KVStore) (epoch : ℤ) (tr : Dec) : KVStore := kv.set (getTRKey epoch) (.dec tr)

/-- `ClearTRs`. -/
def clearTRs (kv : KVStore) : KVStore := KeySpace.clear kv 0x06

/-- `GetSR`. -/
def getSR (kv : KVStore) (epoch : ℤ) : Option Dec := read kv (getSRKey epoch) Value.asDec Dec.zero

/-- `SetSR`. -/
def setSR (kv : KVStore) (epoch : ℤ) (sr : Dec) : KVStore := kv.set (getSRKey epoch) (.dec sr)

/-- `ClearSRs`. -/
def clearSRs (kv : KVStore) : KVStore := KeySpace.clear kv 0x07

/-- `GetTSL`. -/
def getTSL (kv : KVStore) (epoch : ℤ) : Option ℤ := read kv (getTSLKey epoch) Value.asInt 0

/-- `SetTSL`. -/
def setTSL (kv : KVStore) (epoch : ℤ) (tsl : ℤ) : KVStore := kv.set (getTSLKey epoch) (.int tsl)

/-- `ClearTSLs`. -/
def clearTSLs (kv : KVStore) : KVStore := KeySpace.clear kv 0x08

/-- `AddBurnTaxExemptionAddress`. -/
def addBurnTaxExemptionAddress (bech32 : Bech32) (kv : KVStore) (address : String) :
    Option KVStore :=
  match bech32.accAddressFromBech32 address with
  | .error _ => none
  | .ok _ => some (kv.set (exemptionKey address) (.bytes [0x01]))

/-- `RemoveBurnTaxExemptionAddress`; the outer failure is the panic. -/
def removeBurnTaxExemptionAddress (bech32 : Bech32) (kv : KVStore) (address : String) :
    Option (Except String KVStore) :=
  match bech32.accAddressFromBech32 address with
  | .error _ => none
  | .ok _ =>
    if (kv.get (exemptionKey address)).isNone then some (.error ("address = " ++ address))
    else some (.ok (kv.erase (exemptionKey address)))

/-- `HasBurnTaxExemptionAddress`. -/
def hasBurnTaxExemptionAddress (kv : KVStore) (addresses : List String) : Bool :=
  addresses.all (fun address => (kv.get (exemptionKey address)).isSome)

/-- The loop of `HandleRemoveBurnTaxExemptionAddressProposal`. -/
def removeAll (bech32 : Bech32) : List String → KVStore → Option (Except String KVStore)
  | [], kv => some (.ok kv)
  | address :: rest, kv =>
    match removeBurnTaxExemptionAddress bech32 kv address with
    | none => none
    | some (.error err) => some (.error err)
    | some (.ok kv) => removeAll bech32 rest kv

/-! ### Indicators and policies -/

/-- `TRL`. -/
def trl (kv : KVStore) (epoch : ℤ) : Option Dec := do
  let tr ← getTR kv epoch
  let tsl ← getTSL kv epoch
  return if tr.isZero || tsl = 0 then Dec.zero else ⟨tr.i.tdiv tsl⟩

/-- `SR`. -/
def sr (kv : KVStore) (epoch : ℤ) : Option Dec := getSR kv epoch

/-- `MR`. -/
def mr (kv : KVStore) (epoch : ℤ) : Option Dec := do
  let tr ← getTR kv epoch
  let sr ← getSR kv epoch
  tr.add sr

/-- `UpdateIndicators`. -/
def updateIndicators (k : Keepers) (bank : Bank) (height : BlockHeight) (kv : KVStore) :
    Option KVStore := do
  let epoch := getEpoch height
  let kv := setTSL kv epoch k.totalBondedTokens
  let taxProceeds ← peekEpochTaxProceeds kv
  let taxRewards ← newDecCoinsFromCoins k.market taxProceeds
  let tr ← alignCoins k.market taxRewards microSDRDenom
  let kv := setTR kv epoch tr
  let kv := setEpochTaxProceeds kv ∅
  let seigniorage ← peekEpochSeigniorage bank kv
  let rewardWeight ← getRewardWeight kv
  let seigniorageRewardsAmt ← rewardWeight.mulInt seigniorage
  let seigniorageReward ← newDecCoinFromDec k.market microLunaDenom seigniorageRewardsAmt
  let sr ← alignCoins k.market [seigniorageReward] microSDRDenom
  return setSR kv epoch sr

/-- `UpdateTaxPolicy`. -/
def updateTaxPolicy (height : BlockHeight) (s : State) : Option KVStore := do
  let oldTaxRate ← getTaxRate s.kv
  let tlYear ← rollingAverageIndicator (trl s.kv) (getEpoch height)
    (windowInt64 s.params.windowLong)
  let tlMonth ← rollingAverageIndicator (trl s.kv) (getEpoch height)
    (windowInt64 s.params.windowShort)
  let newTaxRate ← unclampedTaxRate s.params oldTaxRate tlYear tlMonth
  let newTaxRate ← s.params.taxPolicy.clamp oldTaxRate newTaxRate
  return setTaxRate s.kv newTaxRate

/-- `UpdateRewardPolicy`. -/
def updateRewardPolicy (height : BlockHeight) (s : State) : Option KVStore := do
  let oldWeight ← getRewardWeight s.kv
  let seigniorageSum ← sumIndicator (sr s.kv) (getEpoch height) (windowInt64 s.params.windowShort)
  let totalSum ← sumIndicator (mr s.kv) (getEpoch height) (windowInt64 s.params.windowShort)
  let newRewardWeight ← unclampedRewardWeight s.params oldWeight seigniorageSum totalSum
  let newRewardWeight ← s.params.rewardPolicy.clamp oldWeight newRewardWeight
  return setRewardWeight s.kv newRewardWeight

/-- One denom of `UpdateTaxCap`. -/
def updateTaxCapOf (k : Market.Keeper) (taxPolicyCap : DecCoin) (kv : KVStore) (denom : Denom) :
    Option KVStore :=
  if denom = taxPolicyCap.denom then some kv
  else
    match computeInternalSwap k taxPolicyCap denom with
    | .error .panicked => none
    | .error _ => some kv
    | .ok newDecCap => do
      let (newCap, _) ← truncateDecimal k newDecCap
      return setTaxCap kv newCap.denom newCap.amount

/-- `UpdateTaxCap`. -/
def updateTaxCap (k : Keepers) (s : State) : Option KVStore := do
  let taxPolicyCap ← newDecCoinFromCoin k.market s.params.taxPolicy.cap
  k.whitelist.foldlM (updateTaxCapOf k.market taxPolicyCap) s.kv

/-- The policy updates; during the probation there are none. -/
def updatePolicies (k : Keepers) (height : BlockHeight) (s : State) : Option KVStore :=
  if inProbation height s.params then some s.kv
  else do
    let kv ← updateTaxPolicy height s
    let kv ← updateRewardPolicy height { s with kv := kv }
    updateTaxCap k { s with kv := kv }

/-- `EndBlocker`. -/
def endBlocker (k : Keepers) (height : BlockHeight) (bank : Bank) (s : State) :
    Option (Bank × KVStore) := do
  let bank := burnCoinsFromBurnAccount bank
  let weekEnds ← isPeriodLastBlock height blocksPerWeek
  if !weekEnds then return (bank, s.kv)
  else
    let kv ← updateIndicators k bank height s.kv
    let kv ← updatePolicies k height { s with kv := kv }
    return (bank, recordEpochInitialIssuance k bank kv)

/-! ### Genesis and runs -/

/-- One epoch of the loop in `InitGenesis`. -/
def importEpochState (kv : KVStore) (e : EpochState) : KVStore :=
  let epoch := toInt64 e.epoch.toNat
  setTSL (setSR (setTR kv epoch e.taxReward) epoch e.seigniorageReward) epoch e.totalStakedLuna

/-- `InitGenesis` on an empty store; `SetParams` panics on parameters that do not pass. -/
def initGenesis (validDenom : Denom → Bool) (k : Keepers) (bank : Bank) (data : GenesisState) :
    Option State :=
  match data.params.checkPairs validDenom with
  | .error _ => none
  | .ok () =>
    let kv := setTaxRate ∅ data.taxRate
    let kv := setRewardWeight kv data.rewardWeight
    let kv := setEpochTaxProceeds kv data.taxProceeds
    let kv := if data.epochInitialIssuance.isZero then recordEpochInitialIssuance k bank kv
      else setEpochInitialIssuance kv data.epochInitialIssuance
    let kv := data.taxCaps.foldl (fun kv cap => setTaxCap kv cap.1 cap.2) kv
    some ⟨data.epochStates.foldl importEpochState kv, data.params⟩

/-- One event over the store; a panic halts the chain. -/
def advance (bech32 : Bech32) (validDenom : Denom → Bool) (s : State) : Event → Option State
  | .endBlock k height bank => do
    let (_, kv) ← endBlocker k height bank s
    return { s with kv := kv }
  | .taxes delta => do
    let kv ← recordEpochTaxProceeds delta s.kv
    return { s with kv := kv }
  | .addExemptions addresses => do
    let kv ← addresses.foldlM (addBurnTaxExemptionAddress bech32) s.kv
    return { s with kv := kv }
  | .removeExemptions addresses => do
    match ← removeAll bech32 addresses s.kv with
    -- governance drops the writes of a proposal that fails
    | .error _ => return s
    | .ok kv => return { s with kv := kv }
  | .params params =>
    match params.checkPairs validDenom with
    | .ok () => some { s with params := params }
    | .error _ => some s

end TerraClassic.Treasury.Raw
