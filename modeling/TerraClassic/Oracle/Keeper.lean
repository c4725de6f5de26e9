import TerraClassic.Oracle.Types
import TerraClassic.Sdk.Coins
import Mathlib.Algebra.BigOperators.Group.List.Basic
import Mathlib.Data.List.Perm.Basic
import Mathlib.Data.List.Sort

/-! # The oracle store, its expected keepers, and Go's free choices

    * `Store`: the six prefixes of the oracle KV store.  A prefix iterator
      visits keys in order, which is the order of a `SortedMap`.
    * `StakingKeeper`, `BankKeeper`: what the oracle reads of the other
      modules.  Their code is not part of this repository; the fields that
      are propositions are the documented facts the oracle relies on.
    * `Schedule`: the choices Go leaves open in one run of the end blocker,
      the order of every `range` over a map and the order in which
      `sort.Sort` leaves votes of equal rate.
-/

namespace TerraClassic.Oracle

/-! ### The oracle store -/

/-- The oracle KV store. -/
structure Store where
  exchangeRates : SortedMap Denom Dec
  feederDelegations : SortedMap ValAddr AccAddr
  missCounters : SortedMap ValAddr UInt64
  prevotes : SortedMap ValAddr AggregateExchangeRatePrevote
  votes : SortedMap ValAddr AggregateExchangeRateVote
  tobinTaxes : SortedMap Denom Dec
  deriving DecidableEq

/-- `GetMissCounter`. -/
def getMissCounter (missCounters : SortedMap ValAddr UInt64) (operator : ValAddr) : UInt64 :=
  missCounters.getD operator 0

/-! ### Staking -/

/-- A staking validator.  `consensusPower` is `GetConsensusPower`, which is
    zero unless the validator is bonded. -/
structure Validator where
  bonded : Bool
  jailed : Bool
  consensusPower : ℕ
  /-- `GetConsAddr`, which fails without a consensus key. -/
  consAddr : Option String
  deriving DecidableEq, Repr

/-- CometBFT's `MaxTotalVotingPower`, `MaxInt64 / 8`. -/
def maxTotalVotingPower : ℕ := (2 ^ 63 - 1) / 8

/-- The consensus power of an operator, zero if unknown. -/
def powerOf (validators : SortedMap ValAddr Validator) (operator : ValAddr) : ℕ :=
  ((validators.get operator).map Validator.consensusPower).getD 0

/-- The staking keeper as the oracle sees it. -/
structure StakingKeeper where
  validators : SortedMap ValAddr Validator
  /-- The operators of `ValidatorsPowerStoreIterator`, highest power first. -/
  powerIndex : List ValAddr
  maxValidators : ℕ
  /-- `TokensToConsensusPower(TotalBondedTokens)`. -/
  totalBondedPower : ℕ
  powerIndex_nodup : powerIndex.Nodup
  powerIndex_known : ∀ a ∈ powerIndex, (validators.get a).isSome
  /-- Staking has the consensus key of every validator. -/
  consAddr_isSome : ∀ e ∈ validators.entries, e.2.consAddr.isSome
  totalPower_le : (powerIndex.map (powerOf validators)).sum ≤ maxTotalVotingPower

theorem StakingKeeper.consAddr_of_get (staking : StakingKeeper) {operator : ValAddr}
    {validator : Validator} (h : staking.validators.get operator = some validator) :
    validator.consAddr.isSome :=
  staking.consAddr_isSome _ (SortedMap.mem_entries.mpr h)

/-! ### Bank -/

/-- `banktypes.DenomUnit`. -/
structure DenomUnit where
  denom : String
  exponent : ℕ
  aliases : List String
  deriving DecidableEq, Repr

/-- `banktypes.Metadata`. -/
structure Metadata where
  description : String
  denomUnits : List DenomUnit
  base : String
  display : String
  name : String
  symbol : String
  deriving DecidableEq, Repr

/-- The bank keeper as the oracle sees it. -/
structure BankKeeper where
  /-- Balances of the oracle module account. -/
  balance : Denom → ℕ
  /-- `sdk.ValidateDenom`. -/
  validDenom : Denom → Bool
  metadata : SortedMap Denom Metadata
  luna_valid : validDenom microLunaDenom = true
  balance_lt : ∀ denom, balance denom < 2 ^ 256

/-- `GetBalance` of the oracle account; it panics on an invalid denom. -/
def BankKeeper.getBalance (bank : BankKeeper) (denom : Denom) : Option ℕ :=
  if bank.validDenom denom then some (bank.balance denom) else none

/-- The keepers of the oracle, and the float library it calls. -/
structure Keepers where
  staking : StakingKeeper
  bank : BankKeeper
  float : FloatSqrt

/-! ### Go's free choices -/

/-- The places where the end blocker ranges over a map. -/
inductive RangeSite where
  | organize
  | pick
  | tally
  | miss
  | rewardDenoms
  | powerSum
  | doleOut
  deriving DecidableEq, Repr

/-- One resolution of the choices Go leaves open. -/
structure Schedule where
  range : {α : Type} → RangeSite → List α → List α
  sort : ExchangeRateBallot → ExchangeRateBallot
  range_perm : ∀ {α : Type} (site : RangeSite) (l : List α), (range site l).Perm l
  sort_perm : ∀ pb, (sort pb).Perm pb
  sort_sorted : ∀ pb, SortedByRate (sort pb)

/-- Keys in increasing order, ties in the order of the votes. -/
def Schedule.inOrder : Schedule where
  range := fun _ l => l
  sort := fun pb => pb.insertionSort (fun v w => v.exchangeRate ≤ w.exchangeRate)
  range_perm := fun _ l => List.Perm.refl l
  sort_perm := fun pb => List.perm_insertionSort _ pb
  sort_sorted := fun pb => by
    have : Std.Total (fun v w : VoteForTally => v.exchangeRate ≤ w.exchangeRate) :=
      ⟨fun v w => le_total v.exchangeRate w.exchangeRate⟩
    have : IsTrans VoteForTally (fun v w => v.exchangeRate ≤ w.exchangeRate) :=
      ⟨fun _ _ _ => le_trans⟩
    exact List.pairwise_insertionSort _ pb

/-! ### A small chain, for examples -/

/-- Exact where the variance is zero or one. -/
def smallFloat : FloatSqrt where
  sqrt := fun v => if 0 ≤ v.i ∧ Dec.Fits v.i then v else Dec.zero
  sqrt_nonneg := fun v => by
    split
    · next h => exact h.1
    · exact le_rfl
  sqrt_fits := fun v => by
    split
    · next h => exact h.2
    · exact Dec.fits_zero

/-- Four bonded validators of power one. -/
def smallStaking : StakingKeeper where
  validators := (((((∅ : SortedMap ValAddr Validator).set "a" ⟨true, false, 1, some "consA"⟩).set
    "b" ⟨true, false, 1, some "consB"⟩).set "c" ⟨true, false, 1, some "consC"⟩).set
    "d" ⟨true, false, 1, some "consD"⟩)
  powerIndex := ["a", "b", "c", "d"]
  maxValidators := 100
  totalBondedPower := 4
  powerIndex_nodup := by decide
  powerIndex_known := by decide
  consAddr_isSome := by decide
  totalPower_le := by decide

/-- A million units of Luna in the reward pool. -/
def smallBank : BankKeeper where
  balance := fun denom => if denom = microLunaDenom then 1000000 else 0
  validDenom := fun _ => true
  metadata := ∅
  luna_valid := rfl
  balance_lt := fun denom => by split <;> norm_num

def smallKeepers : Keepers := ⟨smallStaking, smallBank, smallFloat⟩

/-- Two denoms, and vote periods of five blocks. -/
def smallParams : Params where
  votePeriod := 5
  voteThreshold := Dec.withPrec 34 2
  rewardBand := Dec.withPrec 2 2
  rewardDistributionWindow := 50
  whitelist := [⟨"ukrw", Dec.zero⟩, ⟨"uusd", Dec.zero⟩]
  slashFraction := Dec.withPrec 1 4
  slashWindow := 100
  minValidPerWindow := Dec.withPrec 5 2

/-- A store with some votes and nothing else, where both denoms are targets. -/
def smallStore (votes : List (ValAddr × List ExchangeRateTuple)) : Store where
  exchangeRates := ∅
  feederDelegations := ∅
  missCounters := ∅
  prevotes := ∅
  votes := votes.foldl (fun m e => m.set e.1 ⟨e.2, e.1⟩) ∅
  tobinTaxes := ((∅ : SortedMap Denom Dec).set "ukrw" Dec.zero).set "uusd" Dec.zero

end TerraClassic.Oracle
