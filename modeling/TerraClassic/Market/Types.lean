import TerraClassic.Sdk.Bank

/-! # Market types: parameters and messages

    `x/market/types`: the parameters with their validation, the errors, and
    the two swap messages with their stateless checks.
-/

namespace TerraClassic.Market

open SdkError (orPanic wrapErr)

/-- The registered errors the market returns. -/
inductive ErrorKind where
  | recursiveSwap
  | noEffectivePrice
  | zeroSwapCoin
  | invalidCoins
  | invalidAddress
  | noTobinTax
  deriving DecidableEq, Repr

abbrev MarketError : Type := SdkError ErrorKind

/-- `Params`. -/
structure Params where
  basePool : Dec
  poolRecoveryPeriod : UInt64
  minStabilitySpread : Dec
  deriving DecidableEq

/-- `Params.Validate`. -/
def Params.validate (p : Params) : Except String Unit := do
  if p.basePool.isNegative then
    throw ("mint base pool should be positive or zero, is " ++ p.basePool.string)
  if p.poolRecoveryPeriod = 0 then
    throw ("pool recovery period should be positive, is " ++ toString p.poolRecoveryPeriod)
  if p.minStabilitySpread.isNegative || Dec.one < p.minStabilitySpread then
    throw ("market minimum stability spead should be a value between [0,1], is " ++
      p.minStabilitySpread.string)

/-- `DefaultParams`: a million SDR, recovered in a day, and two percent. -/
def defaultParams : Params where
  basePool := Dec.ofInt (1000000 * 1000000)
  poolRecoveryPeriod := 14400
  minStabilitySpread := Dec.withPrec 2 2

/-- `MsgSwap`. -/
structure MsgSwap where
  trader : String
  offerCoin : Coin
  askDenom : Denom
  deriving DecidableEq, Repr

/-- `MsgSwapSend`. -/
structure MsgSwapSend where
  fromAddress : String
  toAddress : String
  offerCoin : Coin
  askDenom : Denom
  deriving DecidableEq, Repr

/-- The check of one address in `ValidateBasic`. -/
def checkAddress (role : String) (parsed : Except String AccAddr) :
    Except MarketError AccAddr :=
  wrapErr .invalidAddress (fun err => "Invalid " ++ role ++ " address (" ++ err ++ ")") parsed

/-- The check of the offer, the same in both messages. -/
def checkOffer (offerCoin : Coin) (askDenom : Denom) : Except MarketError Unit := do
  if offerCoin.amount ≤ 0 ∨ bitLen offerCoin.amount > 100 then
    throw (.wrap .invalidCoins offerCoin.string)
  if offerCoin.denom = askDenom then throw (.wrap .recursiveSwap askDenom)

/-- `MsgSwap.ValidateBasic`. -/
def MsgSwap.validateBasic (bech32 : Bech32) (msg : MsgSwap) : Except MarketError Unit := do
  let _ ← checkAddress "trader" (bech32.accAddressFromBech32 msg.trader)
  checkOffer msg.offerCoin msg.askDenom

/-- `MsgSwapSend.ValidateBasic`. -/
def MsgSwapSend.validateBasic (bech32 : Bech32) (msg : MsgSwapSend) :
    Except MarketError Unit := do
  let _ ← checkAddress "from" (bech32.accAddressFromBech32 msg.fromAddress)
  let _ ← checkAddress "to" (bech32.accAddressFromBech32 msg.toAddress)
  checkOffer msg.offerCoin msg.askDenom

/-- What validation guarantees of the parameters. -/
theorem Params.validate_ok {p : Params} (h : p.validate = .ok ()) :
    0 ≤ p.basePool.i ∧ p.poolRecoveryPeriod ≠ 0 ∧ 0 ≤ p.minStabilitySpread.i ∧
      p.minStabilitySpread ≤ Dec.one := by
  unfold Params.validate at h
  by_cases hpool : p.basePool.isNegative = true
  · simp only [if_pos hpool] at h
    cases h
  by_cases hperiod : p.poolRecoveryPeriod = 0
  · simp only [if_neg hpool, if_pos hperiod] at h
    cases h
  by_cases hspread : (p.minStabilitySpread.isNegative || Dec.one < p.minStabilitySpread) = true
  · simp only [if_neg hpool, if_neg hperiod, if_pos hspread] at h
    cases h
  · simp only [Bool.or_eq_true, decide_eq_true_eq, not_or] at hspread
    refine ⟨?_, hperiod, ?_, not_lt.mp hspread.2⟩
    · simpa [Dec.isNegative] using hpool
    · simpa [Dec.isNegative] using hspread.1

/-- An offer that passed `ValidateBasic` is positive and has at most 100 bits. -/
theorem checkOffer_ok {offerCoin : Coin} {askDenom : Denom}
    (h : checkOffer offerCoin askDenom = .ok ()) :
    0 < offerCoin.amount ∧ bitLen offerCoin.amount ≤ 100 ∧ offerCoin.denom ≠ askDenom := by
  unfold checkOffer at h
  by_cases hamount : offerCoin.amount ≤ 0 ∨ bitLen offerCoin.amount > 100
  · simp only [if_pos hamount] at h
    cases h
  by_cases hdenom : offerCoin.denom = askDenom
  · simp only [if_neg hamount, if_pos hdenom] at h
    cases h
  · obtain ⟨hpos, hbits⟩ := not_or.mp hamount
    exact ⟨not_le.mp hpos, not_lt.mp hbits, hdenom⟩

end TerraClassic.Market
