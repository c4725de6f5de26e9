import TerraClassic.Market.Types
import TerraClassic.Oracle.Msgs

/-! # The stability tax of a transaction

    `custom/auth/ante/fee_tax.go`: the messages of a transaction, and the tax
    that is due on them.  `authz.MsgExec` carries messages of its own, to any
    depth.

    `none` is a panic: a `Dec` product or a sum of coins out of its bit bound,
    or a coin with a negative amount or an invalid denom.
-/

namespace TerraClassic.Ante

/-- The messages the ante handlers look into; every other one is `other`.  An
    `exec` whose messages cannot be unpacked has `unpacked = false`. -/
inductive Msg where
  | send (fromAddress toAddress : String) (amount : List Coin)
  | multiSend (inputs outputs : List (String × List Coin))
  | swapSend (msg : Market.MsgSwapSend)
  | instantiateContract (funds : List Coin)
  | instantiateContract2 (funds : List Coin)
  | executeContract (contract : String) (funds : List Coin)
  | exec (unpacked : Bool) (messages : List Msg)
  | aggregateExchangeRatePrevote (msg : Oracle.MsgAggregateExchangeRatePrevote)
  | aggregateExchangeRateVote (msg : Oracle.MsgAggregateExchangeRateVote)
  | other (typeURL : String)

/-- What the ante handlers read of the treasury. -/
structure TreasuryKeeper where
  taxRate : Dec
  taxCaps : SortedMap Denom ℤ
  /-- `TaxPolicy.Cap.Amount`. -/
  taxPolicyCap : ℤ
  burnSplitRate : Dec
  burnTaxExemptionList : List String
  /-- The address is valid and has contract info. -/
  isContract : String → Bool
  /-- `sdk.ValidateDenom`. -/
  validDenom : Denom → Bool

/-- `GetTaxCap`: the cap of the tax policy where none is registered. -/
def getTaxCap (tk : TreasuryKeeper) (denom : Denom) : ℤ := tk.taxCaps.getD denom tk.taxPolicyCap

/-- `HasBurnTaxExemptionAddress`: all of them are exempt. -/
def hasBurnTaxExemptionAddress (tk : TreasuryKeeper) (addresses : List String) : Bool :=
  addresses.all (fun address => tk.burnTaxExemptionList.contains address)

/-- `HasBurnTaxExemptionContract`. -/
def hasBurnTaxExemptionContract (tk : TreasuryKeeper) (address : String) : Bool :=
  tk.isContract address && hasBurnTaxExemptionAddress tk [address]

/-- `sdk.DefaultBondDenom`. -/
def defaultBondDenom : Denom := "stake"

/-- A digit of `[a-fA-F0-9]`. -/
def isHexDigit (c : Char) : Bool :=
  c.isDigit || ('a' ≤ c && c ≤ 'f') || ('A' ≤ c && c ≤ 'F')

/-- `unicode.ToLower`, as far as it gives ASCII characters: besides the capitals these are the
    lower cases of the dotted capital `I` and of the Kelvin sign. -/
def lowerRune (c : Char) : Char :=
  if c = Char.ofNat 0x130 then 'i' else if c = Char.ofNat 0x212A then 'k' else c.toLower

/-- `isIBCDenom`: `ibc/` and 64 hexadecimal digits, in any case. -/
def isIBCDenom (denom : Denom) : Bool :=
  let lower := denom.toList.map lowerRune
  lower.take 4 == "ibc/".toList && (lower.drop 4).length == 64 && (lower.drop 4).all isHexDigit

/-- One coin of the loop in `computeTax`. -/
def taxCoin (tk : TreasuryKeeper) (taxes : Coins) (coin : Coin) : Option Coins :=
  if coin.denom = defaultBondDenom then some taxes
  else if isIBCDenom coin.denom then some taxes
  else do
    let product ← (Dec.ofInt coin.amount).mul tk.taxRate
    let taxDue := min product.truncateInt (getTaxCap tk coin.denom)
    if taxDue = 0 then return taxes
    else if tk.validDenom coin.denom = true ∧ 0 ≤ taxDue then
      taxes.checkedAdd (Coins.ofCoin coin.denom taxDue)
    else failure

/-- `computeTax`. -/
def computeTax (tk : TreasuryKeeper) (principal : List Coin) : Option Coins :=
  if tk.taxRate = Dec.zero then some ∅ else principal.foldlM (taxCoin tk) ∅

/-- `sdk.NewCoins(coin)`: a zero coin is dropped before the denom is looked at. -/
def newCoins (tk : TreasuryKeeper) (coin : Coin) : Option (List Coin) :=
  if coin.amount = 0 then some []
  else if tk.validDenom coin.denom = true ∧ 0 ≤ coin.amount then some [coin]
  else none

/-- The number of exempt addresses of a multi-send. -/
def taintedCount (tk : TreasuryKeeper) (parties : List (String × List Coin)) : ℕ :=
  parties.countP (fun party => hasBurnTaxExemptionAddress tk [party.1])

/-- Add the taxes of the inputs of a multi-send. -/
def addInputTaxes (tk : TreasuryKeeper) (taxes : Coins) (inputs : List (String × List Coin)) :
    Option Coins :=
  inputs.foldlM (fun taxes input => do
    let tax ← computeTax tk input.2
    taxes.checkedAdd tax) taxes

mutual

/-- One message of the loop in `FilterMsgAndComputeTax`. -/
def addMsgTax (tk : TreasuryKeeper) (taxes : Coins) : Msg → Option Coins
  | .send fromAddress toAddress amount =>
    if hasBurnTaxExemptionAddress tk [fromAddress, toAddress] then some taxes
    else do
      let tax ← computeTax tk amount
      taxes.checkedAdd tax
  | .multiSend inputs outputs =>
    if taintedCount tk inputs + taintedCount tk outputs ≠ inputs.length + outputs.length then
      addInputTaxes tk taxes inputs
    else some taxes
  | .swapSend msg => do
    let principal ← newCoins tk msg.offerCoin
    let tax ← computeTax tk principal
    taxes.checkedAdd tax
  | .instantiateContract funds => do
    let tax ← computeTax tk funds
    taxes.checkedAdd tax
  | .instantiateContract2 funds => do
    let tax ← computeTax tk funds
    taxes.checkedAdd tax
  | .executeContract contract funds =>
    if hasBurnTaxExemptionContract tk contract then some taxes
    else do
      let tax ← computeTax tk funds
      taxes.checkedAdd tax
  | .exec unpacked messages =>
    if unpacked then do
      let tax ← addMsgTaxes tk ∅ messages
      taxes.checkedAdd tax
    else some taxes
  | .aggregateExchangeRatePrevote _ => some taxes
  | .aggregateExchangeRateVote _ => some taxes
  | .other _ => some taxes

/-- The loop in `FilterMsgAndComputeTax`. -/
def addMsgTaxes (tk : TreasuryKeeper) (taxes : Coins) : List Msg → Option Coins
  | [] => some taxes
  | msg :: rest => do
    let taxes ← addMsgTax tk taxes msg
    addMsgTaxes tk taxes rest

end

/-- `FilterMsgAndComputeTax`. -/
def filterMsgAndComputeTax (tk : TreasuryKeeper) (msgs : List Msg) : Option Coins :=
  addMsgTaxes tk ∅ msgs

/-- `isOracleTx`: prevotes and votes only. -/
def isOracleTx (msgs : List Msg) : Bool :=
  msgs.all fun
    | .aggregateExchangeRatePrevote _ => true
    | .aggregateExchangeRateVote _ => true
    | _ => false

end TerraClassic.Ante
