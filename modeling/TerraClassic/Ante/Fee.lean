import TerraClassic.Ante.Tax
import TerraClassic.Sdk.Bank
import TerraClassic.Treasury.Types

/-! # The fee decorator

    `FeeDecorator` of `custom/auth/ante/fee.go` and `BurnTaxSplit` of
    `fee_burntax.go`: take the fee from its payer, and move the tax of the
    messages from the fee collector to the burn account.

    The fee of a transaction is a list of coins as the sender wrote it; only a
    fee that is not zero is checked to be a valid coin set.
-/

namespace TerraClassic.Ante

open SdkError (orPanic orPanic_eq_ok)
open Treasury (addTaxProceeds)

/-- The registered errors the decorator returns. -/
inductive ErrorKind where
  | invalidGasLimit
  | insufficientFee
  | insufficientFunds
  | invalidRequest
  | unknownAddress
  deriving DecidableEq, Repr

abbrev FeeError : Type := SdkError ErrorKind

/-- What the decorator reads of a transaction. -/
structure FeeTx where
  msgs : List Msg
  gas : UInt64
  fee : List Coin
  feePayer : AccAddr
  feeGranter : Option AccAddr

/-- What it reads of the context. -/
structure Context where
  blockHeight : ℤ
  isCheckTx : Bool
  minGasPrices : DecCoins

/-- The keepers of the decorator.  Without a fee grant keeper, `useGrantedFees`
    is `none`. -/
structure Keepers where
  treasury : TreasuryKeeper
  bank : BankConfig
  bech32 : Bech32
  accountExists : AccAddr → Bool
  feeCollectorSet : Bool
  useGrantedFees : Option (AccAddr → AccAddr → List Coin → List Msg → Except String Unit)

/-- What the decorator changes: balances, and the tax proceeds of the epoch. -/
structure State where
  bank : BankState
  taxProceeds : Coins

/-- The coins a transaction was taxed with: what `BurnTaxSplit` sent to the burn
    account, what was recorded, and the state after. -/
structure Charge where
  burned : Coins
  recorded : Coins
  state : State

/-- `FeeCollectorName`. -/
def feeCollectorName : String := "fee_collector"

/-- `BurnModuleName`. -/
def burnModuleName : String := "burn"

/-! ### Fees as lists of coins -/

/-- The amount of a denom that a fee pays. -/
def feeAmount (fee : List Coin) (denom : Denom) : ℤ :=
  ((fee.filter (fun coin => coin.denom = denom)).map Coin.amount).sum

/-- `Coins.IsZero`. -/
def feeIsZero (fee : List Coin) : Bool := fee.all (fun coin => coin.amount = 0)

/-- `Coins.IsValid`: positive amounts of valid denoms, in increasing order. -/
def feeIsValid (validDenom : Denom → Bool) (fee : List Coin) : Bool :=
  fee.all (fun coin => validDenom coin.denom && 0 < coin.amount) &&
    decide (fee.Pairwise (fun coin coin' => coin.denom < coin'.denom))

/-- A valid fee as a coin set. -/
def feeCoins (fee : List Coin) : Coins :=
  (fee.map (fun coin => (coin.denom, coin.amount))).foldl Coins.addCoin ∅

/-- `Coins.String`. -/
def coinsString (coins : List Coin) : String := ",".intercalate (coins.map Coin.string)

def coinsList (coins : Coins) : List Coin := coins.entries.map (fun e => ⟨e.1, e.2⟩)

/-! ### The minimum fee -/

/-- `IsAnyGTE`: some coin of the fee covers a required amount that is not zero.
    An invalid denom before that coin panics. -/
def isAnyGTE (validDenom : Denom → Bool) (required : Coins) : List Coin → Option Bool
  | [] => some false
  | coin :: rest =>
    if !validDenom coin.denom then none
    else if required.amountOf coin.denom ≤ coin.amount ∧ required.amountOf coin.denom ≠ 0 then
      some true
    else isAnyGTE validDenom required rest

/-- `fee.Ceil().RoundInt()`. -/
def ceilInt (d : Dec) : ℤ := -((-d.i).ediv decOne)

/-- One coin of `requiredGasFees`. -/
def requiredGasFee (k : Keepers) (gas : UInt64) (required : Coins) (price : Denom × Dec) :
    Option Coins := do
  let fee ← price.2.mul (Dec.ofInt (toInt64 gas.toNat))
  if k.bank.validDenom price.1 = true ∧ 0 ≤ ceilInt fee then
    return required.set price.1 (ceilInt fee)
  else failure

/-- `requiredGasFees`. -/
def requiredGasFees (k : Keepers) (ctx : Context) (gas : UInt64) : Option Coins :=
  if ctx.minGasPrices.entries.all (fun price => price.2.isZero) then some ∅
  else ctx.minGasPrices.entries.foldlM (requiredGasFee k gas) ∅

/-- `math.MaxInt64`. -/
def maxInt64 : ℤ := 2 ^ 63 - 1

/-- One coin of `getTxPriority`.  Dividing by a gas of zero panics. -/
def priorityStep (gas priority : ℤ) (coin : Coin) : Option ℤ :=
  if gas = 0 then none
  else
    let gasPrice := coin.amount.tdiv gas
    let p := if -2 ^ 63 ≤ gasPrice ∧ gasPrice ≤ maxInt64 then gasPrice else maxInt64
    some (if priority = 0 ∨ p < priority then p else priority)

/-- `getTxPriority`. -/
def getTxPriority (fee : List Coin) (gas : ℤ) : Option ℤ := fee.foldlM (priorityStep gas) 0

def quoted (s : String) : String := "\"" ++ s ++ "\""

/-- `checkTxFee`. -/
def checkTxFee (k : Keepers) (ctx : Context) (tx : FeeTx) (taxes : Coins) :
    Except FeeError ℤ := do
  if ctx.isCheckTx && !isOracleTx tx.msgs then
    let gasFees ← orPanic (requiredGasFees k ctx tx.gas)
    let requiredFees ← orPanic (gasFees.checkedAdd taxes)
    if !requiredFees.isZero then
      let enough ← orPanic (isAnyGTE k.bank.validDenom requiredFees tx.fee)
      if !enough then
        throw (.wrap .insufficientFee ("insufficient fees; got: " ++ quoted (coinsString tx.fee) ++
          ", required: " ++ quoted (coinsString (coinsList requiredFees)) ++ " = " ++
          quoted (coinsString (coinsList gasFees)) ++ "(gas) + " ++
          quoted (coinsString (coinsList taxes)) ++ "(stability)"))
  if isOracleTx tx.msgs then return maxInt64
  else orPanic (getTxPriority tx.fee (toInt64 tx.gas.toNat))

/-! ### Deducting the fee and splitting the tax -/

/-- `DeductFees`. -/
def deductFees (k : Keepers) (bank : BankState) (acc : AccAddr) (fee : List Coin) :
    Except FeeError BankState := do
  if !feeIsValid k.bank.validDenom fee then
    throw (.wrap .insufficientFee ("invalid fee amount: " ++ coinsString fee))
  (bank.sendCoinsFromAccountToModule k.bank acc feeCollectorName (feeCoins fee)).mapError
    (.wrapBank .insufficientFunds)

/-- One coin of the split: the part that stays in the fee collector. -/
def splitCoin (tk : TreasuryKeeper) (distributionDeltaCoins : Coins) (taxCoin : Denom × ℤ) :
    Option Coins := do
  let product ← tk.burnSplitRate.mulInt taxCoin.2
  if tk.validDenom taxCoin.1 = true ∧ 0 ≤ product.roundInt then
    return distributionDeltaCoins.add (Coins.ofCoin taxCoin.1 product.roundInt)
  else failure

/-- The taxes that `BurnTaxSplit` sends to the burn account. -/
def burnedTaxes (tk : TreasuryKeeper) (taxes : Coins) : Option Coins :=
  if tk.burnSplitRate.isPositive then do
    let distributionDeltaCoins ← taxes.entries.foldlM (splitCoin tk) ∅
    taxes.sub distributionDeltaCoins
  else some taxes

/-- `BurnTaxSplit`: the coins it sent, and the bank after. -/
def burnTaxSplit (k : Keepers) (bank : BankState) (taxes : Coins) :
    Except FeeError (Coins × BankState) := do
  let burned ← orPanic (burnedTaxes k.treasury taxes)
  if !burned.isZero then
    let bank ← (bank.sendCoinsFromModuleToModule k.bank feeCollectorName burnModuleName
      burned).mapError (.wrapBank .insufficientFunds)
    return (burned, bank)
  else return (burned, bank)

/-- The account that pays: the granter, if there is one and it allows it. -/
def deductFeesFrom (k : Keepers) (tx : FeeTx) : Except FeeError AccAddr :=
  match tx.feeGranter with
  | none => .ok tx.feePayer
  | some feeGranter =>
    match k.useGrantedFees with
    | none => .error (.wrap .invalidRequest "fee grants are not enabled")
    | some useGrantedFees =>
      if feeGranter = tx.feePayer then .ok feeGranter
      else
        match useGrantedFees feeGranter tx.feePayer tx.fee tx.msgs with
        | .ok _ => .ok feeGranter
        | .error err => .error (.plain (k.bech32.accAddressString feeGranter ++
            " does not not allow to pay fees for " ++ k.bech32.accAddressString tx.feePayer ++
            ": " ++ err))

/-- `checkDeductFee`. -/
def checkDeductFee (k : Keepers) (s : State) (tx : FeeTx) (taxes : Coins) (simulate : Bool) :
    Except FeeError Charge := do
  if !k.feeCollectorSet then
    throw (.plain ("fee collector module account (" ++ feeCollectorName ++ ") has not been set"))
  let payer ← deductFeesFrom k tx
  if !k.accountExists payer then
    throw (.wrap .unknownAddress ("fee payer address: " ++ k.bech32.accAddressString payer ++
      " does not exist"))
  if feeIsZero tx.fee then return ⟨∅, ∅, s⟩
  else
    let bank ← deductFees k s.bank payer tx.fee
    if !taxes.isZero && !simulate then
      let (burned, bank) ← burnTaxSplit k bank taxes
      let taxProceeds ← orPanic (addTaxProceeds s.taxProceeds taxes)
      return ⟨burned, taxes, ⟨bank, taxProceeds⟩⟩
    else return ⟨∅, ∅, { s with bank := bank }⟩

/-- `AnteHandle`: what the transaction was charged, and what the decorators
    after this one made of the state. -/
def anteHandle (k : Keepers) (ctx : Context) (s : State) (tx : FeeTx) (simulate : Bool)
    (next : ℤ → State → Except FeeError State) : Except FeeError (Charge × State) := do
  if !simulate && 0 < ctx.blockHeight && tx.gas = 0 then
    throw (.wrap .invalidGasLimit "must provide positive gas")
  let taxes ← orPanic (filterMsgAndComputeTax k.treasury tx.msgs)
  let priority ← if simulate then pure 0 else checkTxFee k ctx tx taxes
  let charge ← checkDeductFee k s tx taxes simulate
  let s' ← next priority charge.state
  return (charge, s')

end TerraClassic.Ante
