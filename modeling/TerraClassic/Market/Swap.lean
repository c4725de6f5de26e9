import TerraClassic.Market.Types
import TerraClassic.Oracle.Keeper

/-! # Swaps and the virtual pool

    `ComputeInternalSwap`, `ComputeSwap`, `ApplySwapToPool`,
    `handleSwapRequest` and `ReplenishPools`, over the pool delta and the bank.

    `Dec` operations panic out of their bit bound; inside a handler a panic is
    the error `panicked`.
-/

namespace TerraClassic.Market

open SdkError (orPanic orPanic_eq_ok)

/-! ### State and keepers -/

/-- The market store and the bank. -/
structure State where
  terraPoolDelta : Dec
  bank : BankState

/-- What the market reads: its parameters, the oracle store and the bank's
    configuration. -/
structure Keeper where
  params : Params
  oracle : Oracle.Store
  bank : BankConfig

/-- `GetLunaExchangeRate`. -/
def getLunaExchangeRate (oracle : Oracle.Store) (denom : Denom) : Option Dec :=
  if denom = microLunaDenom then some Dec.one else oracle.exchangeRates.get denom

/-- `GetTobinTax`. -/
def getTobinTax (oracle : Oracle.Store) (denom : Denom) : Except MarketError Dec :=
  match oracle.tobinTaxes.get denom with
  | some tobinTax => .ok tobinTax
  | none => .error (.wrap .noTobinTax denom)

/-! ### Coins -/

/-- `NewDecCoinFromCoin` panics on an invalid coin. -/
def newDecCoinFromCoin (k : Keeper) (coin : Coin) : Option DecCoin :=
  if k.bank.validDenom coin.denom = true ∧ 0 ≤ coin.amount then
    some ⟨coin.denom, Dec.ofInt coin.amount⟩
  else none

/-- `NewDecCoinFromDec` panics on an invalid denom or a negative amount. -/
def newDecCoinFromDec (k : Keeper) (denom : Denom) (amount : Dec) : Option DecCoin :=
  if k.bank.validDenom denom = true ∧ 0 ≤ amount.i then some ⟨denom, amount⟩ else none

/-- `NewCoin` panics likewise. -/
def newCoin (k : Keeper) (denom : Denom) (amount : ℤ) : Option Coin :=
  if k.bank.validDenom denom = true ∧ 0 ≤ amount then some ⟨denom, amount⟩ else none

/-- `TruncateDecimal`: the whole coins, and the rest. -/
def truncateDecimal (k : Keeper) (coin : DecCoin) : Option (Coin × DecCoin) := do
  let truncated := coin.amount.truncateInt
  let change ← coin.amount.sub (Dec.ofInt truncated)
  let whole ← newCoin k coin.denom truncated
  let rest ← newDecCoinFromDec k coin.denom change
  return (whole, rest)

/-! ### Computing a swap -/

/-- `ComputeInternalSwap`. -/
def computeInternalSwap (k : Keeper) (offerCoin : DecCoin) (askDenom : Denom) :
    Except MarketError DecCoin :=
  if offerCoin.denom = askDenom then .ok offerCoin
  else
    match getLunaExchangeRate k.oracle offerCoin.denom with
    | none => .error (.wrap .noEffectivePrice offerCoin.denom)
    | some offerRate =>
      match getLunaExchangeRate k.oracle askDenom with
      | none => .error (.wrap .noEffectivePrice askDenom)
      | some askRate => do
        let product ← orPanic (offerCoin.amount.mul askRate)
        let retAmount ← orPanic (product.quo offerRate)
        if retAmount ≤ Dec.zero then throw (.wrap .invalidCoins offerCoin.string)
        orPanic (newDecCoinFromDec k askDenom retAmount)

/-- The spread of the constant product between Terra and Luna: the relative
    difference of what is offered and what the pools would return, in the base
    denom. -/
def constantProductSpread (params : Params) (terraPoolDelta : Dec) (offerIsLuna : Bool)
    (baseOfferAmount : Dec) : Option Dec := do
  let cp ← params.basePool.mul params.basePool
  let terraPool ← params.basePool.add terraPoolDelta
  let lunaPool ← cp.quo terraPool
  let offerPool := if offerIsLuna then lunaPool else terraPool
  let askPool := if offerIsLuna then terraPool else lunaPool
  let newOfferPool ← offerPool.add baseOfferAmount
  let newAskPool ← cp.quo newOfferPool
  let askBaseAmount ← askPool.sub newAskPool
  let difference ← baseOfferAmount.sub askBaseAmount
  let spread ← difference.quo baseOfferAmount
  return if spread < params.minStabilitySpread then params.minStabilitySpread else spread

/-- `ComputeSwap`. -/
def computeSwap (k : Keeper) (s : State) (offerCoin : Coin) (askDenom : Denom) :
    Except MarketError (DecCoin × Dec) := do
  if offerCoin.denom = askDenom then throw (.wrap .recursiveSwap askDenom)
  let offerDecCoin ← orPanic (newDecCoinFromCoin k offerCoin)
  let baseOfferDecCoin ← computeInternalSwap k offerDecCoin microSDRDenom
  let retDecCoin ← computeInternalSwap k baseOfferDecCoin askDenom
  if offerCoin.denom ≠ microLunaDenom ∧ askDenom ≠ microLunaDenom then
    let offerTobinTax ← getTobinTax k.oracle offerCoin.denom
    let askTobinTax ← getTobinTax k.oracle askDenom
    return (retDecCoin, if offerTobinTax < askTobinTax then askTobinTax else offerTobinTax)
  else
    let spread ← orPanic (constantProductSpread k.params s.terraPoolDelta
      (offerCoin.denom = microLunaDenom) baseOfferDecCoin.amount)
    return (retDecCoin, spread)

/-- `ApplySwapToPool`: the new pool delta. -/
def applySwapToPool (k : Keeper) (terraPoolDelta : Dec) (offerCoin : Coin) (askCoin : DecCoin) :
    Except MarketError Dec :=
  if offerCoin.denom ≠ microLunaDenom ∧ askCoin.denom ≠ microLunaDenom then .ok terraPoolDelta
  else if offerCoin.denom ≠ microLunaDenom then do
    let offerDecCoin ← orPanic (newDecCoinFromCoin k offerCoin)
    let offerBaseCoin ← computeInternalSwap k offerDecCoin microSDRDenom
    orPanic (terraPoolDelta.add offerBaseCoin.amount)
  else if askCoin.denom ≠ microLunaDenom then do
    let askBaseCoin ← computeInternalSwap k askCoin microSDRDenom
    orPanic (terraPoolDelta.sub askBaseCoin.amount)
  else .ok terraPoolDelta

/-! ### Messages -/

/-- `MsgSwapResponse` and `MsgSwapSendResponse`. -/
structure SwapResponse where
  swapCoin : Coin
  swapFee : Coin
  deriving DecidableEq, Repr

/-- `ModuleName`. -/
def moduleName : String := "market"

/-- `oracletypes.ModuleName`. -/
def oracleModuleName : String := "oracle"

/-- `sdk.NewCoins(coin)`; an invalid coin panics. -/
def newCoins (k : Keeper) (coin : Coin) : Option Coins := do
  let coin ← newCoin k coin.denom coin.amount
  return Coins.ofCoin coin.denom coin.amount

/-- The bank part of `handleSwapRequest`: burn the offer, mint what was asked
    with the fee, and pay both out. -/
def settle (k : Keeper) (bank : BankState) (trader receiver : AccAddr) (offerCoin : Coin)
    (swapDecCoin feeDecCoin : DecCoin) : Except MarketError (BankState × SwapResponse) := do
  let offerCoins ← orPanic (newCoins k offerCoin)
  let bank ← (bank.sendCoinsFromAccountToModule k.bank trader moduleName offerCoins).mapError .bank
  let bank ← (bank.burnCoins k.bank moduleName offerCoins).mapError .bank
  let (swapCoin, decimalCoin) ← orPanic (truncateDecimal k swapDecCoin)
  if swapCoin.amount ≤ 0 then throw (.registered .zeroSwapCoin)
  let feeAmount ← orPanic (feeDecCoin.amount.add decimalCoin.amount)
  let (feeCoin, _) ← orPanic (truncateDecimal k ⟨feeDecCoin.denom, feeAmount⟩)
  let mintCoins ← orPanic (newCoins k ⟨swapCoin.denom, swapCoin.amount + feeCoin.amount⟩)
  let bank := bank.mintCoins k.bank moduleName mintCoins
  let swapCoins ← orPanic (newCoins k swapCoin)
  let bank ← (bank.sendCoinsFromModuleToAccount k.bank moduleName receiver swapCoins).mapError .bank
  if 0 < feeCoin.amount then
    let feeCoins ← orPanic (newCoins k feeCoin)
    let bank ← (bank.sendCoinsFromModuleToModule k.bank moduleName oracleModuleName
      feeCoins).mapError .bank
    return (bank, ⟨swapCoin, feeCoin⟩)
  else
    return (bank, ⟨swapCoin, feeCoin⟩)

/-- The fee of a swap: the spread, if it is positive. -/
def swapFee (k : Keeper) (swapDecCoin : DecCoin) (spread : Dec) : Option DecCoin :=
  if spread.isPositive then do
    let fee ← spread.mul swapDecCoin.amount
    newDecCoinFromDec k swapDecCoin.denom fee
  else newDecCoinFromDec k swapDecCoin.denom Dec.zero

/-- `handleSwapRequest`. -/
def handleSwapRequest (k : Keeper) (s : State) (trader receiver : AccAddr) (offerCoin : Coin)
    (askDenom : Denom) : Except MarketError (State × SwapResponse) := do
  let (retDecCoin, spread) ← computeSwap k s offerCoin askDenom
  let feeDecCoin ← orPanic (swapFee k retDecCoin spread)
  let amount ← orPanic (retDecCoin.amount.sub feeDecCoin.amount)
  let swapDecCoin : DecCoin := ⟨retDecCoin.denom, amount⟩
  let terraPoolDelta ← applySwapToPool k s.terraPoolDelta offerCoin swapDecCoin
  let (bank, response) ← settle k s.bank trader receiver offerCoin swapDecCoin feeDecCoin
  return (⟨terraPoolDelta, bank⟩, response)

/-- `Swap`, with the checks of `ValidateBasic` before it. -/
def swap (bech32 : Bech32) (k : Keeper) (s : State) (msg : MsgSwap) :
    Except MarketError (State × SwapResponse) := do
  msg.validateBasic bech32
  let addr ← (bech32.accAddressFromBech32 msg.trader).mapError .plain
  handleSwapRequest k s addr addr msg.offerCoin msg.askDenom

/-- `SwapSend`, with the checks of `ValidateBasic` before it. -/
def swapSend (bech32 : Bech32) (k : Keeper) (s : State) (msg : MsgSwapSend) :
    Except MarketError (State × SwapResponse) := do
  msg.validateBasic bech32
  let fromAddr ← (bech32.accAddressFromBech32 msg.fromAddress).mapError .plain
  let toAddr ← (bech32.accAddressFromBech32 msg.toAddress).mapError .plain
  handleSwapRequest k s fromAddr toAddr msg.offerCoin msg.askDenom

/-- `ReplenishPools`: the new pool delta.  The period is read as an `int64`. -/
def replenishPools (params : Params) (terraPoolDelta : Dec) : Option Dec := do
  let poolRegressionAmt ← terraPoolDelta.quoInt64 (toInt64 params.poolRecoveryPeriod.toNat)
  terraPoolDelta.sub poolRegressionAmt

/-! ### What a success says -/

theorem newCoin_eq_some {k : Keeper} {denom : Denom} {amount : ℤ} {coin : Coin}
    (h : newCoin k denom amount = some coin) : coin = ⟨denom, amount⟩ ∧ 0 ≤ amount := by
  unfold newCoin at h
  split at h
  · next hvalid => exact ⟨(Option.some.inj h).symm, hvalid.2⟩
  · cases h

theorem newCoins_eq_some {k : Keeper} {coin : Coin} {coins : Coins}
    (h : newCoins k coin = some coins) : coins = Coins.ofCoin coin.denom coin.amount := by
  obtain ⟨valid, hvalid, h⟩ := Option.bind_eq_some_iff.mp h
  obtain ⟨rfl, _⟩ := newCoin_eq_some hvalid
  exact (Option.some.inj h).symm

theorem newDecCoinFromDec_eq_some {k : Keeper} {denom : Denom} {amount : Dec} {coin : DecCoin}
    (h : newDecCoinFromDec k denom amount = some coin) : coin = ⟨denom, amount⟩ ∧ 0 ≤ amount.i := by
  unfold newDecCoinFromDec at h
  split at h
  · next hvalid => exact ⟨(Option.some.inj h).symm, hvalid.2⟩
  · cases h

/-- Of an amount that is not negative `TruncateDecimal` splits off the floor. -/
theorem truncateDecimal_eq_some {k : Keeper} {coin rest : DecCoin} {whole : Coin}
    (h : truncateDecimal k coin = some (whole, rest)) :
    whole = ⟨coin.denom, coin.amount.i / decOne⟩ ∧
      rest = ⟨coin.denom, ⟨coin.amount.i % decOne⟩⟩ ∧ 0 ≤ coin.amount.i := by
  obtain ⟨change, hchange, h⟩ := Option.bind_eq_some_iff.mp h
  obtain ⟨whole', hwhole, h⟩ := Option.bind_eq_some_iff.mp h
  obtain ⟨rest', hrest, h⟩ := Option.bind_eq_some_iff.mp h
  cases h
  obtain ⟨rfl, hfloor⟩ := newCoin_eq_some hwhole
  obtain ⟨rfl, hnonneg⟩ := newDecCoinFromDec_eq_some hrest
  have hraw : change.i = coin.amount.i - coin.amount.i.tdiv decOne * decOne := Dec.sub_raw hchange
  -- `NewCoin` has refused a negative floor, and the rest is not negative
  have hamount : 0 ≤ coin.amount.i := by
    have := mul_nonneg hfloor (Int.natCast_nonneg decOne)
    unfold Dec.truncateInt at this
    omega
  have hdiv : coin.amount.i.tdiv decOne = coin.amount.i / decOne :=
    Int.tdiv_eq_ediv_of_nonneg hamount
  have hchange : change = ⟨coin.amount.i % decOne⟩ := by
    apply Dec.ext
    rw [hraw, hdiv, Int.emod_def, mul_comm]
  unfold Dec.truncateInt
  rw [hdiv, hchange]
  exact ⟨rfl, rfl, hamount⟩

/-- An internal swap between two denoms is one product and one quotient, and
    pays something. -/
theorem computeInternalSwap_ok {k : Keeper} {offerCoin retCoin : DecCoin} {askDenom : Denom}
    (hne : offerCoin.denom ≠ askDenom)
    (h : computeInternalSwap k offerCoin askDenom = .ok retCoin) :
    ∃ offerRate askRate, getLunaExchangeRate k.oracle offerCoin.denom = some offerRate ∧
      getLunaExchangeRate k.oracle askDenom = some askRate ∧
      retCoin = ⟨askDenom, ⟨Dec.quoRaw
        (Dec.chopPrecisionAndRound (offerCoin.amount.i * askRate.i)) offerRate.i⟩⟩ ∧
      0 < retCoin.amount.i := by
  unfold computeInternalSwap at h
  rw [if_neg hne] at h
  cases hoffer : getLunaExchangeRate k.oracle offerCoin.denom with
  | none =>
    rw [hoffer] at h
    cases h
  | some offerRate =>
    cases hask : getLunaExchangeRate k.oracle askDenom with
    | none =>
      rw [hoffer, hask] at h
      cases h
    | some askRate =>
      simp only [hoffer, hask] at h
      obtain ⟨product, hmul, h⟩ := Run.bind_eq_ok.mp h
      obtain ⟨retAmount, hquo, h⟩ := Run.bind_eq_ok.mp h
      by_cases hle : retAmount ≤ Dec.zero
      · simp only [if_pos hle] at h
        cases h
      · simp only [if_neg hle] at h
        obtain ⟨rfl, _⟩ := newDecCoinFromDec_eq_some (orPanic_eq_ok.mp h)
        refine ⟨offerRate, askRate, rfl, rfl, ?_, not_le.mp hle⟩
        rw [← Dec.mul_raw (orPanic_eq_ok.mp hmul), ← Dec.quo_raw (orPanic_eq_ok.mp hquo)]

/-- Luna is worth its amount times the rate, exactly. -/
theorem computeInternalSwap_luna {k : Keeper} {amount : ℤ} {askDenom : Denom} {retCoin : DecCoin}
    (hne : askDenom ≠ microLunaDenom)
    (h : computeInternalSwap k ⟨microLunaDenom, Dec.ofInt amount⟩ askDenom = .ok retCoin) :
    ∃ askRate, getLunaExchangeRate k.oracle askDenom = some askRate ∧
      retCoin = ⟨askDenom, ⟨amount * askRate.i⟩⟩ ∧ 0 < amount * askRate.i := by
  obtain ⟨offerRate, askRate, hoffer, hask, hret, hpos⟩ := computeInternalSwap_ok hne.symm h
  have hone : offerRate = Dec.one := by
    unfold getLunaExchangeRate at hoffer
    rw [if_pos rfl] at hoffer
    exact (Option.some.inj hoffer).symm
  have hraw : Dec.quoRaw (Dec.chopPrecisionAndRound ((Dec.ofInt amount).i * askRate.i))
      offerRate.i = amount * askRate.i := by
    rw [hone, show (Dec.ofInt amount).i * askRate.i = decOne * (amount * askRate.i) by
      unfold Dec.ofInt; ring, Dec.chop_mul]
    exact Dec.quoRaw_one _
  rw [hraw] at hret
  subst hret
  exact ⟨askRate, hask, rfl, hpos⟩

/-- The raw Terra pool that the constant product leaves after a Luna offer. -/
def newTerraPool (basePool terraPool baseOffer : ℤ) : ℤ :=
  let cp := Dec.chopPrecisionAndRound (basePool * basePool)
  Dec.quoRaw cp (Dec.quoRaw cp terraPool + baseOffer)

/-- The raw spread of a Luna offer, before the minimum. -/
def lunaSpread (basePool terraPool baseOffer : ℤ) : ℤ :=
  Dec.quoRaw (baseOffer - (terraPool - newTerraPool basePool terraPool baseOffer)) baseOffer

theorem constantProductSpread_luna {params : Params} {terraPoolDelta baseOffer spread : Dec}
    (h : constantProductSpread params terraPoolDelta true baseOffer = some spread) :
    spread.i = max params.minStabilitySpread.i
      (lunaSpread params.basePool.i (params.basePool.i + terraPoolDelta.i) baseOffer.i) := by
  obtain ⟨cp, hcp, h⟩ := Option.bind_eq_some_iff.mp h
  obtain ⟨terraPool, hterra, h⟩ := Option.bind_eq_some_iff.mp h
  obtain ⟨lunaPool, hluna, h⟩ := Option.bind_eq_some_iff.mp h
  simp only [if_true] at h
  obtain ⟨newOfferPool, hoffer, h⟩ := Option.bind_eq_some_iff.mp h
  obtain ⟨newAskPool, hnew, h⟩ := Option.bind_eq_some_iff.mp h
  obtain ⟨askBaseAmount, hask, h⟩ := Option.bind_eq_some_iff.mp h
  obtain ⟨difference, hdiff, h⟩ := Option.bind_eq_some_iff.mp h
  obtain ⟨exact, hexact, h⟩ := Option.bind_eq_some_iff.mp h
  have hraw : exact.i =
      lunaSpread params.basePool.i (params.basePool.i + terraPoolDelta.i) baseOffer.i := by
    unfold lunaSpread newTerraPool
    rw [Dec.quo_raw hexact, Dec.sub_raw hdiff, Dec.sub_raw hask, Dec.quo_raw hnew,
      Dec.add_raw hoffer, Dec.quo_raw hluna, Dec.add_raw hterra, Dec.mul_raw hcp]
  rw [← hraw, ← Option.some.inj h]
  split
  · next hlt => exact (max_eq_left (le_of_lt (Dec.lt_def.mp hlt))).symm
  · next hge => exact (max_eq_right (Dec.le_def.mp (not_lt.mp hge))).symm

theorem luna_ne_sdr : microLunaDenom ≠ microSDRDenom := by decide

/-- The price and the spread of an offer of Luna. -/
theorem computeSwap_luna {k : Keeper} {s : State} {amount : ℤ} {askDenom : Denom}
    {retCoin : DecCoin} {spread : Dec} (hne : askDenom ≠ microLunaDenom)
    (h : computeSwap k s ⟨microLunaDenom, amount⟩ askDenom = .ok (retCoin, spread)) :
    ∃ sdrRate, getLunaExchangeRate k.oracle microSDRDenom = some sdrRate ∧
      0 < amount * sdrRate.i ∧
      computeInternalSwap k ⟨microSDRDenom, ⟨amount * sdrRate.i⟩⟩ askDenom = .ok retCoin ∧
      spread.i = max k.params.minStabilitySpread.i (lunaSpread k.params.basePool.i
        (k.params.basePool.i + s.terraPoolDelta.i) (amount * sdrRate.i)) := by
  unfold computeSwap at h
  simp only [if_neg hne.symm] at h
  obtain ⟨offerDecCoin, hoffer, h⟩ := Run.bind_eq_ok.mp h
  obtain ⟨baseOfferDecCoin, hbase, h⟩ := Run.bind_eq_ok.mp h
  obtain ⟨retDecCoin, hret, h⟩ := Run.bind_eq_ok.mp h
  -- the offer is Luna, so the spread is that of the constant product
  rw [if_neg (fun hterra => hterra.1 rfl)] at h
  obtain ⟨s₀, hspread, h⟩ := Run.bind_eq_ok.mp h
  cases h
  have hoffer := orPanic_eq_ok.mp hoffer
  unfold newDecCoinFromCoin at hoffer
  split at hoffer
  · cases hoffer
    obtain ⟨sdrRate, hsdr, rfl, hpos⟩ := computeInternalSwap_luna luna_ne_sdr.symm hbase
    refine ⟨sdrRate, hsdr, hpos, hret, ?_⟩
    have hspread := orPanic_eq_ok.mp hspread
    simp only [decide_true] at hspread
    exact constantProductSpread_luna hspread
  · cases hoffer

/-- A swap of Luna for Terra takes what it pays, in the base denom, from the
    pool. -/
theorem applySwapToPool_luna {k : Keeper} {terraPoolDelta delta' : Dec} {amount : ℤ}
    {askCoin : DecCoin} (hne : askCoin.denom ≠ microLunaDenom)
    (h : applySwapToPool k terraPoolDelta ⟨microLunaDenom, amount⟩ askCoin = .ok delta') :
    ∃ baseCoin, computeInternalSwap k askCoin microSDRDenom = .ok baseCoin ∧
      delta'.i = terraPoolDelta.i - baseCoin.amount.i := by
  unfold applySwapToPool at h
  rw [if_neg (fun hterra => hterra.1 rfl), if_neg (fun hterra => hterra rfl), if_pos hne] at h
  obtain ⟨baseCoin, hbase, h⟩ := Run.bind_eq_ok.mp h
  exact ⟨baseCoin, hbase, Dec.sub_raw (orPanic_eq_ok.mp h)⟩

/-- The fee at a spread that is not negative is the product of `Dec`s. -/
theorem swapFee_mul {k : Keeper} {coin fee : DecCoin} {spread : Dec} (hspread : Dec.zero ≤ spread)
    (h : swapFee k coin spread = some fee) :
    fee.denom = coin.denom ∧ spread.mul coin.amount = some fee.amount := by
  unfold swapFee at h
  split at h
  · obtain ⟨amount, hmul, h⟩ := Option.bind_eq_some_iff.mp h
    obtain ⟨rfl, _⟩ := newDecCoinFromDec_eq_some h
    exact ⟨rfl, hmul⟩
  · next hzero =>
    obtain ⟨rfl, _⟩ := newDecCoinFromDec_eq_some h
    have hle : ¬ 0 < spread.i := by simpa [Dec.isPositive] using hzero
    have hspread : spread = Dec.zero := le_antisymm (Dec.le_def.mpr (not_lt.mp hle)) hspread
    refine ⟨rfl, ?_⟩
    show Dec.checked (Dec.chopPrecisionAndRound (spread.i * coin.amount.i)) = _
    have hprod : spread.i * coin.amount.i = decOne * 0 := by
      rw [hspread]
      show 0 * coin.amount.i = _
      ring
    rw [hprod, Dec.chop_mul]
    exact Dec.checked_of_fits Dec.fits_zero

/-- The fee is the rounded product of the spread and the amount. -/
theorem swapFee_raw {k : Keeper} {coin fee : DecCoin} {spread : Dec} (hspread : 0 ≤ spread.i)
    (h : swapFee k coin spread = some fee) :
    fee.denom = coin.denom ∧
      fee.amount.i = Dec.chopPrecisionAndRound (spread.i * coin.amount.i) := by
  obtain ⟨hdenom, hmul⟩ := swapFee_mul (Dec.le_def.mpr hspread) h
  exact ⟨hdenom, Dec.mul_raw hmul⟩

/-- A swap is settled only if it pays a whole coin. -/
theorem settle_ok {k : Keeper} {bank : BankState} {trader receiver : AccAddr} {offerCoin : Coin}
    {swapDecCoin feeDecCoin : DecCoin} {result : BankState × SwapResponse}
    (h : settle k bank trader receiver offerCoin swapDecCoin feeDecCoin = .ok result) :
    (decOne : ℤ) ≤ swapDecCoin.amount.i := by
  obtain ⟨offerCoins, _, h⟩ := Run.bind_eq_ok.mp h
  obtain ⟨bank₁, _, h⟩ := Run.bind_eq_ok.mp h
  obtain ⟨bank₂, _, h⟩ := Run.bind_eq_ok.mp h
  obtain ⟨⟨swapCoin, decimalCoin⟩, htrunc, h⟩ := Run.bind_eq_ok.mp h
  by_cases hzero : swapCoin.amount ≤ 0
  · simp only [if_pos hzero] at h
    cases h
  · obtain ⟨rfl, _, _⟩ := truncateDecimal_eq_some (orPanic_eq_ok.mp htrunc)
    have hwhole : 1 ≤ swapDecCoin.amount.i / (decOne : ℤ) := not_le.mp hzero
    rw [Int.le_ediv_iff_mul_le Dec.decOne_posInt, one_mul] at hwhole
    exact hwhole

end TerraClassic.Market
