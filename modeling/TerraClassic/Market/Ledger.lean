import TerraClassic.Market.Pool

/-! # What a swap does to the ledger

    A swap moves the offer to the market account and burns it there, mints the
    whole coins of the price, and pays them out: the price less the spread,
    truncated, to the receiver, and the rest of the whole coins to the oracle
    account.

    The fee is a rounded product; the fraction cut off the payout is added to it
    before it is truncated in turn.  Payout and fee add up to the truncated price
    whatever the roundings did, so every coin minted is paid out
    (`settle_ledger`).
-/

namespace TerraClassic.Market

open SdkError (orPanic orPanic_eq_ok mapError_eq_ok)

/-! ### Settling a swap -/

/-- The bank after a swap of `offer` for the whole coins of `price`, of which
    the receiver gets `paid`. -/
structure Settled (k : Keeper) (bank bank' : BankState) (trader receiver : AccAddr) (offer : Coin)
    (askDenom : Denom) (price paid : ℤ) : Prop where
  supply : ∀ denom, bank'.supply denom = bank.supply denom -
    (if denom = offer.denom then offer.amount else 0) + (if denom = askDenom then price else 0)
  balances : ∀ addr denom, bank'.balances addr denom = bank.balances addr denom -
    (if addr = trader ∧ denom = offer.denom then offer.amount else 0) +
    (if addr = receiver ∧ denom = askDenom then paid else 0) +
    (if addr = k.bank.moduleAddress oracleModuleName ∧ denom = askDenom then price - paid else 0)
  receiver_open : k.bank.blocked receiver = false

/-- The fee with the fraction of the payout, truncated, is what the payout
    leaves of the truncated price. -/
theorem fee_add_fraction (payout fee : ℤ) :
    (fee + payout % decOne) / decOne = (payout + fee) / decOne - payout / decOne := by
  have hsplit : fee + payout % decOne = payout + fee - payout / decOne * decOne := by
    rw [Int.emod_def]
    ring
  rw [hsplit, Int.sub_mul_ediv_right _ _ (by exact_mod_cast Dec.decOne_pos.ne')]

/-- Taking the offer in and burning it. -/
theorem burn_offer {k : Keeper} {bank bank₁ bank₂ : BankState} {trader : AccAddr} {offer : Coins}
    (hsend : bank.sendCoinsFromAccountToModule k.bank trader moduleName offer = .ok bank₁)
    (hburn : bank₁.burnCoins k.bank moduleName offer = .ok bank₂) :
    (∀ denom, bank₂.supply denom = bank.supply denom - offer.amountOf denom) ∧
    ∀ addr denom, bank₂.balances addr denom = bank.balances addr denom -
      (if addr = trader then offer.amountOf denom else 0) := by
  obtain ⟨hbalances, hsupply⟩ := BankState.burnCoins_ok hburn
  refine ⟨?_, ?_⟩
  · intro denom
    rw [hsupply, BankState.sendCoins_supply hsend]
  · intro addr denom
    -- the market account got what it then burned
    rw [hbalances, BankState.sendCoins_ok hsend]
    ring

/-- Minting the two parts of the price and paying them out. -/
theorem mint_price {k : Keeper} {bank bank₁ bank₂ : BankState} {receiver : AccAddr}
    {minted paid fee : Coins} (hminted : ∀ denom, minted.amountOf denom =
      paid.amountOf denom + fee.amountOf denom)
    (hpaid : (bank.mintCoins k.bank moduleName minted).sendCoins k.bank
      (k.bank.moduleAddress moduleName) receiver paid = .ok bank₁)
    (hfee : bank₁.sendCoins k.bank (k.bank.moduleAddress moduleName)
      (k.bank.moduleAddress oracleModuleName) fee = .ok bank₂) :
    (∀ denom, bank₂.supply denom = bank.supply denom + minted.amountOf denom) ∧
    ∀ addr denom, bank₂.balances addr denom = bank.balances addr denom +
      (if addr = receiver then paid.amountOf denom else 0) +
      (if addr = k.bank.moduleAddress oracleModuleName then fee.amountOf denom else 0) := by
  refine ⟨?_, ?_⟩
  · intro denom
    rw [BankState.sendCoins_supply hfee, BankState.sendCoins_supply hpaid,
      BankState.mintCoins_supply]
  · intro addr denom
    rw [BankState.sendCoins_ok hfee, BankState.sendCoins_ok hpaid, BankState.mintCoins_balances,
      hminted]
    by_cases hmarket : addr = k.bank.moduleAddress moduleName
    · simp only [if_pos hmarket]
      ring
    · simp only [if_neg hmarket]
      ring

/-- The bank and the response after a settled swap. -/
theorem settle_ledger {k : Keeper} {bank bank' : BankState} {trader receiver : AccAddr}
    {offerCoin : Coin} {swapDecCoin feeDecCoin : DecCoin} {response : SwapResponse}
    (hdenom : feeDecCoin.denom = swapDecCoin.denom)
    (h : settle k bank trader receiver offerCoin swapDecCoin feeDecCoin = .ok (bank', response)) :
    response.swapCoin = ⟨swapDecCoin.denom, swapDecCoin.amount.i / decOne⟩ ∧
    response.swapFee = ⟨swapDecCoin.denom, (swapDecCoin.amount.i + feeDecCoin.amount.i) / decOne -
      swapDecCoin.amount.i / decOne⟩ ∧
    Settled k bank bank' trader receiver offerCoin swapDecCoin.denom
      ((swapDecCoin.amount.i + feeDecCoin.amount.i) / decOne)
      (swapDecCoin.amount.i / decOne) := by
  unfold settle at h
  obtain ⟨offerCoins, hoffer, h⟩ := Run.bind_eq_ok.mp h
  obtain ⟨bank₁, hsend, h⟩ := Run.bind_eq_ok.mp h
  obtain ⟨bank₂, hburn, h⟩ := Run.bind_eq_ok.mp h
  obtain ⟨⟨swapCoin, decimalCoin⟩, htrunc, h⟩ := Run.bind_eq_ok.mp h
  by_cases hzero : swapCoin.amount ≤ 0
  · simp only [if_pos hzero] at h
    cases h
  simp only [if_neg hzero] at h
  obtain ⟨feeAmount, hfee, h⟩ := Run.bind_eq_ok.mp h
  obtain ⟨⟨feeCoin, dust⟩, hfeeCoin, h⟩ := Run.bind_eq_ok.mp h
  obtain ⟨mintCoins, hmint, h⟩ := Run.bind_eq_ok.mp h
  obtain ⟨swapCoins, hswap, h⟩ := Run.bind_eq_ok.mp h
  obtain ⟨bank₃, hpay, hlast⟩ := Run.bind_eq_ok.mp h
  -- all steps are peeled off; now what each of them computed
  obtain ⟨hswapCoin, hdecimal, _⟩ := truncateDecimal_eq_some (orPanic_eq_ok.mp htrunc)
  obtain ⟨hfeeCoin, _, hfeeNonneg⟩ := truncateDecimal_eq_some (orPanic_eq_ok.mp hfeeCoin)
  have hfeeRaw := Dec.add_raw (orPanic_eq_ok.mp hfee)
  obtain rfl := newCoins_eq_some (orPanic_eq_ok.mp hoffer)
  obtain rfl := newCoins_eq_some (orPanic_eq_ok.mp hmint)
  obtain rfl := newCoins_eq_some (orPanic_eq_ok.mp hswap)
  obtain ⟨hopen, hpay⟩ := BankState.sendCoinsFromModuleToAccount_ok (mapError_eq_ok.mp hpay)
  subst hswapCoin hdecimal hfeeCoin
  set paid := swapDecCoin.amount.i / decOne with hpaid
  set price := (swapDecCoin.amount.i + feeDecCoin.amount.i) / decOne with hprice
  have hfee : feeAmount.i / decOne = price - paid := by
    rw [hfeeRaw]
    exact fee_add_fraction _ _
  simp only [hfee, hdenom] at hlast hpay
  obtain ⟨hsupply₂, hbalances₂⟩ := burn_offer (mapError_eq_ok.mp hsend) (mapError_eq_ok.mp hburn)
  -- with no fee the last send is skipped, which is a send of nothing
  have hfinal : response = ⟨⟨swapDecCoin.denom, paid⟩, ⟨swapDecCoin.denom, price - paid⟩⟩ ∧
      bank₃.sendCoins k.bank (k.bank.moduleAddress moduleName)
        (k.bank.moduleAddress oracleModuleName)
        (Coins.ofCoin swapDecCoin.denom (price - paid)) = .ok bank' := by
    by_cases hpos : 0 < price - paid
    · simp only [if_pos hpos] at hlast
      obtain ⟨feeCoins, hcoins, hlast⟩ := Run.bind_eq_ok.mp hlast
      obtain ⟨bank₄, hsendFee, hlast⟩ := Run.bind_eq_ok.mp hlast
      cases hlast
      obtain rfl := newCoins_eq_some (orPanic_eq_ok.mp hcoins)
      exact ⟨rfl, mapError_eq_ok.mp hsendFee⟩
    · simp only [if_neg hpos] at hlast
      cases hlast
      have hnone : price - paid = 0 := by
        have : 0 ≤ feeAmount.i / (decOne : ℤ) := Int.ediv_nonneg hfeeNonneg (Int.natCast_nonneg _)
        omega
      rw [hnone]
      exact ⟨rfl, BankState.sendCoins_empty _ _ _ _⟩
  obtain ⟨rfl, hfinal⟩ := hfinal
  have hminted : ∀ denom, (Coins.ofCoin swapDecCoin.denom (paid + (price - paid))).amountOf denom =
      (Coins.ofCoin swapDecCoin.denom paid).amountOf denom +
        (Coins.ofCoin swapDecCoin.denom (price - paid)).amountOf denom := by
    intro denom
    simp only [Coins.amountOf_ofCoin]
    split_ifs <;> ring
  obtain ⟨hsupply, hbalances⟩ := mint_price hminted hpay hfinal
  refine ⟨rfl, rfl, ?_, ?_, hopen⟩
  · intro denom
    rw [hsupply, hsupply₂, Coins.amountOf_ofCoin, Coins.amountOf_ofCoin, add_sub_cancel]
  · intro addr denom
    rw [hbalances, hbalances₂]
    simp only [Coins.amountOf_ofCoin, ite_and]

/-! ### The ledger of a swap -/

/-- The price is in the asked denom. -/
theorem computeInternalSwap_denom {k : Keeper} {offerCoin retCoin : DecCoin} {askDenom : Denom}
    (h : computeInternalSwap k offerCoin askDenom = .ok retCoin) : retCoin.denom = askDenom := by
  by_cases hne : offerCoin.denom = askDenom
  · unfold computeInternalSwap at h
    rw [if_pos hne] at h
    cases h
    exact hne
  · obtain ⟨_, _, _, _, rfl, _⟩ := computeInternalSwap_ok hne h
    rfl

theorem computeSwap_denom {k : Keeper} {s : State} {offerCoin : Coin} {askDenom : Denom}
    {ret : DecCoin} {spread : Dec} (h : computeSwap k s offerCoin askDenom = .ok (ret, spread)) :
    ret.denom = askDenom := by
  unfold computeSwap at h
  by_cases hrec : offerCoin.denom = askDenom
  · simp only [if_pos hrec] at h
    cases h
  simp only [if_neg hrec] at h
  obtain ⟨offerDecCoin, _, h⟩ := Run.bind_eq_ok.mp h
  obtain ⟨baseOfferDecCoin, _, h⟩ := Run.bind_eq_ok.mp h
  obtain ⟨retDecCoin, hret, h⟩ := Run.bind_eq_ok.mp h
  have heq : retDecCoin = ret := by
    by_cases hterra : offerCoin.denom ≠ microLunaDenom ∧ askDenom ≠ microLunaDenom
    · rw [if_pos hterra] at h
      obtain ⟨_, _, h⟩ := Run.bind_eq_ok.mp h
      obtain ⟨_, _, h⟩ := Run.bind_eq_ok.mp h
      cases h
      rfl
    · rw [if_neg hterra] at h
      obtain ⟨_, _, h⟩ := Run.bind_eq_ok.mp h
      cases h
      rfl
  exact heq ▸ computeInternalSwap_denom hret

/-- Every successful swap at a spread in `[0, 1]`.  With `ret` the price that
    `ComputeSwap` returned and `fee` the product of spread and price:

    * the supply of the offered denom falls by the offer and that of the asked
      denom rises by the whole coins of the price;
    * the receiver gets the whole coins of the price less the fee, the oracle
      account the other minted coins, and the trader pays the offer;
    * no other balance changes, in particular none of the market account, which
      no trader owns, is not the oracle's and may not receive payments. -/
theorem swap_ledger {k : Keeper} {s s' : State} {trader receiver : AccAddr} {offerCoin : Coin}
    {askDenom : Denom} {ret : DecCoin} {spread : Dec} {response : SwapResponse}
    (hret : computeSwap k s offerCoin askDenom = .ok (ret, spread))
    (hspread : Dec.zero ≤ spread ∧ spread ≤ Dec.one)
    (h : handleSwapRequest k s trader receiver offerCoin askDenom = .ok (s', response)) :
    ∃ fee, spread.mul ret.amount = some fee ∧
      response.swapCoin = ⟨askDenom, (ret.amount.i - fee.i) / decOne⟩ ∧
      response.swapFee = ⟨askDenom, ret.amount.i / decOne - response.swapCoin.amount⟩ ∧
      Settled k s.bank s'.bank trader receiver offerCoin askDenom (ret.amount.i / decOne)
        response.swapCoin.amount ∧
      (trader ≠ k.bank.moduleAddress moduleName →
        k.bank.moduleAddress oracleModuleName ≠ k.bank.moduleAddress moduleName →
        k.bank.blocked (k.bank.moduleAddress moduleName) = true →
        ∀ denom, s'.bank.balances (k.bank.moduleAddress moduleName) denom =
          s.bank.balances (k.bank.moduleAddress moduleName) denom) := by
  unfold handleSwapRequest at h
  obtain ⟨⟨ret', spread'⟩, hret', h⟩ := Run.bind_eq_ok.mp h
  rw [hret] at hret'
  cases hret'
  obtain ⟨feeDecCoin, hfee, h⟩ := Run.bind_eq_ok.mp h
  obtain ⟨amount, hamount, h⟩ := Run.bind_eq_ok.mp h
  obtain ⟨delta, hdelta, h⟩ := Run.bind_eq_ok.mp h
  obtain ⟨⟨bank, response'⟩, hsettle, hresult⟩ := Run.bind_eq_ok.mp h
  cases hresult
  have hraw := Dec.sub_raw (orPanic_eq_ok.mp hamount)
  obtain ⟨hdenom, hmul⟩ := swapFee_mul hspread.1 (orPanic_eq_ok.mp hfee)
  have hdenom : feeDecCoin.denom = (⟨ret.denom, amount⟩ : DecCoin).denom := hdenom
  obtain ⟨hswap, hswapFee, hsettled⟩ := settle_ledger hdenom hsettle
  -- payout and fee were taken apart from the price, so together they are the price
  have hprice : amount.i + feeDecCoin.amount.i = ret.amount.i := by
    rw [hraw]
    ring
  simp only [hprice, computeSwap_denom hret] at hswap hswapFee hsettled
  refine ⟨feeDecCoin.amount, hmul, ?_, ?_, ?_, ?_⟩
  · rw [hswap, hraw]
  · rw [hswapFee, hswap]
  · rw [hswap]
    exact hsettled
  · intro htrader horacle hblocked denom
    have hreceiver : k.bank.moduleAddress moduleName ≠ receiver := by
      intro heq
      have := hsettled.receiver_open
      rw [← heq, hblocked] at this
      cases this
    rw [hsettled.balances]
    simp [htrader.symm, horacle.symm, hreceiver]

/-- The small market with a bank that blocks the market account. -/
def ledgerKeeper : Keeper where
  params := defaultParams
  oracle := smallOracle
  bank := { smallBankConfig with blocked := fun addr => addr = moduleName }

/-- An offer whose fee and payout both have a fraction. -/
theorem swap_ledger_small_offer :
    ∃ s', handleSwapRequest ledgerKeeper smallMarket "a" "b" ⟨microLunaDenom, 1000001⟩
        microSDRDenom = .ok (s', ⟨⟨microSDRDenom, 980000⟩, ⟨microSDRDenom, 20001⟩⟩) ∧
      s'.bank.supply microSDRDenom = 1000001 ∧
      s'.bank.balances "b" microSDRDenom = 980000 ∧
      s'.bank.balances "oracle" microSDRDenom = 20001 ∧
      ∀ denom, s'.bank.balances "market" denom = 0 := by
  have hret : computeSwap ledgerKeeper smallMarket ⟨microLunaDenom, 1000001⟩ microSDRDenom =
      .ok (⟨microSDRDenom, ⟨1000001 * 10 ^ 18⟩⟩, ⟨2 * 10 ^ 16⟩) := by decide +kernel
  have hresponse : (handleSwapRequest ledgerKeeper smallMarket "a" "b" ⟨microLunaDenom, 1000001⟩
      microSDRDenom).map Prod.snd =
        .ok ⟨⟨microSDRDenom, 980000⟩, ⟨microSDRDenom, 20001⟩⟩ := by decide +kernel
  cases hswap : handleSwapRequest ledgerKeeper smallMarket "a" "b" ⟨microLunaDenom, 1000001⟩
      microSDRDenom with
  | error err =>
    rw [hswap] at hresponse
    cases hresponse
  | ok result =>
    obtain ⟨s', response⟩ := result
    rw [hswap] at hresponse
    cases hresponse
    obtain ⟨_, _, _, _, hledger, hmarket⟩ := swap_ledger hret (by decide) hswap
    refine ⟨s', rfl, ?_, ?_, ?_, ?_⟩
    · rw [hledger.supply]
      decide
    · rw [hledger.balances]
      decide
    · rw [hledger.balances]
      decide
    · intro denom
      have hempty : smallMarket.bank.balances "market" denom = 0 := by
        have hne : ("market" : AccAddr) ≠ "a" := by decide
        simp [smallMarket, hne]
      exact (hmarket (by decide) (by decide) (by decide) denom).trans hempty

end TerraClassic.Market
