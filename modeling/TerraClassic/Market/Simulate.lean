import TerraClassic.Market.Ledger
import TerraClassic.Market.Spread

/-! # The swap query

    `simulateSwap` computes the coin of a swap a second time: the fee is charged
    only if it is positive, it is taken off with `DecCoin.Sub`, and nothing
    is done to the pool or the bank.

    `simulateSwap_truthful`: whatever `handleSwapRequest` pays, the query said so
    before, and where the query fails the swap fails.
-/

namespace TerraClassic.Market

open SdkError (orPanic orPanic_eq_ok)

/-- What `simulateSwap` ends with instead of a coin: an error of its own checks, `ErrPanic` with
    the text of an error of `ComputeSwap`, or a panic. -/
inductive SimulateError where
  | check (err : MarketError)
  | errPanic (cause : MarketError)
  | panicked
  deriving DecidableEq, Repr

/-- `ErrPanic` wraps the errors that `ComputeSwap` returns; a panic is not one of them. -/
def wrapComputeError : MarketError → SimulateError
  | .panicked => .panicked
  | err => .errPanic err

/-- A panic in the query. -/
def orPanicQuery {α : Type} : Option α → Except SimulateError α
  | some a => .ok a
  | none => .error .panicked

/-- `DecCoin.Sub`. -/
def decCoinSub (coin coinB : DecCoin) : Option DecCoin :=
  if coin.denom ≠ coinB.denom then none
  else do
    let amount ← coin.amount.sub coinB.amount
    if amount.isNegative then none else some ⟨coin.denom, amount⟩

/-- The coin without the fee: the fee is taken off if the spread and the product are
    positive. -/
def simulateFee (k : Keeper) (swapCoin : DecCoin) (spread : Dec) : Option DecCoin :=
  if spread.isPositive then do
    let swapFeeAmt ← spread.mul swapCoin.amount
    if swapFeeAmt.isPositive then do
      let swapFee ← newDecCoinFromDec k swapCoin.denom swapFeeAmt
      decCoinSub swapCoin swapFee
    else some swapCoin
  else some swapCoin

/-- `simulateSwap`. -/
def simulateSwap (k : Keeper) (s : State) (offerCoin : Coin) (askDenom : Denom) :
    Except SimulateError Coin := do
  if askDenom = offerCoin.denom then throw (.check (.wrap .recursiveSwap askDenom))
  if bitLen offerCoin.amount > 100 then throw (.check (.wrap .invalidCoins offerCoin.string))
  let (swapCoin, spread) ← (computeSwap k s offerCoin askDenom).mapError wrapComputeError
  let swapCoin ← orPanicQuery (simulateFee k swapCoin spread)
  let (retCoin, _) ← orPanicQuery (truncateDecimal k swapCoin)
  return retCoin

/-! ### The query and the swap -/

/-- The coin paid is the truncated one. -/
theorem settle_truncate {k : Keeper} {bank : BankState} {trader receiver : AccAddr}
    {offerCoin : Coin} {swapDecCoin feeDecCoin : DecCoin} {result : BankState × SwapResponse}
    (h : settle k bank trader receiver offerCoin swapDecCoin feeDecCoin = .ok result) :
    ∃ rest, truncateDecimal k swapDecCoin = some (result.2.swapCoin, rest) := by
  obtain ⟨offerCoins, _, h⟩ := Run.bind_eq_ok.mp h
  obtain ⟨bank₁, _, h⟩ := Run.bind_eq_ok.mp h
  obtain ⟨bank₂, _, h⟩ := Run.bind_eq_ok.mp h
  obtain ⟨⟨swapCoin, decimalCoin⟩, htrunc, h⟩ := Run.bind_eq_ok.mp h
  refine ⟨decimalCoin, ?_⟩
  rw [orPanic_eq_ok.mp htrunc]
  by_cases hzero : swapCoin.amount ≤ 0
  · simp only [if_pos hzero] at h
    cases h
  simp only [if_neg hzero] at h
  obtain ⟨feeAmount, _, h⟩ := Run.bind_eq_ok.mp h
  obtain ⟨⟨feeCoin, dust⟩, _, h⟩ := Run.bind_eq_ok.mp h
  obtain ⟨mintCoins, _, h⟩ := Run.bind_eq_ok.mp h
  obtain ⟨swapCoins, _, h⟩ := Run.bind_eq_ok.mp h
  obtain ⟨bank₃, _, h⟩ := Run.bind_eq_ok.mp h
  by_cases hfee : 0 < feeCoin.amount
  · simp only [if_pos hfee] at h
    obtain ⟨feeCoins, _, h⟩ := Run.bind_eq_ok.mp h
    obtain ⟨bank₄, _, h⟩ := Run.bind_eq_ok.mp h
    cases h
    rfl
  · simp only [if_neg hfee] at h
    cases h
    rfl

theorem swapFee_denom {k : Keeper} {coin fee : DecCoin} {spread : Dec}
    (h : swapFee k coin spread = some fee) : fee.denom = coin.denom := by
  unfold swapFee at h
  split at h
  · obtain ⟨amount, _, h⟩ := Option.bind_eq_some_iff.mp h
    rw [(newDecCoinFromDec_eq_some h).1]
  · rw [(newDecCoinFromDec_eq_some h).1]

/-- Both ways of taking the fee off leave the same, where the handler's leaves no debt. -/
theorem simulateFee_eq {k : Keeper} {coin fee : DecCoin} {spread amount : Dec}
    (hfee : swapFee k coin spread = some fee) (hsub : coin.amount.sub fee.amount = some amount)
    (hamount : 0 ≤ amount.i) : simulateFee k coin spread = some ⟨coin.denom, amount⟩ := by
  have hraw := Dec.sub_raw hsub
  -- a fee of nothing leaves the coin as it is
  have hnone : fee.amount.i = 0 → some coin = some (⟨coin.denom, amount⟩ : DecCoin) := by
    intro hzero
    have hsame : amount = coin.amount := Dec.ext (by rw [hraw, hzero, sub_zero])
    rw [hsame]
  unfold swapFee at hfee
  unfold simulateFee
  by_cases hpos : spread.isPositive = true
  · rw [if_pos hpos] at hfee ⊢
    obtain ⟨product, hmul, hfee⟩ := Option.bind_eq_some_iff.mp hfee
    obtain ⟨rfl, hnonneg⟩ := newDecCoinFromDec_eq_some hfee
    rw [hmul, Option.bind_eq_bind, Option.bind_some]
    by_cases hfeePos : product.isPositive = true
    · rw [if_pos hfeePos, hfee, Option.bind_eq_bind, Option.bind_some]
      unfold decCoinSub
      have hnot : ¬ amount.isNegative = true := by
        simpa [Dec.isNegative] using hamount
      rw [if_neg (fun hne => hne rfl), hsub, Option.bind_eq_bind, Option.bind_some, if_neg hnot]
    · rw [if_neg hfeePos]
      have hle : ¬ 0 < product.i := by simpa [Dec.isPositive] using hfeePos
      exact hnone (le_antisymm (not_lt.mp hle) hnonneg)
  · rw [if_neg hpos] at hfee ⊢
    obtain ⟨rfl, _⟩ := newDecCoinFromDec_eq_some hfee
    exact hnone rfl

/-- The query on the state before the swap returns the coin the swap pays. -/
theorem simulateSwap_of_handle {k : Keeper} {s s' : State} {trader receiver : AccAddr}
    {offerCoin : Coin} {askDenom : Denom} {response : SwapResponse}
    (hcheck : checkOffer offerCoin askDenom = .ok ())
    (h : handleSwapRequest k s trader receiver offerCoin askDenom = .ok (s', response)) :
    simulateSwap k s offerCoin askDenom = .ok response.swapCoin ∧
      ∃ price, Settled k s.bank s'.bank trader receiver offerCoin askDenom price
        response.swapCoin.amount := by
  obtain ⟨_, hbits, hne⟩ := checkOffer_ok hcheck
  obtain ⟨⟨ret, spread⟩, hcompute, h⟩ := Run.bind_eq_ok.mp h
  obtain ⟨fee, hfee, h⟩ := Run.bind_eq_ok.mp h
  obtain ⟨amount, hamount, h⟩ := Run.bind_eq_ok.mp h
  obtain ⟨delta, _, h⟩ := Run.bind_eq_ok.mp h
  obtain ⟨⟨bank, response'⟩, hsettle, h⟩ := Run.bind_eq_ok.mp h
  cases h
  have hdenom := computeSwap_denom hcompute
  obtain ⟨rest, htrunc⟩ := settle_truncate hsettle
  obtain ⟨hwhole, _, hnonneg⟩ := truncateDecimal_eq_some htrunc
  have hsimulated := simulateFee_eq (orPanic_eq_ok.mp hfee) (orPanic_eq_ok.mp hamount) hnonneg
  constructor
  · unfold simulateSwap
    rw [if_neg hne.symm, if_neg (not_lt.mpr hbits), hcompute]
    show (orPanicQuery (simulateFee k ret spread) >>= _) = _
    rw [hsimulated]
    show (orPanicQuery (truncateDecimal k ⟨ret.denom, amount⟩) >>= _) = _
    rw [htrunc]
    rfl
  · have hfeeDenom : fee.denom = ret.denom := swapFee_denom (orPanic_eq_ok.mp hfee)
    have hfeeDenom : fee.denom = (⟨ret.denom, amount⟩ : DecCoin).denom := hfeeDenom
    obtain ⟨hcoin, _, hsettled⟩ := settle_ledger hfeeDenom hsettle
    rw [hcoin]
    exact ⟨_, hdenom ▸ hsettled⟩

/-- For every offer that passes `ValidateBasic`: if the swap succeeds, the query on the state
    before it returns the coin that is credited to the receiver; if the query fails, so does the
    swap. -/
theorem simulateSwap_truthful (k : Keeper) (s : State) (trader receiver : AccAddr)
    (offerCoin : Coin) (askDenom : Denom) (hcheck : checkOffer offerCoin askDenom = .ok ()) :
    (∀ s' response,
      handleSwapRequest k s trader receiver offerCoin askDenom = .ok (s', response) →
      simulateSwap k s offerCoin askDenom = .ok response.swapCoin ∧
        ∃ price, Settled k s.bank s'.bank trader receiver offerCoin askDenom price
          response.swapCoin.amount) ∧
    ∀ err, simulateSwap k s offerCoin askDenom = .error err →
      ∃ err', handleSwapRequest k s trader receiver offerCoin askDenom = .error err' := by
  refine ⟨fun s' response h => simulateSwap_of_handle hcheck h, ?_⟩
  intro err herr
  cases hswap : handleSwapRequest k s trader receiver offerCoin askDenom with
  | error err' => exact ⟨err', rfl⟩
  | ok result =>
    have hsame := (simulateSwap_of_handle hcheck hswap).1
    rw [herr] at hsame
    cases hsame

/-- An offer whose fee and payout both have a fraction. -/
theorem simulateSwap_truthful_fraction :
    ∃ s' response, handleSwapRequest ledgerKeeper smallMarket "a" "b" ⟨microLunaDenom, 1000001⟩
        microSDRDenom = .ok (s', response) ∧
      simulateSwap ledgerKeeper smallMarket ⟨microLunaDenom, 1000001⟩ microSDRDenom =
        .ok response.swapCoin ∧
      response.swapCoin = ⟨microSDRDenom, 980000⟩ := by
  have hpaid : (handleSwapRequest ledgerKeeper smallMarket "a" "b" ⟨microLunaDenom, 1000001⟩
      microSDRDenom).toOption.map (fun r => r.2.swapCoin) = some ⟨microSDRDenom, 980000⟩ := by
    decide +kernel
  obtain ⟨⟨s', response⟩, hsome, hcoin⟩ := Option.map_eq_some_iff.mp hpaid
  have hswap := Run.eq_ok_of_toOption hsome
  exact ⟨s', response, hswap, ((simulateSwap_truthful ledgerKeeper smallMarket "a" "b"
    ⟨microLunaDenom, 1000001⟩ microSDRDenom (by decide +kernel)).1 s' response hswap).1, hcoin⟩

end TerraClassic.Market
