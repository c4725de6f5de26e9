import TerraClassic.Lib.ConstantProduct
import TerraClassic.Market.Swap
import Mathlib.Algebra.Order.Ring.Rat

/-! # The virtual pool over whole runs

    In exact arithmetic the constant product never empties the Terra pool.
    The code rounds the spread to 18 decimals and multiplies it with the whole
    offer, so a payout may be off by the offer times one unit in the last
    place, plus what the conversion to the ask denom and back is off.

    `KeepsPool` is the arithmetic condition under which that cannot empty the
    pool: the offer is worth less than the pool, or the constant product leaves
    more than the drift.
-/

namespace TerraClassic.Market

open SdkError (orPanic wrapErr orPanic_eq_ok mapError_eq_ok)

/-! ### Runs -/

/-- What happens to the market: swaps, with the oracle rates of their block,
    changes of the bank by other modules, and the end of a block. -/
inductive Event where
  | swap (oracle : Oracle.Store) (bank : BankConfig) (msg : MsgSwap)
  | swapSend (oracle : Oracle.Store) (bank : BankConfig) (msg : MsgSwapSend)
  | other (bank : BankState)
  | endBlock

/-- One step.  A swap that fails changes nothing; a panic at the end of a block
    halts the chain. -/
def step (bech32 : Bech32) (params : Params) (s : State) : Event → Option State
  | .swap oracle bank msg =>
    match swap bech32 ⟨params, oracle, bank⟩ s msg with
    | .ok (s', _) => some s'
    | .error _ => some s
  | .swapSend oracle bank msg =>
    match swapSend bech32 ⟨params, oracle, bank⟩ s msg with
    | .ok (s', _) => some s'
    | .error _ => some s
  | .other bank => some { s with bank := bank }
  | .endBlock => do
    let delta ← replenishPools params s.terraPoolDelta
    return { s with terraPoolDelta := delta }

/-- All rates of the oracle are positive. -/
def RatesPositive (oracle : Oracle.Store) : Prop :=
  ∀ denom rate, oracle.exchangeRates.get denom = some rate → 0 < rate.i

/-! ### The condition -/

/-- What converting to the ask denom and back may be off, in units of the last
    place of the base denom. -/
def conversionSlack (askDenom : Denom) (sdrRate askRate : Dec) : ℚ :=
  if askDenom = microSDRDenom then 0 else (decOne + 2 * sdrRate.i) / askRate.i

/-- An offer of `amount` Luna does not empty the Terra pool: it is worth less
    than the pool, or the constant product leaves more of the pool than the
    rounding errors of the payout.  All amounts are raw. -/
def KeepsPool (basePool terraPoolDelta : Dec) (amount : ℤ) (askDenom : Denom)
    (sdrRate askRate : Dec) : Prop :=
  let pool : ℚ := basePool.i + terraPoolDelta.i
  let offer : ℚ := amount * sdrRate.i
  let slack : ℚ := 2 + conversionSlack askDenom sdrRate askRate
  offer + slack < pool ∨
    (offer / decOne + slack) * (basePool.i ^ 2 + (offer + 1) * pool) <
      (basePool.i ^ 2 - decOne) * pool

/-- The condition on a swap: only an offer of Luna for Terra takes from the
    pool. -/
def SafeSwap (params : Params) (oracle : Oracle.Store) (terraPoolDelta : Dec) (offerCoin : Coin)
    (askDenom : Denom) : Prop :=
  offerCoin.denom = microLunaDenom → askDenom ≠ microLunaDenom →
    ∀ sdrRate askRate, getLunaExchangeRate oracle microSDRDenom = some sdrRate →
      getLunaExchangeRate oracle askDenom = some askRate →
      KeepsPool params.basePool terraPoolDelta offerCoin.amount askDenom sdrRate askRate

/-- The condition on a step. -/
def SafeStep (params : Params) (s : State) : Event → Prop
  | .swap oracle _ msg => SafeSwap params oracle s.terraPoolDelta msg.offerCoin msg.askDenom
  | .swapSend oracle _ msg => SafeSwap params oracle s.terraPoolDelta msg.offerCoin msg.askDenom
  | .other _ => True
  | .endBlock => params.poolRecoveryPeriod.toNat < 2 ^ 63

/-! ### One swap of Luna for Terra -/

theorem getLunaExchangeRate_pos {oracle : Oracle.Store} (hpos : RatesPositive oracle)
    {denom : Denom} {rate : Dec} (h : getLunaExchangeRate oracle denom = some rate) :
    0 < rate.i := by
  unfold getLunaExchangeRate at h
  split at h
  · cases h
    exact Dec.decOne_posInt
  · exact hpos denom rate h

/-- What a successful swap of Luna for Terra computed on the way. -/
structure LunaSwap (k : Keeper) (terraPoolDelta : Dec) (amount : ℤ) (askDenom : Denom)
    (delta' : Dec) where
  sdrRate : Dec
  askRate : Dec
  ret : ℤ
  spread : ℤ
  askBase : ℤ
  hsdr : getLunaExchangeRate k.oracle microSDRDenom = some sdrRate
  hask : getLunaExchangeRate k.oracle askDenom = some askRate
  hoffer : 0 < amount * sdrRate.i
  /-- The offer in the ask denom, at the oracle's price. -/
  hret : ret = if askDenom = microSDRDenom then amount * sdrRate.i
    else Dec.quoRaw (Dec.chopPrecisionAndRound (amount * sdrRate.i * askRate.i)) sdrRate.i
  hspread : spread = max k.params.minStabilitySpread.i
    (lunaSpread k.params.basePool.i (k.params.basePool.i + terraPoolDelta.i) (amount * sdrRate.i))
  /-- A whole coin is paid. -/
  hpaid : decOne ≤ ret - Dec.chopPrecisionAndRound (spread * ret)
  /-- What is paid, in the base denom. -/
  hbase : askBase = if askDenom = microSDRDenom then
      ret - Dec.chopPrecisionAndRound (spread * ret)
    else Dec.quoRaw (Dec.chopPrecisionAndRound
      ((ret - Dec.chopPrecisionAndRound (spread * ret)) * sdrRate.i)) askRate.i
  hdelta : delta'.i = terraPoolDelta.i - askBase

theorem exists_lunaSwap {k : Keeper} {s s' : State} {trader receiver : AccAddr} {amount : ℤ}
    {askDenom : Denom} {response : SwapResponse} (hspread : 0 ≤ k.params.minStabilitySpread.i)
    (hne : askDenom ≠ microLunaDenom)
    (h : handleSwapRequest k s trader receiver ⟨microLunaDenom, amount⟩ askDenom =
      .ok (s', response)) :
    Nonempty (LunaSwap k s.terraPoolDelta amount askDenom s'.terraPoolDelta) := by
  obtain ⟨⟨retCoin, spread⟩, hcompute, h⟩ := Run.bind_eq_ok.mp h
  obtain ⟨feeCoin, hfee, h⟩ := Run.bind_eq_ok.mp h
  obtain ⟨net, hnet, h⟩ := Run.bind_eq_ok.mp h
  obtain ⟨delta', happly, h⟩ := Run.bind_eq_ok.mp h
  obtain ⟨⟨bank, response'⟩, hsettle, h⟩ := Run.bind_eq_ok.mp h
  cases h
  obtain ⟨sdrRate, hsdr, hoffer, hret, hs⟩ := computeSwap_luna hne hcompute
  have hfees := swapFee_raw (by rw [hs]; exact le_trans hspread (le_max_left _ _))
    (orPanic_eq_ok.mp hfee)
  have hnet : net.i = retCoin.amount.i - feeCoin.amount.i := Dec.sub_raw (orPanic_eq_ok.mp hnet)
  rw [hfees.2] at hnet
  have hpaid : (decOne : ℤ) ≤ net.i := settle_ok hsettle
  by_cases hsame : askDenom = microSDRDenom
  · subst hsame
    unfold computeInternalSwap at hret
    rw [if_pos rfl] at hret
    cases hret
    obtain ⟨baseCoin, hbase, hdelta⟩ := applySwapToPool_luna hne happly
    unfold computeInternalSwap at hbase
    rw [if_pos rfl] at hbase
    cases hbase
    exact ⟨{
      sdrRate := sdrRate
      askRate := sdrRate
      ret := amount * sdrRate.i
      spread := spread.i
      askBase := net.i
      hsdr := hsdr
      hask := hsdr
      hoffer := hoffer
      hret := (if_pos rfl).symm
      hspread := hs
      hpaid := hnet ▸ hpaid
      hbase := by rw [if_pos rfl, hnet]
      hdelta := hdelta }⟩
  · obtain ⟨offerRate, askRate, hofferRate, hask, rfl, _⟩ :=
      computeInternalSwap_ok (Ne.symm hsame) hret
    rw [hsdr] at hofferRate
    cases hofferRate
    obtain ⟨baseCoin, hbase, hdelta⟩ := applySwapToPool_luna hne happly
    obtain ⟨askRate', sdrRate', hask', hsdr', rfl, _⟩ := computeInternalSwap_ok hsame hbase
    rw [hask] at hask'
    rw [hsdr] at hsdr'
    cases hask'
    cases hsdr'
    exact ⟨{
      sdrRate := sdrRate
      askRate := askRate
      ret := _
      spread := spread.i
      askBase := _
      hsdr := hsdr
      hask := hask
      hoffer := hoffer
      hret := (if_neg hsame).symm
      hspread := hs
      hpaid := hnet ▸ hpaid
      hbase := by rw [if_neg hsame, ← hnet]
      hdelta := hdelta }⟩

section Arithmetic

variable {k : Keeper} {terraPoolDelta delta' : Dec} {amount : ℤ} {askDenom : Denom}

/-- The share of the offer that is paid out. -/
def LunaSwap.share (w : LunaSwap k terraPoolDelta amount askDenom delta') : ℚ :=
  1 - w.spread / decOne

theorem decOne_posRat : (0 : ℚ) < decOne := by exact_mod_cast Dec.decOne_pos

/-- What is paid is the share of the price, up to half a unit. -/
theorem LunaSwap.net_le (w : LunaSwap k terraPoolDelta amount askDenom delta') :
    ((w.ret - Dec.chopPrecisionAndRound (w.spread * w.ret) : ℤ) : ℚ) ≤
      w.share * w.ret + 1 / 2 := by
  have hD := decOne_posRat
  have hfee : (2 : ℚ) * (w.spread * w.ret) ≤
      2 * (decOne * Dec.chopPrecisionAndRound (w.spread * w.ret)) + decOne := by
    exact_mod_cast Dec.le_two_mul_chop (w.spread * w.ret)
  have hdiv : (w.spread * w.ret : ℚ) / decOne ≤
      Dec.chopPrecisionAndRound (w.spread * w.ret) + 1 / 2 := by
    rw [div_le_iff₀ hD]
    linarith
  unfold LunaSwap.share
  push_cast
  calc (w.ret : ℚ) - Dec.chopPrecisionAndRound (w.spread * w.ret)
      ≤ w.ret - (w.spread * w.ret / decOne - 1 / 2) := by linarith
    _ = (1 - w.spread / decOne) * w.ret + 1 / 2 := by ring

/-- The share is at most the whole. -/
theorem LunaSwap.share_le_one (w : LunaSwap k terraPoolDelta amount askDenom delta')
    (hmin : 0 ≤ k.params.minStabilitySpread.i) : w.share ≤ 1 := by
  have hspread : (0 : ℚ) ≤ w.spread := by
    rw [w.hspread]
    exact_mod_cast le_trans hmin (le_max_left _ _)
  have := div_nonneg hspread decOne_posRat.le
  unfold LunaSwap.share
  linarith

/-- Up to one unit in the last place of the spread, the share of the offer is
    what the constant product takes from the pool. -/
theorem LunaSwap.share_mul_le (w : LunaSwap k terraPoolDelta amount askDenom delta') :
    w.share * (amount * w.sdrRate.i) ≤
      ((k.params.basePool.i + terraPoolDelta.i : ℤ) : ℚ) -
        newTerraPool k.params.basePool.i (k.params.basePool.i + terraPoolDelta.i)
          (amount * w.sdrRate.i) +
        amount * w.sdrRate.i / decOne := by
  have hD := decOne_posRat
  have hle := le_max_right k.params.minStabilitySpread.i (lunaSpread k.params.basePool.i
    (k.params.basePool.i + terraPoolDelta.i) (amount * w.sdrRate.i))
  rw [← w.hspread] at hle
  have hspread := le_trans (Dec.le_mul_quoRaw w.hoffer) (mul_le_mul_of_nonneg_left hle w.hoffer.le)
  generalize newTerraPool k.params.basePool.i (k.params.basePool.i + terraPoolDelta.i)
    (amount * w.sdrRate.i) = q at hspread ⊢
  have hspread : ((amount * w.sdrRate.i - (k.params.basePool.i + terraPoolDelta.i - q)) * decOne -
      amount * w.sdrRate.i : ℚ) ≤ amount * w.sdrRate.i * w.spread := by exact_mod_cast hspread
  have hdiv : (amount * w.sdrRate.i - (k.params.basePool.i + terraPoolDelta.i - q) : ℚ) -
      amount * w.sdrRate.i / decOne ≤ amount * w.sdrRate.i * w.spread / decOne := by
    rw [le_div_iff₀ hD, sub_mul, div_mul_cancel₀ _ hD.ne']
    exact hspread
  unfold LunaSwap.share
  push_cast
  calc (1 - (w.spread : ℚ) / decOne) * (amount * w.sdrRate.i)
      = amount * w.sdrRate.i - amount * w.sdrRate.i * w.spread / decOne := by ring
    _ ≤ _ := by linarith

theorem LunaSwap.ret_nonneg (w : LunaSwap k terraPoolDelta amount askDenom delta')
    (hsdr : 0 < w.sdrRate.i) (hask : 0 < w.askRate.i) : 0 ≤ w.ret := by
  rw [w.hret]
  split
  · exact w.hoffer.le
  · apply Dec.quoRaw_nonneg _ hsdr.le
    exact Rounding.roundHalfEven_nonneg _ (mul_nonneg w.hoffer.le hask.le)

/-- The price of the offer, brought back to the base denom at exact rates. -/
theorem LunaSwap.ret_mul_le (w : LunaSwap k terraPoolDelta amount askDenom delta')
    (hne : askDenom ≠ microSDRDenom) (hsdr : 0 < w.sdrRate.i) :
    (w.ret * w.sdrRate.i : ℚ) ≤ amount * w.sdrRate.i * w.askRate.i + decOne / 2 + w.sdrRate.i := by
  have hret := w.hret
  rw [if_neg hne] at hret
  have hmul := Dec.two_mul_chop_le (amount * w.sdrRate.i * w.askRate.i)
  have hquo := Dec.mul_quoRaw_le (a := Dec.chopPrecisionAndRound
    (amount * w.sdrRate.i * w.askRate.i)) hsdr
  rw [← hret] at hquo
  have hint : 2 * (w.sdrRate.i * w.ret) ≤
      2 * (amount * w.sdrRate.i * w.askRate.i) + decOne + 2 * w.sdrRate.i := by linarith
  have hrat : (2 : ℚ) * (w.sdrRate.i * w.ret) ≤
      2 * (amount * w.sdrRate.i * w.askRate.i) + decOne + 2 * w.sdrRate.i := by
    exact_mod_cast hint
  linarith

/-- The payout in the base denom: the share of the offer, and what the
    conversions are off. -/
theorem LunaSwap.askBase_le (w : LunaSwap k terraPoolDelta amount askDenom delta')
    (hmin : 0 ≤ k.params.minStabilitySpread.i) (hsdr : 0 < w.sdrRate.i) (hask : 0 < w.askRate.i) :
    (w.askBase : ℚ) ≤ w.share * (amount * w.sdrRate.i) +
      (1 + conversionSlack askDenom w.sdrRate w.askRate) := by
  have hnet := w.net_le
  have hbase := w.hbase
  unfold conversionSlack
  by_cases hsame : askDenom = microSDRDenom
  · have hret := w.hret
    rw [if_pos hsame] at hbase hret ⊢
    rw [hbase]
    rw [hret] at hnet ⊢
    push_cast at hnet ⊢
    linarith
  · rw [if_neg hsame] at hbase ⊢
    have hpaid : (decOne : ℚ) ≤
        ((w.ret - Dec.chopPrecisionAndRound (w.spread * w.ret) : ℤ) : ℚ) := by
      exact_mod_cast w.hpaid
    have hround := Dec.two_mul_chop_le
      ((w.ret - Dec.chopPrecisionAndRound (w.spread * w.ret)) * w.sdrRate.i)
    have hquo := Dec.mul_quoRaw_le (a := Dec.chopPrecisionAndRound
      ((w.ret - Dec.chopPrecisionAndRound (w.spread * w.ret)) * w.sdrRate.i)) hask
    rw [← hbase] at hquo
    generalize w.ret - Dec.chopPrecisionAndRound (w.spread * w.ret) = net at hnet hpaid hround hquo
    have hint : 2 * (w.askRate.i * w.askBase) ≤
        2 * (net * w.sdrRate.i) + decOne + 2 * w.askRate.i := by linarith
    have hrat : (2 : ℚ) * (w.askRate.i * w.askBase) ≤
        2 * (net * w.sdrRate.i) + decOne + 2 * w.askRate.i := by exact_mod_cast hint
    have hsdrQ : (0 : ℚ) < w.sdrRate.i := by exact_mod_cast hsdr
    have haskQ : (0 : ℚ) < w.askRate.i := by exact_mod_cast hask
    -- a whole coin is paid, so the share is positive
    have hshare : 0 ≤ w.share := by
      by_contra hneg
      have hretQ : (0 : ℚ) ≤ w.ret := by exact_mod_cast w.ret_nonneg hsdr hask
      have := mul_nonpos_of_nonpos_of_nonneg (not_le.mp hneg).le hretQ
      have hD : (1 : ℚ) ≤ decOne := by exact_mod_cast Dec.decOne_pos
      linarith
    have hret := mul_le_mul_of_nonneg_left (w.ret_mul_le hsame hsdr) hshare
    have hone := mul_le_mul_of_nonneg_right (w.share_le_one hmin)
      (show (0 : ℚ) ≤ decOne / 2 + w.sdrRate.i by linarith [decOne_posRat])
    have hmul := mul_le_mul_of_nonneg_right hnet hsdrQ.le
    rw [← sub_le_iff_le_add', ← sub_le_iff_le_add', le_div_iff₀ haskQ]
    nlinarith

/-- The pool that the constant product leaves, without its roundings. -/
theorem remainder_le_newTerraPool {basePool terraPool offer : ℤ} (hpool : 0 < terraPool)
    (hoffer : 0 < offer) (hbase : (0 : ℚ) < basePool ^ 2 - decOne) :
    ((basePool : ℚ) ^ 2 - decOne) * terraPool / (basePool ^ 2 + (offer + 1) * terraPool) - 1 ≤
      newTerraPool basePool terraPool offer := by
  have hD := decOne_posRat
  have hpoolQ : (0 : ℚ) < terraPool := by exact_mod_cast hpool
  have hofferQ : (0 : ℚ) < offer := by exact_mod_cast hoffer
  have hcp : 0 ≤ Dec.chopPrecisionAndRound (basePool * basePool) :=
    Rounding.roundHalfEven_nonneg _ (mul_self_nonneg basePool)
  have hround := Dec.le_two_mul_chop (basePool * basePool)
  simp only [newTerraPool]
  -- from here on only the error bounds of the three roundings are used
  generalize Dec.chopPrecisionAndRound (basePool * basePool) = cp at hcp hround ⊢
  have hluna := Dec.quoRaw_nonneg hcp hpool.le
  have hlunaLe := Dec.mul_quoRaw_le (a := cp) hpool
  generalize Dec.quoRaw cp terraPool = lunaPool at hluna hlunaLe ⊢
  have hnewPos : 0 < lunaPool + offer := by omega
  have hnew := Dec.le_mul_quoRaw (a := cp) hnewPos
  generalize Dec.quoRaw cp (lunaPool + offer) = q at hnew ⊢
  have hβ : (basePool : ℚ) ^ 2 - decOne ≤ cp * decOne := by
    have : (2 : ℚ) * (basePool * basePool) ≤ 2 * (decOne * cp) + decOne := by exact_mod_cast hround
    nlinarith
  have hremainder := ConstantProduct.remainder_le hbase hβ hpoolQ (L := (lunaPool : ℚ))
    (by exact_mod_cast hluna) (by exact_mod_cast hlunaLe) hofferQ
  have hden : (basePool : ℚ) ^ 2 - decOne + (offer + 1) * terraPool ≤
      basePool ^ 2 + (offer + 1) * terraPool := by linarith
  have hweaker : ((basePool : ℚ) ^ 2 - decOne) * terraPool /
      (basePool ^ 2 + (offer + 1) * terraPool) ≤
      ((basePool : ℚ) ^ 2 - decOne) * terraPool /
        (basePool ^ 2 - decOne + (offer + 1) * terraPool) := by
    apply div_le_div_of_nonneg_left _ _ hden
    · positivity
    · positivity
  have hq : (cp * decOne : ℚ) / (lunaPool + offer) - 1 ≤ q := by
    have hnewPosQ : (0 : ℚ) < lunaPool + offer := by exact_mod_cast hnewPos
    have hnewQ : (cp * decOne - (lunaPool + offer) : ℚ) ≤ (lunaPool + offer) * q := by
      exact_mod_cast hnew
    rw [sub_le_iff_le_add, div_le_iff₀ hnewPosQ]
    linarith
  linarith

/-- A swap that meets the condition leaves the pool positive. -/
theorem LunaSwap.keeps_pool (w : LunaSwap k terraPoolDelta amount askDenom delta')
    (hmin : 0 ≤ k.params.minStabilitySpread.i) (hsdr : 0 < w.sdrRate.i) (hask : 0 < w.askRate.i)
    (hpool : 0 < k.params.basePool.i + terraPoolDelta.i)
    (hkeeps : KeepsPool k.params.basePool terraPoolDelta amount askDenom w.sdrRate w.askRate) :
    0 < k.params.basePool.i + delta'.i := by
  have hpoolQ : (0 : ℚ) < ((k.params.basePool.i + terraPoolDelta.i : ℤ) : ℚ) := by
    exact_mod_cast hpool
  have hofferQ : (0 : ℚ) < amount * w.sdrRate.i := by exact_mod_cast w.hoffer
  have hslack : 0 ≤ conversionSlack askDenom w.sdrRate w.askRate := by
    unfold conversionSlack
    split
    · exact le_rfl
    · have hsdrQ : (0 : ℚ) < w.sdrRate.i := by exact_mod_cast hsdr
      have haskQ : (0 : ℚ) < w.askRate.i := by exact_mod_cast hask
      positivity
  have hlt : (w.askBase : ℚ) < ((k.params.basePool.i + terraPoolDelta.i : ℤ) : ℚ) := by
    have hpay := w.askBase_le hmin hsdr hask
    have hone := w.share_le_one hmin
    -- a small offer cannot empty the pool; for a larger one the constant product has to
    rcases hkeeps with hsmall | hdrift
    · refine ConstantProduct.payout_lt_pool hpay hone hofferQ.le w.share_mul_le
        (sub_le_iff_le_add.mpr le_rfl) (Or.inl ?_)
      push_cast
      linarith
    · have hnonneg : 0 ≤ (amount * w.sdrRate.i / decOne +
          (2 + conversionSlack askDenom w.sdrRate w.askRate) : ℚ) *
          (k.params.basePool.i ^ 2 + (amount * w.sdrRate.i + 1) *
            (k.params.basePool.i + terraPoolDelta.i)) := by
        push_cast at hpoolQ
        have := decOne_posRat
        positivity
      push_cast at hpoolQ
      have hbase : (0 : ℚ) < k.params.basePool.i ^ 2 - decOne :=
        (pos_iff_pos_of_mul_pos (lt_of_le_of_lt hnonneg hdrift)).mpr hpoolQ
      have hrest := remainder_le_newTerraPool hpool w.hoffer hbase
      refine ConstantProduct.payout_lt_pool hpay hone hofferQ.le w.share_mul_le hrest (Or.inr ?_)
      push_cast
      rw [lt_div_iff₀ (by positivity)]
      linarith
  have : w.askBase < k.params.basePool.i + terraPoolDelta.i := by exact_mod_cast hlt
  rw [w.hdelta]
  linarith

end Arithmetic

/-! ### One step -/

/-- An offer of Terra never takes from the pool. -/
theorem applySwapToPool_terra {k : Keeper} {terraPoolDelta delta' : Dec} {offerCoin : Coin}
    {askCoin : DecCoin} (hne : offerCoin.denom ≠ microLunaDenom)
    (h : applySwapToPool k terraPoolDelta offerCoin askCoin = .ok delta') :
    terraPoolDelta.i ≤ delta'.i := by
  unfold applySwapToPool at h
  split at h
  · cases h
    exact le_rfl
  · obtain ⟨offerDecCoin, hcoin, h⟩ := Run.bind_eq_ok.mp h
    obtain ⟨baseCoin, hbase, h⟩ := Run.bind_eq_ok.mp h
    rw [Dec.add_raw (orPanic_eq_ok.mp h)]
    have hcoin := orPanic_eq_ok.mp hcoin
    unfold newDecCoinFromCoin at hcoin
    split at hcoin
    · next hok =>
      cases hcoin
      by_cases hsame : offerCoin.denom = microSDRDenom
      · unfold computeInternalSwap at hbase
        rw [if_pos hsame] at hbase
        cases hbase
        have : 0 ≤ (Dec.ofInt offerCoin.amount).i := mul_nonneg hok.2 Dec.decOne_posInt.le
        linarith
      · obtain ⟨_, _, _, _, _, hpos⟩ := computeInternalSwap_ok hsame hbase
        linarith
    · cases hcoin

theorem handleSwapRequest_pool {k : Keeper} {s s' : State} {trader receiver : AccAddr}
    {offerCoin : Coin} {askDenom : Denom} {response : SwapResponse}
    (hmin : 0 ≤ k.params.minStabilitySpread.i) (hrates : RatesPositive k.oracle)
    (hdenom : offerCoin.denom ≠ askDenom)
    (hsafe : SafeSwap k.params k.oracle s.terraPoolDelta offerCoin askDenom)
    (h : handleSwapRequest k s trader receiver offerCoin askDenom = .ok (s', response))
    (hpool : 0 < k.params.basePool.i + s.terraPoolDelta.i) :
    0 < k.params.basePool.i + s'.terraPoolDelta.i := by
  by_cases hluna : offerCoin.denom = microLunaDenom
  · have hask : askDenom ≠ microLunaDenom := fun h => hdenom (hluna.trans h.symm)
    obtain ⟨denom, amount⟩ := offerCoin
    obtain rfl : denom = microLunaDenom := hluna
    obtain ⟨w⟩ := exists_lunaSwap hmin hask h
    exact w.keeps_pool hmin (getLunaExchangeRate_pos hrates w.hsdr)
      (getLunaExchangeRate_pos hrates w.hask) hpool
      (hsafe rfl hask w.sdrRate w.askRate w.hsdr w.hask)
  · obtain ⟨⟨retCoin, spread⟩, _, h⟩ := Run.bind_eq_ok.mp h
    obtain ⟨feeCoin, _, h⟩ := Run.bind_eq_ok.mp h
    obtain ⟨net, _, h⟩ := Run.bind_eq_ok.mp h
    obtain ⟨delta', happly, h⟩ := Run.bind_eq_ok.mp h
    obtain ⟨⟨bank, response'⟩, _, h⟩ := Run.bind_eq_ok.mp h
    cases h
    have := applySwapToPool_terra hluna happly
    show 0 < k.params.basePool.i + delta'.i
    linarith

/-- Replenishing moves the delta towards zero. -/
theorem replenishPools_pool {params : Params} {delta delta' : Dec}
    (hperiod : params.poolRecoveryPeriod ≠ 0) (hfits : params.poolRecoveryPeriod.toNat < 2 ^ 63)
    (hbase : 0 < params.basePool.i) (hpool : 0 < params.basePool.i + delta.i)
    (h : replenishPools params delta = some delta') : 0 < params.basePool.i + delta'.i := by
  unfold replenishPools at h
  obtain ⟨regression, hquo, h⟩ := Option.bind_eq_some_iff.mp h
  have hpos : 0 < params.poolRecoveryPeriod.toNat := by
    rw [Nat.pos_iff_ne_zero]
    intro h0
    exact hperiod (UInt64.toNat_inj.mp h0)
  rw [toInt64_of_lt (by omega) (by omega)] at hquo
  unfold Dec.quoInt64 at hquo
  rw [if_neg (by omega)] at hquo
  cases hquo
  rw [Dec.sub_raw h]
  show 0 < params.basePool.i + (delta.i - delta.i.tdiv params.poolRecoveryPeriod.toNat)
  have hposInt : (0 : ℤ) < params.poolRecoveryPeriod.toNat := by exact_mod_cast hpos
  -- truncation towards zero never overshoots
  rcases le_total 0 delta.i with hnonneg | hneg
  · have := Int.tdiv_le_self (params.poolRecoveryPeriod.toNat : ℤ) hnonneg
    linarith
  · have := Int.tdiv_le_tdiv hposInt hneg
    rw [Int.zero_tdiv] at this
    linarith

/-- The oracle of a swap has positive rates. -/
def Event.RatesPositive : Event → Prop
  | .swap oracle _ _ => Market.RatesPositive oracle
  | .swapSend oracle _ _ => Market.RatesPositive oracle
  | .other _ => True
  | .endBlock => True

theorem step_pool {bech32 : Bech32} {params : Params} (hvalid : params.validate = .ok ())
    (hbase : 0 < params.basePool.i) {s s' : State} {e : Event}
    (h : step bech32 params s e = some s') (hrates : e.RatesPositive) (hsafe : SafeStep params s e)
    (hpool : 0 < params.basePool.i + s.terraPoolDelta.i) :
    0 < params.basePool.i + s'.terraPoolDelta.i := by
  obtain ⟨_, hperiod, hmin, _⟩ := Params.validate_ok hvalid
  cases e with
  | swap oracle bank msg =>
    simp only [step] at h
    split at h
    · next s₁ response hok =>
      cases h
      obtain ⟨_, hbasic, hok⟩ := Run.bind_eq_ok.mp hok
      obtain ⟨_, _, hcheck⟩ := Run.bind_eq_ok.mp hbasic
      obtain ⟨_, _, hok⟩ := Run.bind_eq_ok.mp hok
      exact handleSwapRequest_pool (k := ⟨params, oracle, bank⟩) hmin hrates
        (checkOffer_ok hcheck).2.2 hsafe hok hpool
    · cases h
      exact hpool
  | swapSend oracle bank msg =>
    simp only [step] at h
    split at h
    · next s₁ response hok =>
      cases h
      obtain ⟨_, hbasic, hok⟩ := Run.bind_eq_ok.mp hok
      obtain ⟨_, _, hbasic⟩ := Run.bind_eq_ok.mp hbasic
      obtain ⟨_, _, hcheck⟩ := Run.bind_eq_ok.mp hbasic
      obtain ⟨_, _, hok⟩ := Run.bind_eq_ok.mp hok
      obtain ⟨_, _, hok⟩ := Run.bind_eq_ok.mp hok
      exact handleSwapRequest_pool (k := ⟨params, oracle, bank⟩) hmin hrates
        (checkOffer_ok hcheck).2.2 hsafe hok hpool
    · cases h
      exact hpool
  | other bank =>
    cases h
    exact hpool
  | endBlock =>
    simp only [step] at h
    obtain ⟨delta', hreplenish, h⟩ := Option.bind_eq_some_iff.mp h
    cases h
    exact replenishPools_pool hperiod hsafe hbase hpool hreplenish

/-! ### Whole runs -/

/-- The Terra pool is never emptied.  From an untouched pool, along every run
    whose steps meet `SafeStep`, the pool stays positive, and so do the pools
    the next swap computes with. -/
theorem pool_positive {bech32 : Bech32} {params : Params} (hvalid : params.validate = .ok ())
    (hbase : 0 < params.basePool.i) {start s : State} (hstart : start.terraPoolDelta = Dec.zero)
    {events : List Event} (hrates : ∀ e ∈ events, e.RatesPositive)
    (hrun : Run.run (step bech32 params) events start = some s)
    (hsafe : Run.Along (step bech32 params) (SafeStep params) events start) :
    0 < params.basePool.i + s.terraPoolDelta.i ∧
      ∀ cp terraPool lunaPool, params.basePool.mul params.basePool = some cp →
        params.basePool.add s.terraPoolDelta = some terraPool →
        cp.quo terraPool = some lunaPool → 0 < terraPool.i ∧ 0 ≤ lunaPool.i := by
  have hpool : 0 < params.basePool.i + s.terraPoolDelta.i := by
    refine Run.run_invariant_along
      (I := fun s : State => 0 < params.basePool.i + s.terraPoolDelta.i) ?_ hrun
      (hsafe.and_mem hrates) ?_
    · intro s e s' hstep hC hpool
      exact step_pool hvalid hbase hstep hC.2 hC.1 hpool
    · show 0 < params.basePool.i + start.terraPoolDelta.i
      rw [hstart]
      simpa [Dec.zero] using hbase
  refine ⟨hpool, ?_⟩
  intro cp terraPool lunaPool hcp hterra hluna
  have hterraPos : 0 < terraPool.i := by
    rw [Dec.add_raw hterra]
    exact hpool
  refine ⟨hterraPos, ?_⟩
  rw [Dec.quo_raw hluna]
  apply Dec.quoRaw_nonneg _ hterraPos.le
  rw [Dec.mul_raw hcp]
  exact Rounding.roundHalfEven_nonneg _ (mul_self_nonneg _)

/-! ### A small market, for examples -/

/-- One trader's address. -/
def smallBech32 : Bech32 where
  accAddressFromBech32 := fun s =>
    if s = "terra1vynex3pr" then .ok "a" else .error "decoding bech32 failed"
  valAddressFromBech32 := fun _ => .error "decoding bech32 failed"
  accAddressString := fun _ => "terra1vynex3pr"
  valAddressString := fun _ => "terravaloper1vy3vsmy0"

/-- A Luna is worth one SDR. -/
def smallOracle : Oracle.Store :=
  { Oracle.smallStore [] with exchangeRates := (∅ : SortedMap Denom Dec).set microSDRDenom Dec.one }

/-- A trader with `10^30` units of Luna. -/
def smallMarket : State where
  terraPoolDelta := Dec.zero
  bank := {
    balances := fun addr denom => if addr = "a" ∧ denom = microLunaDenom then 10 ^ 30 else 0
    supply := fun denom => if denom = microLunaDenom then 10 ^ 30 else 0 }

/-- An offer of Luna for SDR. -/
def smallOffer (amount : ℤ) : Event :=
  .swap smallOracle smallBankConfig ⟨"terra1vynex3pr", ⟨microLunaDenom, amount⟩, microSDRDenom⟩

theorem smallOracle_positive : RatesPositive smallOracle := by
  intro denom rate h
  simp only [smallOracle, SortedMap.get_set] at h
  split at h
  · cases h
    decide
  · cases h

theorem pool_positive_small_offer :
    ∃ s, Run.run (step smallBech32 defaultParams) [smallOffer 1000000, .endBlock] smallMarket =
        some s ∧
      s.terraPoolDelta.i < 0 ∧ 0 < defaultParams.basePool.i + s.terraPoolDelta.i := by
  have hdelta : (Run.run (step smallBech32 defaultParams) [smallOffer 1000000, .endBlock]
      smallMarket).map (fun s => decide (s.terraPoolDelta.i < 0)) = some true := by decide +kernel
  obtain ⟨s, hrun, hdelta⟩ := Option.map_eq_some_iff.mp hdelta
  refine ⟨s, hrun, of_decide_eq_true hdelta,
    (pool_positive (by decide +kernel) (by decide) rfl ?_ hrun ?_).1⟩
  · intro e he
    rcases List.mem_cons.mp he with rfl | he
    · exact smallOracle_positive
    · cases List.mem_singleton.mp he
      trivial
  · have hperiod : defaultParams.poolRecoveryPeriod.toNat < 2 ^ 63 := by decide
    refine ⟨?_, fun _ _ => ⟨hperiod, fun _ _ => trivial⟩⟩
    intro _ _ sdrRate askRate hsdr hask
    cases (show some Dec.one = some sdrRate from hsdr)
    exact Or.inl (by norm_num [conversionSlack, smallOffer, defaultParams, smallMarket, Dec.ofInt,
      Dec.one, Dec.zero, decOne, microSDRDenom])

/-- The default parameters, and an offer of 100 bits that is worth far more
    than the pool: the spread is rounded by `4 * 10^-19`, and the payout is a
    quarter more than the pool.  A recovery period that is negative as an
    `int64` doubles the delta at the end of a block, with the same effect. -/
theorem pool_positive_fails :
    defaultParams.validate = .ok () ∧ 0 < defaultParams.basePool.i ∧
    (Run.run (step smallBech32 defaultParams) [smallOffer (625 * 10 ^ 27)] smallMarket).map
        (fun s => defaultParams.basePool.i + s.terraPoolDelta.i) = some (-25 * 10 ^ 28) ∧
    { defaultParams with poolRecoveryPeriod := 2 ^ 64 - 1 }.validate = .ok () ∧
    (Run.run (step smallBech32 { defaultParams with poolRecoveryPeriod := 2 ^ 64 - 1 })
        [smallOffer (15 * 10 ^ 11), .endBlock] smallMarket).map
        (fun s => decide (defaultParams.basePool.i + s.terraPoolDelta.i < 0)) = some true := by
  decide +kernel

end TerraClassic.Market
