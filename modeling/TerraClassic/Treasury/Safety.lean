import TerraClassic.Lib.Reorder
import TerraClassic.Lib.Returns
import TerraClassic.Market.Pool
import TerraClassic.Treasury.Levers

/-! # When the treasury end blocker returns

    Each stage of the end blocker gets an exact specification (`Returns`): the
    bit bounds of its decimals, and for `UpdateRewardPolicy` that the rounded
    quotient it divides by is not zero.  The sums are tested for zero before, the
    quotient is not: a seigniorage of less than about `5 * 10^-19` of all rewards
    rounds to nothing.
-/

namespace TerraClassic

namespace Treasury

open Market (getLunaExchangeRate getLunaExchangeRate_pos RatesPositive computeInternalSwap
  newDecCoinFromCoin newDecCoinFromDec)
open Dec (Fits)

/-! ### Clamp -/

/-- `Clamp` of values that are not negative does not overflow: the step limit only
    moves the new rate towards the old one. -/
theorem PolicyConstraints.clamp_isSome {pc : PolicyConstraints} (hpc : pc.Valid)
    {prevRate newRate : Dec} (hprev : 0 ≤ prevRate.i) (hnew : 0 ≤ newRate.i)
    (hfprev : Fits prevRate.i) (hfnew : Fits newRate.i) :
    (pc.clamp prevRate newRate).isSome := by
  have hchange := hpc.changeRateMax_nonneg
  have hsub : newRate.sub prevRate = some ⟨newRate.i - prevRate.i⟩ :=
    Dec.checked_of_fits (Dec.fits_sub hnew hprev hfnew hfprev)
  -- the range is two comparisons; only the step limit computes
  have hstep : (pc.limitStep prevRate newRate).isSome := by
    unfold PolicyConstraints.limitStep
    rw [hsub]
    simp only [Option.bind_eq_bind, Option.bind_some]
    split
    · split
      · next hgt =>
        have hgt : pc.changeRateMax.i < newRate.i - prevRate.i := hgt
        exact Dec.checked_isSome.mpr (hfnew.of_le (by omega) (by omega))
      · rfl
    · next hle =>
      have hle : newRate.i ≤ prevRate.i := Dec.le_def.mp (not_lt.mp hle)
      split
      · next hgt =>
        have hgt : pc.changeRateMax.i < |newRate.i - prevRate.i| := hgt
        rw [abs_of_nonpos (by omega)] at hgt
        exact Dec.checked_isSome.mpr (hfprev.of_le (by omega) (by omega))
      · rfl
  obtain ⟨limited, hlimited⟩ := Option.isSome_iff_exists.mp hstep
  unfold PolicyConstraints.clamp
  rw [hlimited]
  rfl

/-! ### Swaps -/

/-- A product with one rate and a quotient by another, as raw values. -/
def swapRaw (offerRate askRate : Dec) (amount : ℤ) : ℤ :=
  Dec.quoRaw (Dec.chopPrecisionAndRound (amount * askRate.i)) offerRate.i

/-- The value of a coin in another denom; zero without a rate. -/
def swapValue (k : Market.Keeper) (denom : Denom) (coin : DecCoin) : ℤ :=
  if coin.denom = denom then coin.amount.i
  else
    match getLunaExchangeRate k.oracle coin.denom, getLunaExchangeRate k.oracle denom with
    | some offerRate, some askRate => swapRaw offerRate askRate coin.amount.i
    | _, _ => 0

/-- The product and the quotient of a swap fit, and a swap that pays something pays
    in a valid denom. -/
def SwapFits (k : Market.Keeper) (denom : Denom) (coin : DecCoin) : Prop :=
  coin.denom ≠ denom → ∀ offerRate askRate,
    getLunaExchangeRate k.oracle coin.denom = some offerRate →
    getLunaExchangeRate k.oracle denom = some askRate →
      Fits (Dec.chopPrecisionAndRound (coin.amount.i * askRate.i)) ∧
      Fits (swapRaw offerRate askRate coin.amount.i) ∧
      (0 < swapRaw offerRate askRate coin.amount.i → k.bank.validDenom denom = true)

theorem swapRaw_nonneg {offerRate askRate : Dec} {amount : ℤ} (hoffer : 0 ≤ offerRate.i)
    (hask : 0 ≤ askRate.i) (hamount : 0 ≤ amount) : 0 ≤ swapRaw offerRate askRate amount :=
  Dec.quoRaw_nonneg (Dec.chop_nonneg (mul_nonneg hamount hask)) hoffer

theorem swapValue_nonneg {k : Market.Keeper} (hrates : RatesPositive k.oracle) {coin : DecCoin}
    (hamount : 0 ≤ coin.amount.i) (denom : Denom) : 0 ≤ swapValue k denom coin := by
  unfold swapValue
  split
  · exact hamount
  · split
    · next hoffer hask =>
      exact swapRaw_nonneg (getLunaExchangeRate_pos hrates hoffer).le
        (getLunaExchangeRate_pos hrates hask).le hamount
    · exact le_rfl

theorem swapFits_iff {k : Market.Keeper} {coin : DecCoin} {denom : Denom}
    (hne : coin.denom ≠ denom) {offerRate askRate : Dec}
    (hoffer : getLunaExchangeRate k.oracle coin.denom = some offerRate)
    (hask : getLunaExchangeRate k.oracle denom = some askRate) :
    SwapFits k denom coin ↔
      (Fits (Dec.chopPrecisionAndRound (coin.amount.i * askRate.i)) ∧
        Fits (swapRaw offerRate askRate coin.amount.i)) ∧
      (0 < swapRaw offerRate askRate coin.amount.i → k.bank.validDenom denom = true) := by
  rw [and_assoc]
  constructor
  · intro hfits
    exact hfits hne offerRate askRate hoffer hask
  · intro hfits _ o a ho ha
    rw [hoffer] at ho
    rw [hask] at ha
    cases ho
    cases ha
    exact hfits

/-- With both rates at hand: two checks, then nothing or a coin. -/
theorem computeInternalSwap_rates {k : Market.Keeper} {coin : DecCoin} {denom : Denom}
    (hne : coin.denom ≠ denom) {offerRate askRate : Dec} (hpos : 0 < offerRate.i)
    (hoffer : getLunaExchangeRate k.oracle coin.denom = some offerRate)
    (hask : getLunaExchangeRate k.oracle denom = some askRate) :
    computeInternalSwap k coin denom =
      if Fits (Dec.chopPrecisionAndRound (coin.amount.i * askRate.i)) ∧
          Fits (swapRaw offerRate askRate coin.amount.i) then
        if swapRaw offerRate askRate coin.amount.i ≤ 0 then
          .error (.wrap .invalidCoins coin.string)
        else SdkError.orPanic (newDecCoinFromDec k denom
          ⟨swapRaw offerRate askRate coin.amount.i⟩)
      else .error .panicked := by
  have hmul : coin.amount.mul askRate =
      Dec.checked (Dec.chopPrecisionAndRound (coin.amount.i * askRate.i)) := rfl
  have hquo : ∀ x : Dec, x.quo offerRate = Dec.checked (Dec.quoRaw x.i offerRate.i) :=
    fun x => if_neg hpos.ne'
  unfold computeInternalSwap
  simp only [if_neg hne, hoffer, hask, hmul, hquo]
  by_cases hproduct : Fits (Dec.chopPrecisionAndRound (coin.amount.i * askRate.i))
  · rw [Dec.checked_of_fits hproduct]
    show (SdkError.orPanic (Dec.checked (swapRaw offerRate askRate coin.amount.i))).bind _ = _
    by_cases hquotient : Fits (swapRaw offerRate askRate coin.amount.i)
    · rw [Dec.checked_of_fits hquotient, if_pos ⟨hproduct, hquotient⟩]
      -- both results fit; what is left is the test that something is paid
      show (if swapRaw offerRate askRate coin.amount.i ≤ 0 then _ else _) = _
      split
      · rfl
      · rfl
    · rw [Dec.checked_of_not_fits hquotient, if_neg (fun h => hquotient h.2)]
      rfl
  · rw [Dec.checked_of_not_fits hproduct, if_neg (fun h => hproduct h.1)]
    rfl

/-- An internal swap panics when a result does not fit; else it pays the value, or
    returns an error if there is none. -/
theorem computeInternalSwap_spec {k : Market.Keeper} (hrates : RatesPositive k.oracle)
    {coin : DecCoin} (hamount : 0 ≤ coin.amount.i) {denom : Denom} (hne : coin.denom ≠ denom) :
    (SwapFits k denom coin →
      (0 < swapValue k denom coin ∧ k.bank.validDenom denom = true ∧
        computeInternalSwap k coin denom = .ok ⟨denom, ⟨swapValue k denom coin⟩⟩) ∨
      (swapValue k denom coin = 0 ∧ ∃ err, err ≠ .panicked ∧
        computeInternalSwap k coin denom = .error err)) ∧
    (¬ SwapFits k denom coin → computeInternalSwap k coin denom = .error .panicked) := by
  cases hoffer : getLunaExchangeRate k.oracle coin.denom with
  | none =>
    -- without a rate the swap returns an error before it computes anything
    have hfits : SwapFits k denom coin := fun _ offerRate _ h => by rw [hoffer] at h; cases h
    refine ⟨fun _ => Or.inr ⟨?_, .wrap .noEffectivePrice coin.denom, by simp, ?_⟩,
      fun hnot => absurd hfits hnot⟩
    · simp only [swapValue, if_neg hne, hoffer]
    · simp only [computeInternalSwap, if_neg hne, hoffer]
  | some offerRate =>
    cases hask : getLunaExchangeRate k.oracle denom with
    | none =>
      have hfits : SwapFits k denom coin := fun _ _ askRate _ h => by rw [hask] at h; cases h
      refine ⟨fun _ => Or.inr ⟨?_, .wrap .noEffectivePrice denom, by simp, ?_⟩,
        fun hnot => absurd hfits hnot⟩
      · simp only [swapValue, if_neg hne, hoffer, hask]
      · simp only [computeInternalSwap, if_neg hne, hoffer, hask]
    | some askRate =>
      have hpos := getLunaExchangeRate_pos hrates hoffer
      have hnonneg := swapRaw_nonneg hpos.le (getLunaExchangeRate_pos hrates hask).le hamount
      have hvalue : swapValue k denom coin = swapRaw offerRate askRate coin.amount.i := by
        simp only [swapValue, if_neg hne, hoffer, hask]
      rw [computeInternalSwap_rates hne hpos hoffer hask, swapFits_iff hne hoffer hask, hvalue]
      generalize swapRaw offerRate askRate coin.amount.i = value at hnonneg ⊢
      refine ⟨fun ⟨hfits, hvalid⟩ => ?_, fun hnot => ?_⟩
      · rw [if_pos hfits]
        rcases hnonneg.eq_or_lt with hzero | hgt
        · rw [if_pos hzero.ge]
          exact Or.inr ⟨hzero.symm, _, by simp, rfl⟩
        · have hdenom := hvalid hgt
          have hcoin : newDecCoinFromDec k denom ⟨value⟩ = some ⟨denom, ⟨value⟩⟩ :=
            if_pos ⟨hdenom, hnonneg⟩
          rw [if_neg (not_le.mpr hgt), hcoin]
          exact Or.inl ⟨hgt, hdenom, rfl⟩
      · by_cases hfits : Fits (Dec.chopPrecisionAndRound (coin.amount.i * askRate.i)) ∧
            Fits value
        · -- everything fits, so the swap pays in a denom that is not valid
          have hinvalid : ¬ (0 < value → k.bank.validDenom denom = true) :=
            fun h => hnot ⟨hfits, h⟩
          obtain ⟨hgt, hdenom⟩ := Classical.not_imp.mp hinvalid
          have hcoin : newDecCoinFromDec k denom ⟨value⟩ = none := if_neg (fun h => hdenom h.1)
          rw [if_pos hfits, if_neg (not_le.mpr hgt), hcoin]
          rfl
        · rw [if_neg hfits]

/-! ### UpdateIndicators -/

/-- A decimal coin of `alignCoins` adds its value, if its swap fits. -/
theorem returns_alignCoin {k : Market.Keeper} (hrates : RatesPositive k.oracle) {coin : DecCoin}
    (hamount : 0 ≤ coin.amount.i) (denom : Denom) {z : ℤ} (hz : Fits z) :
    Returns (alignCoin k denom ⟨z⟩ coin)
      (SwapFits k denom coin ∧ Fits (z + swapValue k denom coin))
      ⟨z + swapValue k denom coin⟩ := by
  unfold alignCoin
  by_cases hne : coin.denom = denom
  · have hfits : SwapFits k denom coin := fun h => absurd hne h
    have hvalue : swapValue k denom coin = coin.amount.i := if_pos hne
    rw [if_neg (not_not.mpr hne), hvalue]
    exact (Dec.returns_checked _).congr (and_iff_right hfits).symm
  · rw [if_pos hne]
    obtain ⟨hpays, hpanics⟩ := computeInternalSwap_spec hrates hamount hne
    by_cases hfits : SwapFits k denom coin
    · rcases hpays hfits with ⟨_, _, hswap⟩ | ⟨hzero, err, herr, hswap⟩
      · rw [hswap]
        exact (Dec.returns_checked _).congr (and_iff_right hfits).symm
      · -- the coin is skipped
        rw [hswap, hzero, add_zero]
        split
        · next heq => exact absurd (Except.error.inj heq) herr
        · exact (Returns.pure _).congr ⟨fun _ => ⟨hfits, hz⟩, fun _ => trivial⟩
        · next heq => cases heq
    · rw [hpanics hfits]
      exact ⟨fun h => absurd h.1 hfits, fun _ => rfl⟩

/-- The value of some coins in another denom. -/
def coinsValue (k : Market.Keeper) (denom : Denom) (coins : List DecCoin) : ℤ :=
  (coins.map (swapValue k denom)).sum

theorem coinsValue_nonneg {k : Market.Keeper} (hrates : RatesPositive k.oracle)
    {coins : List DecCoin} (hcoins : ∀ coin ∈ coins, 0 ≤ coin.amount.i) (denom : Denom) :
    0 ≤ coinsValue k denom coins :=
  List.sum_nonneg (List.forall_mem_map.mpr
    (fun coin hcoin => swapValue_nonneg hrates (hcoins coin hcoin) denom))

theorem returns_alignCoins {k : Market.Keeper} (hrates : RatesPositive k.oracle)
    {coins : List DecCoin} (hcoins : ∀ coin ∈ coins, 0 ≤ coin.amount.i) (denom : Denom) :
    Returns (alignCoins k coins denom)
      ((∀ coin ∈ coins, SwapFits k denom coin) ∧ Fits (coinsValue k denom coins))
      ⟨coinsValue k denom coins⟩ := by
  have hsum := Returns.foldlM_sum Fits.of_le
    (fun coin hcoin => swapValue_nonneg hrates (hcoins coin hcoin) denom)
    (fun coin hcoin _ _ hz => returns_alignCoin hrates (hcoins coin hcoin) denom hz)
    le_rfl Dec.fits_zero
  rw [zero_add] at hsum
  exact hsum

/-- All swaps of `alignCoins` and their sum fit. -/
def AlignFits (k : Market.Keeper) (denom : Denom) (coins : List DecCoin) : Prop :=
  (∀ coin ∈ coins, SwapFits k denom coin) ∧ Fits (coinsValue k denom coins)

/-- The taxes of the epoch, as decimal coins. -/
def taxRewards (st : Store) : List DecCoin :=
  (st.taxProceeds.entries.filter (fun coin => coin.2 ≠ 0)).map
    (fun coin => ⟨coin.1, Dec.ofInt coin.2⟩)

/-- The part of the seigniorage that the reward weight takes. -/
def seigniorageReward (bank : Bank) (st : Store) : DecCoin :=
  ⟨microLunaDenom, ⟨(getRewardWeight st).i * peekEpochSeigniorage bank st⟩⟩

/-- The stores that a block may find: accepted parameters, positive rates, and
    indicators, taxes and levers that are not negative.  Stored decimals fit, as
    `Unmarshal` refuses longer ones. -/
structure WellFormed (k : Keepers) (st : Store) : Prop where
  params : st.params.checkPairs k.market.bank.validDenom = .ok ()
  rates : RatesPositive k.market.oracle
  luna_valid : k.market.bank.validDenom microLunaDenom = true
  tr_nonneg : ∀ epoch, 0 ≤ (getTR st epoch).i
  sr_nonneg : ∀ epoch, 0 ≤ (getSR st epoch).i
  tsl_nonneg : ∀ epoch, 0 ≤ getTSL st epoch
  taxProceeds : ∀ coin ∈ st.taxProceeds.entries,
    k.market.bank.validDenom coin.1 = true ∧ 0 ≤ coin.2
  taxRate : 0 ≤ (getTaxRate st).i ∧ Fits (getTaxRate st).i
  rewardWeight : 0 ≤ (getRewardWeight st).i ∧ Fits (getRewardWeight st).i
  rateMax : Fits st.params.taxPolicy.rateMax.i ∧ Fits st.params.rewardPolicy.rateMax.i

/-- When `UpdateIndicators` returns. -/
def IndicatorsSafe (k : Keepers) (bank : Bank) (st : Store) : Prop :=
  AlignFits k.market microSDRDenom (taxRewards st) ∧
    Fits (seigniorageReward bank st).amount.i ∧
    AlignFits k.market microSDRDenom [seigniorageReward bank st]

/-- The store that `UpdateIndicators` leaves. -/
def indicated (k : Keepers) (bank : Bank) (height : BlockHeight) (st : Store) : Store :=
  { st with
    tsl := st.tsl.set (getEpoch height) k.totalBondedTokens
    tr := st.tr.set (getEpoch height) ⟨coinsValue k.market microSDRDenom (taxRewards st)⟩
    taxProceeds := ∅
    sr := st.sr.set (getEpoch height)
      ⟨coinsValue k.market microSDRDenom [seigniorageReward bank st]⟩ }

theorem peekEpochSeigniorage_nonneg (bank : Bank) (st : Store) :
    0 ≤ peekEpochSeigniorage bank st := by
  unfold peekEpochSeigniorage
  simp only
  split
  · exact le_rfl
  · next h => exact not_lt.mp h

section
variable {k : Keepers} {bank : Bank} {st : Store}

theorem WellFormed.taxRewards_nonneg (h : WellFormed k st) :
    ∀ coin ∈ taxRewards st, 0 ≤ coin.amount.i := by
  unfold taxRewards
  refine List.forall_mem_map.mpr (fun coin hcoin => ?_)
  exact mul_nonneg (h.taxProceeds coin (List.mem_filter.mp hcoin).1).2 Dec.decOne_posInt.le

theorem WellFormed.seigniorageReward_nonneg (h : WellFormed k st) (bank : Bank) :
    ∀ coin ∈ [seigniorageReward bank st], 0 ≤ coin.amount.i := by
  intro coin hcoin
  rw [List.mem_singleton.mp hcoin]
  exact mul_nonneg h.rewardWeight.1 (peekEpochSeigniorage_nonneg bank st)

theorem WellFormed.newDecCoinsFromCoins (h : WellFormed k st) :
    newDecCoinsFromCoins k.market st.taxProceeds = some (taxRewards st) :=
  Reorder.mapM_eq_some_map
    (fun coin hcoin => if_pos (h.taxProceeds coin (List.mem_filter.mp hcoin).1))

theorem returns_updateIndicators (h : WellFormed k st) (bank : Bank) (height : BlockHeight) :
    Returns (updateIndicators k bank height st) (IndicatorsSafe k bank st)
      (indicated k bank height st) := by
  unfold updateIndicators
  rw [h.newDecCoinsFromCoins]
  have hreward := h.seigniorageReward_nonneg bank
  have hcoin : newDecCoinFromDec k.market microLunaDenom (seigniorageReward bank st).amount =
      some (seigniorageReward bank st) :=
    if_pos ⟨h.luna_valid, hreward _ List.mem_cons_self⟩
  -- one rule for each line of the source
  refine (returns_alignCoins h.rates h.taxRewards_nonneg microSDRDenom).bind (fun _ => ?_)
  refine (Dec.returns_checked _).bind (fun _ => ?_)
  show Returns (newDecCoinFromDec k.market microLunaDenom (seigniorageReward bank st).amount >>= _)
    _ _
  rw [hcoin]
  exact (returns_alignCoins h.rates hreward microSDRDenom).bind_some rfl

/-- `UpdateIndicators` keeps the store well-formed. -/
theorem WellFormed.indicated (h : WellFormed k st) (bank : Bank) (height : BlockHeight) :
    WellFormed k (indicated k bank height st) where
  params := h.params
  rates := h.rates
  luna_valid := h.luna_valid
  tr_nonneg := by
    intro epoch
    unfold getTR SortedMap.getD Treasury.indicated
    rw [SortedMap.get_set]
    split
    · exact coinsValue_nonneg h.rates h.taxRewards_nonneg _
    · exact h.tr_nonneg epoch
  sr_nonneg := by
    intro epoch
    unfold getSR SortedMap.getD Treasury.indicated
    rw [SortedMap.get_set]
    split
    · exact coinsValue_nonneg h.rates (h.seigniorageReward_nonneg bank) _
    · exact h.sr_nonneg epoch
  tsl_nonneg := by
    intro epoch
    unfold getTSL SortedMap.getD Treasury.indicated
    rw [SortedMap.get_set]
    split
    · exact Int.natCast_nonneg _
    · exact h.tsl_nonneg epoch
  taxProceeds := fun _ hcoin => absurd hcoin List.not_mem_nil
  taxRate := h.taxRate
  rewardWeight := h.rewardWeight
  rateMax := h.rateMax

end

/-! ### Sums and averages of indicators -/

/-- The exact sum over a window. -/
def indicatorSum (value : ℤ → ℤ) (curEpoch epochs : ℤ) : ℤ :=
  ((visitedEpochs curEpoch epochs).map value).sum

/-- The truncated average; that of an empty window is zero. -/
def indicatorAverage (value : ℤ → ℤ) (curEpoch epochs : ℤ) : ℤ :=
  (indicatorSum value curEpoch epochs).tdiv (visitedEpochs curEpoch epochs).length

section
variable {value : ℤ → ℤ} {indicator : ℤ → Option Dec} {ok : ℤ → Prop}

theorem indicatorSum_nonneg (hvalue : ∀ i, 0 ≤ value i) (curEpoch epochs : ℤ) :
    0 ≤ indicatorSum value curEpoch epochs :=
  List.sum_nonneg (List.forall_mem_map.mpr (fun i _ => hvalue i))

theorem indicatorAverage_nonneg (hvalue : ∀ i, 0 ≤ value i) (curEpoch epochs : ℤ) :
    0 ≤ indicatorAverage value curEpoch epochs :=
  Int.tdiv_nonneg (indicatorSum_nonneg hvalue curEpoch epochs) (Int.natCast_nonneg _)

theorem returns_sumIndicator (hvalue : ∀ i, 0 ≤ value i)
    (hindicator : ∀ i, Returns (indicator i) (ok i) ⟨value i⟩) (curEpoch epochs : ℤ) :
    Returns (sumIndicator indicator curEpoch epochs)
      ((∀ i ∈ visitedEpochs curEpoch epochs, ok i) ∧ Fits (indicatorSum value curEpoch epochs))
      ⟨indicatorSum value curEpoch epochs⟩ := by
  have hsum : Returns (sumIndicator indicator curEpoch epochs)
      ((∀ i ∈ visitedEpochs curEpoch epochs, ok i) ∧
        Fits (0 + indicatorSum value curEpoch epochs))
      ⟨0 + indicatorSum value curEpoch epochs⟩ :=
    Returns.foldlM_sum Fits.of_le (fun i _ => hvalue i)
      (fun i _ z _ _ => (hindicator i).bind (fun _ => Dec.returns_add ⟨z⟩ ⟨value i⟩))
      le_rfl Dec.fits_zero
  rw [zero_add] at hsum
  exact hsum

/-- The sum of an indicator that is always there. -/
theorem returns_sumIndicator_some (hvalue : ∀ i, 0 ≤ value i) (curEpoch epochs : ℤ) :
    Returns (sumIndicator (fun i => some ⟨value i⟩) curEpoch epochs)
      (Fits (indicatorSum value curEpoch epochs)) ⟨indicatorSum value curEpoch epochs⟩ :=
  (returns_sumIndicator hvalue (fun _ => Returns.pure _) curEpoch epochs).congr
    (and_iff_right (fun _ _ => trivial))

theorem returns_rollingAverageIndicator (hvalue : ∀ i, 0 ≤ value i) (curEpoch epochs : ℤ) :
    Returns (rollingAverageIndicator (fun i => some ⟨value i⟩) curEpoch epochs)
      (Fits (indicatorSum value curEpoch epochs)) ⟨indicatorAverage value curEpoch epochs⟩ := by
  refine (returns_sumIndicator_some hvalue curEpoch epochs).bind_some ?_
  by_cases hempty : ((visitedEpochs curEpoch epochs).length : ℤ) = 0
  -- an empty window: the code returns the sum, which is zero, as is `0 / 0`
  · have hnil := List.eq_nil_of_length_eq_zero (Int.natCast_eq_zero.mp hempty)
    simp only [indicatorAverage, indicatorSum, hnil]
    rfl
  · simp only [if_neg hempty, Dec.quoInt64]
    rfl

end

/-! ### UpdateTaxPolicy -/

theorem WellFormed.trl_nonneg {k : Keepers} {st : Store} (h : WellFormed k st) (epoch : ℤ) :
    0 ≤ (trl st epoch).i :=
  Treasury.trl_nonneg (h.tr_nonneg epoch) (h.tsl_nonneg epoch)

/-- The sum of `TRL` over a window. -/
def trlSum (st : Store) (height : BlockHeight) (window : UInt64) : ℤ :=
  indicatorSum (fun i => (trl st i).i) (getEpoch height) (windowInt64 window)

/-- The average of `TRL` over a window. -/
def trlAverage (st : Store) (height : BlockHeight) (window : UInt64) : ℤ :=
  indicatorAverage (fun i => (trl st i).i) (getEpoch height) (windowInt64 window)

/-- The tax rate that the growth of the revenues asks for. -/
def grownTaxRate (params : Params) (oldTaxRate tlYear : ℤ) : ℤ :=
  Dec.chopPrecisionAndRound
    (oldTaxRate * Dec.chopPrecisionAndRound (tlYear * params.miningIncrement.i))

/-- The raw tax rate before the clamp. -/
def targetTaxRate (params : Params) (oldTaxRate tlYear tlMonth : ℤ) : ℤ :=
  if tlMonth = 0 then params.taxPolicy.rateMax.i
  else Dec.quoRaw (grownTaxRate params oldTaxRate tlYear) tlMonth

/-- The products and the quotient of the tax rate fit. -/
def TaxRateFits (params : Params) (oldTaxRate tlYear tlMonth : ℤ) : Prop :=
  tlMonth ≠ 0 →
    Fits (Dec.chopPrecisionAndRound (tlYear * params.miningIncrement.i)) ∧
    Fits (grownTaxRate params oldTaxRate tlYear) ∧
    Fits (targetTaxRate params oldTaxRate tlYear tlMonth)

theorem returns_unclampedTaxRate (params : Params) (oldTaxRate tlYear tlMonth : ℤ) :
    Returns (unclampedTaxRate params ⟨oldTaxRate⟩ ⟨tlYear⟩ ⟨tlMonth⟩)
      (TaxRateFits params oldTaxRate tlYear tlMonth)
      ⟨targetTaxRate params oldTaxRate tlYear tlMonth⟩ := by
  unfold unclampedTaxRate TaxRateFits targetTaxRate
  by_cases hzero : tlMonth = 0
  · rw [if_pos (Dec.mk_eq_zero.mpr hzero), if_pos hzero]
    exact (Returns.pure _).congr ⟨fun _ h => absurd hzero h, fun _ => trivial⟩
  · rw [if_neg (mt Dec.mk_eq_zero.mp hzero), if_neg hzero]
    refine ((Dec.returns_mul _ _).bind (fun _ => (Dec.returns_mul _ _).bind
      (fun _ => Dec.returns_quo hzero _))).congr ?_
    exact ⟨fun h _ => h, fun h => h hzero⟩

/-- When `UpdateTaxPolicy` returns. -/
def TaxSafe (height : BlockHeight) (st : Store) : Prop :=
  Fits (trlSum st height st.params.windowLong) ∧
    Fits (trlSum st height st.params.windowShort) ∧
    TaxRateFits st.params (getTaxRate st).i (trlAverage st height st.params.windowLong)
      (trlAverage st height st.params.windowShort)

/-- The store that `UpdateTaxPolicy` leaves. -/
def taxed (height : BlockHeight) (st : Store) : Store :=
  { st with
    taxRate := some ((st.params.taxPolicy.clamp (getTaxRate st)
      ⟨targetTaxRate st.params (getTaxRate st).i (trlAverage st height st.params.windowLong)
        (trlAverage st height st.params.windowShort)⟩).getD Dec.zero) }

section
variable {k : Keepers} {st : Store}

theorem targetTaxRate_nonneg {params : Params} (hpolicy : params.taxPolicy.Valid)
    (hmining : 0 ≤ params.miningIncrement.i) {oldTaxRate tlYear tlMonth : ℤ}
    (hold : 0 ≤ oldTaxRate) (hyear : 0 ≤ tlYear) (hmonth : 0 ≤ tlMonth) :
    0 ≤ targetTaxRate params oldTaxRate tlYear tlMonth := by
  unfold targetTaxRate
  split
  · exact hpolicy.rateMin_nonneg.trans (Dec.le_def.mp hpolicy.rateMin_le)
  · exact Dec.quoRaw_nonneg
      (Dec.chop_nonneg (mul_nonneg hold (Dec.chop_nonneg (mul_nonneg hyear hmining)))) hmonth

theorem returns_updateTaxPolicy (h : WellFormed k st) (height : BlockHeight) :
    Returns (updateTaxPolicy height st) (TaxSafe height st) (taxed height st) := by
  have hvalid := Params.checkPairs_ok h.params
  unfold updateTaxPolicy
  refine (returns_rollingAverageIndicator h.trl_nonneg _ _).bind (fun _ => ?_)
  refine (returns_rollingAverageIndicator h.trl_nonneg _ _).bind (fun _ => ?_)
  refine ((returns_unclampedTaxRate st.params (getTaxRate st).i
    (trlAverage st height st.params.windowLong)
    (trlAverage st height st.params.windowShort)).bind (fun hfits => ?_)).congr
    (and_iff_left trivial)
  refine (Returns.of_isSome ?_ Dec.zero).bind_some rfl
  -- with the decimals projected, the goals name the target rate itself
  refine PolicyConstraints.clamp_isSome hvalid.taxPolicy h.taxRate.1 ?_ h.taxRate.2 ?_ <;>
    dsimp only
  · exact targetTaxRate_nonneg hvalid.taxPolicy hvalid.miningIncrement h.taxRate.1
      (indicatorAverage_nonneg h.trl_nonneg _ _) (indicatorAverage_nonneg h.trl_nonneg _ _)
  · by_cases hmonth : trlAverage st height st.params.windowShort = 0
    · have htarget : targetTaxRate st.params (getTaxRate st).i
          (trlAverage st height st.params.windowLong)
          (trlAverage st height st.params.windowShort) = st.params.taxPolicy.rateMax.i :=
        if_pos hmonth
      exact htarget ▸ h.rateMax.1
    · exact (hfits hmonth).2.2

end

/-! ### UpdateRewardPolicy -/

/-- The sum of `SR` over the short window. -/
def srSum (st : Store) (height : BlockHeight) : ℤ :=
  indicatorSum (fun i => (getSR st i).i) (getEpoch height) (windowInt64 st.params.windowShort)

/-- The sum of `MR` over the short window. -/
def mrSum (st : Store) (height : BlockHeight) : ℤ :=
  indicatorSum (fun i => (getTR st i).i + (getSR st i).i) (getEpoch height)
    (windowInt64 st.params.windowShort)

/-- The factor that brings the seigniorage burden to its target. -/
def burdenFactor (params : Params) (seigniorageSum totalSum : ℤ) : ℤ :=
  Dec.quoRaw params.seigniorageBurdenTarget.i (Dec.quoRaw seigniorageSum totalSum)

/-- The raw reward weight before the clamp. -/
def targetRewardWeight (params : Params) (oldWeight seigniorageSum totalSum : ℤ) : ℤ :=
  if seigniorageSum = 0 then params.rewardPolicy.rateMax.i
  else Dec.chopPrecisionAndRound (oldWeight * burdenFactor params seigniorageSum totalSum)

/-- The seigniorage is none, or a part of the total that does not round to zero; then
    the factor and the product fit. -/
def RewardWeightFits (params : Params) (oldWeight seigniorageSum totalSum : ℤ) : Prop :=
  seigniorageSum ≠ 0 →
    (decOne + 2) * totalSum ≤ 2 * (seigniorageSum * (decOne * decOne)) ∧
    Fits (burdenFactor params seigniorageSum totalSum) ∧
    Fits (targetRewardWeight params oldWeight seigniorageSum totalSum)

/-- The share of a part fits. -/
theorem fits_share {part total : ℤ} (hpart : 0 ≤ part) (hle : part ≤ total) (htotal : 0 < total) :
    Fits (Dec.quoRaw part total) := by
  have hmul : total * Dec.quoRaw part total ≤ total * (decOne + 1) :=
    calc total * Dec.quoRaw part total
        ≤ part * decOne + total := Dec.mul_quoRaw_le htotal
      _ ≤ total * decOne + total :=
          add_le_add_left (mul_le_mul_of_nonneg_right hle Dec.decOne_posInt.le) _
      _ = total * (decOne + 1) := by ring
  exact Dec.fits_decOne_succ.of_le (Dec.quoRaw_nonneg hpart htotal.le)
    (le_of_mul_le_mul_left hmul htotal)

theorem returns_unclampedRewardWeight (params : Params) (oldWeight : ℤ)
    {seigniorageSum totalSum : ℤ} (hnonneg : 0 ≤ seigniorageSum)
    (hle : seigniorageSum ≤ totalSum) :
    Returns (unclampedRewardWeight params ⟨oldWeight⟩ ⟨seigniorageSum⟩ ⟨totalSum⟩)
      (RewardWeightFits params oldWeight seigniorageSum totalSum)
      ⟨targetRewardWeight params oldWeight seigniorageSum totalSum⟩ := by
  unfold unclampedRewardWeight RewardWeightFits targetRewardWeight
  by_cases hzero : seigniorageSum = 0
  · rw [if_pos (Or.inr (Dec.mk_eq_zero.mpr hzero)), if_pos hzero]
    exact (Returns.pure _).congr ⟨fun _ h => absurd hzero h, fun _ => trivial⟩
  · have hpos : 0 < totalSum := by omega
    have hsums : ¬ ((⟨totalSum⟩ : Dec) = Dec.zero ∨ (⟨seigniorageSum⟩ : Dec) = Dec.zero) := by
      rw [Dec.mk_eq_zero, Dec.mk_eq_zero]
      omega
    -- when the share of the seigniorage rounds to zero, as an inequality on the sums
    have hround := Dec.quoRaw_eq_zero_iff hnonneg hpos
    rw [if_neg hsums, if_neg hzero]
    by_cases hsb : Dec.quoRaw seigniorageSum totalSum = 0
    · -- the share rounds to zero, and the next division panics
      have hsmall := hround.mp hsb
      have hquo : (⟨seigniorageSum⟩ : Dec).quo ⟨totalSum⟩ = some ⟨0⟩ := by
        rw [(Dec.returns_quo hpos.ne' _).1 (fits_share hnonneg hle hpos)]
        exact congrArg (fun x => some (Dec.mk x)) hsb
      rw [hquo]
      exact ⟨fun h => absurd (h hzero).1 (not_le.mpr hsmall), fun _ => rfl⟩
    · have hlarge := not_lt.mp (mt hround.mpr hsb)
      refine ((Dec.returns_quo hpos.ne' _).bind (fun _ => (Dec.returns_quo hsb _).bind
        (fun _ => Dec.returns_mul _ _))).congr ?_
      exact ⟨fun h _ => ⟨hlarge, h.2⟩, fun h => ⟨fits_share hnonneg hle hpos, (h hzero).2⟩⟩

/-- When `UpdateRewardPolicy` returns. -/
def RewardSafe (height : BlockHeight) (st : Store) : Prop :=
  Fits (mrSum st height) ∧
    RewardWeightFits st.params (getRewardWeight st).i (srSum st height) (mrSum st height)

/-- The store that `UpdateRewardPolicy` leaves. -/
def rewarded (height : BlockHeight) (st : Store) : Store :=
  { st with
    rewardWeight := some ((st.params.rewardPolicy.clamp (getRewardWeight st)
      ⟨targetRewardWeight st.params (getRewardWeight st).i (srSum st height)
        (mrSum st height)⟩).getD Dec.zero) }

section
variable {k : Keepers} {st : Store}

theorem WellFormed.srSum_nonneg (h : WellFormed k st) (height : BlockHeight) :
    0 ≤ srSum st height :=
  indicatorSum_nonneg h.sr_nonneg _ _

/-- The seigniorage is a part of the mining rewards. -/
theorem WellFormed.srSum_le_mrSum (h : WellFormed k st) (height : BlockHeight) :
    srSum st height ≤ mrSum st height := by
  unfold srSum mrSum indicatorSum
  apply List.sum_le_sum
  intro epoch _
  have htr := h.tr_nonneg epoch
  omega

theorem WellFormed.mr_nonneg (h : WellFormed k st) (epoch : ℤ) :
    0 ≤ (getTR st epoch).i + (getSR st epoch).i :=
  add_nonneg (h.tr_nonneg epoch) (h.sr_nonneg epoch)

/-- Each epoch's mining rewards fit if their sum does. -/
theorem WellFormed.returns_mrSum (h : WellFormed k st) (height : BlockHeight) :
    Returns (sumIndicator (mr st) (getEpoch height) (windowInt64 st.params.windowShort))
      (Fits (mrSum st height)) ⟨mrSum st height⟩ := by
  refine (returns_sumIndicator h.mr_nonneg
    (fun epoch => Dec.returns_add (getTR st epoch) (getSR st epoch)) _ _).congr
    (and_iff_right_of_imp (fun hsum epoch hepoch => ?_))
  have hle := List.single_le_sum (List.forall_mem_map.mpr (fun i _ => h.mr_nonneg i)) _
    (List.mem_map_of_mem hepoch)
  exact Fits.of_le (h.mr_nonneg epoch) hle hsum

theorem targetRewardWeight_nonneg {params : Params} (hpolicy : params.rewardPolicy.Valid)
    (htarget : 0 ≤ params.seigniorageBurdenTarget.i) {oldWeight seigniorageSum totalSum : ℤ}
    (hold : 0 ≤ oldWeight) (hsum : 0 ≤ seigniorageSum) (htotal : 0 ≤ totalSum) :
    0 ≤ targetRewardWeight params oldWeight seigniorageSum totalSum := by
  unfold targetRewardWeight
  split
  · exact hpolicy.rateMin_nonneg.trans (Dec.le_def.mp hpolicy.rateMin_le)
  · exact Dec.chop_nonneg (mul_nonneg hold
      (Dec.quoRaw_nonneg htarget (Dec.quoRaw_nonneg hsum htotal)))

/-- The tax rate plays no part in it. -/
theorem returns_updateRewardPolicy (h : WellFormed k st) (height : BlockHeight)
    (taxRate : Option Dec) :
    Returns (updateRewardPolicy height { st with taxRate := taxRate }) (RewardSafe height st)
      (rewarded height { st with taxRate := taxRate }) := by
  have hvalid := Params.checkPairs_ok h.params
  have hsum := h.srSum_nonneg height
  have hle := h.srSum_le_mrSum height
  unfold updateRewardPolicy
  -- the sum of the seigniorage fits if that of all rewards does
  refine ((returns_sumIndicator_some h.sr_nonneg _ _).bind (fun _ =>
    (h.returns_mrSum height).bind (Q := RewardWeightFits st.params (getRewardWeight st).i
      (srSum st height) (mrSum st height)) (fun _ => ?_))).congr
    (and_iff_right_of_imp (fun hsafe => hsafe.1.of_le hsum hle))
  refine ((returns_unclampedRewardWeight st.params (getRewardWeight st).i hsum hle).bind
    (fun hfits => ?_)).congr (and_iff_left trivial)
  refine (Returns.of_isSome ?_ Dec.zero).bind_some rfl
  refine PolicyConstraints.clamp_isSome hvalid.rewardPolicy h.rewardWeight.1 ?_
    h.rewardWeight.2 ?_ <;> dsimp only
  · exact targetRewardWeight_nonneg hvalid.rewardPolicy hvalid.seigniorageBurdenTarget
      h.rewardWeight.1 hsum (hsum.trans hle)
  · by_cases hzero : srSum st height = 0
    · have htarget : targetRewardWeight st.params (getRewardWeight st).i (srSum st height)
          (mrSum st height) = st.params.rewardPolicy.rateMax.i := if_pos hzero
      exact htarget ▸ h.rateMax.2
    · exact (hfits hzero).2.2

end

/-! ### UpdateTaxCap -/

/-- The policy's cap, as a decimal coin. -/
def taxPolicyCap (st : Store) : DecCoin :=
  ⟨st.params.taxPolicy.cap.denom, Dec.ofInt st.params.taxPolicy.cap.amount⟩

/-- When `UpdateTaxCap` returns. -/
def CapSafe (k : Keepers) (st : Store) : Prop :=
  ∀ denom ∈ k.whitelist, SwapFits k.market denom (taxPolicyCap st)

/-- The caps with that of one more denom. -/
def capped (k : Market.Keeper) (cap : DecCoin) (taxCaps : SortedMap Denom ℤ) (denom : Denom) :
    SortedMap Denom ℤ :=
  if denom = cap.denom ∨ swapValue k denom cap = 0 then taxCaps
  else taxCaps.set denom ((swapValue k denom cap).tdiv decOne)

/-- The whole part of a coin in a valid denom. -/
theorem truncateDecimal_of_valid {k : Market.Keeper} {denom : Denom} {amount : ℤ}
    (hvalid : k.bank.validDenom denom = true) (hamount : 0 ≤ amount) :
    Market.truncateDecimal k ⟨denom, ⟨amount⟩⟩ =
      some (⟨denom, amount.tdiv decOne⟩, ⟨denom, ⟨amount.tmod decOne⟩⟩) := by
  have hrest := Int.tmod_nonneg decOne hamount
  have hlt := Int.tmod_lt_of_pos amount Dec.decOne_posInt
  have hchange : (⟨amount⟩ : Dec).sub (Dec.ofInt (amount.tdiv decOne)) =
      some ⟨amount.tmod decOne⟩ := by
    show Dec.checked (amount - amount.tdiv decOne * decOne) = _
    rw [mul_comm, ← Int.tmod_def]
    exact Dec.checked_of_fits (Dec.fits_decOne_succ.of_le hrest (by omega))
  have hwhole : Market.newCoin k denom (amount.tdiv decOne) =
      some ⟨denom, amount.tdiv decOne⟩ :=
    if_pos ⟨hvalid, Int.tdiv_nonneg hamount Dec.decOne_posInt.le⟩
  have hcoin : newDecCoinFromDec k denom ⟨amount.tmod decOne⟩ =
      some ⟨denom, ⟨amount.tmod decOne⟩⟩ := if_pos ⟨hvalid, hrest⟩
  simp only [Market.truncateDecimal, Dec.truncateInt, hchange, hwhole, hcoin,
    Option.bind_eq_bind, Option.bind_some]
  rfl

theorem returns_updateTaxCapOf {k : Market.Keeper} (hrates : RatesPositive k.oracle) {cap : DecCoin}
    (hcap : 0 ≤ cap.amount.i) (taxCaps : SortedMap Denom ℤ) (denom : Denom) :
    Returns (updateTaxCapOf k cap taxCaps denom) (SwapFits k denom cap)
      (capped k cap taxCaps denom) := by
  unfold updateTaxCapOf capped
  by_cases hsame : denom = cap.denom
  · rw [if_pos hsame, if_pos (Or.inl hsame)]
    exact (Returns.pure _).congr ⟨fun _ hne => absurd hsame.symm hne, fun _ => trivial⟩
  · obtain ⟨hpays, hpanics⟩ := computeInternalSwap_spec hrates hcap (Ne.symm hsame)
    rw [if_neg hsame]
    by_cases hfits : SwapFits k denom cap
    · refine ⟨fun _ => ?_, fun hnot => absurd hfits hnot⟩
      rcases hpays hfits with ⟨hpos, hvalid, hswap⟩ | ⟨hzero, err, herr, hswap⟩
      · rw [hswap, if_neg (not_or.mpr ⟨hsame, hpos.ne'⟩)]
        simp only [truncateDecimal_of_valid hvalid hpos.le, Option.bind_eq_bind, Option.bind_some]
        rfl
      · -- without a price the cap stays as it is
        rw [hswap, if_pos (Or.inr hzero)]
        split
        · next heq => exact absurd (Except.error.inj heq) herr
        · rfl
        · next heq => cases heq
    · rw [hpanics hfits]
      exact ⟨fun h => absurd h hfits, fun _ => rfl⟩

theorem returns_updateTaxCap {k : Keepers} {st : Store} (hrates : RatesPositive k.market.oracle)
    (hparams : st.params.Valid k.market.bank.validDenom) :
    Returns (updateTaxCap k st) (CapSafe k st)
      { st with taxCaps := k.whitelist.foldl (capped k.market (taxPolicyCap st)) st.taxCaps } := by
  have hcap : newDecCoinFromCoin k.market st.params.taxPolicy.cap = some (taxPolicyCap st) :=
    if_pos hparams.cap
  have hamount : 0 ≤ (taxPolicyCap st).amount.i := mul_nonneg hparams.cap.2 Dec.decOne_posInt.le
  unfold updateTaxCap
  rw [hcap]
  exact (Returns.foldlM (fun a _ s => returns_updateTaxCapOf hrates hamount s a) _).bind_some rfl

/-! ### The end blocker -/

/-- When the policy updates return. -/
def PoliciesSafe (k : Keepers) (height : BlockHeight) (st : Store) : Prop :=
  TaxSafe height st ∧ RewardSafe height st ∧ CapSafe k st

theorem updatePolicies_isSome_iff {k : Keepers} {st : Store} (h : WellFormed k st)
    (height : BlockHeight) :
    (updatePolicies k height st).isSome ↔
      (inProbation height st.params = false → PoliciesSafe k height st) := by
  unfold updatePolicies
  by_cases hprobation : inProbation height st.params = true
  · rw [if_pos hprobation, hprobation]
    exact ⟨nofun, fun _ => rfl⟩
  · have hafter := Bool.eq_false_of_not_eq_true hprobation
    rw [if_neg hprobation, hafter]
    -- the caps read neither lever
    have hcap : Returns (updateTaxCap k (rewarded height (taxed height st))) (CapSafe k st) _ :=
      returns_updateTaxCap h.rates (Params.checkPairs_ok h.params)
    have hlast : Returns (updateRewardPolicy height (taxed height st) >>= updateTaxCap k)
        (RewardSafe height st ∧ CapSafe k st) _ :=
      (returns_updateRewardPolicy h height (taxed height st).taxRate).bind (fun _ => hcap)
    have hall : Returns (updateTaxPolicy height st >>= fun st =>
        updateRewardPolicy height st >>= updateTaxCap k) (PoliciesSafe k height st) _ :=
      (returns_updateTaxPolicy h height).bind (fun _ => hlast)
    exact ⟨fun hsome _ => hall.isSome_iff.mp hsome, fun hsafe => hall.isSome_iff.mpr (hsafe rfl)⟩

/-- `EndBlocker` returns outside the last block of a week; there it returns when the
    indicators fit and, after the probation, the policies are safe on the new
    indicators. -/
theorem treasury_returns_iff (k : Keepers) (height : BlockHeight) (bank : Bank) (st : Store)
    (h : WellFormed k st) :
    (endBlocker k height bank st).isSome ↔
      (isPeriodLastBlock height blocksPerWeek = some true →
        IndicatorsSafe k (burnCoinsFromBurnAccount bank) st ∧
        (inProbation height st.params = false →
          PoliciesSafe k height (indicated k (burnCoinsFromBurnAccount bank) height st))) := by
  obtain ⟨weekEnds, hweek⟩ : ∃ b, isPeriodLastBlock height blocksPerWeek = some b :=
    ⟨_, if_neg (by decide)⟩
  simp only [endBlocker, hweek, Option.bind_eq_bind, Option.bind_some]
  cases weekEnds with
  | false => exact ⟨fun _ hends => absurd (Option.some.inj hends) Bool.false_ne_true, fun _ => rfl⟩
  | true =>
    -- the policies run on the store with the new indicators, which is well-formed too
    have hindicators := returns_updateIndicators h (burnCoinsFromBurnAccount bank) height
    have hpolicies := updatePolicies_isSome_iff
      (h.indicated (burnCoinsFromBurnAccount bank) height) height
    show (updateIndicators k _ height st >>= fun st => updatePolicies k height st >>= fun st =>
      some (burnCoinsFromBurnAccount bank, recordEpochInitialIssuance k _ st)).isSome ↔ _
    rw [hindicators.bind_isSome_iff, Option.bind_eq_bind, Option.isSome_bind]
    simp only [Option.isSome_some, Option.any_true]
    rw [hpolicies]
    exact ⟨fun hsafe _ => hsafe, fun hsafe => hsafe trivial⟩

/-- The default store at the end of the probation, with rewards in the epoch before. -/
def probationStore (taxReward seigniorageReward : Dec) : Store :=
  (initGenesis smallKeepers smallBank defaultGenesis).atBlock
    (probationEnds taxReward seigniorageReward)

/-- A value that was set once is not negative anywhere. -/
theorem getD_set_nonneg {value : Dec} (h : 0 ≤ value.i) (epoch epoch' : ℤ) :
    0 ≤ (((∅ : SortedMap ℤ Dec).set epoch value).getD epoch' Dec.zero).i := by
  unfold SortedMap.getD
  rw [SortedMap.get_set]
  split
  · exact h
  · exact le_rfl

theorem probationStore_wellFormed {taxReward seigniorageReward : Dec} (htr : 0 ≤ taxReward.i)
    (hsr : 0 ≤ seigniorageReward.i) :
    WellFormed smallKeepers (probationStore taxReward seigniorageReward) where
  params := by
    show defaultParams.checkPairs smallKeepers.market.bank.validDenom = .ok ()
    decide +kernel
  rates := fun d rate h => by cases h
  luna_valid := rfl
  tr_nonneg := fun epoch => getD_set_nonneg htr 11 epoch
  sr_nonneg := fun epoch => getD_set_nonneg hsr 11 epoch
  tsl_nonneg := by
    intro epoch
    show 0 ≤ ((∅ : SortedMap ℤ ℤ).set 11 1000000).getD epoch 0
    unfold SortedMap.getD
    rw [SortedMap.get_set]
    split
    · exact Int.natCast_nonneg 1000000
    · exact le_rfl
  taxProceeds := fun _ hcoin => absurd hcoin List.not_mem_nil
  taxRate := by
    show 0 ≤ defaultTaxRate.i ∧ Fits defaultTaxRate.i
    decide +kernel
  rewardWeight := by
    show 0 ≤ defaultRewardWeight.i ∧ Fits defaultRewardWeight.i
    decide +kernel
  rateMax := by
    show Fits defaultParams.taxPolicy.rateMax.i ∧ Fits defaultParams.rewardPolicy.rateMax.i
    decide +kernel

/-- Taxes of ten and a seigniorage of one: the block returns, and the burden is safe. -/
theorem treasury_returns_shares :
    (endBlocker smallKeepers (probationEnds (Dec.ofInt 10) Dec.one).height smallBank
      (probationStore (Dec.ofInt 10) Dec.one)).isSome ∧
    RewardSafe (probationEnds (Dec.ofInt 10) Dec.one).height
      (indicated smallKeepers (burnCoinsFromBurnAccount smallBank)
        (probationEnds (Dec.ofInt 10) Dec.one).height
        (probationStore (Dec.ofInt 10) Dec.one)) := by
  have hreturns : (endBlocker smallKeepers (probationEnds (Dec.ofInt 10) Dec.one).height smallBank
      (probationStore (Dec.ofInt 10) Dec.one)).isSome := by decide +kernel
  have hsafe := (treasury_returns_iff smallKeepers (probationEnds (Dec.ofInt 10) Dec.one).height
    smallBank (probationStore (Dec.ofInt 10) Dec.one)
    (probationStore_wellFormed (by decide) (by decide))).mp hreturns (by decide)
  exact ⟨hreturns, (hsafe.2 (by decide +kernel)).2.1⟩

/-- Taxes of ten and a seigniorage of `10^-18`: the share rounds to zero, and the
    block panics. -/
theorem treasury_panics_tiny_share :
    WellFormed smallKeepers (probationStore (Dec.ofInt 10) ⟨1⟩) ∧
    endBlocker smallKeepers (probationEnds (Dec.ofInt 10) ⟨1⟩).height smallBank
      (probationStore (Dec.ofInt 10) ⟨1⟩) = none := by
  refine ⟨probationStore_wellFormed (by decide) (by decide), ?_⟩
  rw [← Option.isNone_iff_eq_none]
  decide +kernel

end Treasury

end TerraClassic
