import TerraClassic.Lib.Reorder
import TerraClassic.Lib.Rounding
import TerraClassic.Treasury.Levers
import TerraClassic.Treasury.Windows

/-! # The indicators query

    `Indicators` predicts the averages that the tax policy will read at the end of
    the epoch.  It takes the average of the epochs before, multiplies it by their
    number, which it computes again from the window, and adds the taxes of
    the running epoch.  What the first average truncates is less than one unit for each
    epoch, so the prediction is at most one unit too low (`rebuilt_average`).

    The two ways to count the epochs part for windows that are negative as an
    `int64`: the average visits no epochs, while the count, taken in floating point
    from the unsigned window, says all of them.
-/

namespace TerraClassic.Treasury

open Dec (Fits)
open Market (newDecCoinFromCoin computeInternalSwap_ok)

/-! ### The query -/

/-- `QueryIndicatorsResponse`. -/
structure QueryIndicatorsResponse where
  trlYear : Dec
  trlMonth : Dec
  deriving DecidableEq, Repr

/-- The taxes of the running epoch in SDR. -/
def peekTaxReward (k : Keepers) (st : Store) : Option Dec := do
  let taxRewards ← newDecCoinsFromCoins k.market st.taxProceeds
  alignCoins k.market taxRewards microSDRDenom

/-- The epoch of the context with `BlockHeight() - BlocksPerWeek`. -/
def getPreviousEpoch (height : BlockHeight) : ℤ :=
  ((height.val : ℤ) - blocksPerWeek.toNat).tdiv blocksPerWeek.toNat

/-- `int64(math.Min(float64(window-1), float64(epoch)))`.  Both are whole numbers, and the
    smaller one is at most the epoch. -/
def computedEpochFor (window : UInt64) (epoch : ℤ) : ℤ :=
  min (Rounding.float64 (window - 1).toNat) (Rounding.float64 epoch.toNat)

/-- One window of the query, with the running epoch's taxes for each unit of staked Luna. -/
def windowIndicator (height : BlockHeight) (st : Store) (window : UInt64) (current : Dec) :
    Option Dec := do
  let average ← rollingAverageIndicator (fun i => some (trl st i)) (getPreviousEpoch height)
    (windowInt64 (window - 1))
  let computedEpoch := computedEpochFor window (getEpoch height)
  let total ← average.mulInt computedEpoch
  let total ← total.add current
  total.quoInt64 (computedEpoch + 1)

/-- `Indicators`. -/
def indicators (k : Keepers) (height : BlockHeight) (st : Store) :
    Option QueryIndicatorsResponse := do
  let tr ← peekTaxReward k st
  let current ← tr.quoInt64 k.totalBondedTokens
  if getEpoch height = 0 then return ⟨current, current⟩
  else
    let trlYear ← windowIndicator height st st.params.windowLong current
    let trlMonth ← windowIndicator height st st.params.windowShort current
    return ⟨trlYear, trlMonth⟩

/-! ### The taxes of the running epoch -/

/-- A swap pays something or is skipped, so the aligned amount stays a decimal that is not
    negative. -/
theorem alignCoin_bounds {k : Market.Keeper} {denom : Denom} {d d' : Dec} {coin : DecCoin}
    (h : alignCoin k denom d coin = some d') (hcoin : 0 ≤ coin.amount.i)
    (hd : 0 ≤ d.i ∧ Fits d.i) : 0 ≤ d'.i ∧ Fits d'.i := by
  unfold alignCoin at h
  split at h
  · next hne =>
    split at h
    · cases h
    · rwa [← Option.some.inj h]
    · next hswap =>
      obtain ⟨_, _, _, _, _, hpos⟩ := computeInternalSwap_ok hne hswap
      obtain ⟨hfits, rfl⟩ := Dec.checked_eq_some.mp h
      exact ⟨add_nonneg hd.1 hpos.le, hfits⟩
  · obtain ⟨hfits, rfl⟩ := Dec.checked_eq_some.mp h
    exact ⟨add_nonneg hd.1 hcoin, hfits⟩

theorem alignCoins_bounds {k : Market.Keeper} {denom : Denom} {coins : List DecCoin}
    (hcoins : ∀ coin ∈ coins, 0 ≤ coin.amount.i) {d d' : Dec} (hd : 0 ≤ d.i ∧ Fits d.i)
    (h : coins.foldlM (alignCoin k denom) d = some d') : 0 ≤ d'.i ∧ Fits d'.i :=
  Run.run_invariant_along (fun _ _ _ halign hcoin hbounds => alignCoin_bounds halign hcoin hbounds)
    h (Run.Along.of_mem hcoins d) hd

theorem peekTaxReward_bounds {k : Keepers} {st : Store} {tr : Dec}
    (h : peekTaxReward k st = some tr) : 0 ≤ tr.i ∧ Fits tr.i := by
  obtain ⟨coins, hcoins, halign⟩ := Option.bind_eq_some_iff.mp h
  refine alignCoins_bounds ?_ ⟨le_rfl, Dec.fits_zero⟩ halign
  -- a coin with a negative amount panics
  intro coin hcoin
  obtain ⟨entry, _, hentry⟩ := Reorder.exists_of_mem_mapM hcoins hcoin
  unfold newDecCoinFromCoin at hentry
  split at hentry
  · next hvalid =>
    rw [← Option.some.inj hentry]
    exact mul_nonneg hvalid.2 Dec.decOne_posInt.le
  · cases hentry

/-! ### Counting the epochs -/

section
variable {height : BlockHeight} {window : UInt64}

theorem getPreviousEpoch_eq (h : 1 ≤ getEpoch height) :
    getPreviousEpoch height = getEpoch height - 1 := by
  have hepoch := getEpoch_eq height
  have hprevious : getPreviousEpoch height = ((height.val : ℤ) - 100800) / 100800 :=
    Int.tdiv_eq_ediv_of_nonneg (show (0 : ℤ) ≤ (height.val : ℤ) - 100800 by omega)
  omega

theorem toNat_sub_one (h : 1 ≤ window.toNat) : (window - 1).toNat = window.toNat - 1 :=
  UInt64.toNat_sub_of_le _ _ (UInt64.le_iff_toNat_le.mpr h)

/-- An epoch has few enough bits for a `float64`, and a window that has not is larger. -/
theorem computedEpochFor_eq (h : 1 ≤ window.toNat) :
    computedEpochFor window (getEpoch height) =
      min ((window.toNat : ℤ) - 1) (getEpoch height) := by
  have hheight := height.isLt
  have hepoch := getEpoch_eq height
  unfold computedEpochFor
  rw [toNat_sub_one h, Rounding.float64_of_lt (show (getEpoch height).toNat < 2 ^ 53 by omega)]
  rcases lt_or_ge (window.toNat - 1) (2 ^ 53) with hsmall | hlarge
  · rw [Rounding.float64_of_lt hsmall]
    omega
  · have := Rounding.le_float64 hlarge
    omega

/-- The epochs that an average over a window visits: none where the window is negative as
    an `int64` and the loop's bound does not overflow. -/
theorem visitedCount_windowInt64 {e : ℤ} (h : 0 ≤ e) (hlt : e + 1 < 2 ^ 63) (window : UInt64) :
    visitedCount e (windowInt64 window) =
      if (window.toNat : ℤ) ≤ 2 ^ 63 + e then (min (window.toNat : ℤ) (e + 1)).toNat else 0 := by
  have hwindow := window.toNat_lt
  unfold windowInt64
  rcases lt_or_ge window.toNat (2 ^ 63) with hsmall | hlarge
  · rw [toInt64_of_lt (by omega) (by omega), visitedCount_of_lt h (by omega) (by omega),
      if_pos (by omega)]
    omega
  · rw [toInt64_of_ge (by omega) (by omega)]
    split
    · next hle =>
      rw [visitedCount_of_ge (by omega) (by omega) (by omega)]
      omega
    · next hgt =>
      rw [visitedCount_of_lt h (by omega) (by omega)]
      omega

end

/-! ### Averages that are not negative -/

section
variable {value : ℤ → Dec} {e : ℤ} {n : ℕ}

theorem windowSum_nonneg (hvalue : ∀ i, 0 ≤ (value i).i) (e : ℤ) (n : ℕ) :
    0 ≤ windowSum value e n :=
  Finset.sum_nonneg (fun _ _ => hvalue _)

theorem windowAverage_nonneg (hvalue : ∀ i, 0 ≤ (value i).i) (e : ℤ) (n : ℕ) :
    0 ≤ windowAverage value e n := by
  unfold windowAverage
  split
  · exact le_rfl
  · exact Int.tdiv_nonneg (windowSum_nonneg hvalue e n) (Int.natCast_nonneg n)

/-- The average times the number of epochs is short of the sum by less than one unit for
    each epoch. -/
theorem windowAverage_mul (hvalue : ∀ i, 0 ≤ (value i).i) (e : ℤ) (n : ℕ) :
    windowAverage value e n * n ≤ windowSum value e n ∧
      windowSum value e n ≤ windowAverage value e n * n + n := by
  unfold windowAverage
  split
  · next hzero =>
    rw [hzero]
    exact ⟨le_rfl, le_rfl⟩
  · next hne =>
    have hpos : (0 : ℤ) < n := by omega
    rw [Int.tdiv_eq_ediv_of_nonneg (windowSum_nonneg hvalue e n)]
    have hlower := Int.ediv_mul_le (windowSum value e n) hpos.ne'
    have hupper := Int.lt_ediv_add_one_mul_self (windowSum value e n) hpos
    rw [add_mul, one_mul] at hupper
    exact ⟨hlower, hupper.le⟩

/-- Averages of `n + 1` epochs whose sums differ by at most `n` units. -/
theorem rebuilt_average {rebuilt sum current : ℤ} (hrebuilt : 0 ≤ rebuilt)
    (hcurrent : 0 ≤ current) (hle : rebuilt ≤ sum) (hsum : sum ≤ rebuilt + n) :
    (rebuilt + current).tdiv (n + 1) ≤ (sum + current).tdiv (n + 1) ∧
      (sum + current).tdiv (n + 1) ≤ (rebuilt + current).tdiv (n + 1) + 1 := by
  have hpos : (0 : ℤ) < n + 1 := by omega
  refine ⟨Int.tdiv_le_tdiv hpos (by omega), ?_⟩
  calc (sum + current).tdiv (n + 1)
      ≤ (rebuilt + current + 1 * (n + 1)).tdiv (n + 1) := Int.tdiv_le_tdiv hpos (by omega)
    _ = (rebuilt + current).tdiv (n + 1) + 1 := by
      rw [Int.tdiv_eq_ediv_of_nonneg (by omega), Int.tdiv_eq_ediv_of_nonneg (by omega),
        Int.add_mul_ediv_right _ _ hpos.ne']

end

/-! ### The store after the update -/

section
variable {k : Keepers} {bank : Bank} {height : BlockHeight} {st st' : Store}

/-- What the update records for the averages. -/
structure Recorded (k : Keepers) (height : BlockHeight) (st : Store) (tr : Dec) (st' : Store) :
    Prop where
  params : st'.params = st.params
  tr : st'.tr = st.tr.set (getEpoch height) tr
  tsl : st'.tsl = st.tsl.set (getEpoch height) k.totalBondedTokens

theorem updateIndicators_recorded (h : updateIndicators k bank height st = some st') :
    ∃ tr, peekTaxReward k st = some tr ∧ Recorded k height st tr st' := by
  unfold updateIndicators at h
  obtain ⟨taxRewards, hrewards, h⟩ := Option.bind_eq_some_iff.mp h
  obtain ⟨tr, htr, h⟩ := Option.bind_eq_some_iff.mp h
  obtain ⟨_, _, h⟩ := Option.bind_eq_some_iff.mp h
  obtain ⟨_, _, h⟩ := Option.bind_eq_some_iff.mp h
  obtain ⟨_, _, h⟩ := Option.bind_eq_some_iff.mp h
  rw [← Option.some.inj h]
  exact ⟨tr, Option.bind_eq_some_iff.mpr ⟨taxRewards, hrewards, htr⟩, rfl, rfl, rfl⟩

variable {tr : Dec}

theorem Recorded.trl_current (h : Recorded k height st tr st') :
    trl st' (getEpoch height) = ⟨tr.i.tdiv k.totalBondedTokens⟩ := by
  unfold trl getTR getTSL SortedMap.getD
  rw [h.tr, h.tsl, SortedMap.get_set_self, SortedMap.get_set_self]
  simp only [Option.getD_some]
  split
  · next hzero =>
    -- without taxes, or without stake, the quotient is zero as well
    simp only [Dec.isZero, Bool.or_eq_true, beq_iff_eq, decide_eq_true_eq] at hzero
    rcases hzero with hzero | hzero
    · rw [hzero, Int.zero_tdiv]
      rfl
    · rw [hzero, Int.tdiv_zero]
      rfl
  · rfl

theorem Recorded.trl_other (h : Recorded k height st tr st') {i : ℤ} (hi : i ≠ getEpoch height) :
    trl st' i = trl st i := by
  unfold trl getTR getTSL SortedMap.getD
  rw [h.tr, h.tsl, SortedMap.get_set_ne _ _ hi, SortedMap.get_set_ne _ _ hi]

/-- The window that ends with the running epoch is that of the epochs before, and this one. -/
theorem Recorded.windowSum_succ (h : Recorded k height st tr st') (n : ℕ) :
    windowSum (trl st') (getEpoch height) (n + 1) =
      windowSum (trl st) (getEpoch height - 1) n + tr.i.tdiv k.totalBondedTokens := by
  unfold windowSum
  rw [Finset.sum_range_succ', Nat.cast_zero, sub_zero, h.trl_current]
  congr 1
  refine Finset.sum_congr rfl (fun j _ => ?_)
  rw [Nat.cast_succ, h.trl_other (by omega), sub_sub, add_comm (1 : ℤ)]

end

/-! ### One window -/

/-- The prediction is not above the average and short of it by at most `10^-18`. -/
def Predicts (predicted average : Dec) : Prop :=
  predicted ≤ average ∧ average.i ≤ predicted.i + 1

section
variable {k : Keepers} {height : BlockHeight} {st st' : Store} {tr : Dec} {window : UInt64}

/-- The value of the query, where its parts fit. -/
theorem windowIndicator_eq (st : Store) (hepoch : 1 ≤ getEpoch height) (current : ℤ) {count : ℕ}
    {computed : ℤ}
    (hcount : visitedCount (getEpoch height - 1) (windowInt64 (window - 1)) = count)
    (hcomputed : computedEpochFor window (getEpoch height) = computed) (hpos : 0 ≤ computed)
    (hfits : ∀ m ≤ count, Fits (windowSum (trl st) (getEpoch height - 1) m))
    (hmul : Fits (windowAverage (trl st) (getEpoch height - 1) count * computed))
    (hadd : Fits (windowAverage (trl st) (getEpoch height - 1) count * computed + current)) :
    windowIndicator height st window ⟨current⟩ =
      some ⟨(windowAverage (trl st) (getEpoch height - 1) count * computed + current).tdiv
        (computed + 1)⟩ := by
  have hlt := getEpoch_succ_lt height
  have haverage := returns_rollingAverageIndicatorLoop (trl st)
    (show 0 ≤ getEpoch height - 1 by omega) (by omega) (windowInt64 (window - 1))
  rw [hcount] at haverage
  have hmulInt : Dec.mulInt ⟨windowAverage (trl st) (getEpoch height - 1) count⟩ computed =
      some ⟨windowAverage (trl st) (getEpoch height - 1) count * computed⟩ :=
    Dec.checked_of_fits hmul
  have haddDec : Dec.add ⟨windowAverage (trl st) (getEpoch height - 1) count * computed⟩
      ⟨current⟩ = some _ := Dec.checked_of_fits hadd
  unfold windowIndicator
  rw [getPreviousEpoch_eq hepoch, rollingAverageIndicator_eq_loop _ (by omega) (by omega),
    haverage.1 hfits, hcomputed]
  simp only [Option.bind_eq_bind, Option.bind_some, hmulInt, haddDec]
  exact if_neg (by omega)

/-- What the policies' average is. -/
theorem average_eq {average : Dec}
    (haverage : rollingAverageIndicator (fun i => some (trl st' i)) (getEpoch height)
      (windowInt64 window) = some average) {count : ℕ}
    (hcount : visitedCount (getEpoch height) (windowInt64 window) = count) :
    (∀ m ≤ count, Fits (windowSum (trl st') (getEpoch height) m)) ∧
      average = ⟨windowAverage (trl st') (getEpoch height) count⟩ := by
  have hreturns := returns_rollingAverageIndicatorLoop (trl st') (getEpoch_nonneg height)
    (getEpoch_succ_lt height) (windowInt64 window)
  rw [rollingAverageIndicator_eq_loop _ (getEpoch_nonneg height) (getEpoch_succ_lt height)]
    at haverage
  rw [hcount] at hreturns
  have hfits := hreturns.isSome_iff.mp (by rw [haverage]; rfl)
  exact ⟨hfits, Option.some.inj (haverage.symm.trans (hreturns.1 hfits))⟩

/-- A window that visits the epochs it stands for is predicted. -/
theorem windowIndicator_predicts (hepoch : 1 ≤ getEpoch height)
    (hhistory : ∀ i, 0 ≤ (trl st i).i) (hrecorded : Recorded k height st tr st')
    (htr : 0 ≤ tr.i) (hwindow : 1 ≤ window.toNat)
    (hle : (window.toNat : ℤ) ≤ 2 ^ 63 + getEpoch height) {average : Dec}
    (haverage : rollingAverageIndicator (fun i => some (trl st' i)) (getEpoch height)
      (windowInt64 window) = some average) :
    ∃ predicted,
      windowIndicator height st window ⟨tr.i.tdiv k.totalBondedTokens⟩ = some predicted ∧
      Predicts predicted average := by
  have hlt := getEpoch_succ_lt height
  have hcurrent : 0 ≤ tr.i.tdiv k.totalBondedTokens :=
    Int.tdiv_nonneg htr (Int.natCast_nonneg _)
  -- the query sees one epoch less
  obtain ⟨n, hn⟩ : ∃ n : ℕ, (n : ℤ) = min ((window.toNat : ℤ) - 1) (getEpoch height) :=
    ⟨(min ((window.toNat : ℤ) - 1) (getEpoch height)).toNat, Int.toNat_of_nonneg (by omega)⟩
  have hcount : visitedCount (getEpoch height) (windowInt64 window) = n + 1 := by
    rw [visitedCount_windowInt64 (by omega) hlt, if_pos hle]
    omega
  have hbefore : visitedCount (getEpoch height - 1) (windowInt64 (window - 1)) = n := by
    rw [visitedCount_windowInt64 (by omega) (by omega), toNat_sub_one hwindow, if_pos (by omega)]
    omega
  obtain ⟨hfits, rfl⟩ := average_eq haverage hcount
  have hsums : ∀ m ≤ n, Fits (windowSum (trl st) (getEpoch height - 1) m) := by
    intro m hm
    have hsucc := hfits (m + 1) (by omega)
    rw [hrecorded.windowSum_succ] at hsucc
    exact hsucc.of_le (windowSum_nonneg hhistory _ m) (by omega)
  have hlast := hfits (n + 1) le_rfl
  rw [hrecorded.windowSum_succ] at hlast
  obtain ⟨hlower, hupper⟩ := windowAverage_mul hhistory (getEpoch height - 1) n
  have hrebuilt : 0 ≤ windowAverage (trl st) (getEpoch height - 1) n * n :=
    mul_nonneg (windowAverage_nonneg hhistory _ n) (Int.natCast_nonneg n)
  refine ⟨_, windowIndicator_eq st hepoch _ hbefore ((computedEpochFor_eq hwindow).trans hn.symm)
    (Int.natCast_nonneg n) hsums (hlast.of_le hrebuilt (by omega))
    (hlast.of_le (by omega) (by omega)), ?_⟩
  have hclose := rebuilt_average hrebuilt hcurrent hlower hupper
  unfold Predicts windowAverage
  rw [if_neg (Nat.succ_ne_zero n), hrecorded.windowSum_succ, Nat.cast_succ]
  exact hclose

/-- A window that visits no epochs: the average is zero, the query has the running epoch. -/
theorem windowIndicator_of_gt (st : Store) (hepoch : 1 ≤ getEpoch height)
    (hwindow : 1 ≤ window.toNat) (hgt : 2 ^ 63 + getEpoch height < (window.toNat : ℤ))
    {current : ℤ} (hfits : Fits current) {average : Dec}
    (haverage : rollingAverageIndicator (fun i => some (trl st' i)) (getEpoch height)
      (windowInt64 window) = some average) :
    average = Dec.zero ∧ windowIndicator height st window ⟨current⟩ =
      some ⟨current.tdiv (getEpoch height + 1)⟩ := by
  have hlt := getEpoch_succ_lt height
  have hcount : visitedCount (getEpoch height) (windowInt64 window) = 0 := by
    rw [visitedCount_windowInt64 (by omega) hlt, if_neg (by omega)]
  have hbefore : visitedCount (getEpoch height - 1) (windowInt64 (window - 1)) = 0 := by
    rw [visitedCount_windowInt64 (by omega) (by omega), toNat_sub_one hwindow, if_neg (by omega)]
  have hcomputed : computedEpochFor window (getEpoch height) = getEpoch height := by
    rw [computedEpochFor_eq hwindow]
    omega
  have hzero : ∀ (value : ℤ → Dec) (e x : ℤ), windowAverage value e 0 * x = 0 :=
    fun _ _ x => zero_mul x
  refine ⟨(average_eq haverage hcount).2, ?_⟩
  have heq := windowIndicator_eq st hepoch current hbefore hcomputed (by omega)
    (fun m hm => by rw [Nat.le_zero.mp hm]; exact Dec.fits_zero)
    (by rw [hzero]; exact Dec.fits_zero) (by rw [hzero, zero_add]; exact hfits)
  rwa [hzero, zero_add] at heq

theorem windowIndicator_iff (hepoch : 1 ≤ getEpoch height) (hhistory : ∀ i, 0 ≤ (trl st i).i)
    (hrecorded : Recorded k height st tr st') (htr : 0 ≤ tr.i ∧ Fits tr.i)
    (hstaked : 0 < k.totalBondedTokens) (hwindow : 1 ≤ window.toNat) {average : Dec}
    (haverage : rollingAverageIndicator (fun i => some (trl st' i)) (getEpoch height)
      (windowInt64 window) = some average) :
    (∃ predicted,
      windowIndicator height st window ⟨tr.i.tdiv k.totalBondedTokens⟩ = some predicted ∧
      Predicts predicted average) ↔
      (window.toNat : ℤ) ≤ 2 ^ 63 + getEpoch height ∨
        tr.i < (getEpoch height + 1) * k.totalBondedTokens := by
  rcases le_or_gt (window.toNat : ℤ) (2 ^ 63 + getEpoch height) with hle | hgt
  · have hpredicts := windowIndicator_predicts hepoch hhistory hrecorded htr.1 hwindow hle haverage
    exact iff_of_true hpredicts (Or.inl hle)
  · have hpos : (0 : ℤ) < k.totalBondedTokens := by exact_mod_cast hstaked
    rw [or_iff_right (not_le.mpr hgt), ← Int.ediv_lt_iff_lt_mul hpos,
      ← Int.tdiv_eq_ediv_of_nonneg htr.1]
    have hcurrent : 0 ≤ tr.i.tdiv k.totalBondedTokens := Int.tdiv_nonneg htr.1 hpos.le
    have hfits : Fits (tr.i.tdiv k.totalBondedTokens) := by
      refine htr.2.of_le hcurrent ?_
      rw [Int.tdiv_eq_ediv_of_nonneg htr.1]
      exact Int.ediv_le_self _ htr.1
    obtain ⟨rfl, hquery⟩ := windowIndicator_of_gt st hepoch hwindow hgt hfits haverage
    -- a prediction of zero is one of at most zero
    have hnonneg := Int.tdiv_nonneg hcurrent (show 0 ≤ getEpoch height + 1 by omega)
    have hzero : (tr.i.tdiv k.totalBondedTokens).tdiv (getEpoch height + 1) < 1 ↔
        tr.i.tdiv k.totalBondedTokens < getEpoch height + 1 := by
      rw [Int.tdiv_eq_ediv_of_nonneg hcurrent, Int.ediv_lt_iff_lt_mul (by omega), one_mul]
    rw [← hzero]
    constructor
    · rintro ⟨predicted, hpredicted, hle, _⟩
      rw [hquery] at hpredicted
      rw [← Option.some.inj hpredicted] at hle
      exact Int.lt_add_one_of_le hle
    · intro hlt
      refine ⟨_, hquery, Int.le_of_lt_add_one hlt, ?_⟩
      show (0 : ℤ) ≤ (tr.i.tdiv k.totalBondedTokens).tdiv (getEpoch height + 1) + 1
      omega

end

/-! ### The prediction -/

/-- The averages visit the epochs that the window stands for, or the running epoch's taxes
    for each unit of staked Luna are below `10^-18` for each epoch. -/
def WindowPredicted (k : Keepers) (height : BlockHeight) (st : Store) (window : UInt64) : Prop :=
  (window.toNat : ℤ) ≤ 2 ^ 63 + getEpoch height ∨
    ∀ tr, peekTaxReward k st = some tr → tr.i < (getEpoch height + 1) * k.totalBondedTokens

/-- The query predicts what the tax policy would read after an update now exactly when both
    windows are predicted. -/
theorem indicators_predict_iff (k : Keepers) (bank : Bank) (height : BlockHeight) (st st' : Store)
    (hhistory : ∀ epoch, 0 ≤ (getTR st epoch).i ∧ 0 ≤ getTSL st epoch)
    (hepoch : 1 ≤ getEpoch height) (hstaked : 0 < k.totalBondedTokens)
    (hlong : 1 ≤ st.params.windowLong.toNat) (hshort : 1 ≤ st.params.windowShort.toNat)
    (hupdate : updateIndicators k bank height st = some st') (year month : Dec)
    (hyear : rollingAverageIndicator (fun i => some (trl st' i)) (getEpoch height)
      (windowInt64 st'.params.windowLong) = some year)
    (hmonth : rollingAverageIndicator (fun i => some (trl st' i)) (getEpoch height)
      (windowInt64 st'.params.windowShort) = some month) :
    (∃ res, indicators k height st = some res ∧ Predicts res.trlYear year ∧
      Predicts res.trlMonth month) ↔
      WindowPredicted k height st st.params.windowLong ∧
        WindowPredicted k height st st.params.windowShort := by
  obtain ⟨tr, htr, hrecorded⟩ := updateIndicators_recorded hupdate
  have hbounds := peekTaxReward_bounds htr
  have htrl : ∀ i, 0 ≤ (trl st i).i := fun i => trl_nonneg (hhistory i).1 (hhistory i).2
  rw [hrecorded.params] at hyear hmonth
  have hyearIff := windowIndicator_iff hepoch htrl hrecorded hbounds hstaked hlong hyear
  have hmonthIff := windowIndicator_iff hepoch htrl hrecorded hbounds hstaked hshort hmonth
  have htaxes : (∀ tr, peekTaxReward k st = some tr →
      tr.i < (getEpoch height + 1) * k.totalBondedTokens) ↔
      tr.i < (getEpoch height + 1) * k.totalBondedTokens := by
    rw [htr]
    exact ⟨fun h => h tr rfl, fun h _ heq => Option.some.inj heq ▸ h⟩
  have hquery : indicators k height st = (do
      let trlYear ← windowIndicator height st st.params.windowLong
        ⟨tr.i.tdiv k.totalBondedTokens⟩
      let trlMonth ← windowIndicator height st st.params.windowShort
        ⟨tr.i.tdiv k.totalBondedTokens⟩
      return ⟨trlYear, trlMonth⟩) := by
    have hquo : tr.quoInt64 k.totalBondedTokens = some ⟨tr.i.tdiv k.totalBondedTokens⟩ :=
      if_neg (by omega)
    unfold indicators
    simp only [htr, hquo, Option.bind_eq_bind, Option.bind_some]
    rw [if_neg (by omega)]
  unfold WindowPredicted
  rw [htaxes, ← hyearIff, ← hmonthIff, hquery]
  constructor
  · rintro ⟨res, hres, hpredictsYear, hpredictsMonth⟩
    obtain ⟨trlYear, hyear, hres⟩ := Option.bind_eq_some_iff.mp hres
    obtain ⟨trlMonth, hmonth, hres⟩ := Option.bind_eq_some_iff.mp hres
    rw [← Option.some.inj hres] at hpredictsYear hpredictsMonth
    exact ⟨⟨trlYear, hyear, hpredictsYear⟩, trlMonth, hmonth, hpredictsMonth⟩
  · rintro ⟨⟨trlYear, hyear, hpredictsYear⟩, trlMonth, hmonth, hpredictsMonth⟩
    exact ⟨⟨trlYear, trlMonth⟩, by rw [hyear, hmonth]; rfl, hpredictsYear, hpredictsMonth⟩

/-! ### At the second epoch -/

def secondEpoch : BlockHeight := ⟨100800, by norm_num⟩

/-- Taxes of ten SDR in the first epoch and of seven in the second. -/
def secondStore (windowLong : UInt64) : Store :=
  { initGenesis smallKeepers smallBank defaultGenesis with
    params := { defaultParams with windowLong := windowLong }
    taxProceeds := (∅ : Coins).set microSDRDenom 7000000
    tr := (∅ : SortedMap ℤ Dec).set 0 (Dec.ofInt 10000000)
    tsl := (∅ : SortedMap ℤ ℤ).set 0 1000000 }

theorem secondStore_history (windowLong : UInt64) (epoch : ℤ) :
    0 ≤ (getTR (secondStore windowLong) epoch).i ∧ 0 ≤ getTSL (secondStore windowLong) epoch := by
  show 0 ≤ (((∅ : SortedMap ℤ Dec).set 0 (Dec.ofInt 10000000)).getD epoch Dec.zero).i ∧
    0 ≤ ((∅ : SortedMap ℤ ℤ).set 0 1000000).getD epoch 0
  unfold SortedMap.getD
  rw [SortedMap.get_set, SortedMap.get_set]
  split
  · decide
  · exact ⟨le_rfl, le_rfl⟩

theorem indicators_predict_year :
    ∃ st' year month res,
      updateIndicators smallKeepers smallBank secondEpoch (secondStore 52) = some st' ∧
      rollingAverageIndicator (fun i => some (trl st' i)) (getEpoch secondEpoch)
        (windowInt64 st'.params.windowLong) = some year ∧
      rollingAverageIndicator (fun i => some (trl st' i)) (getEpoch secondEpoch)
        (windowInt64 st'.params.windowShort) = some month ∧
      indicators smallKeepers secondEpoch (secondStore 52) = some res ∧
      Predicts res.trlYear year ∧ Predicts res.trlMonth month := by
  have hsome : ((updateIndicators smallKeepers smallBank secondEpoch (secondStore 52)).bind
      (fun st' => do
        let year ← rollingAverageIndicator (fun i => some (trl st' i)) (getEpoch secondEpoch)
          (windowInt64 st'.params.windowLong)
        let month ← rollingAverageIndicator (fun i => some (trl st' i)) (getEpoch secondEpoch)
          (windowInt64 st'.params.windowShort)
        return (year, month))).isSome = true := by decide +kernel
  obtain ⟨_, hpair⟩ := Option.isSome_iff_exists.mp hsome
  obtain ⟨st', hupdate, hpair⟩ := Option.bind_eq_some_iff.mp hpair
  obtain ⟨year, hyear, hpair⟩ := Option.bind_eq_some_iff.mp hpair
  obtain ⟨month, hmonth, _⟩ := Option.bind_eq_some_iff.mp hpair
  obtain ⟨res, hres, hpredicts⟩ := (indicators_predict_iff smallKeepers smallBank secondEpoch
    (secondStore 52) st' (secondStore_history 52) (by decide) (by decide) (by decide) (by decide)
    hupdate year month hyear hmonth).mpr ⟨Or.inl (by decide), Or.inl (by decide)⟩
  exact ⟨st', year, month, res, hupdate, hyear, hmonth, hres, hpredicts⟩

/-- A long window of `2^64 - 1` passes the check.  The query says 3.5, the policy will
    read zero. -/
theorem indicators_large_window :
    (secondStore 18446744073709551615).params.validate
      smallKeepers.market.bank.validDenom = .ok () ∧
    (indicators smallKeepers secondEpoch (secondStore 18446744073709551615)).map
      QueryIndicatorsResponse.trlYear = some (Dec.withPrec 35 1) ∧
    (updateIndicators smallKeepers smallBank secondEpoch
      (secondStore 18446744073709551615)).bind (fun st' =>
        rollingAverageIndicator (fun i => some (trl st' i)) (getEpoch secondEpoch)
          (windowInt64 st'.params.windowLong)) = some Dec.zero ∧
    ¬ Dec.withPrec 35 1 ≤ Dec.zero := by
  refine ⟨by decide +kernel, by decide +kernel, by decide +kernel, by decide⟩

end TerraClassic.Treasury
