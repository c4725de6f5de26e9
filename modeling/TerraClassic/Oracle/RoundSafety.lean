import TerraClassic.Oracle.Misses

/-! # When a round of the tally loop returns

    The divisions and the bounds of one round, in terms of the votes: the
    cross quotients, the reward band around the median, and the conversion of
    the median back (`roundOf_isSome_iff`).
-/

namespace TerraClassic.Oracle

variable {sched : Schedule} {k : Keepers} {params : Params} {st : Store}

/-! ### The reward band -/

/-- The spread around a median: half the reward band of it, or the standard
    deviation if that is larger. -/
def spreadAt (float : FloatSqrt) (pb : ExchangeRateBallot) (rewardBand median : Dec) : ℤ :=
  max (Dec.chopPrecisionAndRound (median.i * rewardBand.i.tdiv 2))
    (standardDeviation float pb median).i

theorem standardDeviation_fits (float : FloatSqrt) (pb : ExchangeRateBallot) (median : Dec) :
    Dec.Fits (standardDeviation float pb median).i := by
  unfold standardDeviation
  split
  · exact Dec.fits_zero
  · split
    · exact Dec.fits_zero
    · split
      · exact Dec.fits_zero
      · exact float.sqrt_fits _

/-- Half the reward band of a median is at most the median. -/
theorem halfBand_bounds {median rewardBand : Dec} (hm : 0 ≤ median.i) (hb₀ : 0 ≤ rewardBand.i)
    (hb₁ : rewardBand.i ≤ decOne) :
    0 ≤ Dec.chopPrecisionAndRound (median.i * rewardBand.i.tdiv 2) ∧
      Dec.chopPrecisionAndRound (median.i * rewardBand.i.tdiv 2) ≤ median.i := by
  rw [Int.tdiv_eq_ediv_of_nonneg hb₀]
  have hhalf₀ : 0 ≤ rewardBand.i / 2 := by omega
  have hhalf₁ : rewardBand.i / 2 ≤ decOne := by omega
  constructor
  · exact Rounding.roundHalfEven_nonneg _ (mul_nonneg hm hhalf₀)
  · apply Rounding.roundHalfEven_le_of_le_mul _ Dec.decOne_pos
    rw [mul_comm]
    exact mul_le_mul_of_nonneg_right hhalf₁ hm

theorem rewardSpread_eq (float : FloatSqrt) {pb : ExchangeRateBallot} {rewardBand : Dec}
    (hm : 0 ≤ (weightedMedian pb).i) (hfit : Dec.Fits (weightedMedian pb).i)
    (hb₀ : 0 ≤ rewardBand.i) (hb₁ : rewardBand.i ≤ decOne) :
    rewardSpread float pb rewardBand =
      some ⟨spreadAt float pb rewardBand (weightedMedian pb)⟩ := by
  have hbounds := halfBand_bounds hm hb₀ hb₁
  have hmul : (weightedMedian pb).mul ⟨rewardBand.i.tdiv 2⟩ =
      some ⟨Dec.chopPrecisionAndRound ((weightedMedian pb).i * rewardBand.i.tdiv 2)⟩ :=
    Dec.checked_of_fits (hfit.of_le hbounds.1 hbounds.2)
  have hquo : rewardBand.quoInt64 2 = some ⟨rewardBand.i.tdiv 2⟩ := rfl
  unfold rewardSpread spreadAt
  rw [hquo]
  simp only [Option.bind_eq_bind, Option.bind_some, hmul, Option.pure_def, Option.some.injEq]
  apply Dec.ext
  generalize Dec.chopPrecisionAndRound ((weightedMedian pb).i * rewardBand.i.tdiv 2) = x
  generalize standardDeviation float pb (weightedMedian pb) = sd
  split
  · next hlt => exact (max_eq_right (Dec.lt_def.mp hlt).le).symm
  · next hlt => exact (max_eq_left (Dec.le_def.mp (not_lt.mp hlt))).symm

/-- The only bound of the band that can overflow is the upper one. -/
theorem bandOk_iff {median spread : Dec} {pb : ExchangeRateBallot} (hm₀ : 0 ≤ median.i)
    (hm : Dec.Fits median.i) (hs₀ : 0 ≤ spread.i) (hs : Dec.Fits spread.i)
    (hmem : ∃ v ∈ pb, v.exchangeRate = median) :
    BandOk median spread pb ↔ Dec.Fits (median.i + spread.i) := by
  have hlower : median.sub spread = some ⟨median.i - spread.i⟩ := by
    apply Dec.checked_of_fits
    unfold Dec.Fits at *
    omega
  unfold BandOk withinBand
  rw [hlower]
  simp only [Option.bind_eq_bind, Option.bind_some]
  constructor
  · intro h
    obtain ⟨v, hv, hvm⟩ := hmem
    have hv := h v hv
    -- the voter at the median is above the lower end, so the upper one is computed for it
    have hle : (⟨median.i - spread.i⟩ : Dec) ≤ v.exchangeRate := by
      rw [hvm, Dec.le_def]
      show median.i - spread.i ≤ median.i
      omega
    rw [if_pos hle] at hv
    by_contra hnot
    have hnone : median.add spread = none := Dec.checked_of_not_fits hnot
    rw [hnone] at hv
    cases hv
  · intro h v _
    have hsome : median.add spread = some ⟨median.i + spread.i⟩ := Dec.checked_of_fits h
    rw [hsome]
    split <;> rfl

/-- `Tally` returns when the upper end of the reward band fits. -/
theorem tallyRound_isSome_iff (float : FloatSqrt) {pb : ExchangeRateBallot} (hgood : GoodBallot pb)
    (hsorted : SortedByRate pb) {rewardBand : Dec} (hb₀ : 0 ≤ rewardBand.i)
    (hb₁ : rewardBand.i ≤ decOne) :
    (tallyRound float pb rewardBand).isSome ↔
      Dec.Fits ((weightedMedian pb).i + spreadAt float pb rewardBand (weightedMedian pb)) := by
  obtain ⟨hm₀, hm⟩ := hgood.median_rate hsorted
  have hbounds := halfBand_bounds hm₀ hb₀ hb₁
  have hsd₀ := standardDeviation_nonneg float pb (weightedMedian pb)
  have hspread₀ : 0 ≤ spreadAt float pb rewardBand (weightedMedian pb) :=
    le_max_of_le_right hsd₀
  have hspread : Dec.Fits (spreadAt float pb rewardBand (weightedMedian pb)) := by
    unfold spreadAt
    rcases max_choice (Dec.chopPrecisionAndRound
        ((weightedMedian pb).i * rewardBand.i.tdiv 2))
        (standardDeviation float pb (weightedMedian pb)).i with h | h
    · rw [h]
      exact hm.of_le hbounds.1 hbounds.2
    · rw [h]
      exact standardDeviation_fits float pb _
  have hiff : BandOk (weightedMedian pb)
      ⟨spreadAt float pb rewardBand (weightedMedian pb)⟩ pb ↔ _ :=
    bandOk_iff hm₀ hm hspread₀ hspread (hgood.median hsorted).attained
  unfold tallyRound
  rw [rewardSpread_eq float hm₀ hm hb₀ hb₁]
  simp only [Option.bind_eq_bind, Option.bind_some]
  split
  · next hok => exact ⟨fun _ => hiff.mp hok, fun _ => rfl⟩
  · next hok =>
    refine ⟨fun hf => ?_, fun hf => absurd (hiff.mpr hf) hok⟩
    cases hf

/-! ### Cross rates -/

/-- The base rates are the positive rates submitted for the reference denom. -/
theorem toMap_ballotRT_get (hacc : AcceptedVotes st.votes) {threshold : ℤ} {d : Denom}
    {b : ExchangeRateBallot} (hb : (passing k st threshold).get d = some b) (a : ValAddr)
    (base : Dec) :
    (toMap (ballotRT sched k st threshold)).get a = some base ↔
      a ∈ activeSet k.staking ∧
        rateOf st.votes (referenceTerra sched k st threshold) a = some base ∧
        base.isPositive = true := by
  obtain ⟨bRT, hbRT, hRT⟩ := reference_passes sched hb
  have hmem : ∀ v, v ∈ ballotRT sched k st threshold ↔
      v ∈ ballotOf (startClaims k.staking) st.votes (referenceTerra sched k st threshold) := by
    intro v
    rw [hRT, (sched.sort_perm bRT).mem_iff, (passing_good hacc hbRT).1]
  rw [toMap_get_iff ballotRT_sorted]
  constructor
  · rintro ⟨⟨v, hv, rfl, rfl, hpos⟩, _⟩
    obtain ⟨hact, hr, _⟩ := submitted_of_mem_ballotOf hacc ((hmem v).mp hv)
    exact ⟨hact, hr, hpos⟩
  · rintro ⟨hact, hr, hpos⟩
    refine ⟨⟨_, (hmem _).mpr (mem_ballotOf_of_rate hacc hact hr), rfl, rfl, hpos⟩, ?_⟩
    rintro v hv rfl _
    have hr' := (submitted_of_mem_ballotOf hacc ((hmem v).mp hv)).2.1
    rw [hr] at hr'
    exact (Option.some.inj hr').ge

theorem toMap_ballotRT_eq (hacc : AcceptedVotes st.votes) {threshold : ℤ} {d : Denom}
    {b : ExchangeRateBallot} (hb : (passing k st threshold).get d = some b) {a : ValAddr}
    (hact : a ∈ activeSet k.staking) :
    (toMap (ballotRT sched k st threshold)).get a =
      (rateOf st.votes (referenceTerra sched k st threshold) a).filter Dec.isPositive := by
  ext base
  rw [toMap_ballotRT_get hacc hb, Option.filter_eq_some_iff]
  exact and_iff_right hact

theorem crossVote_isSome_iff (bases : SortedMap ValAddr Dec) (v : VoteForTally) :
    (crossVote bases v).isSome ↔
      ∀ base, bases.get v.voter = some base → v.exchangeRate.isPositive = true →
        Dec.Fits (Dec.quoRaw base.i v.exchangeRate.i) := by
  unfold crossVote
  cases hbase : bases.get v.voter with
  | none => simp
  | some base =>
    cases hpos : v.exchangeRate.isPositive with
    | false => simp
    | true =>
      have hne : v.exchangeRate.i ≠ 0 := by
        have : 0 < v.exchangeRate.i := by simpa [Dec.isPositive] using hpos
        omega
      have hquo : base.quo v.exchangeRate =
          Dec.checked (Dec.quoRaw base.i v.exchangeRate.i) := if_neg hne
      simp only [if_true, hquo]
      by_cases hfit : Dec.Fits (Dec.quoRaw base.i v.exchangeRate.i)
      · rw [Dec.checked_of_fits hfit]
        simp [hfit]
      · rw [Dec.checked_of_not_fits hfit]
        simp [hfit]

/-- Every quotient of a base rate by a submitted rate fits. -/
def CrossFits (sched : Schedule) (k : Keepers) (st : Store) (threshold : ℤ) (d : Denom) : Prop :=
  ∀ a ∈ activeSet k.staking, ∀ base rate,
    rateOf st.votes (referenceTerra sched k st threshold) a = some base →
    rateOf st.votes d a = some rate → base.isPositive = true → rate.isPositive = true →
    Dec.Fits (Dec.quoRaw base.i rate.i)

theorem toCrossRate_isSome_iff (sched : Schedule) (hacc : AcceptedVotes st.votes)
    {threshold : ℤ} {d : Denom} {b : ExchangeRateBallot}
    (hb : (passing k st threshold).get d = some b) :
    (toCrossRate (sched.sort b) (toMap (ballotRT sched k st threshold))).isSome ↔
      CrossFits sched k st threshold d := by
  have hmem : ∀ v, v ∈ sched.sort b ↔ v ∈ ballotOf (startClaims k.staking) st.votes d := by
    intro v
    rw [(sched.sort_perm b).mem_iff, (passing_good hacc hb).1]
  unfold toCrossRate
  rw [Reorder.mapM_isSome_iff]
  simp only [crossVote_isSome_iff, toMap_ballotRT_get hacc hb]
  constructor
  · intro h a hact base rate hbase hrate hpb hpr
    exact h _ ((hmem _).mpr (mem_ballotOf_of_rate hacc hact hrate)) base ⟨hact, hbase, hpb⟩ hpr
  · rintro h v hv base ⟨hact, hbase, hpb⟩ hpr
    have hrate := (submitted_of_mem_ballotOf hacc ((hmem v).mp hv)).2.1
    exact h v.voter hact base _ hbase hrate hpb hpr

/-! ### One round -/

/-- Nothing in the round of `d` divides by zero or overflows: the cross
    quotients fit, zero cross rates do not hold half the power, and the upper
    end of the reward band and the conversion back fit. -/
structure RoundSafe (sched : Schedule) (k : Keepers) (params : Params) (st : Store)
    (threshold : ℤ) (d : Denom) (b : ExchangeRateBallot) : Prop where
  cross : d ≠ referenceTerra sched k st threshold → CrossFits sched k st threshold d
  band : ∀ tb m, talliedBallot sched k st threshold d b = some tb →
    ReachesHalf (totalPower tb) tb m →
    Dec.Fits (m.i + spreadAt k.float tb params.rewardBand m)
  divisor : d ≠ referenceTerra sched k st threshold → ∀ tb,
    talliedBallot sched k st threshold d b = some tb →
    ¬ ((∃ v ∈ tb, v.exchangeRate.i = 0) ∧ (totalPower tb).tdiv 2 ≤
      ((tb.filter (fun v => v.exchangeRate.i = 0)).map VoteForTally.power).sum)
  back : d ≠ referenceTerra sched k st threshold → ∀ tb m mRT,
    talliedBallot sched k st threshold d b = some tb → ReachesHalf (totalPower tb) tb m →
    ReachesHalf (totalPower (ballotRT sched k st threshold)) (ballotRT sched k st threshold) mRT →
    Dec.Fits (Dec.quoRaw mRT.i m.i)

theorem roundOf_reference {threshold : ℤ} {d : Denom} {b : ExchangeRateBallot}
    (hd : d = referenceTerra sched k st threshold) :
    roundOf sched k params st threshold d b =
      tallyRound k.float (sched.sort b) params.rewardBand := by
  unfold roundOf ballotRound
  rw [if_neg (by simpa using hd)]

theorem roundOf_cross {threshold : ℤ} {d : Denom} {b cross : ExchangeRateBallot}
    (hd : d ≠ referenceTerra sched k st threshold)
    (hcross : toCrossRate (sched.sort b) (toMap (ballotRT sched k st threshold)) = some cross) :
    (roundOf sched k params st threshold d b).isSome ↔
      (tallyRound k.float (sched.sort cross) params.rewardBand).isSome ∧
        ((weightedMedian (ballotRT sched k st threshold)).quo
          (weightedMedian (sched.sort cross))).isSome := by
  unfold roundOf ballotRound
  rw [if_pos hd]
  simp only [hcross, Option.bind_eq_bind, Option.bind_some]
  cases hround : tallyRound k.float (sched.sort cross) params.rewardBand with
  | none => simp
  | some round =>
    rw [← tallyRound_rate hround]
    simp only [Option.bind_some, Option.isSome_some, true_and]
    cases (weightedMedian (ballotRT sched k st threshold)).quo round.rate <;> simp

theorem talliedBallot_good (hacc : AcceptedVotes st.votes) {threshold : ℤ} {d : Denom}
    {b tb : ExchangeRateBallot} (hb : (passing k st threshold).get d = some b)
    (h : talliedBallot sched k st threshold d b = some tb) :
    GoodBallot tb ∧ SortedByRate tb := by
  unfold talliedBallot at h
  split at h
  · obtain ⟨cross, hcross, rfl⟩ := Option.map_eq_some_iff.mp h
    exact ⟨(cross_medians hacc hb hcross).2, sched.sort_sorted cross⟩
  · obtain rfl := Option.some.inj h
    exact ⟨(passing_good hacc hb).2.perm (sched.sort_perm b).symm, sched.sort_sorted b⟩

/-- The band condition speaks about the one median of the tallied ballot. -/
theorem band_iff (hacc : AcceptedVotes st.votes) {threshold : ℤ} {d : Denom}
    {b tb : ExchangeRateBallot} (hb : (passing k st threshold).get d = some b)
    (htb : talliedBallot sched k st threshold d b = some tb) (hb₀ : 0 ≤ params.rewardBand.i)
    (hb₁ : params.rewardBand.i ≤ decOne) :
    (tallyRound k.float tb params.rewardBand).isSome ↔
      ∀ m, ReachesHalf (totalPower tb) tb m →
        Dec.Fits (m.i + spreadAt k.float tb params.rewardBand m) := by
  obtain ⟨hgood, hsorted⟩ := talliedBallot_good hacc hb htb
  have hm := hgood.median hsorted
  rw [tallyRound_isSome_iff k.float hgood hsorted hb₀ hb₁]
  constructor
  · intro hfit m hm'
    rw [hm'.unique hm]
    exact hfit
  · exact fun h => h _ hm

theorem quo_isSome_iff (a b : Dec) :
    (a.quo b).isSome ↔ b.i ≠ 0 ∧ Dec.Fits (Dec.quoRaw a.i b.i) := by
  unfold Dec.quo
  split
  · next h => simp [h]
  · next h => simp [h, Dec.checked_isSome]

/-- A round returns exactly when nothing in it overflows or divides by zero. -/
theorem roundOf_isSome_iff (hacc : AcceptedVotes st.votes) {threshold : ℤ} {d : Denom}
    {b : ExchangeRateBallot} (hb : (passing k st threshold).get d = some b)
    (hb₀ : 0 ≤ params.rewardBand.i) (hb₁ : params.rewardBand.i ≤ decOne) :
    (roundOf sched k params st threshold d b).isSome ↔
      RoundSafe sched k params st threshold d b := by
  by_cases hd : d = referenceTerra sched k st threshold
  · -- the reference ballot is tallied as it is
    have htb : talliedBallot sched k st threshold d b = some (sched.sort b) :=
      if_neg (by simpa using hd)
    rw [roundOf_reference hd, band_iff hacc hb htb hb₀ hb₁]
    constructor
    · intro h
      refine ⟨fun hne => absurd hd hne, ?_, fun hne => absurd hd hne, fun hne => absurd hd hne⟩
      intro tb m htb' hm
      obtain rfl : sched.sort b = tb := Option.some.inj (htb.symm.trans htb')
      exact h m hm
    · exact fun h m hm => h.band _ m htb hm
  · have hcf := toCrossRate_isSome_iff sched hacc hb
    cases hcross : toCrossRate (sched.sort b) (toMap (ballotRT sched k st threshold)) with
    | none =>
      have hnone : roundOf sched k params st threshold d b = none := by
        unfold roundOf ballotRound
        rw [if_pos hd]
        simp only [hcross]
        rfl
      rw [hnone]
      refine ⟨fun hf => ?_, fun h => ?_⟩
      · cases hf
      have := hcf.mpr (h.cross hd)
      rw [hcross] at this
      cases this
    | some cross =>
      rw [hcross] at hcf
      have hcf := hcf.mp rfl
      have htb : talliedBallot sched k st threshold d b = some (sched.sort cross) := by
        unfold talliedBallot
        rw [if_pos hd, hcross]
        rfl
      obtain ⟨hRT, hgood⟩ := cross_medians hacc hb hcross
      have hm := hgood.median (sched.sort_sorted cross)
      have hmRT := hRT.median ballotRT_sorted
      have hzero := reachesHalf_zero_iff hm (fun v hv => (hgood.rates v hv).1)
      rw [roundOf_cross hd hcross, band_iff hacc hb htb hb₀ hb₁, quo_isSome_iff]
      constructor
      · rintro ⟨hband, hne, hfit⟩
        refine ⟨fun _ => hcf, ?_, ?_, ?_⟩
        · intro tb m htb' hm'
          obtain rfl : sched.sort cross = tb := Option.some.inj (htb.symm.trans htb')
          exact hband m hm'
        · intro _ tb htb' hc
          obtain rfl : sched.sort cross = tb := Option.some.inj (htb.symm.trans htb')
          exact hne (hzero.mpr hc)
        · intro _ tb m mRT htb' hm' hmRT'
          obtain rfl : sched.sort cross = tb := Option.some.inj (htb.symm.trans htb')
          rw [hm'.unique hm, hmRT'.unique hmRT]
          exact hfit
      · intro h
        exact ⟨fun m hm' => h.band _ m htb hm', fun hc => h.divisor hd _ htb (hzero.mp hc),
          h.back hd _ _ _ htb hm hmRT⟩

end TerraClassic.Oracle
