import TerraClassic.Oracle.Period

/-! # The exchange rates of a vote period

    Which denoms have a rate after the end of a vote period, and when these
    rates are positive.
-/

namespace TerraClassic.Oracle

variable {sched : Schedule} {k : Keepers} {params : Params} {height : BlockHeight} {st : Store}

/-- `RoundInt(VoteThreshold * totalBondedPower)`. -/
def requiredPower (k : Keepers) (params : Params) : ℤ :=
  (⟨params.voteThreshold.i * k.staking.totalBondedPower⟩ : Dec).roundInt

theorem thresholdVotes_eq_some {threshold : ℤ}
    (h : thresholdVotes params.voteThreshold k.staking.totalBondedPower = some threshold) :
    threshold = requiredPower k params := by
  unfold thresholdVotes at h
  obtain ⟨product, hp, h⟩ := Option.bind_eq_some_iff.mp h
  obtain ⟨_, rfl⟩ := Dec.checked_eq_some.mp hp
  exact (Option.some.inj h).symm

/-- The rates and the claims after the end of a vote period are those of the tally. -/
theorem endBlocker_tallied {o : Outcome} (hacc : AcceptedVotes st.votes)
    (hlast : isPeriodLastBlock height params.votePeriod = some true)
    (h : endBlocker sched k params height st = some o) :
    ∃ tallied, o.store.exchangeRates = tallied.exchangeRates ∧ o.claims = tallied.claims ∧
      Nonempty (Rounds sched k params st (requiredPower k params) tallied) := by
  obtain ⟨o', ho', hcase⟩ := endBlocker_last hlast h
  obtain ⟨threshold, tallied, reward, targets, hthr, htally, _, _, rfl⟩ :=
    endVotePeriod_eq_some ho'
  obtain rfl := thresholdVotes_eq_some hthr
  refine ⟨tallied, ?_, ?_, exists_rounds hacc htally⟩
  · rcases hcase with ⟨_, rfl⟩ | ⟨_, slashes, rfl⟩
    · rfl
    · rfl
  · rcases hcase with ⟨_, rfl⟩ | ⟨_, slashes, rfl⟩
    · rfl
    · rfl

/-! ### Which denoms have a rate -/

theorem endBlocker_exchangeRates (sched : Schedule) (k : Keepers) (params : Params)
    (height : BlockHeight) (st : Store) (prior : SortedMap Denom Dec)
    (hlast : isPeriodLastBlock height params.votePeriod = some true) :
    endBlocker sched k params height { st with exchangeRates := prior } =
      endBlocker sched k params height st := by
  have hperiod : endVotePeriod sched k params height { st with exchangeRates := prior } =
      endVotePeriod sched k params height st := by
    rw [endVotePeriod_eq, endVotePeriod_eq]
    rfl
  rw [endBlocker_eq, endBlocker_eq, hlast, Option.bind_some, Option.bind_some, if_pos rfl,
    if_pos rfl, hperiod]

/-- After a vote period the denoms with a rate are the vote targets with
    enough voting power, whatever rates were stored before. -/
theorem rate_stored_iff {o : Outcome} (hacc : AcceptedVotes st.votes)
    (hlast : isPeriodLastBlock height params.votePeriod = some true)
    (h : endBlocker sched k params height st = some o) :
    (∀ d, (o.store.exchangeRates.get d).isSome ↔
      (st.tobinTaxes.get d).isSome ∧ 0 < votingPower k.staking st.votes d ∧
        requiredPower k params ≤ votingPower k.staking st.votes d) ∧
    ∀ prior, endBlocker sched k params height { st with exchangeRates := prior } = some o := by
  obtain ⟨tallied, hrates, _, ⟨r⟩⟩ := endBlocker_tallied hacc hlast h
  constructor
  · intro d
    rw [hrates, r.rates_isSome_iff, passing_isSome_iff hacc]
  · intro prior
    rw [endBlocker_exchangeRates sched k params height st prior hlast, h]

/-- Three of four validators vote on `ukrw` and nobody on `uusd`. -/
theorem rate_stored_three_voters :
    ∃ o, endBlocker Schedule.inOrder smallKeepers smallParams ⟨4, by decide⟩
        (smallStore [("a", [⟨"ukrw", Dec.ofInt 5⟩]), ("b", [⟨"ukrw", Dec.ofInt 5⟩]),
          ("c", [⟨"ukrw", Dec.ofInt 5⟩])]) = some o ∧
      (o.store.exchangeRates.get "ukrw").isSome ∧ ¬ (o.store.exchangeRates.get "uusd").isSome := by
  have hsome : (endBlocker Schedule.inOrder smallKeepers smallParams ⟨4, by decide⟩
      (smallStore [("a", [⟨"ukrw", Dec.ofInt 5⟩]), ("b", [⟨"ukrw", Dec.ofInt 5⟩]),
        ("c", [⟨"ukrw", Dec.ofInt 5⟩])])).isSome := by decide +kernel
  obtain ⟨o, ho⟩ := Option.isSome_iff_exists.mp hsome
  have hiff := (rate_stored_iff (by decide +kernel) (by decide) ho).1
  exact ⟨o, ho, (hiff "ukrw").mpr (by decide +kernel),
    fun hc => absurd ((hiff "uusd").mp hc) (by decide +kernel)⟩

/-! ### Positive rates -/

/-- What is known of a ballot that passes. -/
structure GoodBallot (b : ExchangeRateBallot) : Prop where
  powers : PowersOk b
  rates : ∀ v ∈ b, 0 ≤ v.exchangeRate.i ∧ Dec.Fits v.exchangeRate.i
  total_lt : totalPower b < 2 ^ 63
  nonempty : b ≠ []

theorem GoodBallot.perm {b₁ b₂ : ExchangeRateBallot} (hp : b₁.Perm b₂) (h : GoodBallot b₁) :
    GoodBallot b₂ where
  powers := h.powers.perm hp
  rates := fun v hv => h.rates v (hp.symm.subset hv)
  total_lt := totalPower_perm hp ▸ h.total_lt
  nonempty := fun hnil => h.nonempty (List.Perm.eq_nil (hnil ▸ hp))

/-- The median of a sorted good ballot. -/
theorem GoodBallot.median {b : ExchangeRateBallot} (h : GoodBallot b) (hs : SortedByRate b) :
    ReachesHalf (totalPower b) b (weightedMedian b) :=
  weightedMedian_reaches h.powers.nonneg hs h.nonempty h.total_lt

theorem GoodBallot.median_rate {b : ExchangeRateBallot} (h : GoodBallot b)
    (hs : SortedByRate b) : 0 ≤ (weightedMedian b).i ∧ Dec.Fits (weightedMedian b).i := by
  obtain ⟨v, hv, hvm⟩ := (h.median hs).attained
  exact hvm ▸ h.rates v hv

theorem passing_good (hacc : AcceptedVotes st.votes) {threshold : ℤ} {d : Denom}
    {b : ExchangeRateBallot} (h : (passing k st threshold).get d = some b) :
    b = ballotOf (startClaims k.staking) st.votes d ∧ GoodBallot b := by
  have hpos := ((passing_isSome_iff hacc threshold d).mp (by rw [h]; rfl)).2.1
  rw [passing_get] at h
  split at h
  · obtain rfl := Option.some.inj h
    have hle := votingPower_le k.staking st.votes d
    have hmax : (maxTotalVotingPower : ℤ) < 2 ^ 63 := by decide
    have htotal := totalPower_ballotOf k.staking hacc d
    refine ⟨rfl, ballotOf_powersOk (startClaims_ok k.staking) st.votes d, ?_, by omega, ?_⟩
    · intro v hv
      exact (tuple_of_rateOf hacc (submitted_of_mem_ballotOf hacc hv).2.1).2
    · intro hnil
      rw [hnil] at htotal
      simp [totalPower] at htotal
      omega
  · cases h

/-- The cross rates of a good ballot form a good ballot. -/
theorem GoodBallot.cross {b cross : ExchangeRateBallot} {bases : SortedMap ValAddr Dec}
    (h : GoodBallot b) (hbases : ∀ a r, bases.get a = some r → 0 ≤ r.i)
    (hcross : toCrossRate b bases = some cross) : GoodBallot cross where
  powers := toCrossRate_powersOk h.powers hcross
  rates := by
    intro w hw
    obtain ⟨v, hv, hvw⟩ := Reorder.exists_of_mem_mapM hcross hw
    unfold crossVote at hvw
    split at hvw
    · next base hbase =>
      split at hvw
      · obtain ⟨rate, hrate, hvw⟩ := Option.bind_eq_some_iff.mp hvw
        rw [← Option.some.inj hvw]
        unfold Dec.quo at hrate
        split at hrate
        · cases hrate
        · obtain ⟨hfit, rfl⟩ := Dec.checked_eq_some.mp hrate
          exact ⟨Dec.quoRaw_nonneg (hbases _ _ hbase) (h.rates v hv).1, hfit⟩
      · rw [← Option.some.inj hvw]
        exact ⟨le_rfl, Dec.fits_zero⟩
    · rw [← Option.some.inj hvw]
      exact ⟨le_rfl, Dec.fits_zero⟩
  total_lt := lt_of_le_of_lt (totalPower_cross_le h.powers hcross) h.total_lt
  nonempty := by
    intro hnil
    apply h.nonempty
    have := Reorder.map_eq_of_mapM (p := fun _ => ()) (q := fun _ => ()) hcross (fun _ _ _ => rfl)
    rw [hnil] at this
    exact List.map_eq_nil_iff.mp this.symm

theorem toMap_nonneg {b : ExchangeRateBallot} (hs : SortedByRate b) (a : ValAddr) (r : Dec)
    (h : (toMap b).get a = some r) : 0 ≤ r.i := by
  obtain ⟨⟨v, _, _, rfl, hpos⟩, _⟩ := (toMap_get_iff hs a r).mp h
  have : 0 < v.exchangeRate.i := by simpa [Dec.isPositive] using hpos
  omega

/-- When something passes, the reference ballot does. -/
theorem reference_passes (sched : Schedule) {threshold : ℤ} {d : Denom} {b : ExchangeRateBallot}
    (h : (passing k st threshold).get d = some b) :
    ∃ bRT, (passing k st threshold).get (referenceTerra sched k st threshold) = some bRT ∧
      ballotRT sched k st threshold = sched.sort bRT := by
  rcases referenceTerra_isReference sched k st threshold with ⟨hnil, _⟩ | ⟨bRT, hmem, _⟩
  · have := SortedMap.mem_entries.mpr h
    rw [hnil] at this
    cases this
  · have hget := SortedMap.mem_entries.mp hmem
    refine ⟨bRT, hget, ?_⟩
    unfold ballotRT SortedMap.getD
    rw [SortedMap.get_mapVal, hget]
    rfl

theorem ballotRT_sorted {threshold : ℤ} : SortedByRate (ballotRT sched k st threshold) := by
  unfold ballotRT SortedMap.getD
  rw [SortedMap.get_mapVal]
  cases (passing k st threshold).get (referenceTerra sched k st threshold) with
  | none => exact List.Pairwise.nil
  | some b => exact sched.sort_sorted b

theorem tallyRound_rate {float : FloatSqrt} {pb : ExchangeRateBallot} {rewardBand : Dec}
    {r : Round} (h : tallyRound float pb rewardBand = some r) : r.rate = weightedMedian pb := by
  unfold tallyRound at h
  obtain ⟨spread, _, h⟩ := Option.bind_eq_some_iff.mp h
  split at h
  · rw [← Option.some.inj h]
  · cases h

/-- The rate that a round stores. -/
theorem roundOf_rate {threshold : ℤ} {d : Denom} {b : ExchangeRateBallot} {r : Round}
    (h : roundOf sched k params st threshold d b = some r) :
    (d = referenceTerra sched k st threshold ∧ r.rate = weightedMedian (sched.sort b)) ∨
      (d ≠ referenceTerra sched k st threshold ∧ ∃ cross,
        toCrossRate (sched.sort b) (toMap (ballotRT sched k st threshold)) = some cross ∧
        (weightedMedian (sched.sort cross)).i ≠ 0 ∧
        r.rate.i = Dec.quoRaw (weightedMedian (ballotRT sched k st threshold)).i
          (weightedMedian (sched.sort cross)).i) := by
  unfold roundOf ballotRound at h
  by_cases hd : d = referenceTerra sched k st threshold
  · rw [if_neg (by simpa using hd)] at h
    exact Or.inl ⟨hd, tallyRound_rate h⟩
  · rw [if_pos hd] at h
    obtain ⟨cross, hcross, h⟩ := Option.bind_eq_some_iff.mp h
    obtain ⟨round, hround, h⟩ := Option.bind_eq_some_iff.mp h
    obtain ⟨rate, hrate, h⟩ := Option.bind_eq_some_iff.mp h
    refine Or.inr ⟨hd, cross, hcross, ?_⟩
    rw [tallyRound_rate hround] at hrate
    unfold Dec.quo at hrate
    split at hrate
    · cases hrate
    · next hne =>
      obtain ⟨_, rfl⟩ := Dec.checked_eq_some.mp hrate
      rw [← Option.some.inj h]
      exact ⟨hne, rfl⟩

/-- The reference ballot has no more power than one, and someone abstained on it. -/
def ReferenceAbstained (sched : Schedule) (k : Keepers) (params : Params) (st : Store) : Prop :=
  let ref := referenceTerra sched k st (requiredPower k params)
  ((passing k st (requiredPower k params)).get ref).isSome ∧
    votingPower k.staking st.votes ref = 1 ∧
    ∃ a ∈ activeSet k.staking, ∃ rate, rateOf st.votes ref a = some rate ∧ rate.i = 0

/-- The median of a ballot's cross rates is so large that dividing the median
    of the reference ballot by it rounds to zero. -/
def RoundsToZero (sched : Schedule) (k : Keepers) (params : Params) (st : Store) (d : Denom) :
    Prop :=
  d ≠ referenceTerra sched k st (requiredPower k params) ∧
    ∃ b cross m mRT, (passing k st (requiredPower k params)).get d = some b ∧
      toCrossRate (sched.sort b) (toMap (ballotRT sched k st (requiredPower k params))) =
        some cross ∧
      ReachesHalf (totalPower cross) cross m ∧
      ReachesHalf (totalPower (ballotRT sched k st (requiredPower k params)))
        (ballotRT sched k st (requiredPower k params)) mRT ∧
      2 * (mRT.i * (decOne * decOne)) < (decOne + 2) * m.i

/-- The median of a ballot of submitted votes is zero only if its power is one:
    abstain votes have no power of their own. -/
theorem median_zero_iff (hacc : AcceptedVotes st.votes) {threshold : ℤ} {d : Denom}
    {b : ExchangeRateBallot} (hb : (passing k st threshold).get d = some b) :
    (weightedMedian (sched.sort b)).i = 0 ↔ votingPower k.staking st.votes d = 1 ∧
      ∃ a ∈ activeSet k.staking, ∃ rate, rateOf st.votes d a = some rate ∧ rate.i = 0 := by
  obtain ⟨hbd, hgood⟩ := passing_good hacc hb
  have hpos := ((passing_isSome_iff hacc threshold d).mp (by rw [hb]; rfl)).2.1
  have hperm := sched.sort_perm b
  have hsorted := hgood.perm hperm.symm
  have hmed := hsorted.median (sched.sort_sorted b)
  rw [reachesHalf_zero_iff hmed (fun v hv => (hsorted.rates v hv).1)]
  have htotal : totalPower (sched.sort b) = votingPower k.staking st.votes d := by
    rw [totalPower_perm hperm, hbd, totalPower_ballotOf k.staking hacc]
  -- the votes at zero are abstain votes, and those have no power
  have hweight : (((sched.sort b).filter (fun v => v.exchangeRate.i = 0)).map
      VoteForTally.power).sum = 0 := by
    apply List.sum_eq_zero
    intro p hp
    obtain ⟨v, hv, rfl⟩ := List.mem_map.mp hp
    obtain ⟨hv, hz⟩ := List.mem_filter.mp hv
    have hvb : v ∈ ballotOf (startClaims k.staking) st.votes d := hbd ▸ hperm.subset hv
    rw [(submitted_of_mem_ballotOf hacc hvb).2.2]
    have hz' : v.exchangeRate.i = 0 := by simpa using hz
    simp [powerBehind, Dec.isPositive, hz']
  rw [hweight, htotal, Int.tdiv_eq_ediv_of_nonneg (by omega)]
  constructor
  · rintro ⟨⟨v, hv, hz⟩, hhalf⟩
    refine ⟨by omega, ?_⟩
    have hvb : v ∈ ballotOf (startClaims k.staking) st.votes d := hbd ▸ hperm.subset hv
    obtain ⟨hact, hr, _⟩ := submitted_of_mem_ballotOf hacc hvb
    exact ⟨v.voter, hact, _, hr, hz⟩
  · rintro ⟨hone, a, hact, rate, hr, hz⟩
    have hmem := mem_ballotOf_of_rate hacc hact hr
    exact ⟨⟨_, hperm.symm.subset (hbd ▸ hmem), hz⟩, by omega⟩

/-- The medians behind a cross-converted round. -/
theorem cross_medians (hacc : AcceptedVotes st.votes) {threshold : ℤ} {d : Denom}
    {b cross : ExchangeRateBallot} (hb : (passing k st threshold).get d = some b)
    (hcross : toCrossRate (sched.sort b) (toMap (ballotRT sched k st threshold)) = some cross) :
    GoodBallot (ballotRT sched k st threshold) ∧ GoodBallot (sched.sort cross) := by
  obtain ⟨bRT, hbRT, hRT⟩ := reference_passes sched hb
  have hgood := (passing_good hacc hb).2.perm (sched.sort_perm b).symm
  constructor
  · rw [hRT]
    exact (passing_good hacc hbRT).2.perm (sched.sort_perm bRT).symm
  · exact (hgood.cross (toMap_nonneg ballotRT_sorted) hcross).perm (sched.sort_perm cross).symm

theorem quoRaw_zero_iff_roundsToZero (hacc : AcceptedVotes st.votes) {d : Denom}
    {b cross : ExchangeRateBallot}
    (hd : d ≠ referenceTerra sched k st (requiredPower k params))
    (hb : (passing k st (requiredPower k params)).get d = some b)
    (hcross : toCrossRate (sched.sort b)
      (toMap (ballotRT sched k st (requiredPower k params))) = some cross)
    (hne : (weightedMedian (sched.sort cross)).i ≠ 0) :
    Dec.quoRaw (weightedMedian (ballotRT sched k st (requiredPower k params))).i
      (weightedMedian (sched.sort cross)).i = 0 ↔ RoundsToZero sched k params st d := by
  obtain ⟨hRT, hgood⟩ := cross_medians hacc hb hcross
  have hm := hgood.median (sched.sort_sorted cross)
  rw [totalPower_perm (sched.sort_perm cross)] at hm
  have hm' := hm.perm (sched.sort_perm cross)
  have hmRT := hRT.median ballotRT_sorted
  have hnn := (hgood.median_rate (sched.sort_sorted cross)).1
  rw [Dec.quoRaw_eq_zero_iff (hRT.median_rate ballotRT_sorted).1 (by omega)]
  constructor
  · intro hlt
    exact ⟨hd, b, cross, _, _, hb, hcross, hm', hmRT, hlt⟩
  · rintro ⟨_, b', cross', m, mRT, hb', hcross', hm₁, hmRT₁, hlt⟩
    obtain rfl : b' = b := Option.some.inj (hb'.symm.trans hb)
    obtain rfl : cross' = cross := Option.some.inj (hcross'.symm.trans hcross)
    rw [hm'.unique hm₁, hmRT.unique hmRT₁]
    exact hlt

/-- The rates that the end of a vote period stores are positive exactly when
    the reference ballot has more power than one, or no abstain vote, and no
    conversion back from cross rates rounds to zero. -/
theorem rates_positive_iff {o : Outcome} (hacc : AcceptedVotes st.votes)
    (hlast : isPeriodLastBlock height params.votePeriod = some true)
    (h : endBlocker sched k params height st = some o) :
    (∀ d r, o.store.exchangeRates.get d = some r → 0 < r.i) ↔
      ¬ ReferenceAbstained sched k params st ∧ ∀ d, ¬ RoundsToZero sched k params st d := by
  obtain ⟨tallied, hrates, _, ⟨rs⟩⟩ := endBlocker_tallied hacc hlast h
  simp only [hrates, rs.rates_get]
  constructor
  · intro hall
    constructor
    · rintro ⟨hpass, habs⟩
      obtain ⟨b, hb⟩ := Option.isSome_iff_exists.mp hpass
      obtain ⟨r, hr⟩ := Option.isSome_iff_exists.mp (rs.returned hb)
      have hpos := hall _ r.rate (by rw [hb, Option.bind_some, hr]; rfl)
      rcases roundOf_rate hr with ⟨_, hrate⟩ | ⟨hne, _⟩
      · rw [hrate, (median_zero_iff hacc hb).mpr habs] at hpos
        exact lt_irrefl _ hpos
      · exact hne rfl
    · intro d hzero
      obtain ⟨hd, b, cross, m, mRT, hb, hcross, hm, hmRT, hlt⟩ := id hzero
      obtain ⟨r, hr⟩ := Option.isSome_iff_exists.mp (rs.returned hb)
      have hpos := hall d r.rate (by rw [hb, Option.bind_some, hr]; rfl)
      rcases roundOf_rate hr with ⟨heq, _⟩ | ⟨_, cross', hcross', hne, hrate⟩
      · exact hd heq
      · rw [hrate, (quoRaw_zero_iff_roundsToZero hacc hd hb hcross' hne).mpr hzero] at hpos
        exact lt_irrefl _ hpos
  · rintro ⟨hnabs, hnzero⟩ d rate hget
    obtain ⟨b, hb, hget⟩ := Option.bind_eq_some_iff.mp hget
    obtain ⟨r, hr, rfl⟩ := Option.map_eq_some_iff.mp hget
    rcases roundOf_rate hr with ⟨rfl, hrate⟩ | ⟨hd, cross, hcross, hne, hrate⟩
    · -- the reference: its own median
      have hgood := (passing_good hacc hb).2.perm (sched.sort_perm b).symm
      have hnn := (hgood.median_rate (sched.sort_sorted b)).1
      rw [hrate]
      rcases lt_or_eq_of_le hnn with hlt | heq
      · exact hlt
      · exact absurd ⟨by rw [hb]; rfl, (median_zero_iff hacc hb).mp heq.symm⟩ hnabs
    · -- another denom: the quotient of two medians
      obtain ⟨hRT, hgood⟩ := cross_medians hacc hb hcross
      have hnn := Dec.quoRaw_nonneg (hRT.median_rate ballotRT_sorted).1
        (hgood.median_rate (sched.sort_sorted cross)).1
      rw [hrate]
      rcases lt_or_eq_of_le hnn with hlt | heq
      · exact hlt
      · exact absurd ((quoRaw_zero_iff_roundsToZero hacc hd hb hcross hne).mp heq.symm) (hnzero d)

/-- Three of four validators of power one abstain on the only ballot: the
    median of a ballot of power one is the first abstain vote. -/
theorem rates_positive_fails :
    ∃ o, endBlocker Schedule.inOrder smallKeepers smallParams ⟨4, by decide⟩
        (smallStore [("a", [⟨"ukrw", Dec.ofInt 2⟩]), ("b", [⟨"ukrw", Dec.zero⟩]),
          ("c", [⟨"ukrw", Dec.zero⟩]), ("d", [⟨"ukrw", Dec.zero⟩])]) = some o ∧
      smallParams.validate = .ok () ∧
      AcceptedVotes (smallStore [("a", [⟨"ukrw", Dec.ofInt 2⟩]), ("b", [⟨"ukrw", Dec.zero⟩]),
          ("c", [⟨"ukrw", Dec.zero⟩]), ("d", [⟨"ukrw", Dec.zero⟩])]).votes ∧
      isPeriodLastBlock ⟨4, by decide⟩ smallParams.votePeriod = some true ∧
      ¬ ∀ d r, o.store.exchangeRates.get d = some r → 0 < r.i := by
  have hrun : (endBlocker Schedule.inOrder smallKeepers smallParams ⟨4, by decide⟩
      (smallStore [("a", [⟨"ukrw", Dec.ofInt 2⟩]), ("b", [⟨"ukrw", Dec.zero⟩]),
        ("c", [⟨"ukrw", Dec.zero⟩]), ("d", [⟨"ukrw", Dec.zero⟩])])).map
      (fun o => o.store.exchangeRates.get "ukrw") = some (some Dec.zero) := by decide +kernel
  obtain ⟨o, ho, hrate⟩ := Option.map_eq_some_iff.mp hrun
  refine ⟨o, ho, by decide +kernel, by decide +kernel, by decide, ?_⟩
  intro hall
  exact lt_irrefl _ (hall "ukrw" Dec.zero hrate)

/-- With two votes of power one the same period stores the rate of the votes. -/
theorem rates_positive_two_voters :
    ∃ o, endBlocker Schedule.inOrder smallKeepers smallParams ⟨4, by decide⟩
        (smallStore [("a", [⟨"ukrw", Dec.ofInt 2⟩]), ("b", [⟨"ukrw", Dec.ofInt 2⟩])]) = some o ∧
      o.store.exchangeRates.get "ukrw" = some (Dec.ofInt 2) ∧
      ((∀ d r, o.store.exchangeRates.get d = some r → 0 < r.i) ↔
        ¬ ReferenceAbstained Schedule.inOrder smallKeepers smallParams
            (smallStore [("a", [⟨"ukrw", Dec.ofInt 2⟩]), ("b", [⟨"ukrw", Dec.ofInt 2⟩])]) ∧
          ∀ d, ¬ RoundsToZero Schedule.inOrder smallKeepers smallParams
            (smallStore [("a", [⟨"ukrw", Dec.ofInt 2⟩]), ("b", [⟨"ukrw", Dec.ofInt 2⟩])]) d) := by
  have hrun : (endBlocker Schedule.inOrder smallKeepers smallParams ⟨4, by decide⟩
      (smallStore [("a", [⟨"ukrw", Dec.ofInt 2⟩]), ("b", [⟨"ukrw", Dec.ofInt 2⟩])])).map
      (fun o => o.store.exchangeRates.get "ukrw") = some (some (Dec.ofInt 2)) := by decide +kernel
  obtain ⟨o, ho, hrate⟩ := Option.map_eq_some_iff.mp hrun
  exact ⟨o, ho, hrate, rates_positive_iff (by decide +kernel) (by decide) ho⟩

end TerraClassic.Oracle
