import TerraClassic.Oracle.Safety

/-! # Unanimous votes

    All active validators vote the same rates.  The reference denom gets its rate as it was
    voted.  Every other denom gets the reference rate divided by the cross rate, which is
    itself a rounded quotient: `R / (R / r)` in 18 decimals.  The result is `r`
    if the cross rate has enough digits, as when `r` squared is below `R`; with the roles
    exchanged it usually is not.
-/

namespace TerraClassic.Oracle

variable {sched : Schedule} {k : Keepers} {params : Params} {height : BlockHeight} {st : Store}

/-- Every active validator votes the positive rate `r d` on every vote target `d`. -/
structure Unanimous (k : Keepers) (st : Store) (r : Denom → Dec) : Prop where
  votes : ∀ a ∈ activeSet k.staking, ∀ d, (st.tobinTaxes.get d).isSome →
    rateOf st.votes d a = some (r d)
  positive : ∀ d, (st.tobinTaxes.get d).isSome → 0 < (r d).i

/-- The raw rate comes back from the reference rate over the rounded cross rate. -/
def RecoversRate (base rate : ℤ) : Prop :=
  (decOne * rate - 5 * 10 ^ 17 + rate % 2) * Dec.quoRaw base rate ≤ base * (decOne * decOne) ∧
    base * (decOne * decOne) <
      (decOne * rate + 5 * 10 ^ 17 + (1 - rate % 2)) * Dec.quoRaw base rate

instance (base rate : ℤ) : Decidable (RecoversRate base rate) :=
  inferInstanceAs (Decidable (_ ∧ _))

/-- A cross rate of at least twice the rate has enough digits. -/
theorem recoversRate_of_two_mul_le {base rate : ℤ} (hbase : 0 ≤ base) (hrate : 0 < rate)
    (h : 2 * rate ≤ Dec.quoRaw base rate) : RecoversRate base rate := by
  obtain ⟨hlower, hupper⟩ := (Dec.quoRaw_eq_iff hbase hrate).mp rfl
  unfold RecoversRate
  generalize Dec.quoRaw base rate = cross at *
  generalize base * ((decOne : ℤ) * decOne) = x at *
  -- both roundings lose at most half a unit; which half of a tie is kept does not matter
  have hrest : ∀ {y z : ℤ}, 0 ≤ z → 0 ≤ y % 2 * z ∧ y % 2 * z ≤ z := by
    intro y z hz
    rcases Int.emod_two_eq_zero_or_one y with hy | hy
    · rw [hy]
      omega
    · rw [hy]
      omega
  obtain ⟨hrate₀, hrate₁⟩ := hrest (y := rate) (by omega : 0 ≤ cross)
  obtain ⟨hcross₀, hcross₁⟩ := hrest (y := cross) hrate.le
  constructor
  · linarith
  · linarith

/-! ### Medians of equal rates -/

theorem median_of_equal {pb : ExchangeRateBallot} (hgood : GoodBallot pb)
    (hs : SortedByRate pb) {x : Dec} (h : ∀ v ∈ pb, v.exchangeRate = x) :
    weightedMedian pb = x := by
  obtain ⟨v, hv, hvm⟩ := (hgood.median hs).attained
  rw [← hvm, h v hv]

section

variable {r : Denom → Dec}

theorem Unanimous.rate_of_mem (hr : Unanimous k st r) (hacc : AcceptedVotes st.votes)
    {threshold : ℤ} {d : Denom} {b : ExchangeRateBallot}
    (hb : (passing k st threshold).get d = some b) {v : VoteForTally} (hv : v ∈ sched.sort b) :
    v.exchangeRate = r d ∧ v.voter ∈ activeSet k.staking := by
  have hmem : v ∈ ballotOf (startClaims k.staking) st.votes d := by
    rw [← (passing_good hacc hb).1]
    exact (sched.sort_perm b).subset hv
  have htarget := ((passing_isSome_iff hacc threshold d).mp (by rw [hb]; rfl)).1
  obtain ⟨hact, hrate, _⟩ := submitted_of_mem_ballotOf hacc hmem
  rw [hr.votes v.voter hact d htarget] at hrate
  exact ⟨(Option.some.inj hrate).symm, hact⟩

/-- The median of a ballot is the rate that everybody voted. -/
theorem Unanimous.median (hr : Unanimous k st r) (hacc : AcceptedVotes st.votes)
    (sched : Schedule) {threshold : ℤ} {d : Denom} {b : ExchangeRateBallot}
    (hb : (passing k st threshold).get d = some b) : weightedMedian (sched.sort b) = r d :=
  median_of_equal ((passing_good hacc hb).2.perm (sched.sort_perm b).symm) (sched.sort_sorted b)
    (fun _ hv => (hr.rate_of_mem hacc hb hv).1)

/-- The reference denom is a vote target. -/
theorem reference_isTarget (hacc : AcceptedVotes st.votes) (sched : Schedule) {threshold : ℤ}
    {d : Denom} {b : ExchangeRateBallot} (hb : (passing k st threshold).get d = some b) :
    (st.tobinTaxes.get (referenceTerra sched k st threshold)).isSome := by
  obtain ⟨bRT, hbRT, _⟩ := reference_passes sched hb
  exact ((passing_isSome_iff hacc threshold _).mp (by rw [hbRT]; rfl)).1

theorem Unanimous.median_reference (hr : Unanimous k st r) (hacc : AcceptedVotes st.votes)
    {threshold : ℤ} {d : Denom} {b : ExchangeRateBallot}
    (hb : (passing k st threshold).get d = some b) :
    weightedMedian (ballotRT sched k st threshold) = r (referenceTerra sched k st threshold) := by
  obtain ⟨bRT, hbRT, hRT⟩ := reference_passes sched hb
  rw [hRT]
  exact hr.median hacc sched hbRT

/-- All cross votes have the same rate, too. -/
theorem Unanimous.median_cross (hr : Unanimous k st r) (hacc : AcceptedVotes st.votes)
    {threshold : ℤ} {d : Denom} {b cross : ExchangeRateBallot}
    (hb : (passing k st threshold).get d = some b)
    (hcross : toCrossRate (sched.sort b) (toMap (ballotRT sched k st threshold)) = some cross) :
    weightedMedian (sched.sort cross) =
      ⟨Dec.quoRaw (r (referenceTerra sched k st threshold)).i (r d).i⟩ := by
  have htarget := ((passing_isSome_iff hacc threshold d).mp (by rw [hb]; rfl)).1
  have href := reference_isTarget hacc sched hb
  refine median_of_equal (cross_medians hacc hb hcross).2 (sched.sort_sorted cross) ?_
  intro w hw
  obtain ⟨v, hv, hvw⟩ := Reorder.exists_of_mem_mapM hcross ((sched.sort_perm cross).subset hw)
  obtain ⟨hrate, hact⟩ := hr.rate_of_mem hacc hb hv
  -- the voter has a positive rate on both denoms, so its cross rate is the quotient
  have hpos : v.exchangeRate.isPositive = true := by
    rw [hrate]
    exact decide_eq_true (hr.positive d htarget)
  have hbase : (toMap (ballotRT sched k st threshold)).get v.voter =
      some (r (referenceTerra sched k st threshold)) := by
    rw [toMap_ballotRT_get hacc hb]
    exact ⟨hact, hr.votes v.voter hact _ href, decide_eq_true (hr.positive _ href)⟩
  unfold crossVote at hvw
  rw [hbase, hpos] at hvw
  obtain ⟨rate, hquo, hvw⟩ := Option.bind_eq_some_iff.mp hvw
  cases hvw
  show rate = _
  rw [← hrate]
  exact Dec.ext (Dec.quo_raw hquo)

/-- What the end blocker stores. -/
theorem Unanimous.stored_rate (hr : Unanimous k st r) (hacc : AcceptedVotes st.votes)
    (hlast : isPeriodLastBlock height params.votePeriod = some true) {o : Outcome}
    (h : endBlocker sched k params height st = some o) {d : Denom} {b : ExchangeRateBallot}
    (hb : (passing k st (requiredPower k params)).get d = some b) :
    o.store.exchangeRates.get d = some (r d) ↔
      (d ≠ referenceTerra sched k st (requiredPower k params) →
        RecoversRate (r (referenceTerra sched k st (requiredPower k params))).i (r d).i) := by
  obtain ⟨tallied, hrates, _, ⟨rs⟩⟩ := endBlocker_tallied hacc hlast h
  obtain ⟨round, hround⟩ := Option.isSome_iff_exists.mp (rs.returned hb)
  have hget : o.store.exchangeRates.get d = some round.rate := by
    rw [hrates, rs.rates_get, hb, Option.bind_some, hround]
    rfl
  rw [hget]
  rcases roundOf_rate hround with ⟨hd, hrate⟩ | ⟨hd, cross, hcross, hne, hrate⟩
  · -- the reference denom
    rw [hrate, hr.median hacc sched hb]
    exact ⟨fun _ hne => absurd hd hne, fun _ => rfl⟩
  · -- any other denom: the reference median over the median of the cross rates
    have hmedian := hr.median_cross hacc hb hcross
    rw [hr.median_reference hacc hb, hmedian] at hrate
    rw [hmedian] at hne
    have htarget := ((passing_isSome_iff hacc _ d).mp (by rw [hb]; rfl)).1
    have hbase := (hr.positive _ (reference_isTarget hacc sched hb)).le
    have hcrossPos : 0 < Dec.quoRaw (r (referenceTerra sched k st (requiredPower k params))).i
        (r d).i :=
      lt_of_le_of_ne (Dec.quoRaw_nonneg hbase (hr.positive d htarget).le) (Ne.symm hne)
    have hrecover := Dec.quoRaw_eq_iff (q := (r d).i) hbase hcrossPos
    constructor
    · intro heq _
      refine hrecover.mp ?_
      rw [← hrate, Option.some.inj heq]
    · intro hrec
      exact congrArg some (Dec.ext (hrate.trans (hrecover.mpr (hrec hd))))

end

/-- Unanimous votes on targets that all pass are recorded as voted exactly when the end
    blocker returns and every rate comes back from its cross rate with the reference. -/
theorem unanimous_recorded_iff {r : Denom → Dec} (hvalid : params.validate = .ok ())
    (hacc : AcceptedVotes st.votes)
    (hlast : isPeriodLastBlock height params.votePeriod = some true) (hr : Unanimous k st r)
    (hpass : ∀ d, (st.tobinTaxes.get d).isSome →
      ((passing k st (requiredPower k params)).get d).isSome) :
    (∃ o, endBlocker sched k params height st = some o ∧
      ∀ d, (st.tobinTaxes.get d).isSome → o.store.exchangeRates.get d = some (r d)) ↔
    EndBlockerSafe sched k params height st ∧
      ∀ d, (st.tobinTaxes.get d).isSome →
        d ≠ referenceTerra sched k st (requiredPower k params) →
        RecoversRate (r (referenceTerra sched k st (requiredPower k params))).i (r d).i := by
  rw [← endBlocker_returns hvalid hacc hlast, Option.isSome_iff_exists]
  constructor
  · rintro ⟨o, ho, hstored⟩
    refine ⟨⟨o, ho⟩, ?_⟩
    intro d hd
    obtain ⟨b, hb⟩ := Option.isSome_iff_exists.mp (hpass d hd)
    exact (hr.stored_rate hacc hlast ho hb).mp (hstored d hd)
  · rintro ⟨⟨o, ho⟩, hrecovers⟩
    refine ⟨o, ho, ?_⟩
    intro d hd
    obtain ⟨b, hb⟩ := Option.isSome_iff_exists.mp (hpass d hd)
    exact (hr.stored_rate hacc hlast ho hb).mpr (hrecovers d hd)

/-- Four validators that all vote `krw` on `ukrw` and `usd` on `uusd`. -/
def unanimousVotes (krw usd : ℤ) : Store :=
  smallStore (["a", "b", "c", "d"].map (fun a =>
    (a, [⟨"ukrw", Dec.ofInt krw⟩, ⟨"uusd", Dec.ofInt usd⟩])))

theorem target_of_unanimousVotes {krw usd : ℤ} {d : Denom}
    (h : ((unanimousVotes krw usd).tobinTaxes.get d).isSome) : d = "ukrw" ∨ d = "uusd" := by
  have hmem := SortedMap.mem_keys.mpr h
  have hkeys : (unanimousVotes krw usd).tobinTaxes.keys = ["ukrw", "uusd"] := rfl
  rw [hkeys] at hmem
  simpa using hmem

/-- The rate of each denom in these votes. -/
def unanimousRate (krw usd : ℤ) (d : Denom) : Dec :=
  if d = "ukrw" then Dec.ofInt krw else Dec.ofInt usd

theorem unanimousVotes_unanimous {krw usd : ℤ} (hkrw : 0 < krw) (husd : 0 < usd) :
    Unanimous smallKeepers (unanimousVotes krw usd) (unanimousRate krw usd) := by
  constructor
  · intro a ha d hd
    have hactive : activeSet smallKeepers.staking = ["a", "b", "c", "d"] := by decide
    rw [hactive] at ha
    have hvote : (unanimousVotes krw usd).votes.get a =
        some ⟨[⟨"ukrw", Dec.ofInt krw⟩, ⟨"uusd", Dec.ofInt usd⟩], a⟩ := by
      simp only [List.mem_cons, List.not_mem_nil, or_false] at ha
      unfold unanimousVotes smallStore
      rcases ha with rfl | rfl | rfl | rfl <;> simp
    unfold rateOf
    rw [hvote]
    rcases target_of_unanimousVotes hd with rfl | rfl
    · rfl
    · rfl
  · intro d hd
    rcases target_of_unanimousVotes hd with rfl | rfl
    · exact mul_pos hkrw Dec.decOne_posInt
    · exact mul_pos husd Dec.decOne_posInt

theorem unanimous_recorded_500_5 :
    ∃ o, endBlocker Schedule.inOrder smallKeepers smallParams ⟨4, by decide⟩
        (unanimousVotes 500 5) = some o ∧
      o.store.exchangeRates.get "ukrw" = some (Dec.ofInt 500) ∧
      o.store.exchangeRates.get "uusd" = some (Dec.ofInt 5) := by
  have hpass : ∀ d, ((unanimousVotes 500 5).tobinTaxes.get d).isSome →
      ((passing smallKeepers (unanimousVotes 500 5)
        (requiredPower smallKeepers smallParams)).get d).isSome := by
    intro d hd
    rcases target_of_unanimousVotes hd with rfl | rfl
    · decide +kernel
    · decide +kernel
  have hsafe : EndBlockerSafe Schedule.inOrder smallKeepers smallParams ⟨4, by decide⟩
      (unanimousVotes 500 5) :=
    (endBlocker_returns (by decide +kernel) (by decide +kernel) (by decide)).mp (by decide +kernel)
  have hrecovers : RecoversRate (unanimousRate 500 5 "ukrw").i (unanimousRate 500 5 "uusd").i :=
    recoversRate_of_two_mul_le (by decide +kernel) (by decide +kernel) (by decide +kernel)
  have href : referenceTerra Schedule.inOrder smallKeepers (unanimousVotes 500 5)
      (requiredPower smallKeepers smallParams) = "ukrw" := by decide +kernel
  obtain ⟨o, ho, hstored⟩ := (unanimous_recorded_iff (by decide +kernel) (by decide +kernel)
    (by decide) (unanimousVotes_unanimous (by decide) (by decide)) hpass).mpr ⟨hsafe, by
      intro d hd hne
      rw [href] at hne ⊢
      rcases target_of_unanimousVotes hd with rfl | rfl
      · exact absurd rfl hne
      · exact hrecovers⟩
  exact ⟨o, ho, hstored "ukrw" (by decide +kernel), hstored "uusd" (by decide +kernel)⟩

/-- Everybody votes 1 and 3, and `3.000000000000000003` is stored instead of 3. -/
theorem unanimous_not_recorded :
    Unanimous smallKeepers (unanimousVotes 1 3) (unanimousRate 1 3) ∧
    AcceptedVotes (unanimousVotes 1 3).votes ∧
    ((endBlocker Schedule.inOrder smallKeepers smallParams ⟨4, by decide⟩
      (unanimousVotes 1 3)).bind (fun o => o.store.exchangeRates.get "uusd")) =
        some ⟨3000000000000000003⟩ ∧
    unanimousRate 1 3 "uusd" = ⟨3000000000000000000⟩ :=
  ⟨unanimousVotes_unanimous (by decide) (by decide), by decide +kernel, by decide +kernel, rfl⟩

end TerraClassic.Oracle
