import TerraClassic.Lib.Reorder
import TerraClassic.Lib.WeightedMedian
import TerraClassic.Oracle.Tally

/-! # What a ballot's functions compute

    Each function of a ballot is described without reference to the order of
    its votes, so that the order in which `sort.Sort` leaves equal rates
    cannot be seen: `power` is the sum of the powers, `weightedMedian` is the
    first rate at which the power reaches half (`WeightedMedian.Reaches`),
    `standardDeviation` and the winners of `tally` depend on the votes as a
    multiset.
-/

namespace TerraClassic.Oracle

/-- Powers as staking gives them: no vote has more than the total power
    CometBFT allows. -/
def PowersOk (pb : ExchangeRateBallot) : Prop :=
  ∀ v ∈ pb, 0 ≤ v.power ∧ v.power ≤ maxTotalVotingPower

theorem PowersOk.nonneg {pb : ExchangeRateBallot} (h : PowersOk pb) : ∀ v ∈ pb, 0 ≤ v.power :=
  fun v hv => (h v hv).1

theorem PowersOk.perm {b₁ b₂ : ExchangeRateBallot} (hp : b₁.Perm b₂) (h : PowersOk b₁) :
    PowersOk b₂ := fun v hv => h v (hp.symm.subset hv)

/-! ### Power -/

/-- The exact sum of the powers. -/
def totalPower (pb : ExchangeRateBallot) : ℤ := (pb.map VoteForTally.power).sum

theorem foldl_power (pb : ExchangeRateBallot) (acc : ℤ) :
    pb.foldl (fun totalPower vote => toInt64 (totalPower + vote.power)) (toInt64 acc) =
      toInt64 (acc + totalPower pb) := by
  induction pb generalizing acc with
  | nil => simp [totalPower]
  | cons v rest ih =>
    rw [List.foldl_cons, toInt64_add_left, ih]
    simp [totalPower, add_assoc]

theorem power_eq (pb : ExchangeRateBallot) : power pb = toInt64 (totalPower pb) := by
  have := foldl_power pb 0
  simpa [power, toInt64] using this

theorem totalPower_perm {b₁ b₂ : ExchangeRateBallot} (hp : b₁.Perm b₂) :
    totalPower b₁ = totalPower b₂ := (hp.map _).sum_eq

theorem power_perm {b₁ b₂ : ExchangeRateBallot} (hp : b₁.Perm b₂) : power b₁ = power b₂ := by
  rw [power_eq, power_eq, totalPower_perm hp]

theorem totalPower_nonneg {pb : ExchangeRateBallot} (h : ∀ v ∈ pb, 0 ≤ v.power) :
    0 ≤ totalPower pb := by
  apply List.sum_nonneg
  intro p hp
  obtain ⟨v, hv, rfl⟩ := List.mem_map.mp hp
  exact h v hv

/-! ### Weighted median -/

/-- The rate at which the power of the ballot reaches half of `total`. -/
abbrev ReachesHalf (total : ℤ) (pb : ExchangeRateBallot) (m : Dec) : Prop :=
  WeightedMedian.Reaches VoteForTally.exchangeRate VoteForTally.power (total.tdiv 2) pb m

theorem half_le (x : ℤ) : (toInt64 x).tdiv 2 ≤ 2 ^ 62 := by
  have hlt := toInt64_lt x
  rcases le_or_gt 0 (toInt64 x) with h | h
  · rw [Int.tdiv_eq_ediv_of_nonneg h]
    omega
  · have hneg : (toInt64 x).tdiv 2 = -((-(toInt64 x)).tdiv 2) := by rw [Int.neg_tdiv, neg_neg]
    rw [hneg, Int.tdiv_eq_ediv_of_nonneg (by omega)]
    omega

/-- The loop over running sums that do not wrap around.  `I` is what is known of the sum
    and the rest of the ballot while the sum is below half. -/
theorem medianFrom_eq_of_exact {half : ℤ} {I : ℤ → ExchangeRateBallot → Prop}
    (hstep : ∀ pivot v rest, I pivot (v :: rest) →
      toInt64 (pivot + v.power) = pivot + v.power ∧
        (pivot + v.power < half → I (pivot + v.power) rest))
    {pivot : ℤ} {pb : ExchangeRateBallot} (hpb : I pivot pb) :
    medianFrom half pivot pb =
      (WeightedMedian.firstReaching VoteForTally.exchangeRate VoteForTally.power half pivot
        pb).getD Dec.zero := by
  induction pb generalizing pivot with
  | nil => rfl
  | cons v rest ih =>
    obtain ⟨hexact, hrest⟩ := hstep pivot v rest hpb
    unfold medianFrom WeightedMedian.firstReaching
    rw [hexact]
    split
    · rfl
    · next hbelow => exact ih (hrest (not_le.mp hbelow))

/-- While the running sum is below half, it cannot have wrapped around. -/
theorem medianFrom_eq {half pivot : ℤ} {pb : ExchangeRateBallot} (hpow : PowersOk pb)
    (hhalf : half ≤ 2 ^ 62) (h₀ : 0 ≤ pivot) (hpivot : pivot ≤ 2 ^ 62) :
    medianFrom half pivot pb =
      (WeightedMedian.firstReaching VoteForTally.exchangeRate VoteForTally.power half pivot
        pb).getD Dec.zero := by
  refine medianFrom_eq_of_exact
    (I := fun pivot pb => PowersOk pb ∧ 0 ≤ pivot ∧ pivot ≤ 2 ^ 62) ?_ ⟨hpow, h₀, hpivot⟩
  rintro pivot v rest ⟨hpow, h₀, hpivot⟩
  obtain ⟨hv₀, hv₁⟩ := hpow v List.mem_cons_self
  have hmax : (maxTotalVotingPower : ℤ) < 2 ^ 60 := by decide
  refine ⟨toInt64_of_lt (by omega) (by omega), fun hbelow => ?_⟩
  exact ⟨fun w hw => hpow w (List.mem_cons_of_mem _ hw), by omega, by omega⟩

theorem weightedMedian_eq {pb : ExchangeRateBallot} (hpow : PowersOk pb) :
    weightedMedian pb =
      (WeightedMedian.firstReaching VoteForTally.exchangeRate VoteForTally.power
        ((power pb).tdiv 2) 0 pb).getD Dec.zero := by
  unfold weightedMedian
  apply medianFrom_eq hpow _ le_rfl (by norm_num)
  rw [power_eq]
  exact half_le _

theorem weightedMedian_perm {b₁ b₂ : ExchangeRateBallot} (hp : b₁.Perm b₂)
    (hs₁ : SortedByRate b₁) (hs₂ : SortedByRate b₂) (hpow : PowersOk b₁) :
    weightedMedian b₁ = weightedMedian b₂ := by
  rw [weightedMedian_eq hpow, weightedMedian_eq (hpow.perm hp), power_perm hp,
    WeightedMedian.firstReaching_perm hp hs₁ hs₂ (fun v hv => (hpow v hv).1)]

/-- A running sum that stays below the total does not wrap around either. -/
theorem medianFrom_eq_of_total {half pivot : ℤ} {pb : ExchangeRateBallot}
    (hpow : ∀ v ∈ pb, 0 ≤ v.power) (h₀ : 0 ≤ pivot) (hlt : pivot + totalPower pb < 2 ^ 63) :
    medianFrom half pivot pb =
      (WeightedMedian.firstReaching VoteForTally.exchangeRate VoteForTally.power half pivot
        pb).getD Dec.zero := by
  refine medianFrom_eq_of_exact
    (I := fun pivot pb => (∀ v ∈ pb, 0 ≤ v.power) ∧ 0 ≤ pivot ∧
      pivot + totalPower pb < 2 ^ 63) ?_ ⟨hpow, h₀, hlt⟩
  rintro pivot v rest ⟨hpow, h₀, hlt⟩
  have hv := hpow v List.mem_cons_self
  have hrest : ∀ w ∈ rest, 0 ≤ w.power := fun w hw => hpow w (List.mem_cons_of_mem _ hw)
  have htotal : totalPower (v :: rest) = v.power + totalPower rest := List.sum_cons
  have hnonneg := totalPower_nonneg hrest
  exact ⟨toInt64_of_lt (by omega) (by omega), fun _ => ⟨hrest, by omega, by omega⟩⟩

/-- The median of a ballot whose power does not overflow. -/
theorem weightedMedian_reaches {pb : ExchangeRateBallot} (hpow : ∀ v ∈ pb, 0 ≤ v.power)
    (hs : SortedByRate pb) (hne : pb ≠ []) (hlt : totalPower pb < 2 ^ 63) :
    ReachesHalf (totalPower pb) pb (weightedMedian pb) := by
  have hnn := totalPower_nonneg hpow
  have hpower : power pb = totalPower pb := by
    rw [power_eq]
    exact toInt64_of_lt (by omega) hlt
  have hhalf : (totalPower pb).tdiv 2 ≤ 0 + (pb.map VoteForTally.power).sum := by
    rw [Int.tdiv_eq_ediv_of_nonneg hnn]
    show totalPower pb / 2 ≤ 0 + totalPower pb
    omega
  have hsome : (WeightedMedian.firstReaching VoteForTally.exchangeRate VoteForTally.power
      ((totalPower pb).tdiv 2) 0 pb).isSome := WeightedMedian.firstReaching_isSome hne hhalf
  obtain ⟨m, hm⟩ := Option.isSome_iff_exists.mp hsome
  unfold weightedMedian
  rw [medianFrom_eq_of_total hpow le_rfl (by omega), hpower, hm]
  exact WeightedMedian.firstReaching_reaches hs hpow hm

/-- When the median is zero: a vote is, and such votes hold half the power. -/
theorem reachesHalf_zero_iff {total : ℤ} {pb : ExchangeRateBallot} {m : Dec}
    (h : ReachesHalf total pb m) (hnn : ∀ v ∈ pb, 0 ≤ v.exchangeRate.i) :
    m.i = 0 ↔ (∃ v ∈ pb, v.exchangeRate.i = 0) ∧
      total.tdiv 2 ≤ ((pb.filter (fun v => v.exchangeRate.i = 0)).map VoteForTally.power).sum := by
  have hfilter : pb.filter (fun v => v.exchangeRate ≤ Dec.zero) =
      pb.filter (fun v => v.exchangeRate.i = 0) := by
    apply List.filter_congr
    intro v hv
    have := hnn v hv
    rw [decide_eq_decide, Dec.le_def]
    show v.exchangeRate.i ≤ 0 ↔ _
    omega
  have hweight : WeightedMedian.weightUpTo VoteForTally.exchangeRate VoteForTally.power pb
      Dec.zero = ((pb.filter (fun v => v.exchangeRate.i = 0)).map VoteForTally.power).sum := by
    unfold WeightedMedian.weightUpTo
    rw [hfilter]
  constructor
  · intro hm
    have hmz : m = Dec.zero := Dec.ext hm
    obtain ⟨v, hv, hvm⟩ := h.attained
    refine ⟨⟨v, hv, by rw [hvm]; exact hm⟩, ?_⟩
    rw [← hweight, ← hmz]
    exact h.reached
  · rintro ⟨⟨v, hv, hvz⟩, hhalf⟩
    obtain ⟨w, hw, hwm⟩ := h.attained
    have hm₀ : 0 ≤ m.i := hwm ▸ hnn w hw
    by_contra hne
    have hlt : v.exchangeRate < m := by
      rw [Dec.lt_def, hvz]
      omega
    have hfirst := h.first v hv hlt
    rw [show v.exchangeRate = Dec.zero from Dec.ext hvz, hweight] at hfirst
    omega

/-! ### Standard deviation -/

/-- Adding up non-negative decimals: the check of the last sum is the only one
    that can fail. -/
theorem foldlM_add_nonneg {xs : List Dec} (hx : ∀ x ∈ xs, 0 ≤ x.i) {acc : Dec}
    (h₀ : 0 ≤ acc.i) (hfit : Dec.Fits acc.i) :
    xs.foldlM Dec.add acc = Dec.checked (acc.i + (xs.map Dec.i).sum) := by
  induction xs generalizing acc with
  | nil => simp [Dec.checked_of_fits hfit]
  | cons x rest ih =>
    have hx₀ := hx x List.mem_cons_self
    have hrest : ∀ y ∈ rest, 0 ≤ y.i := fun y hy => hx y (List.mem_cons_of_mem _ hy)
    have hsum : 0 ≤ (rest.map Dec.i).sum := by
      apply List.sum_nonneg
      intro z hz
      obtain ⟨y, hy, rfl⟩ := List.mem_map.mp hz
      exact hrest y hy
    rw [List.foldlM_cons, List.map_cons, List.sum_cons, ← add_assoc]
    by_cases hf : Dec.Fits (acc.i + x.i)
    · have hadd : acc.add x = some ⟨acc.i + x.i⟩ := Dec.checked_of_fits hf
      rw [hadd]
      exact ih hrest (by show 0 ≤ acc.i + x.i; omega) hf
    · have hadd : acc.add x = none := Dec.checked_of_not_fits hf
      rw [hadd, Dec.checked_of_not_fits (fun h => hf (h.of_le (by omega) (by omega)))]
      rfl

/-- The squared deviation of one vote. -/
def squaredDeviation (median : Dec) (v : VoteForTally) : Option Dec := do
  let deviation ← v.exchangeRate.sub median
  deviation.mul deviation

theorem squaredDeviation_nonneg {median : Dec} {v : VoteForTally} {d : Dec}
    (h : squaredDeviation median v = some d) : 0 ≤ d.i := by
  unfold squaredDeviation at h
  obtain ⟨dev, _, h⟩ := Option.bind_eq_some_iff.mp h
  obtain ⟨_, rfl⟩ := Dec.checked_eq_some.mp h
  exact Rounding.roundHalfEven_nonneg _ (mul_self_nonneg dev.i)

theorem squaredDeviations_eq (pb : ExchangeRateBallot) (median : Dec) :
    squaredDeviations pb median =
      (pb.mapM (squaredDeviation median)).bind
        (fun ds => Dec.checked (ds.map Dec.i).sum) := by
  have hstep : squaredDeviations pb median =
      pb.foldlM (fun sum v => (squaredDeviation median v).bind (Dec.add sum)) Dec.zero := by
    unfold squaredDeviations squaredDeviation
    congr 1
    funext sum v
    simp [Option.bind_assoc]
  rw [hstep, Reorder.foldlM_bind_eq_mapM]
  cases h : pb.mapM (squaredDeviation median) with
  | none => rfl
  | some ds =>
    have hnn : ∀ d ∈ ds, 0 ≤ d.i := by
      intro d hd
      obtain ⟨v, _, hv⟩ := Reorder.exists_of_mem_mapM h hd
      exact squaredDeviation_nonneg hv
    have : ds.foldlM Dec.add Dec.zero = Dec.checked (0 + (ds.map Dec.i).sum) :=
      foldlM_add_nonneg hnn le_rfl Dec.fits_zero
    simpa using this

theorem standardDeviation_perm (float : FloatSqrt) {b₁ b₂ : ExchangeRateBallot}
    (hp : b₁.Perm b₂) (median : Dec) :
    standardDeviation float b₁ median = standardDeviation float b₂ median := by
  have hsum : squaredDeviations b₁ median = squaredDeviations b₂ median := by
    rw [squaredDeviations_eq, squaredDeviations_eq]
    cases h₁ : b₁.mapM (squaredDeviation median) with
    | none =>
      cases h₂ : b₂.mapM (squaredDeviation median) with
      | none => rfl
      | some ds =>
        obtain ⟨ds', h, _⟩ := Reorder.mapM_perm hp.symm h₂
        rw [h₁] at h
        cases h
    | some ds =>
      obtain ⟨ds', h, hds⟩ := Reorder.mapM_perm hp h₁
      rw [h]
      show Dec.checked (ds.map Dec.i).sum = Dec.checked (ds'.map Dec.i).sum
      rw [(hds.map Dec.i).sum_eq]
  unfold standardDeviation
  rw [hsum, hp.length_eq]

theorem standardDeviation_nonneg (float : FloatSqrt) (pb : ExchangeRateBallot) (median : Dec) :
    0 ≤ (standardDeviation float pb median).i := by
  unfold standardDeviation
  split
  · exact le_rfl
  · split
    · exact le_rfl
    · split
      · exact le_rfl
      · exact float.sqrt_nonneg _

/-! ### Winners -/

/-- A vote that `Tally` credits: inside the band, or not positive. -/
def isWinner (median spread : Dec) (v : VoteForTally) : Bool :=
  (median.i - spread.i ≤ v.exchangeRate.i && v.exchangeRate.i ≤ median.i + spread.i) ||
    !v.exchangeRate.isPositive

/-- No band bound that `Tally` computes for the ballot overflows. -/
def BandOk (median spread : Dec) (pb : ExchangeRateBallot) : Prop :=
  ∀ v ∈ pb, (withinBand median spread v.exchangeRate).isSome

instance (median spread : Dec) (pb : ExchangeRateBallot) : Decidable (BandOk median spread pb) :=
  inferInstanceAs (Decidable (∀ v ∈ pb, _))

theorem withinBand_eq_some {median spread rate : Dec} {b : Bool}
    (h : withinBand median spread rate = some b) :
    b = (decide (median.i - spread.i ≤ rate.i) && decide (rate.i ≤ median.i + spread.i)) := by
  unfold withinBand at h
  obtain ⟨lower, hl, h⟩ := Option.bind_eq_some_iff.mp h
  obtain ⟨_, rfl⟩ := Dec.checked_eq_some.mp hl
  split at h
  · next hle =>
    obtain ⟨upper, hu, h⟩ := Option.bind_eq_some_iff.mp h
    obtain ⟨_, rfl⟩ := Dec.checked_eq_some.mp hu
    have hle' : median.i - spread.i ≤ rate.i := hle
    have hb : decide (rate ≤ ⟨median.i + spread.i⟩) = b := Option.some.inj h
    rw [← hb]
    simp [hle', Dec.le_def]
  · next hle =>
    have hle' : ¬ median.i - spread.i ≤ rate.i := hle
    have hb : false = b := Option.some.inj h
    rw [← hb]
    simp [hle']

theorem tallyVote_eq {median spread : Dec} {v : VoteForTally}
    (h : (withinBand median spread v.exchangeRate).isSome) (claims : SortedMap ValAddr Claim) :
    tallyVote median spread claims v =
      some (if isWinner median spread v then creditClaim claims v else claims) := by
  obtain ⟨b, hb⟩ := Option.isSome_iff_exists.mp h
  unfold tallyVote isWinner
  rw [hb, ← withinBand_eq_some hb]
  rfl

/-- The loop of `Tally`: it credits the winners, if no bound overflows. -/
theorem foldlM_tallyVote (median spread : Dec) (pb : ExchangeRateBallot)
    (claims : SortedMap ValAddr Claim) :
    pb.foldlM (tallyVote median spread) claims =
      if BandOk median spread pb then
        some ((pb.filter (isWinner median spread)).foldl creditClaim claims)
      else none := by
  split
  · next hok =>
    induction pb generalizing claims with
    | nil => rfl
    | cons v rest ih =>
      have hrest : BandOk median spread rest := fun w hw => hok w (List.mem_cons_of_mem _ hw)
      rw [List.foldlM_cons, tallyVote_eq (hok v List.mem_cons_self)]
      have := ih (if isWinner median spread v then
        creditClaim claims v else claims) hrest
      by_cases hw : isWinner median spread v = true
      · simpa [hw] using this
      · simpa [hw] using this
  · next hok =>
    induction pb generalizing claims with
    | nil => exact absurd (fun v hv => by cases hv) hok
    | cons v rest ih =>
      rw [List.foldlM_cons]
      by_cases hv : (withinBand median spread v.exchangeRate).isSome
      · rw [tallyVote_eq hv]
        apply ih
        intro hrest
        apply hok
        intro w hw
        rcases List.mem_cons.mp hw with rfl | hw
        · exact hv
        · exact hrest w hw
      · have hnone : withinBand median spread v.exchangeRate = none := by
          simpa using hv
        unfold tallyVote
        rw [hnone]
        rfl

theorem BandOk.perm {median spread : Dec} {b₁ b₂ : ExchangeRateBallot} (hp : b₁.Perm b₂)
    (h : BandOk median spread b₁) : BandOk median spread b₂ :=
  fun v hv => h v (hp.symm.subset hv)

/-- Crediting two votes commutes. -/
theorem creditClaim_comm (claims : SortedMap ValAddr Claim) (v w : VoteForTally) :
    creditClaim (creditClaim claims v) w = creditClaim (creditClaim claims w) v := by
  by_cases h : v.voter = w.voter
  · simp only [creditClaim, SortedMap.getD, h, SortedMap.get_set_self, Option.getD_some,
      SortedMap.set_set, toInt64_add_left]
    rw [add_right_comm]
  · have h' : w.voter ≠ v.voter := fun heq => h heq.symm
    simp only [creditClaim, SortedMap.getD]
    rw [SortedMap.get_set_ne _ _ h', SortedMap.get_set_ne _ _ h, SortedMap.set_comm _ _ _ h]

theorem foldl_creditClaim_perm {b₁ b₂ : ExchangeRateBallot} (hp : b₁.Perm b₂)
    (claims : SortedMap ValAddr Claim) :
    b₁.foldl creditClaim claims = b₂.foldl creditClaim claims :=
  Reorder.foldl_perm hp (fun v _ w _ _ c => creditClaim_comm c v w) claims

theorem rewardSpread_perm (float : FloatSqrt) {b₁ b₂ : ExchangeRateBallot} (hp : b₁.Perm b₂)
    (hm : weightedMedian b₁ = weightedMedian b₂) (rewardBand : Dec) :
    rewardSpread float b₁ rewardBand = rewardSpread float b₂ rewardBand := by
  unfold rewardSpread
  rw [hm, standardDeviation_perm float hp]

/-- `Tally` does not see the order of equal rates. -/
theorem tally_perm (float : FloatSqrt) {b₁ b₂ : ExchangeRateBallot} (hp : b₁.Perm b₂)
    (hs₁ : SortedByRate b₁) (hs₂ : SortedByRate b₂) (hpow : PowersOk b₁) (rewardBand : Dec)
    (claims : SortedMap ValAddr Claim) :
    tally float b₁ rewardBand claims = tally float b₂ rewardBand claims := by
  have hm := weightedMedian_perm hp hs₁ hs₂ hpow
  unfold tally
  rw [rewardSpread_perm float hp hm, ← hm]
  congr 1
  funext spread
  rw [foldlM_tallyVote, foldlM_tallyVote]
  have hiff : BandOk (weightedMedian b₁) spread b₁ ↔ BandOk (weightedMedian b₁) spread b₂ :=
    ⟨BandOk.perm hp, BandOk.perm hp.symm⟩
  rw [foldl_creditClaim_perm (hp.filter _)]
  simp only [hiff]

/-! ### Cross rates -/

theorem toMap_append (pb : ExchangeRateBallot) (v : VoteForTally) :
    toMap (pb ++ [v]) =
      if v.exchangeRate.isPositive then (toMap pb).set v.voter v.exchangeRate else toMap pb := by
  unfold toMap
  rw [List.foldl_append]
  rfl

/-- In a sorted ballot `ToMap` keeps the largest positive rate of each voter. -/
theorem toMap_get_iff {pb : ExchangeRateBallot} (hs : SortedByRate pb) (a : ValAddr) (r : Dec) :
    (toMap pb).get a = some r ↔
      (∃ v ∈ pb, v.voter = a ∧ v.exchangeRate = r ∧ v.exchangeRate.isPositive) ∧
        ∀ v ∈ pb, v.voter = a → v.exchangeRate.isPositive → v.exchangeRate ≤ r := by
  induction pb using List.reverseRecOn with
  | nil => simp [toMap]
  | append_singleton pb x ih =>
    obtain ⟨hpb, _, hlast⟩ := List.pairwise_append.mp hs
    have hle : ∀ v ∈ pb, v.exchangeRate ≤ x.exchangeRate :=
      fun v hv => hlast v hv x List.mem_cons_self
    have ih := ih hpb
    rw [toMap_append]
    by_cases hx : x.exchangeRate.isPositive = true ∧ x.voter = a
    · -- the last vote of this voter overwrites
      obtain ⟨hpos, hvoter⟩ := hx
      rw [if_pos hpos, hvoter, SortedMap.get_set_self]
      constructor
      · intro h
        obtain rfl := Option.some.inj h
        refine ⟨⟨x, by simp, hvoter, rfl, hpos⟩, ?_⟩
        intro v hv _ _
        rcases List.mem_append.mp hv with hv | hv
        · exact hle v hv
        · rw [List.mem_singleton.mp hv]
      · rintro ⟨⟨v, hv, _, hvr, _⟩, hmax⟩
        have hxr : x.exchangeRate ≤ r := hmax x (by simp) hvoter hpos
        have hrx : r ≤ x.exchangeRate := by
          rcases List.mem_append.mp hv with hv | hv
          · exact hvr ▸ hle v hv
          · rw [← hvr, List.mem_singleton.mp hv]
        rw [le_antisymm hxr hrx]
    · -- the last vote is another voter's, or an abstain vote
      have hget : (if x.exchangeRate.isPositive = true then
          (toMap pb).set x.voter x.exchangeRate else toMap pb).get a = (toMap pb).get a := by
        by_cases hpos : x.exchangeRate.isPositive = true
        · have hne : a ≠ x.voter := fun h => hx ⟨hpos, h.symm⟩
          rw [if_pos hpos, SortedMap.get_set_ne _ _ hne]
        · rw [if_neg hpos]
      rw [hget, ih]
      constructor
      · rintro ⟨⟨v, hv, hrest⟩, hmax⟩
        refine ⟨⟨v, List.mem_append_left _ hv, hrest⟩, ?_⟩
        intro w hw hwa hwp
        rcases List.mem_append.mp hw with hw | hw
        · exact hmax w hw hwa hwp
        · rw [List.mem_singleton.mp hw] at hwa hwp
          exact absurd ⟨hwp, hwa⟩ hx
      · rintro ⟨⟨v, hv, hva, hvr, hvp⟩, hmax⟩
        refine ⟨?_, fun w hw => hmax w (List.mem_append_left _ hw)⟩
        rcases List.mem_append.mp hv with hv | hv
        · exact ⟨v, hv, hva, hvr, hvp⟩
        · rw [List.mem_singleton.mp hv] at hva hvp
          exact absurd ⟨hvp, hva⟩ hx

theorem toMap_perm {b₁ b₂ : ExchangeRateBallot} (hp : b₁.Perm b₂) (hs₁ : SortedByRate b₁)
    (hs₂ : SortedByRate b₂) : toMap b₁ = toMap b₂ := by
  apply SortedMap.ext_get
  intro a
  ext r
  rw [toMap_get_iff hs₁, toMap_get_iff hs₂]
  simp only [hp.mem_iff]

theorem crossVote_power {bases : SortedMap ValAddr Dec} {v w : VoteForTally}
    (h : crossVote bases v = some w) : w.power = v.power ∨ w.power = 0 := by
  unfold crossVote at h
  split at h
  · split at h
    · obtain ⟨rate, _, h⟩ := Option.bind_eq_some_iff.mp h
      exact Or.inl (by rw [← Option.some.inj h])
    · exact Or.inr (by rw [← Option.some.inj h])
  · exact Or.inr (by rw [← Option.some.inj h])

theorem toCrossRate_powersOk {bases : SortedMap ValAddr Dec} {pb cb : ExchangeRateBallot}
    (hpow : PowersOk pb) (h : toCrossRate pb bases = some cb) : PowersOk cb := by
  intro w hw
  obtain ⟨v, hv, hvw⟩ := Reorder.exists_of_mem_mapM h hw
  rcases crossVote_power hvw with heq | heq
  · rw [heq]
    exact hpow v hv
  · rw [heq]
    exact ⟨le_rfl, by positivity⟩

theorem totalPower_cross_le {bases : SortedMap ValAddr Dec} {pb cb : ExchangeRateBallot}
    (hpow : PowersOk pb) (h : toCrossRate pb bases = some cb) :
    totalPower cb ≤ totalPower pb := by
  unfold toCrossRate at h
  induction pb generalizing cb with
  | nil =>
    obtain rfl : cb = [] := by simpa using h.symm
    exact le_rfl
  | cons v rest ih =>
    rw [Reorder.mapM_cons_eq] at h
    obtain ⟨w, hw, h⟩ := Option.bind_eq_some_iff.mp h
    obtain ⟨ws, hws, h⟩ := Option.bind_eq_some_iff.mp h
    have hrest := ih (fun u hu => hpow u (List.mem_cons_of_mem _ hu)) hws
    have hv := (hpow v List.mem_cons_self).1
    have hle : w.power ≤ v.power := by
      rcases crossVote_power hw with heq | heq <;> omega
    rw [← Option.some.inj h]
    simp only [totalPower, List.map_cons, List.sum_cons] at hrest ⊢
    omega

/-- One round of the tally loop does not see the order of equal rates, neither
    in the ballot nor in its cross rates. -/
theorem tallyStep_perm (s₁ s₂ : Schedule) (float : FloatSqrt) (rewardBand : Dec)
    (referenceTerra : Denom) (voteMapRT : SortedMap ValAddr Dec) (exchangeRateRT : Dec)
    (s : TallyState) (denom : Denom) {b₁ b₂ : ExchangeRateBallot} (hp : b₁.Perm b₂)
    (hs₁ : SortedByRate b₁) (hs₂ : SortedByRate b₂) (hpow : PowersOk b₁) :
    tallyStep s₁ float rewardBand referenceTerra voteMapRT exchangeRateRT s (denom, b₁) =
      tallyStep s₂ float rewardBand referenceTerra voteMapRT exchangeRateRT s (denom, b₂) := by
  unfold tallyStep
  split
  · cases h₁ : toCrossRate b₁ voteMapRT with
    | none =>
      have h₂ : toCrossRate b₂ voteMapRT = none := by
        cases h₂ : toCrossRate b₂ voteMapRT with
        | none => rfl
        | some c₂ =>
          obtain ⟨c₁, h, _⟩ := Reorder.mapM_perm hp.symm h₂
          unfold toCrossRate at h₁
          rw [h₁] at h
          cases h
      simp only [h₂]
      rfl
    | some c₁ =>
      obtain ⟨c₂, h₂, hc⟩ := Reorder.mapM_perm hp h₁
      have h₂' : toCrossRate b₂ voteMapRT = some c₂ := h₂
      have hsorted : (s₁.sort c₁).Perm (s₂.sort c₂) :=
        (s₁.sort_perm c₁).trans (hc.trans (s₂.sort_perm c₂).symm)
      have hpow' : PowersOk (s₁.sort c₁) :=
        (toCrossRate_powersOk hpow h₁).perm (s₁.sort_perm c₁).symm
      simp only [h₂', Option.bind_eq_bind, Option.bind_some]
      rw [tally_perm float hsorted (s₁.sort_sorted c₁) (s₂.sort_sorted c₂) hpow']
  · simp only
    rw [tally_perm float hp hs₁ hs₂ hpow]

end TerraClassic.Oracle
