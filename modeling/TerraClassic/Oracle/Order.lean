import TerraClassic.Oracle.Rounds

/-! # The end blocker does not depend on Go's free choices

    Every loop of the end blocker over a map either keeps a running maximum
    with a total tie break, or accumulates with commuting rounds; and every
    function of a sorted ballot is blind to the order of equal rates.  Two
    schedules therefore give the same outcome, panics included.
-/

namespace TerraClassic.Oracle

/-! ### Ballots and the reference denom -/

/-- The ballots that pass, before sorting. -/
def keptVotes (threshold : ℤ) (voteTargets : SortedMap Denom Dec)
    (claims : SortedMap ValAddr Claim) (stored : SortedMap ValAddr AggregateExchangeRateVote) :
    SortedMap Denom ExchangeRateBallot :=
  (collectVotes claims stored).filter (keeps voteTargets threshold)

theorem keeps_sort (sched : Schedule) (voteTargets : SortedMap Denom Dec) (threshold : ℤ)
    (d : Denom) (b : ExchangeRateBallot) :
    keeps voteTargets threshold d (sched.sort b) = keeps voteTargets threshold d b := by
  unfold keeps
  rw [passes_perm (sched.sort_perm b)]

/-- The ballots left by `PickReferenceTerra` are the passing ones, sorted. -/
theorem pick_voteMap_eq (sched : Schedule) (threshold : ℤ) (voteTargets : SortedMap Denom Dec)
    (claims : SortedMap ValAddr Claim)
    (stored : SortedMap ValAddr AggregateExchangeRateVote) :
    (pickReferenceTerra sched threshold voteTargets
      (organizeBallotByDenom sched claims stored)).voteMap =
      (keptVotes threshold voteTargets claims stored).mapVal sched.sort := by
  rw [pick_voteMap, organizeBallotByDenom_eq]
  exact SortedMap.filter_mapVal _ (fun d b => keeps_sort sched voteTargets threshold d b)

/-- The targets left by `PickReferenceTerra`. -/
def leftTargets (threshold : ℤ) (voteTargets : SortedMap Denom Dec)
    (claims : SortedMap ValAddr Claim) (stored : SortedMap ValAddr AggregateExchangeRateVote) :
    SortedMap Denom Dec :=
  voteTargets.filter (fun d _ =>
    (((collectVotes claims stored).get d).map (passes threshold)).getD true)

theorem pick_voteTargets_eq (sched : Schedule) (threshold : ℤ)
    (voteTargets : SortedMap Denom Dec) (claims : SortedMap ValAddr Claim)
    (stored : SortedMap ValAddr AggregateExchangeRateVote) :
    (pickReferenceTerra sched threshold voteTargets
      (organizeBallotByDenom sched claims stored)).voteTargets =
      leftTargets threshold voteTargets claims stored := by
  rw [pick_voteTargets, organizeBallotByDenom_eq]
  unfold leftTargets
  congr 1
  funext d _
  rw [SortedMap.get_mapVal]
  cases (collectVotes claims stored).get d with
  | none => rfl
  | some b => exact passes_perm (sched.sort_perm b) threshold

theorem IsReference.of_mapVal (sched : Schedule) {kept : SortedMap Denom ExchangeRateBallot}
    {ref : Denom} (h : IsReference (kept.mapVal sched.sort).entries ref) :
    IsReference kept.entries ref := by
  have hpow : ∀ b, power (sched.sort b) = power b := fun b => power_perm (sched.sort_perm b)
  rcases h with ⟨hnil, rfl⟩ | ⟨b, hmem, hmax⟩
  · exact Or.inl ⟨List.map_eq_nil_iff.mp hnil, rfl⟩
  · obtain ⟨e, he, heq⟩ := List.mem_map.mp hmem
    obtain ⟨rfl, rfl⟩ := Prod.mk.inj heq
    refine Or.inr ⟨e.2, he, ?_⟩
    intro x hx
    have := hmax (x.1, sched.sort x.2) (List.mem_map.mpr ⟨x, hx, rfl⟩)
    simpa only [hpow] using this

/-- The reference denom, in terms of the unsorted ballots. -/
theorem pick_reference_eq (sched : Schedule) (threshold : ℤ) (voteTargets : SortedMap Denom Dec)
    (claims : SortedMap ValAddr Claim)
    (stored : SortedMap ValAddr AggregateExchangeRateVote) :
    IsReference (keptVotes threshold voteTargets claims stored).entries
      (pickReferenceTerra sched threshold voteTargets
        (organizeBallotByDenom sched claims stored)).referenceTerra := by
  have h := pick_reference sched threshold voteTargets
    (organizeBallotByDenom sched claims stored)
  rw [← pick_voteMap, pick_voteMap_eq] at h
  exact h.of_mapVal sched

/-! ### The tally loop -/

theorem keptVotes_powersOk {claims : SortedMap ValAddr Claim} (hc : ClaimsOk claims)
    (threshold : ℤ) (voteTargets : SortedMap Denom Dec)
    (stored : SortedMap ValAddr AggregateExchangeRateVote) {d : Denom} {b : ExchangeRateBallot}
    (h : (keptVotes threshold voteTargets claims stored).get d = some b) : PowersOk b := by
  unfold keptVotes at h
  rw [SortedMap.get_filter, collectVotes_get] at h
  split at h
  · cases h
  · obtain ⟨hb, _⟩ := Option.filter_eq_some_iff.mp h
    exact Option.some.inj hb ▸ ballotOf_powersOk hc stored d

/-- The tally loop over the same ballots, sorted by two schedules. -/
theorem tallyBallots_sched (s₁ s₂ : Schedule) (float : FloatSqrt) (rewardBand : Dec)
    (referenceTerra : Denom) {kept : SortedMap Denom ExchangeRateBallot}
    (hpow : ∀ d b, kept.get d = some b → PowersOk b) (s : TallyState) :
    tallyBallots s₁ float rewardBand referenceTerra (kept.mapVal s₁.sort) s =
      tallyBallots s₂ float rewardBand referenceTerra (kept.mapVal s₂.sort) s := by
  have hperm : ∀ b, (s₁.sort b).Perm (s₂.sort b) :=
    fun b => (s₁.sort_perm b).trans (s₂.sort_perm b).symm
  have hsorted : ∀ b, PowersOk b → PowersOk (s₁.sort b) :=
    fun b hb => hb.perm (s₁.sort_perm b).symm
  -- the reference ballot gives the same base rates and the same median
  have href : toMap ((kept.mapVal s₁.sort).getD referenceTerra []) =
        toMap ((kept.mapVal s₂.sort).getD referenceTerra []) ∧
      weightedMedian ((kept.mapVal s₁.sort).getD referenceTerra []) =
        weightedMedian ((kept.mapVal s₂.sort).getD referenceTerra []) := by
    unfold SortedMap.getD
    rw [SortedMap.get_mapVal, SortedMap.get_mapVal]
    cases h : kept.get referenceTerra with
    | none => exact ⟨rfl, rfl⟩
    | some b =>
      exact ⟨toMap_perm (hperm b) (s₁.sort_sorted b) (s₂.sort_sorted b),
        weightedMedian_perm (hperm b) (s₁.sort_sorted b) (s₂.sort_sorted b)
          (hsorted b (hpow _ b h))⟩
  rw [tallyBallots_eq, tallyBallots_eq]
  split
  · rfl
  · unfold ballotRounds
    rw [href.1, href.2, ← foldlM_rounds _ (List.Perm.refl _),
      ← foldlM_rounds _ (List.Perm.refl _), SortedMap.entries_mapVal, SortedMap.entries_mapVal,
      List.foldlM_map, List.foldlM_map]
    apply Reorder.foldlM_congr
    intro e he t
    have hget := SortedMap.mem_entries.mp (show (e.1, e.2) ∈ kept.entries from he)
    have hround := tallyStep_perm s₁ s₂ float rewardBand referenceTerra
      (toMap ((kept.mapVal s₂.sort).getD referenceTerra []))
      (weightedMedian ((kept.mapVal s₂.sort).getD referenceTerra [])) t e.1 (hperm e.2)
      (s₁.sort_sorted e.2) (s₂.sort_sorted e.2) (hsorted e.2 (hpow _ _ hget))
    rw [tallyStep_eq, tallyStep_eq] at hround
    exact hround

/-! ### Miss counters -/

theorem missStep_comm (len : ℕ) (m : SortedMap ValAddr UInt64) (x y : ValAddr × Claim) :
    missStep len (missStep len m x) y = missStep len (missStep len m y) x := by
  unfold missStep getMissCounter
  by_cases hx : x.2.winCount = len
  · simp only [if_pos hx]
  · by_cases hy : y.2.winCount = len
    · simp only [if_pos hy]
    · simp only [if_neg hx, if_neg hy]
      by_cases h : x.2.recipient = y.2.recipient
      · simp only [SortedMap.getD, h]
      · have h' : y.2.recipient ≠ x.2.recipient := fun heq => h heq.symm
        simp only [SortedMap.getD]
        rw [SortedMap.get_set_ne _ _ h', SortedMap.get_set_ne _ _ h, SortedMap.set_comm _ _ _ h]

/-- Miss counting, in the order of the claims. -/
theorem countMisses_eq (sched : Schedule) (len : ℕ) (claims : SortedMap ValAddr Claim)
    (m : SortedMap ValAddr UInt64) :
    countMisses sched len claims m = claims.entries.foldl (missStep len) m :=
  Reorder.foldl_perm (sched.range_perm .miss claims.entries)
    (fun x _ y _ _ c => missStep_comm len c x y) m

/-! ### Rewards -/

theorem ballotPowerSum_eq (winners : List (ValAddr × Claim)) :
    ballotPowerSum winners = toInt64 (winners.map (fun w => w.2.weight)).sum := by
  have hacc : ∀ (l : List (ValAddr × Claim)) (acc : ℤ),
      l.foldl (fun sum winner => toInt64 (sum + winner.2.weight)) (toInt64 acc) =
        toInt64 (acc + (l.map (fun w => w.2.weight)).sum) := by
    intro l
    induction l with
    | nil => simp
    | cons w rest ih =>
      intro acc
      rw [List.foldl_cons, toInt64_add_left, ih]
      simp [add_assoc]
  have := hacc winners 0
  simpa [ballotPowerSum, toInt64] using this

theorem ballotPowerSum_perm {l₁ l₂ : List (ValAddr × Claim)} (h : l₁.Perm l₂) :
    ballotPowerSum l₁ = ballotPowerSum l₂ := by
  rw [ballotPowerSum_eq, ballotPowerSum_eq, (h.map _).sum_eq]

/-- The coin a reward pool contributes, if it has any. -/
def poolCoin (bank : BankKeeper) (distributionRatio : Dec) (denom : Denom) :
    Option (Option (Denom × Dec)) := do
  let rewardPool ← bank.getBalance denom
  if rewardPool = 0 then
    return none
  else
    let amount ← (Dec.ofInt rewardPool).mul distributionRatio
    let coin ← DecCoins.newDecCoinFromDec denom amount
    return some coin

/-- Add the coin of a pool, if there is one. -/
def addPoolCoin (c : DecCoins) : Option (Denom × Dec) → Option DecCoins
  | none => some c
  | some coin => c.add coin

theorem addPeriodReward_eq (bank : BankKeeper) (ratio : Dec) (c : DecCoins) (denom : Denom) :
    addPeriodReward bank ratio c denom = (poolCoin bank ratio denom).bind (addPoolCoin c) := by
  unfold addPeriodReward poolCoin
  cases bank.getBalance denom with
  | none => rfl
  | some pool =>
    simp only [Option.bind_eq_bind, Option.bind_some]
    split
    · rfl
    · cases (Dec.ofInt pool).mul ratio with
      | none => rfl
      | some amount =>
        simp only [Option.bind_some]
        cases DecCoins.newDecCoinFromDec denom amount with
        | none => rfl
        | some coin => rfl

theorem poolCoin_denom {bank : BankKeeper} {ratio : Dec} {denom : Denom} {coin : Denom × Dec}
    (h : poolCoin bank ratio denom = some (some coin)) : coin.1 = denom := by
  unfold poolCoin at h
  obtain ⟨pool, _, h⟩ := Option.bind_eq_some_iff.mp h
  split at h
  · cases h
  · obtain ⟨amount, _, h⟩ := Option.bind_eq_some_iff.mp h
    obtain ⟨c, hc, h⟩ := Option.bind_eq_some_iff.mp h
    obtain rfl : c = coin := Option.some.inj (Option.some.inj h)
    unfold DecCoins.newDecCoinFromDec at hc
    split at hc
    · cases hc
    · rw [← Option.some.inj hc]

/-- The pools of two denoms can be added in either order. -/
theorem addPeriodReward_comm (bank : BankKeeper) (ratio : Dec) {x y : Denom} (hxy : x ≠ y)
    (c : DecCoins) :
    ((addPeriodReward bank ratio c x).bind fun c => addPeriodReward bank ratio c y) =
      (addPeriodReward bank ratio c y).bind fun c => addPeriodReward bank ratio c x := by
  simp only [addPeriodReward_eq]
  cases hx : poolCoin bank ratio x with
  | none => cases hy : poolCoin bank ratio y <;> simp
  | some px =>
    cases hy : poolCoin bank ratio y with
    | none => simp
    | some py =>
      simp only [Option.bind_some]
      cases px with
      | none => cases py <;> simp [addPoolCoin]
      | some cx =>
        cases py with
        | none => simp [addPoolCoin]
        | some cy =>
          have hne : cx.1 ≠ cy.1 := by
            rw [poolCoin_denom hx, poolCoin_denom hy]
            exact hxy
          exact DecCoins.add_comm_of_ne c hne

/-- Paying two winners commutes: each adds to its own record and to the total. -/
theorem doleOut_comm (staking : StakingKeeper) (rewards : DecCoins) (powerSum : ℤ)
    (x y : ValAddr × Claim) (r : Reward) :
    ((doleOut staking rewards powerSum r x).bind
        fun r => doleOut staking rewards powerSum r y) =
      (doleOut staking rewards powerSum r y).bind
        fun r => doleOut staking rewards powerSum r x := by
  unfold doleOut
  cases hx : rewardCoins rewards powerSum x.2.weight with
  | none => cases hy : rewardCoins rewards powerSum y.2.weight <;> simp
  | some cx =>
    cases hy : rewardCoins rewards powerSum y.2.weight with
    | none => simp
    | some cy =>
      simp only [Option.bind_eq_bind, Option.bind_some]
      cases hvx : staking.validators.get x.2.recipient with
      | none => cases hvy : staking.validators.get y.2.recipient <;> simp
      | some vx =>
        cases hvy : staking.validators.get y.2.recipient with
        | none => simp
        | some vy =>
          by_cases hzx : cx.isZero = true
          · by_cases hzy : cy.isZero = true <;> simp [hzx, hzy]
          · by_cases hzy : cy.isZero = true
            · simp [hzx, hzy]
            · simp only [if_neg hzx, if_neg hzy, Option.pure_def, Option.bind_some,
                Option.some.injEq, Reward.mk.injEq, SortedMap.getD]
              refine ⟨?_, Coins.add_right_comm _ _ _⟩
              by_cases hr : x.2.recipient = y.2.recipient
              · simp [hr, Coins.add_right_comm]
              · have hr' : y.2.recipient ≠ x.2.recipient := fun heq => hr heq.symm
                rw [SortedMap.get_set_ne _ _ hr', SortedMap.get_set_ne _ _ hr,
                  SortedMap.set_comm _ _ _ hr]

/-- The reward step, in the order of the denoms and of the claims. -/
theorem rewardBallotWinners_sched (s₁ s₂ : Schedule) (k : Keepers) (votePeriod window : ℤ)
    (voteTargets : SortedMap Denom Dec) (winners : SortedMap ValAddr Claim) :
    rewardBallotWinners s₁ k votePeriod window voteTargets winners =
      rewardBallotWinners s₂ k votePeriod window voteTargets winners := by
  have hsum : ballotPowerSum (s₁.range .powerSum winners.entries) =
      ballotPowerSum (s₂.range .powerSum winners.entries) :=
    ballotPowerSum_perm ((s₁.range_perm _ _).trans (s₂.range_perm _ _).symm)
  have hdenoms : ∀ ratio c,
      (microLunaDenom :: (s₁.range .rewardDenoms voteTargets.entries).map Prod.fst).foldlM
          (addPeriodReward k.bank ratio) c =
        (microLunaDenom :: (s₂.range .rewardDenoms voteTargets.entries).map Prod.fst).foldlM
          (addPeriodReward k.bank ratio) c := by
    intro ratio c
    simp only [List.foldlM_cons]
    congr 1
    funext c'
    have hperm := ((s₁.range_perm .rewardDenoms voteTargets.entries).trans
      (s₂.range_perm .rewardDenoms voteTargets.entries).symm).map Prod.fst
    exact Reorder.foldlM_perm hperm
      (fun x _ y _ hxy b => addPeriodReward_comm k.bank ratio hxy b) c'
  have hdole : ∀ rewards powerSum r,
      (s₁.range .doleOut winners.entries).foldlM (doleOut k.staking rewards powerSum) r =
        (s₂.range .doleOut winners.entries).foldlM (doleOut k.staking rewards powerSum) r := by
    intro rewards powerSum r
    exact Reorder.foldlM_perm ((s₁.range_perm _ _).trans (s₂.range_perm _ _).symm)
      (fun x _ y _ _ b => doleOut_comm k.staking rewards powerSum x y b) r
  unfold rewardBallotWinners
  simp only [hsum, hdenoms, hdole]

/-! ### The whole end blocker -/

theorem endVotePeriod_sched (s₁ s₂ : Schedule) (k : Keepers) (params : Params)
    (height : BlockHeight) (st : Store) :
    endVotePeriod s₁ k params height st = endVotePeriod s₂ k params height st := by
  unfold endVotePeriod
  rw [buildClaims_eq]
  cases hthr : thresholdVotes params.voteThreshold k.staking.totalBondedPower with
  | none => rfl
  | some threshold =>
    have href : (pickReferenceTerra s₁ threshold st.tobinTaxes
          (organizeBallotByDenom s₁ (startClaims k.staking) st.votes)).referenceTerra =
        (pickReferenceTerra s₂ threshold st.tobinTaxes
          (organizeBallotByDenom s₂ (startClaims k.staking) st.votes)).referenceTerra :=
      (pick_reference_eq s₁ _ _ _ _).unique (pick_reference_eq s₂ _ _ _ _)
    have hpow : ∀ d b, (keptVotes threshold st.tobinTaxes (startClaims k.staking) st.votes).get d =
        some b → PowersOk b :=
      fun d b h => keptVotes_powersOk (startClaims_ok k.staking) threshold st.tobinTaxes st.votes h
    simp only [Option.bind_eq_bind, Option.bind_some, pick_voteMap_eq, pick_voteTargets_eq,
      href, countMisses_eq, rewardBallotWinners_sched s₁ s₂,
      tallyBallots_sched s₁ s₂ _ _ _ hpow]

/-- Two runs of the end blocker that differ only in map order and in the order
    of equal rates have the same outcome, or both panic. -/
theorem endBlocker_sched (s₁ s₂ : Schedule) (k : Keepers) (params : Params)
    (height : BlockHeight) (st : Store) :
    endBlocker s₁ k params height st = endBlocker s₂ k params height st := by
  unfold endBlocker
  rw [endVotePeriod_sched s₁ s₂]

end TerraClassic.Oracle
