import TerraClassic.Oracle.Slash

/-! # Validators that staking no longer knows

    A validator can leave staking between its vote and the end of the period.  The
    payout loop and the slashing loop ask staking for it and get a nil interface.
    A comment of the payout loop says that such a winner is skipped.

    * `rewardExisting`, `existing`: the two loops over the known validators only,
      which is what skipping the others means.
    * `vanished_skipped_iff`: when the code does that.
-/

namespace TerraClassic.Oracle

/-! ### Skipping -/

/-- Staking knows the operator. -/
def StakingKeeper.knows (staking : StakingKeeper) (operator : ValAddr) : Bool :=
  (staking.validators.get operator).isSome

/-- `RewardBallotWinners` with a payout loop that skips the winners staking does not know. -/
def rewardExisting (sched : Schedule) (k : Keepers) (votePeriod : ℤ)
    (rewardDistributionWindow : ℤ) (voteTargets : SortedMap Denom Dec)
    (ballotWinners : SortedMap ValAddr Claim) : Option Reward := do
  let rewardDenoms :=
    microLunaDenom :: (sched.range .rewardDenoms voteTargets.entries).map Prod.fst
  let powerSum := ballotPowerSum (sched.range .powerSum ballotWinners.entries)
  if powerSum = 0 then
    return Reward.none
  else
    let distributionRatio ← (Dec.ofInt votePeriod).quoInt64 rewardDistributionWindow
    let periodRewards ← rewardDenoms.foldlM (addPeriodReward k.bank distributionRatio) ∅
    let winners := (sched.range .doleOut ballotWinners.entries).filter (fun winner =>
      k.staking.knows winner.2.recipient)
    let reward ← winners.foldlM (doleOut k.staking periodRewards powerSum) Reward.none
    if k.bank.covers reward.sent then return reward else failure

/-- The counters of the operators staking knows. -/
def existing (staking : StakingKeeper) (missCounters : SortedMap ValAddr UInt64) :
    SortedMap ValAddr UInt64 :=
  missCounters.filter (fun operator _ => staking.knows operator)

/-! ### The reward loop -/

/-- What the reward step needs: no weight to pay, or a divisor, known winners and pools that can
    pay them. -/
def RewardReturns (k : Keepers) (votePeriod window : ℤ) (voteTargets : SortedMap Denom Dec)
    (winners : SortedMap ValAddr Claim) : Prop :=
  ballotPowerSum winners.entries = 0 ∨
    window ≠ 0 ∧
    (∀ a claim, winners.get a = some claim → k.staking.knows claim.recipient = true) ∧
    RewardSafe k.bank (distributionRatio votePeriod window) voteTargets
      (ballotPowerSum winners.entries) (winners.entries.map (fun e => e.2.weight))

section
variable (sched : Schedule) (k : Keepers) (votePeriod window : ℤ)
variable (voteTargets : SortedMap Denom Dec) (winners : SortedMap ValAddr Claim)

theorem reward_of_no_weight (hsum : ballotPowerSum winners.entries = 0) :
    rewardBallotWinners sched k votePeriod window voteTargets winners = some Reward.none ∧
      rewardExisting sched k votePeriod window voteTargets winners = some Reward.none := by
  have hzero : ballotPowerSum (sched.range .powerSum winners.entries) = 0 :=
    (ballotPowerSum_perm (sched.range_perm _ _)).trans hsum
  exact ⟨if_pos hzero, if_pos hzero⟩

/-- Unless there is nothing to pay, a winner that is not known is fatal. -/
theorem known_of_reward (hsum : ballotPowerSum winners.entries ≠ 0)
    (h : (rewardBallotWinners sched k votePeriod window voteTargets winners).isSome) :
    window ≠ 0 ∧ ∀ e ∈ winners.entries, k.staking.knows e.2.recipient = true := by
  have hne : ballotPowerSum (Schedule.inOrder.range .powerSum winners.entries) ≠ 0 := hsum
  rw [rewardBallotWinners_sched sched Schedule.inOrder] at h
  unfold rewardBallotWinners at h
  simp only [if_neg hne] at h
  obtain ⟨reward, h⟩ := Option.isSome_iff_exists.mp h
  obtain ⟨ratio, hratio, h⟩ := Option.bind_eq_some_iff.mp h
  obtain ⟨rewards, _, h⟩ := Option.bind_eq_some_iff.mp h
  obtain ⟨paid, hpaid, _⟩ := Option.bind_eq_some_iff.mp h
  constructor
  · intro hzero
    rw [(Dec.returns_quoInt64 _ _).2 (not_not.mpr hzero)] at hratio
    cases hratio
  · intro e he
    have hrounds := (foldlM_doleOut k.staking rewards hsum winners.entries Reward.none).1.mp
      (Option.isSome_iff_exists.mpr ⟨paid, hpaid⟩)
    exact (hrounds e he).2

theorem reward_returns_iff :
    (rewardBallotWinners sched k votePeriod window voteTargets winners).isSome ↔
      RewardReturns k votePeriod window voteTargets winners := by
  have hentries : (∀ a claim, winners.get a = some claim →
      k.staking.knows claim.recipient = true) ↔
      ∀ e ∈ winners.entries, k.staking.knows e.2.recipient = true := by
    constructor
    · intro h e he
      exact h e.1 e.2 (SortedMap.mem_entries.mp he)
    · intro h a claim hget
      exact h (a, claim) (SortedMap.mem_entries.mpr hget)
  unfold RewardReturns
  rw [hentries]
  constructor
  · intro h
    by_cases hsum : ballotPowerSum winners.entries = 0
    · exact Or.inl hsum
    · obtain ⟨hwindow, hknown⟩ := known_of_reward sched k _ _ _ _ hsum h
      have hsafe := (rewardBallotWinners_isSome_iff sched k hwindow voteTargets hknown).mp h
      exact Or.inr ⟨hwindow, hknown, hsafe.resolve_left hsum⟩
  · rintro (hsum | ⟨hwindow, hknown, hsafe⟩)
    · rw [(reward_of_no_weight sched k _ _ _ _ hsum).1]
      rfl
    · exact (rewardBallotWinners_isSome_iff sched k hwindow voteTargets hknown).mpr
        (Or.inr hsafe)

/-- A reward step that returns has skipped nobody it should have paid. -/
theorem rewardExisting_eq
    (h : (rewardBallotWinners sched k votePeriod window voteTargets winners).isSome) :
    rewardExisting sched k votePeriod window voteTargets winners =
      rewardBallotWinners sched k votePeriod window voteTargets winners := by
  by_cases hsum : ballotPowerSum winners.entries = 0
  · obtain ⟨hreward, hexisting⟩ := reward_of_no_weight sched k votePeriod window voteTargets
      winners hsum
    rw [hreward, hexisting]
  · obtain ⟨_, hknown⟩ := known_of_reward sched k _ _ _ _ hsum h
    have hall : (sched.range .doleOut winners.entries).filter (fun winner =>
        k.staking.knows winner.2.recipient) = sched.range .doleOut winners.entries := by
      rw [List.filter_eq_self]
      intro e he
      exact hknown e ((sched.range_perm _ _).subset he)
    unfold rewardExisting rewardBallotWinners
    rw [hall]

end

/-! ### The slashing loop -/

/-- The rate of a counter is below the minimum, as the code computes it. -/
def BelowMinimum (params : Params) (misses : UInt64) : Prop :=
  (toInt64 (windowQuotient params - misses.toNat) * decOne).tdiv (windowQuotient params) <
    params.minValidPerWindow.i

theorem belowMinimum_iff (params : Params) (misses : UInt64) :
    BelowMinimum params misses ↔
      (⟨(toInt64 (windowQuotient params - misses.toNat) * decOne).tdiv (windowQuotient params)⟩ :
        Dec) < params.minValidPerWindow := by
  unfold BelowMinimum
  rw [Dec.lt_def]

/-- What the slashing loop needs: a divisor for the window and for each rate, and known
    operators below the minimum. -/
def SlashReturns (staking : StakingKeeper) (params : Params)
    (missCounters : SortedMap ValAddr UInt64) : Prop :=
  toInt64 params.votePeriod.toNat ≠ 0 ∧
    toInt64 (windowQuotient params) = windowQuotient params ∧
    ∀ a misses, missCounters.get a = some misses →
      windowQuotient params ≠ 0 ∧ (BelowMinimum params misses → staking.knows a = true)

theorem slash_returns_iff (staking : StakingKeeper) (params : Params) (height : BlockHeight)
    (missCounters : SortedMap ValAddr UInt64) :
    (slashAndResetMissCounters staking params height missCounters).isSome ↔
      SlashReturns staking params missCounters := by
  have hwindow := returns_votePeriodsPerWindow params
  rw [slashAndReset_isSome_iff]
  unfold SlashReturns
  constructor
  · rintro ⟨periods, hperiods, hcounters⟩
    obtain ⟨hperiod, hrange⟩ := hwindow.isSome_iff.mp (by rw [hperiods]; rfl)
    refine ⟨hperiod, hrange, fun a misses hget => ?_⟩
    obtain rfl : toUint64 (windowQuotient params) = periods :=
      Option.some.inj ((hwindow.1 ⟨hperiod, hrange⟩).symm.trans hperiods)
    obtain ⟨rate, hrate, hknown⟩ := hcounters a misses hget
    have hreturns := returns_validVoteRate hrange misses
    have hne := hreturns.isSome_iff.mp (by rw [hrate]; rfl)
    rw [hreturns.1 hne] at hrate
    obtain rfl := Option.some.inj hrate
    rw [belowMinimum_iff]
    exact ⟨hne, hknown⟩
  · rintro ⟨hperiod, hrange, hcounters⟩
    refine ⟨_, hwindow.1 ⟨hperiod, hrange⟩, fun a misses hget => ?_⟩
    obtain ⟨hne, hknown⟩ := hcounters a misses hget
    rw [belowMinimum_iff] at hknown
    exact ⟨_, (returns_validVoteRate hrange misses).1 hne, hknown⟩

/-- A round for an operator that is not known returns only if it does nothing. -/
theorem slashStep_unknown {staking : StakingKeeper} {params : Params} {height : BlockHeight}
    {periods : ℕ} {slashes slashes' : List SlashEvent} {e : ValAddr × UInt64}
    (hunknown : staking.knows e.1 = false)
    (h : slashStep staking params height periods slashes e = some slashes') :
    slashes' = slashes := by
  have hnone : staking.validators.get e.1 = none := by
    simpa [StakingKeeper.knows] using hunknown
  unfold slashStep at h
  obtain ⟨rate, _, h⟩ := Option.bind_eq_some_iff.mp h
  rw [hnone] at h
  split at h
  · cases h
  · exact (Option.some.inj h).symm

theorem foldlM_slashStep_existing {staking : StakingKeeper} {params : Params}
    {height : BlockHeight} {periods : ℕ} {l : List (ValAddr × UInt64)}
    {slashes slashes' : List SlashEvent}
    (h : l.foldlM (slashStep staking params height periods) slashes = some slashes') :
    (l.filter (fun e => staking.knows e.1)).foldlM (slashStep staking params height periods)
      slashes = some slashes' := by
  induction l generalizing slashes with
  | nil => exact h
  | cons e rest ih =>
    rw [List.foldlM_cons] at h
    obtain ⟨next, hstep, hrest⟩ := Option.bind_eq_some_iff.mp h
    by_cases hknown : staking.knows e.1 = true
    · rw [List.filter_cons, if_pos hknown, List.foldlM_cons, hstep]
      exact ih hrest
    · rw [List.filter_cons, if_neg hknown]
      rw [slashStep_unknown (Bool.not_eq_true _ ▸ hknown) hstep] at hrest
      exact ih hrest

/-- A slashing loop that returns has punished the known operators as if there were no others. -/
theorem slash_existing {staking : StakingKeeper} {params : Params} {height : BlockHeight}
    {missCounters : SortedMap ValAddr UInt64} {slashes : List SlashEvent}
    (h : slashAndResetMissCounters staking params height missCounters = some slashes) :
    slashAndResetMissCounters staking params height (existing staking missCounters) =
      some slashes := by
  unfold slashAndResetMissCounters at h ⊢
  obtain ⟨periods, hperiods, h⟩ := Option.bind_eq_some_iff.mp h
  rw [hperiods]
  exact foldlM_slashStep_existing h

/-! ### Both loops -/

/-- Both loops return, the known winners are paid, the known operators are processed, and no
    counter is left, exactly when the two loops need nothing that is missing: in particular every
    winner and every operator below the minimum must still be known to staking. -/
theorem vanished_skipped_iff (sched : Schedule) (k : Keepers) (votePeriod window : ℤ)
    (voteTargets : SortedMap Denom Dec) (winners : SortedMap ValAddr Claim) (params : Params)
    (height : BlockHeight) (missCounters : SortedMap ValAddr UInt64) :
    ((∃ reward, rewardBallotWinners sched k votePeriod window voteTargets winners = some reward ∧
        rewardExisting sched k votePeriod window voteTargets winners = some reward) ∧
      ∃ slashes, slashAndResetAll k.staking params height missCounters = some ⟨slashes, ∅⟩ ∧
        slashAndResetMissCounters k.staking params height (existing k.staking missCounters) =
          some slashes) ↔
      RewardReturns k votePeriod window voteTargets winners ∧
        SlashReturns k.staking params missCounters := by
  rw [← reward_returns_iff sched, ← slash_returns_iff k.staking params height,
    slashAndResetAll_eq]
  refine and_congr ?_ ?_
  · constructor
    · rintro ⟨reward, hreward, _⟩
      rw [hreward]
      rfl
    · intro h
      obtain ⟨reward, hreward⟩ := Option.isSome_iff_exists.mp h
      exact ⟨reward, hreward, (rewardExisting_eq sched k _ _ _ _ h).trans hreward⟩
  · constructor
    · rintro ⟨slashes, hall, _⟩
      obtain ⟨s, hs, _⟩ := Option.map_eq_some_iff.mp hall
      rw [hs]
      rfl
    · intro h
      obtain ⟨slashes, hslashes⟩ := Option.isSome_iff_exists.mp h
      exact ⟨slashes, by rw [hslashes]; rfl, slash_existing hslashes⟩

/-- The winner `e` and the operator `e` are not known to staking: both loops halt, where
    skipping them would return. -/
theorem vanished_fatal :
    let winners := ((∅ : SortedMap ValAddr Claim).set "a" ⟨1, 1, 1, "a"⟩).set "e" ⟨1, 1, 1, "e"⟩
    let missCounters := (∅ : SortedMap ValAddr UInt64).set "e" 20
    rewardBallotWinners Schedule.inOrder smallKeepers 5 50 ∅ winners = none ∧
      (rewardExisting Schedule.inOrder smallKeepers 5 50 ∅ winners).isSome ∧
      slashAndResetAll smallStaking smallParams 99 missCounters = none ∧
      (slashAndResetMissCounters smallStaking smallParams 99
        (existing smallStaking missCounters)).isSome := by
  decide +kernel

end TerraClassic.Oracle
