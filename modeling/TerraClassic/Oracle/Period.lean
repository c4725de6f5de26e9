import TerraClassic.Oracle.Accepted

/-! # What the end of a vote period computes

    The values that `EndBlocker` passes through at the last block of a vote
    period, in terms of its inputs:

    * `passing`: the ballots that pass, and `targetsLeft`: the vote targets
      without a failed ballot;
    * `roundOf`: the round of the tally loop for a denom;
    * the stored rates (`rates_get`) and the claims (`claims_get`).

    `endVotePeriod_eq_some` and `endBlocker_last` take a normal return apart.
-/

namespace TerraClassic.Oracle

section Period
variable (sched : Schedule) (k : Keepers) (params : Params) (st : Store) (threshold : ℤ)

/-- The ballots that pass, before sorting. -/
def passing : SortedMap Denom ExchangeRateBallot :=
  keptVotes threshold st.tobinTaxes (startClaims k.staking) st.votes

/-- The vote targets that `PickReferenceTerra` leaves. -/
def targetsLeft : SortedMap Denom Dec :=
  leftTargets threshold st.tobinTaxes (startClaims k.staking) st.votes

/-- The reference denom, `""` if no ballot passes. -/
def referenceTerra : Denom :=
  (pickReferenceTerra sched threshold st.tobinTaxes
    (organizeBallotByDenom sched (startClaims k.staking) st.votes)).referenceTerra

/-- The sorted ballot of the reference denom. -/
def ballotRT : ExchangeRateBallot :=
  ((passing k st threshold).mapVal sched.sort).getD (referenceTerra sched k st threshold) []

/-- The round of the tally loop for a denom with ballot `b`. -/
def roundOf (denom : Denom) (b : ExchangeRateBallot) : Option Round :=
  ballotRound sched k.float params.rewardBand (referenceTerra sched k st threshold)
    (toMap (ballotRT sched k st threshold)) (weightedMedian (ballotRT sched k st threshold))
    (denom, sched.sort b)

end Period

variable {sched : Schedule} {k : Keepers} {params : Params} {height : BlockHeight} {st : Store}

/-! ### Taking a normal return apart -/

/-- The outcome of a vote period, from the results of its parts. -/
def periodOutcome (k : Keepers) (params : Params) (height : BlockHeight) (st : Store)
    (threshold : ℤ) (tallied : TallyState) (reward : Reward) (targets : TargetState) : Outcome where
  store := {
    exchangeRates := tallied.exchangeRates
    feederDelegations := st.feederDelegations
    missCounters :=
      tallied.claims.entries.foldl (missStep (targetsLeft k st threshold).size) st.missCounters
    prevotes := clearPrevotes height params.votePeriod st.prevotes
    votes := ∅
    tobinTaxes := targets.tobinTaxes }
  claims := tallied.claims
  reward := reward
  metadata := targets.metadata
  slashes := []

/-- The end of a vote period as a chain of its parts. -/
theorem endVotePeriod_eq (sched : Schedule) (k : Keepers) (params : Params)
    (height : BlockHeight) (st : Store) :
    endVotePeriod sched k params height st =
      (thresholdVotes params.voteThreshold k.staking.totalBondedPower).bind fun threshold =>
      (tallyBallots sched k.float params.rewardBand (referenceTerra sched k st threshold)
        ((passing k st threshold).mapVal sched.sort) ⟨startClaims k.staking, ∅⟩).bind fun tallied =>
      (rewardBallotWinners sched k (toInt64 params.votePeriod.toNat)
        (toInt64 params.rewardDistributionWindow.toNat) (targetsLeft k st threshold)
        tallied.claims).bind fun reward =>
      (applyWhitelist params.whitelist (targetsLeft k st threshold)
        ⟨st.tobinTaxes, k.bank.metadata⟩).bind fun targets =>
      some (periodOutcome k params height st threshold tallied reward targets) := by
  unfold endVotePeriod
  simp only [buildClaims_eq, Option.bind_eq_bind, Option.bind_some, pick_voteMap_eq,
    pick_voteTargets_eq, countMisses_eq]
  rfl

/-- What a normal return of the vote period part consists of. -/
theorem endVotePeriod_eq_some {o : Outcome}
    (h : endVotePeriod sched k params height st = some o) :
    ∃ threshold tallied reward targets,
      thresholdVotes params.voteThreshold k.staking.totalBondedPower = some threshold ∧
      tallyBallots sched k.float params.rewardBand (referenceTerra sched k st threshold)
        ((passing k st threshold).mapVal sched.sort) ⟨startClaims k.staking, ∅⟩ = some tallied ∧
      rewardBallotWinners sched k (toInt64 params.votePeriod.toNat)
        (toInt64 params.rewardDistributionWindow.toNat) (targetsLeft k st threshold)
        tallied.claims = some reward ∧
      applyWhitelist params.whitelist (targetsLeft k st threshold)
        ⟨st.tobinTaxes, k.bank.metadata⟩ = some targets ∧
      o = periodOutcome k params height st threshold tallied reward targets := by
  rw [endVotePeriod_eq] at h
  obtain ⟨threshold, hthr, h⟩ := Option.bind_eq_some_iff.mp h
  obtain ⟨tallied, htally, h⟩ := Option.bind_eq_some_iff.mp h
  obtain ⟨reward, hreward, h⟩ := Option.bind_eq_some_iff.mp h
  obtain ⟨targets, htargets, h⟩ := Option.bind_eq_some_iff.mp h
  exact ⟨threshold, tallied, reward, targets, hthr, htally, hreward, htargets,
    (Option.some.inj h).symm⟩

/-- The slash window part of the end blocker. -/
def endSlashWindow (k : Keepers) (params : Params) (height : BlockHeight) (o : Outcome) :
    Option Outcome :=
  (isPeriodLastBlock height params.slashWindow).bind fun slashWindowEnds =>
    if slashWindowEnds then
      (slashAndResetMissCounters k.staking params height o.store.missCounters).map fun slashes =>
        { o with store := { o.store with missCounters := ∅ }, slashes := slashes }
    else some o

theorem endSlashWindow_eq (k : Keepers) (params : Params) (height : BlockHeight) (o : Outcome) :
    (do
      let slashWindowEnds ← isPeriodLastBlock height params.slashWindow
      if slashWindowEnds then
        let slashes ← slashAndResetMissCounters k.staking params height o.store.missCounters
        return { o with store := { o.store with missCounters := ∅ }, slashes := slashes }
      else return o) = endSlashWindow k params height o := by
  unfold endSlashWindow
  cases isPeriodLastBlock height params.slashWindow with
  | none => simp
  | some b =>
    cases b with
    | false => simp
    | true =>
      cases slashAndResetMissCounters k.staking params height o.store.missCounters with
      | none => simp
      | some slashes => simp

/-- The end blocker: the vote period part, then the slash window part. -/
theorem endBlocker_eq (sched : Schedule) (k : Keepers) (params : Params) (height : BlockHeight)
    (st : Store) :
    endBlocker sched k params height st =
      (isPeriodLastBlock height params.votePeriod).bind fun votePeriodEnds =>
        (if votePeriodEnds then endVotePeriod sched k params height st
          else some ⟨st, ∅, Reward.none, k.bank.metadata, []⟩).bind
            (endSlashWindow k params height) := by
  unfold endBlocker
  cases isPeriodLastBlock height params.votePeriod with
  | none => simp
  | some b =>
    cases b with
    | false =>
      simpa using endSlashWindow_eq k params height ⟨st, ∅, Reward.none, k.bank.metadata, []⟩
    | true =>
      cases endVotePeriod sched k params height st with
      | none => simp
      | some o => simpa using endSlashWindow_eq k params height o

/-- At the last block of a vote period the end blocker ends the period, and
    then at most resets the miss counters. -/
theorem endBlocker_last {o : Outcome}
    (hlast : isPeriodLastBlock height params.votePeriod = some true)
    (h : endBlocker sched k params height st = some o) :
    ∃ o', endVotePeriod sched k params height st = some o' ∧
      ((isPeriodLastBlock height params.slashWindow = some false ∧ o = o') ∨
        (isPeriodLastBlock height params.slashWindow = some true ∧ ∃ slashes,
          o = { o' with store := { o'.store with missCounters := ∅ }, slashes := slashes })) := by
  rw [endBlocker_eq, hlast] at h
  rw [Option.bind_some, if_pos rfl] at h
  obtain ⟨o', ho', h⟩ := Option.bind_eq_some_iff.mp h
  refine ⟨o', ho', ?_⟩
  obtain ⟨b, hb, h⟩ := Option.bind_eq_some_iff.mp h
  cases b with
  | false =>
    rw [if_neg Bool.false_ne_true] at h
    exact Or.inl ⟨hb, (Option.some.inj h).symm⟩
  | true =>
    rw [if_pos rfl] at h
    obtain ⟨slashes, _, h⟩ := Option.map_eq_some_iff.mp h
    exact Or.inr ⟨hb, slashes, h.symm⟩

/-! ### Ballots that pass -/

theorem passing_get (k : Keepers) (st : Store) (threshold : ℤ) (d : Denom) :
    (passing k st threshold).get d =
      if (st.tobinTaxes.get d).isSome ∧
        passes threshold (ballotOf (startClaims k.staking) st.votes d) = true
      then some (ballotOf (startClaims k.staking) st.votes d) else none := by
  unfold passing keptVotes
  rw [SortedMap.get_filter, collectVotes_get]
  by_cases hnil : ballotOf (startClaims k.staking) st.votes d = []
  · -- the empty ballot has no power
    have hfail : passes threshold [] = false := by simp [passes, ballotIsPassing, power]
    simp [hnil, hfail]
  · rw [if_neg hnil]
    unfold Option.filter keeps
    simp [Bool.and_eq_true]

/-- A ballot passes when its denom is a target and has the power. -/
theorem passing_isSome_iff (hacc : AcceptedVotes st.votes) (threshold : ℤ) (d : Denom) :
    ((passing k st threshold).get d).isSome ↔
      (st.tobinTaxes.get d).isSome ∧ 0 < votingPower k.staking st.votes d ∧
        threshold ≤ votingPower k.staking st.votes d := by
  have hnn := votingPower_nonneg k.staking st.votes d
  rw [passing_get]
  simp only [passes_iff, power_ballotOf k.staking hacc]
  split
  · next h => exact ⟨fun _ => ⟨h.1, by omega, h.2.2⟩, fun _ => rfl⟩
  · next h =>
    refine ⟨fun hf => by simp at hf, fun hc => absurd ⟨hc.1, ?_, hc.2.2⟩ h⟩
    omega

theorem referenceTerra_isReference (sched : Schedule) (k : Keepers) (st : Store)
    (threshold : ℤ) :
    IsReference (passing k st threshold).entries (referenceTerra sched k st threshold) :=
  pick_reference_eq sched threshold st.tobinTaxes (startClaims k.staking) st.votes

/-- Accepted votes name their denoms, so an empty reference means that nothing passes. -/
theorem passing_ne_empty_name (hacc : AcceptedVotes st.votes) (threshold : ℤ) :
    (passing k st threshold).get "" = none := by
  rw [passing_get, if_neg]
  rintro ⟨_, hpass⟩
  have hnil : ballotOf (startClaims k.staking) st.votes "" = [] := by
    rw [List.eq_nil_iff_forall_not_mem]
    intro v hv
    exact (tuple_of_rateOf hacc (submitted_of_mem_ballotOf hacc hv).2.1).1 rfl
  rw [hnil] at hpass
  simp [passes, ballotIsPassing, power] at hpass

theorem passing_eq_empty_of_reference (hacc : AcceptedVotes st.votes) {threshold : ℤ}
    (h : referenceTerra sched k st threshold = "") : (passing k st threshold).entries = [] := by
  have href := referenceTerra_isReference sched k st threshold
  rcases href with ⟨hnil, _⟩ | ⟨b, hmem, _⟩
  · exact hnil
  · rw [h] at hmem
    have := SortedMap.mem_entries.mp hmem
    rw [passing_ne_empty_name hacc] at this
    cases this

/-! ### The rounds -/

/-- The rounds of a tally loop that returned: one for each passing ballot. -/
structure Rounds (sched : Schedule) (k : Keepers) (params : Params) (st : Store) (threshold : ℤ)
    (tallied : TallyState) where
  rounds : List (Denom × Round)
  run : (passing k st threshold).entries.mapM (fun e =>
    (roundOf sched k params st threshold e.1 e.2).map (Prod.mk e.1)) = some rounds
  result : tallied = rounds.foldl applyRound ⟨startClaims k.staking, ∅⟩

theorem ballotRounds_eq (threshold : ℤ) :
    ballotRounds sched k.float params.rewardBand (referenceTerra sched k st threshold)
        ((passing k st threshold).mapVal sched.sort) =
      (passing k st threshold).entries.mapM (fun e =>
        (roundOf sched k params st threshold e.1 e.2).map (Prod.mk e.1)) := by
  unfold ballotRounds
  rw [SortedMap.entries_mapVal, List.mapM_map]
  rfl

/-- The tally loop is the rounds of the passing ballots, one after the other. -/
theorem tallyBallots_passing (hacc : AcceptedVotes st.votes) (threshold : ℤ) :
    tallyBallots sched k.float params.rewardBand (referenceTerra sched k st threshold)
        ((passing k st threshold).mapVal sched.sort) ⟨startClaims k.staking, ∅⟩ =
      ((passing k st threshold).entries.mapM (fun e =>
        (roundOf sched k params st threshold e.1 e.2).map (Prod.mk e.1))).map
          (fun rounds => rounds.foldl applyRound ⟨startClaims k.staking, ∅⟩) := by
  rw [tallyBallots_eq]
  split
  · next href =>
    rw [passing_eq_empty_of_reference hacc href]
    rfl
  · rw [ballotRounds_eq]

theorem exists_rounds (hacc : AcceptedVotes st.votes) {threshold : ℤ} {tallied : TallyState}
    (h : tallyBallots sched k.float params.rewardBand (referenceTerra sched k st threshold)
      ((passing k st threshold).mapVal sched.sort) ⟨startClaims k.staking, ∅⟩ = some tallied) :
    Nonempty (Rounds sched k params st threshold tallied) := by
  rw [tallyBallots_passing hacc] at h
  obtain ⟨rounds, hrounds, rfl⟩ := Option.map_eq_some_iff.mp h
  exact ⟨⟨rounds, hrounds, rfl⟩⟩

theorem Rounds.denoms {threshold : ℤ} {tallied : TallyState}
    (r : Rounds sched k params st threshold tallied) :
    r.rounds.map Prod.fst = (passing k st threshold).keys :=
  map_fst_of_mapM (f := fun e => roundOf sched k params st threshold e.1 e.2) r.run

theorem Rounds.lookup {threshold : ℤ} {tallied : TallyState}
    (r : Rounds sched k params st threshold tallied) (d : Denom) :
    SortedMap.lookup d r.rounds =
      ((passing k st threshold).get d).bind (roundOf sched k params st threshold d) :=
  lookup_of_mapM (f := fun e => roundOf sched k params st threshold e.1 e.2) r.run d

theorem Rounds.returned {threshold : ℤ} {tallied : TallyState}
    (r : Rounds sched k params st threshold tallied) {d : Denom} {b : ExchangeRateBallot}
    (hb : (passing k st threshold).get d = some b) :
    (roundOf sched k params st threshold d b).isSome := by
  have := r.lookup d
  rw [hb, Option.bind_some] at this
  rw [← this, SortedMap.lookup_isSome_iff, r.denoms, SortedMap.mem_keys, hb]
  rfl

/-- The stored rates: one for each passing ballot, none from before. -/
theorem Rounds.rates_get {threshold : ℤ} {tallied : TallyState}
    (r : Rounds sched k params st threshold tallied) (d : Denom) :
    tallied.exchangeRates.get d =
      ((passing k st threshold).get d).bind (fun b =>
        (roundOf sched k params st threshold d b).map Round.rate) := by
  have hnd : (r.rounds.map Prod.fst).Nodup := r.denoms ▸ SortedMap.keys_nodup _
  rw [r.result, foldl_applyRound_rates hnd, r.lookup]
  cases (passing k st threshold).get d with
  | none => rfl
  | some b =>
    rw [Option.bind_some, Option.bind_some]
    cases roundOf sched k params st threshold d b <;> rfl

theorem Rounds.rates_isSome_iff {threshold : ℤ} {tallied : TallyState}
    (r : Rounds sched k params st threshold tallied) (d : Denom) :
    (tallied.exchangeRates.get d).isSome ↔ ((passing k st threshold).get d).isSome := by
  rw [r.rates_get]
  cases h : (passing k st threshold).get d with
  | none => rfl
  | some b => simpa using r.returned h

end TerraClassic.Oracle
