import TerraClassic.Oracle.Params
import TerraClassic.Oracle.RewardSafety
import TerraClassic.Oracle.RoundSafety
import TerraClassic.Oracle.Targets

/-! # When the end blocker returns

    A panic in the end blocker halts the chain.  `EndBlockerSafe` lists, in
    terms of the votes, the parameters and the other modules' state, what has
    to hold at the last block of a vote period for every division and every
    bound to be met; `endBlocker_isSome_iff` shows that the list is exact.
-/

namespace TerraClassic.Oracle

variable {sched : Schedule} {k : Keepers} {params : Params} {height : BlockHeight} {st : Store}

/-! ### Parameters -/

theorem toInt64_ne_zero {n : ℕ} (h₀ : n ≠ 0) (h : n < 2 ^ 64) : toInt64 n ≠ 0 := by
  unfold toInt64
  rw [Int.bmod_def]
  norm_num
  omega

theorem toNat_ne_zero_of_le {a b : UInt64} (ha : a ≠ 0) (h : a ≤ b) : b.toNat ≠ 0 := by
  have hle : a.toNat ≤ b.toNat := UInt64.le_iff_toNat_le.mp h
  have hne : a.toNat ≠ 0 := fun h0 => ha (UInt64.toNat_inj.mp h0)
  omega

theorem isPeriodLastBlock_isSome (height : BlockHeight) {period : UInt64} (h : period ≠ 0) :
    (isPeriodLastBlock height period).isSome := by
  unfold isPeriodLastBlock
  rw [if_neg h]
  rfl

/-! ### The whitelist -/

theorem applyItem_isSome_iff (s : TargetState) (item : DenomItem) :
    (applyItem s item).isSome ↔
      (s.metadata.get item.name).isSome ∨ 2 ≤ item.name.utf8ByteSize := by
  unfold applyItem denomMetadata
  cases hm : s.metadata.get item.name with
  | some m => simp
  | none =>
    by_cases hlen : item.name.utf8ByteSize ≤ 1
    · have : ¬ 2 ≤ item.name.utf8ByteSize := by omega
      simp [hlen, this]
    · have : 2 ≤ item.name.utf8ByteSize := by omega
      simp [hlen, this]

theorem applyItem_metadata {s s' : TargetState} {item : DenomItem}
    (h : applyItem s item = some s') (d : Denom) :
    (s'.metadata.get d).isSome ↔ (s.metadata.get d).isSome ∨ d = item.name := by
  unfold applyItem at h
  simp only at h
  split at h
  · obtain ⟨m, _, h⟩ := Option.bind_eq_some_iff.mp h
    rw [← Option.some.inj h]
    by_cases hd : d = item.name
    · simp [hd]
    · simp [hd]
  · next hsome =>
    rw [← Option.some.inj h]
    constructor
    · exact Or.inl
    · rintro (h | rfl)
      · exact h
      · cases hm : s.metadata.get item.name with
        | none => rw [hm] at hsome; exact absurd rfl hsome
        | some m => rfl

/-- Registering metadata fails on a name of one byte. -/
theorem foldlM_applyItem_isSome_iff (whitelist : List DenomItem) (s : TargetState) :
    (whitelist.foldlM applyItem s).isSome ↔
      ∀ item ∈ whitelist, (s.metadata.get item.name).isSome ∨ 2 ≤ item.name.utf8ByteSize := by
  induction whitelist generalizing s with
  | nil => simp
  | cons x rest ih =>
    rw [List.foldlM_cons, List.forall_mem_cons, ← applyItem_isSome_iff]
    cases h : applyItem s x with
    | none => simp
    | some s' =>
      rw [Option.bind_eq_bind, Option.bind_some, ih s']
      have hx := (applyItem_isSome_iff s x).mp (by rw [h]; rfl)
      simp only [applyItem_metadata h, Option.isSome_some, true_and]
      refine forall₂_congr (fun item _ => ?_)
      constructor
      · rintro ((hm | heq) | hlen)
        · exact Or.inl hm
        · rw [heq]
          exact hx
        · exact Or.inr hlen
      · rintro (hm | hlen)
        · exact Or.inl (Or.inl hm)
        · exact Or.inr hlen

theorem applyWhitelist_isSome_iff (whitelist : List DenomItem) (left : SortedMap Denom Dec)
    (s : TargetState) :
    (applyWhitelist whitelist left s).isSome ↔
      (updateRequired whitelist left = true → ∀ item ∈ whitelist,
        (s.metadata.get item.name).isSome ∨ 2 ≤ item.name.utf8ByteSize) := by
  unfold applyWhitelist
  cases hup : updateRequired whitelist left with
  | false => simp
  | true =>
    rw [if_pos rfl, foldlM_applyItem_isSome_iff]
    simp

/-! ### Slashing -/

theorem slashStep_isSome_iff (staking : StakingKeeper) (params : Params) (height : BlockHeight)
    (periods : ℕ) (slashes : List SlashEvent) (e : ValAddr × UInt64) :
    (slashStep staking params height periods slashes e).isSome ↔
      ∃ rate, validVoteRate periods e.2 = some rate ∧
        (rate < params.minValidPerWindow → (staking.validators.get e.1).isSome) := by
  unfold slashStep
  cases hr : validVoteRate periods e.2 with
  | none => simp
  | some rate =>
    rw [Option.bind_eq_bind, Option.bind_some]
    by_cases hlt : rate < params.minValidPerWindow
    · rw [if_pos hlt]
      cases hv : staking.validators.get e.1 with
      | none => simp [hlt, failure]
      | some v =>
        obtain ⟨consAddr, hconsAddr⟩ := Option.isSome_iff_exists.mp (staking.consAddr_of_get hv)
        by_cases hb : (v.bonded && !v.jailed) = true
        · simp [hb, hconsAddr]
        · simp [hb]
    · rw [if_neg hlt]
      simp [hlt]

/-- `SlashAndResetMissCounters` returns when every counter has a rate and
    every operator below the minimum is known to staking. -/
theorem slashAndReset_isSome_iff (staking : StakingKeeper) (params : Params)
    (height : BlockHeight) (counters : SortedMap ValAddr UInt64) :
    (slashAndResetMissCounters staking params height counters).isSome ↔
      ∃ periods, votePeriodsPerWindow params = some periods ∧
        ∀ a c, counters.get a = some c → ∃ rate, validVoteRate periods c = some rate ∧
          (rate < params.minValidPerWindow → (staking.validators.get a).isSome) := by
  unfold slashAndResetMissCounters
  cases hp : votePeriodsPerWindow params with
  | none => simp
  | some periods =>
    rw [Option.bind_eq_bind, Option.bind_some,
      Reorder.foldlM_isSome_iff (slashStep_isSome_iff staking params height periods)]
    constructor
    · intro h
      exact ⟨periods, rfl, fun a c hc => h (a, c) (SortedMap.mem_entries.mpr hc)⟩
    · rintro ⟨p, hp', h⟩ e he
      obtain rfl := Option.some.inj hp'
      exact h e.1 e.2 (SortedMap.mem_entries.mp he)

/-- The miss counters when the slash window part runs. -/
def CounterAfter (sched : Schedule) (k : Keepers) (params : Params) (st : Store) (a : ValAddr)
    (c : UInt64) : Prop :=
  (a ∈ activeSet k.staking ∧ Missed sched k params st a ∧
      c = getMissCounter st.missCounters a + 1) ∨
    ((a ∈ activeSet k.staking → ¬ Missed sched k params st a) ∧ st.missCounters.get a = some c)

theorem counterAfter_iff {o : Outcome} (hacc : AcceptedVotes st.votes)
    (h : endVotePeriod sched k params height st = some o) (a : ValAddr) (c : UInt64) :
    o.store.missCounters.get a = some c ↔ CounterAfter sched k params st a c := by
  obtain ⟨hup, hsame⟩ := endVotePeriod_missCounters hacc h a
  unfold CounterAfter
  by_cases hmiss : a ∈ activeSet k.staking ∧ Missed sched k params st a
  · rw [hup hmiss.1 hmiss.2]
    constructor
    · intro hc
      exact Or.inl ⟨hmiss.1, hmiss.2, (Option.some.inj hc).symm⟩
    · rintro (⟨_, _, rfl⟩ | ⟨hnot, _⟩)
      · rfl
      · exact absurd hmiss.2 (hnot hmiss.1)
  · have hnot : a ∈ activeSet k.staking → ¬ Missed sched k params st a :=
      fun hact hm => hmiss ⟨hact, hm⟩
    rw [hsame hnot]
    constructor
    · exact fun hc => Or.inr ⟨hnot, hc⟩
    · rintro (⟨hact, hm, _⟩ | ⟨_, hc⟩)
      · exact absurd ⟨hact, hm⟩ hmiss
      · exact hc

/-! ### Weights -/

/-- The votes credited in the rounds of the passing ballots. -/
def creditedVotes (sched : Schedule) (k : Keepers) (params : Params) (st : Store) :
    ExchangeRateBallot :=
  (passing k st (requiredPower k params)).entries.flatMap (fun e =>
    ((roundOf sched k params st (requiredPower k params) e.1 e.2).map Round.winners).getD [])

/-- The weight of a validator: the `int64` sum of its credited powers. -/
def weightOf (sched : Schedule) (k : Keepers) (params : Params) (st : Store) (a : ValAddr) : ℤ :=
  toInt64 (totalPower (votesBy a (creditedVotes sched k params st)))

/-- The `int64` sum of the weights. -/
def weightSum (sched : Schedule) (k : Keepers) (params : Params) (st : Store) : ℤ :=
  toInt64 ((activeSet k.staking).map (weightOf sched k params st)).sum

theorem flatMap_winners_of_mapM {f : Denom × ExchangeRateBallot → Option Round}
    {l : List (Denom × ExchangeRateBallot)} {rs : List (Denom × Round)}
    (h : l.mapM (fun e => (f e).map (Prod.mk e.1)) = some rs) :
    rs.flatMap (fun r => r.2.winners) =
      l.flatMap (fun e => ((f e).map Round.winners).getD []) := by
  induction l generalizing rs with
  | nil =>
    obtain rfl : rs = [] := by simpa using h.symm
    rfl
  | cons e rest ih =>
    rw [Reorder.mapM_cons_eq] at h
    obtain ⟨r, hr, h⟩ := Option.bind_eq_some_iff.mp h
    obtain ⟨rs', hrs, h⟩ := Option.bind_eq_some_iff.mp h
    obtain ⟨round, hround, rfl⟩ := Option.map_eq_some_iff.mp hr
    rw [← Option.some.inj h, List.flatMap_cons, List.flatMap_cons, ih hrs, hround]
    rfl

/-- The claims carry the weights of the active validators. -/
theorem Rounds.claims_weights {tallied : TallyState}
    (rs : Rounds sched k params st (requiredPower k params) tallied)
    (hacc : AcceptedVotes st.votes) :
    (tallied.claims.entries.map (fun e => e.2.weight)).Perm
      ((activeSet k.staking).map (weightOf sched k params st)) := by
  have hcredited : rs.credited = creditedVotes sched k params st :=
    flatMap_winners_of_mapM (f := fun e => roundOf sched k params st _ e.1 e.2) rs.run
  -- the claims are those of the active validators, in the order of their addresses
  have hkeys : tallied.claims.keys.Perm (activeSet k.staking) := by
    rw [List.perm_ext_iff_of_nodup tallied.claims.keys_nodup (activeSet_nodup k.staking)]
    intro a
    rw [SortedMap.mem_keys, rs.claims_get hacc]
    split <;> simp_all
  have hweights : tallied.claims.entries.map (fun e => e.2.weight) =
      tallied.claims.keys.map (weightOf sched k params st) := by
    unfold SortedMap.keys
    rw [List.map_map]
    apply List.map_congr_left
    intro e he
    have hget : tallied.claims.get e.1 = some e.2 := SortedMap.mem_entries.mp he
    rw [rs.claims_get hacc] at hget
    split at hget
    · show e.2.weight = weightOf sched k params st e.1
      rw [← Option.some.inj hget, hcredited]
      rfl
    · cases hget
  rw [hweights]
  exact hkeys.map _

theorem RewardSafe.perm {bank : BankKeeper} {ratio : Dec} {left : SortedMap Denom Dec}
    {powerSum : ℤ} {w₁ w₂ : List ℤ} (hp : w₁.Perm w₂) (h : RewardSafe bank ratio left powerSum w₁) :
    RewardSafe bank ratio left powerSum w₂ where
  valid := h.valid
  pools := h.pools
  payouts := fun w hw => h.payouts w (hp.symm.subset hw)
  covered := fun d => by
    rw [← (hp.map _).sum_eq]
    exact h.covered d

/-! ### The end blocker -/

/-- The conditions under which the end blocker returns at the last block of a
    vote period. -/
structure EndBlockerSafe (sched : Schedule) (k : Keepers) (params : Params)
    (height : BlockHeight) (st : Store) : Prop where
  threshold : Dec.Fits (params.voteThreshold.i * k.staking.totalBondedPower)
  rounds : ∀ d b, (passing k st (requiredPower k params)).get d = some b →
    RoundSafe sched k params st (requiredPower k params) d b
  reward : weightSum sched k params st = 0 ∨
    RewardSafe k.bank
      (distributionRatio (toInt64 params.votePeriod.toNat)
        (toInt64 params.rewardDistributionWindow.toNat))
      (targetsLeft k st (requiredPower k params)) (weightSum sched k params st)
      ((activeSet k.staking).map (weightOf sched k params st))
  whitelist : updateRequired params.whitelist (targetsLeft k st (requiredPower k params)) = true →
    ∀ item ∈ params.whitelist,
      (k.bank.metadata.get item.name).isSome ∨ 2 ≤ item.name.utf8ByteSize
  slash : isPeriodLastBlock height params.slashWindow = some true →
    ∃ periods, votePeriodsPerWindow params = some periods ∧
      ∀ a c, CounterAfter sched k params st a c → ∃ rate, validVoteRate periods c = some rate ∧
        (rate < params.minValidPerWindow → (k.staking.validators.get a).isSome)

theorem thresholdVotes_eq (k : Keepers) (params : Params) :
    thresholdVotes params.voteThreshold k.staking.totalBondedPower =
      if Dec.Fits (params.voteThreshold.i * k.staking.totalBondedPower) then
        some (requiredPower k params) else none := by
  unfold thresholdVotes Dec.mulInt
  split
  · next h => rw [Dec.checked_of_fits h]; rfl
  · next h => rw [Dec.checked_of_not_fits h]; rfl

theorem tallyBallots_isSome_iff (sched : Schedule) (k : Keepers)
    (hvalid : params.validate = .ok ())
    (hacc : AcceptedVotes st.votes) (threshold : ℤ) :
    (tallyBallots sched k.float params.rewardBand (referenceTerra sched k st threshold)
        ((passing k st threshold).mapVal sched.sort) ⟨startClaims k.staking, ∅⟩).isSome ↔
      ∀ d b, (passing k st threshold).get d = some b →
        RoundSafe sched k params st threshold d b := by
  obtain ⟨hb₀, hb₁⟩ := (Params.validate_eq_ok.mp hvalid).rewardBand
  rw [tallyBallots_passing hacc, Option.isSome_map, Reorder.mapM_isSome_iff]
  simp only [Option.isSome_map]
  constructor
  · intro h d b hb
    exact (roundOf_isSome_iff hacc hb hb₀ hb₁).mp (h (d, b) (SortedMap.mem_entries.mpr hb))
  · intro h e he
    have hb := SortedMap.mem_entries.mp he
    exact (roundOf_isSome_iff hacc hb hb₀ hb₁).mpr (h e.1 e.2 hb)

theorem reward_isSome_iff (hvalid : params.validate = .ok ()) (hacc : AcceptedVotes st.votes)
    {tallied : TallyState} (rs : Rounds sched k params st (requiredPower k params) tallied) :
    (rewardBallotWinners sched k (toInt64 params.votePeriod.toNat)
        (toInt64 params.rewardDistributionWindow.toNat)
        (targetsLeft k st (requiredPower k params)) tallied.claims).isSome ↔
      weightSum sched k params st = 0 ∨
        RewardSafe k.bank
          (distributionRatio (toInt64 params.votePeriod.toNat)
            (toInt64 params.rewardDistributionWindow.toNat))
          (targetsLeft k st (requiredPower k params)) (weightSum sched k params st)
          ((activeSet k.staking).map (weightOf sched k params st)) := by
  have hparams := Params.validate_eq_ok.mp hvalid
  have hne : toInt64 params.rewardDistributionWindow.toNat ≠ 0 :=
    toInt64_ne_zero (toNat_ne_zero_of_le hparams.votePeriod hparams.rewardDistributionWindow)
      params.rewardDistributionWindow.toNat_lt
  have hperm := rs.claims_weights hacc
  have hsum : ballotPowerSum tallied.claims.entries = weightSum sched k params st := by
    rw [ballotPowerSum_eq, hperm.sum_eq]
    rfl
  -- a claim's recipient is active, so staking knows it
  have hknown : ∀ e ∈ tallied.claims.entries,
      (k.staking.validators.get e.2.recipient).isSome := by
    intro e he
    have hget : tallied.claims.get e.1 = some e.2 := SortedMap.mem_entries.mp he
    rw [rs.claims_get hacc] at hget
    split at hget
    · next hact =>
      rw [← Option.some.inj hget]
      exact k.staking.powerIndex_known _ (mem_powerIndex_of_active hact)
    · cases hget
  rw [rewardBallotWinners_isSome_iff sched k hne _ hknown, hsum]
  constructor
  · rintro (h | h)
    · exact Or.inl h
    · exact Or.inr (h.perm hperm)
  · rintro (h | h)
    · exact Or.inl h
    · exact Or.inr (h.perm hperm.symm)

/-- The vote period part returns when its four steps do. -/
theorem endVotePeriod_isSome_iff (sched : Schedule) (k : Keepers) (height : BlockHeight)
    (hvalid : params.validate = .ok ()) (hacc : AcceptedVotes st.votes) :
    (endVotePeriod sched k params height st).isSome ↔
      Dec.Fits (params.voteThreshold.i * k.staking.totalBondedPower) ∧
      (∀ d b, (passing k st (requiredPower k params)).get d = some b →
        RoundSafe sched k params st (requiredPower k params) d b) ∧
      (weightSum sched k params st = 0 ∨
        RewardSafe k.bank
          (distributionRatio (toInt64 params.votePeriod.toNat)
            (toInt64 params.rewardDistributionWindow.toNat))
          (targetsLeft k st (requiredPower k params)) (weightSum sched k params st)
          ((activeSet k.staking).map (weightOf sched k params st))) ∧
      (updateRequired params.whitelist (targetsLeft k st (requiredPower k params)) = true →
        ∀ item ∈ params.whitelist,
          (k.bank.metadata.get item.name).isSome ∨ 2 ≤ item.name.utf8ByteSize) := by
  have htallyIff := tallyBallots_isSome_iff sched k hvalid hacc (requiredPower k params)
  have hwhite := applyWhitelist_isSome_iff params.whitelist
    (targetsLeft k st (requiredPower k params)) ⟨st.tobinTaxes, k.bank.metadata⟩
  rw [endVotePeriod_eq, thresholdVotes_eq]
  by_cases hfit : Dec.Fits (params.voteThreshold.i * k.staking.totalBondedPower)
  · rw [if_pos hfit, Option.bind_some, ← htallyIff, ← hwhite]
    simp only [hfit, true_and]
    cases htally : tallyBallots sched k.float params.rewardBand
        (referenceTerra sched k st (requiredPower k params))
        ((passing k st (requiredPower k params)).mapVal sched.sort)
        ⟨startClaims k.staking, ∅⟩ with
    | none => simp
    | some tallied =>
      -- each step is peeled off only after the one before it returned
      obtain ⟨rs⟩ := exists_rounds hacc htally
      rw [Option.bind_some, ← reward_isSome_iff hvalid hacc rs]
      cases rewardBallotWinners sched k (toInt64 params.votePeriod.toNat)
          (toInt64 params.rewardDistributionWindow.toNat)
          (targetsLeft k st (requiredPower k params)) tallied.claims with
      | none => simp
      | some reward =>
        rw [Option.bind_some]
        cases applyWhitelist params.whitelist (targetsLeft k st (requiredPower k params))
          ⟨st.tobinTaxes, k.bank.metadata⟩ <;> simp
  · rw [if_neg hfit]
    simp [hfit]

/-- The vote period part and the slash window part together. -/
theorem endBlocker_returns (hvalid : params.validate = .ok ()) (hacc : AcceptedVotes st.votes)
    (hlast : isPeriodLastBlock height params.votePeriod = some true) :
    (endBlocker sched k params height st).isSome ↔ EndBlockerSafe sched k params height st := by
  have hparams := Params.validate_eq_ok.mp hvalid
  have hslashne : params.slashWindow ≠ 0 := by
    intro h0
    exact toNat_ne_zero_of_le hparams.votePeriod hparams.slashWindow (by rw [h0]; rfl)
  have hperiodIff := endVotePeriod_isSome_iff sched k height hvalid hacc
  obtain ⟨ends, hends⟩ := Option.isSome_iff_exists.mp
    (isPeriodLastBlock_isSome height hslashne)
  rw [endBlocker_eq, hlast, Option.bind_some, if_pos rfl]
  cases hrun : endVotePeriod sched k params height st with
  | none =>
    rw [hrun] at hperiodIff
    refine ⟨fun hf => by simp at hf, fun h => ?_⟩
    have := hperiodIff.mpr ⟨h.threshold, h.rounds, h.reward, h.whitelist⟩
    cases this
  | some o =>
    rw [hrun] at hperiodIff
    obtain ⟨h₁, h₂, h₃, h₄⟩ := hperiodIff.mp rfl
    -- the slash window sees the counters that the vote period has just written
    have hslashIff := slashAndReset_isSome_iff k.staking params height o.store.missCounters
    simp only [counterAfter_iff hacc hrun] at hslashIff
    rw [Option.bind_some]
    unfold endSlashWindow
    rw [hends, Option.bind_some]
    cases ends with
    | false =>
      rw [if_neg Bool.false_ne_true]
      refine ⟨fun _ => ⟨h₁, h₂, h₃, h₄, fun hc => ?_⟩, fun _ => rfl⟩
      rw [hends] at hc
      cases hc
    | true =>
      rw [if_pos rfl, Option.isSome_map, hslashIff]
      exact ⟨fun h => ⟨h₁, h₂, h₃, h₄, fun _ => h⟩, fun h => h.slash hends⟩

/-- At the last block of a vote period the end blocker returns exactly when
    `EndBlockerSafe` holds; otherwise it panics. -/
theorem endBlocker_isSome_iff (hvalid : params.validate = .ok ()) (hacc : AcceptedVotes st.votes)
    (hlast : isPeriodLastBlock height params.votePeriod = some true) :
    (endBlocker sched k params height st).isSome ↔ EndBlockerSafe sched k params height st :=
  endBlocker_returns hvalid hacc hlast

/-- Two validators vote on one denom and the other two on the other: all cross
    rates are abstain votes, their median is zero, and dividing by it panics. -/
theorem endBlocker_isSome_fails :
    smallParams.validate = .ok () ∧
    AcceptedVotes (smallStore [("a", [⟨"ukrw", Dec.ofInt 5⟩]), ("b", [⟨"ukrw", Dec.ofInt 5⟩]),
        ("c", [⟨"uusd", Dec.ofInt 7⟩]), ("d", [⟨"uusd", Dec.ofInt 7⟩])]).votes ∧
    isPeriodLastBlock ⟨4, by decide⟩ smallParams.votePeriod = some true ∧
    endBlocker Schedule.inOrder smallKeepers smallParams ⟨4, by decide⟩
      (smallStore [("a", [⟨"ukrw", Dec.ofInt 5⟩]), ("b", [⟨"ukrw", Dec.ofInt 5⟩]),
        ("c", [⟨"uusd", Dec.ofInt 7⟩]), ("d", [⟨"uusd", Dec.ofInt 7⟩])]) = none := by
  refine ⟨by decide +kernel, by decide +kernel, by decide, ?_⟩
  rw [← Option.not_isSome_iff_eq_none]
  decide +kernel

/-- When the same validators vote on both denoms the end blocker returns. -/
theorem endBlocker_isSome_same_voters :
    EndBlockerSafe Schedule.inOrder smallKeepers smallParams ⟨4, by decide⟩
      (smallStore [("a", [⟨"ukrw", Dec.ofInt 5⟩, ⟨"uusd", Dec.ofInt 5⟩]),
        ("b", [⟨"ukrw", Dec.ofInt 5⟩, ⟨"uusd", Dec.ofInt 5⟩])]) :=
  (endBlocker_isSome_iff (by decide +kernel) (by decide +kernel) (by decide)).mp
    (by decide +kernel)

end TerraClassic.Oracle
