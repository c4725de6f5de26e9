import TerraClassic.Oracle.Rates

/-! # Miss counting

    The claims after the tally loop (`Rounds.claims_get`), and from them what
    happens to the miss counters: a validator is charged unless it won every
    vote target, where an abstain vote wins too.
-/

namespace TerraClassic.Oracle

variable {sched : Schedule} {k : Keepers} {params : Params} {height : BlockHeight} {st : Store}

/-! ### Crediting votes -/

/-- The votes of one validator. -/
def votesBy (a : ValAddr) (votes : ExchangeRateBallot) : ExchangeRateBallot :=
  votes.filter (fun v => v.voter = a)

theorem creditClaim_get (claims : SortedMap ValAddr Claim) (v : VoteForTally) (a : ValAddr) :
    (creditClaim claims v).get a =
      if a = v.voter then
        some { claims.getD a default with
          weight := toInt64 ((claims.getD a default).weight + v.power)
          winCount := (claims.getD a default).winCount + 1 }
      else claims.get a := by
  unfold creditClaim
  rw [SortedMap.get_set]
  split
  · next h => rw [h]
  · rfl

/-- Crediting votes to a claim adds their power to its weight and counts them. -/
theorem foldl_creditClaim_get {claims : SortedMap ValAddr Claim} {a : ValAddr} {c : Claim}
    (votes : ExchangeRateBallot) (h : claims.get a = some c) (hw : toInt64 c.weight = c.weight) :
    (votes.foldl creditClaim claims).get a =
      some { c with
        weight := toInt64 (c.weight + totalPower (votesBy a votes))
        winCount := c.winCount + (votesBy a votes).length } := by
  induction votes generalizing claims c with
  | nil => simp [votesBy, totalPower, hw, h]
  | cons v rest ih =>
    rw [List.foldl_cons]
    by_cases hv : a = v.voter
    · have hget : (creditClaim claims v).get a =
          some { c with weight := toInt64 (c.weight + v.power), winCount := c.winCount + 1 } := by
        rw [creditClaim_get, if_pos hv, SortedMap.getD, h]
        rfl
      rw [ih hget (toInt64_toInt64 _)]
      have hby : votesBy a (v :: rest) = v :: votesBy a rest := by simp [votesBy, hv]
      rw [hby]
      simp [totalPower, toInt64_add_left, add_assoc, add_comm 1]
    · have hget : (creditClaim claims v).get a = some c := by
        rw [creditClaim_get, if_neg hv, h]
      have hv' : v.voter ≠ a := fun heq => hv heq.symm
      have hby : votesBy a (v :: rest) = votesBy a rest := by simp [votesBy, hv']
      rw [ih hget hw, hby]

theorem foldl_creditClaim_get_none {claims : SortedMap ValAddr Claim} {a : ValAddr}
    {votes : ExchangeRateBallot} (h : claims.get a = none) (hv : ∀ v ∈ votes, v.voter ≠ a) :
    (votes.foldl creditClaim claims).get a = none := by
  induction votes generalizing claims with
  | nil => exact h
  | cons v rest ih =>
    rw [List.foldl_cons]
    apply ih
    · rw [creditClaim_get, if_neg (fun heq => hv v List.mem_cons_self heq.symm), h]
    · exact fun w hw => hv w (List.mem_cons_of_mem _ hw)

/-! ### The winners of a round -/

/-- The ballot that `Tally` sees for a denom: its cross rates, unless it is the
    reference. -/
def talliedBallot (sched : Schedule) (k : Keepers) (st : Store) (threshold : ℤ) (d : Denom)
    (b : ExchangeRateBallot) : Option ExchangeRateBallot :=
  if d ≠ referenceTerra sched k st threshold then
    (toCrossRate (sched.sort b) (toMap (ballotRT sched k st threshold))).map sched.sort
  else some (sched.sort b)

theorem tallyRound_winners {float : FloatSqrt} {pb : ExchangeRateBallot} {rewardBand : Dec}
    {r : Round} (h : tallyRound float pb rewardBand = some r) :
    ∃ spread, rewardSpread float pb rewardBand = some spread ∧
      BandOk (weightedMedian pb) spread pb ∧
      r.winners = pb.filter (isWinner (weightedMedian pb) spread) := by
  unfold tallyRound at h
  obtain ⟨spread, hspread, h⟩ := Option.bind_eq_some_iff.mp h
  split at h
  · next hok => exact ⟨spread, hspread, hok, by rw [← Option.some.inj h]⟩
  · cases h

theorem roundOf_winners {threshold : ℤ} {d : Denom} {b : ExchangeRateBallot} {r : Round}
    (h : roundOf sched k params st threshold d b = some r) :
    ∃ tb spread, talliedBallot sched k st threshold d b = some tb ∧
      rewardSpread k.float tb params.rewardBand = some spread ∧
      BandOk (weightedMedian tb) spread tb ∧
      r.winners = tb.filter (isWinner (weightedMedian tb) spread) := by
  unfold roundOf ballotRound at h
  unfold talliedBallot
  by_cases hd : d = referenceTerra sched k st threshold
  · rw [if_neg (by simpa using hd)] at h ⊢
    obtain ⟨spread, hspread, hok, hw⟩ := tallyRound_winners h
    exact ⟨_, spread, rfl, hspread, hok, hw⟩
  · rw [if_pos hd] at h ⊢
    obtain ⟨cross, hcross, h⟩ := Option.bind_eq_some_iff.mp h
    obtain ⟨round, hround, h⟩ := Option.bind_eq_some_iff.mp h
    obtain ⟨rate, _, h⟩ := Option.bind_eq_some_iff.mp h
    obtain ⟨spread, hspread, hok, hw⟩ := tallyRound_winners hround
    rw [← Option.some.inj h]
    exact ⟨sched.sort cross, spread, by rw [hcross]; rfl, hspread, hok, hw⟩

theorem crossVote_voter {bases : SortedMap ValAddr Dec} {v w : VoteForTally}
    (h : crossVote bases v = some w) : w.voter = v.voter := by
  unfold crossVote at h
  split at h
  · split at h
    · obtain ⟨rate, _, h⟩ := Option.bind_eq_some_iff.mp h
      rw [← Option.some.inj h]
    · rw [← Option.some.inj h]
  · rw [← Option.some.inj h]

/-- `Tally` sees the voters of the ballot, in some order. -/
theorem talliedBallot_voters {threshold : ℤ} {d : Denom} {b tb : ExchangeRateBallot}
    (h : talliedBallot sched k st threshold d b = some tb) :
    (tb.map VoteForTally.voter).Perm (b.map VoteForTally.voter) := by
  unfold talliedBallot at h
  split at h
  · obtain ⟨cross, hcross, rfl⟩ := Option.map_eq_some_iff.mp h
    have hsame : cross.map VoteForTally.voter = (sched.sort b).map VoteForTally.voter :=
      Reorder.map_eq_of_mapM hcross (fun v w hvw => crossVote_voter hvw)
    exact ((sched.sort_perm cross).map _).trans (hsame ▸ (sched.sort_perm b).map _)
  · obtain rfl := Option.some.inj h
    exact (sched.sort_perm b).map _

/-- Every round of the loop is the round of a passing ballot. -/
theorem Rounds.roundOf_of_mem {threshold : ℤ} {tallied : TallyState}
    (rs : Rounds sched k params st threshold tallied) {d : Denom} {r : Round}
    (h : (d, r) ∈ rs.rounds) :
    ∃ b, (passing k st threshold).get d = some b ∧
      roundOf sched k params st threshold d b = some r := by
  have hsorted : rs.rounds.Pairwise (fun x y => x.1 < y.1) := by
    have := (passing k st threshold).sorted
    rw [← List.pairwise_map (f := Prod.fst) (R := (· < ·))] at this ⊢
    rw [rs.denoms]
    exact this
  have := SortedMap.lookup_of_mem hsorted h
  rw [rs.lookup] at this
  exact Option.bind_eq_some_iff.mp this

/-- The winners of a round: active validators, none of them twice. -/
theorem Rounds.winners_voters {threshold : ℤ} {tallied : TallyState}
    (rs : Rounds sched k params st threshold tallied) (hacc : AcceptedVotes st.votes)
    {d : Denom} {r : Round} (h : (d, r) ∈ rs.rounds) :
    (r.winners.map VoteForTally.voter).Nodup ∧
      ∀ v ∈ r.winners, v.voter ∈ activeSet k.staking := by
  obtain ⟨b, hb, hr⟩ := rs.roundOf_of_mem h
  obtain ⟨tb, spread, htb, _, _, hw⟩ := roundOf_winners hr
  have hperm := talliedBallot_voters htb
  rw [(passing_good hacc hb).1] at hperm
  rw [hw]
  constructor
  · have hnd := hperm.nodup_iff.mpr (ballotOf_voters_nodup k.staking hacc d)
    exact hnd.sublist (List.filter_sublist.map _)
  · intro v hv
    have hmem := hperm.subset (List.mem_map.mpr ⟨v, List.mem_of_mem_filter hv, rfl⟩)
    obtain ⟨u, hu, huv⟩ := List.mem_map.mp hmem
    exact huv ▸ (submitted_of_mem_ballotOf hacc hu).1

/-! ### The claims after the tally -/

/-- A validator won a round. -/
def Round.wonBy (r : Round) (a : ValAddr) : Bool := r.winners.any (fun v => v.voter = a)

theorem votesBy_length {votes : ExchangeRateBallot}
    (h : (votes.map VoteForTally.voter).Nodup) (a : ValAddr) :
    (votesBy a votes).length = if votes.any (fun v => v.voter = a) then 1 else 0 := by
  induction votes with
  | nil => rfl
  | cons v rest ih =>
    obtain ⟨hv, hrest⟩ := List.nodup_cons.mp h
    have ih := ih hrest
    by_cases hva : v.voter = a
    · have hnone : rest.any (fun v => v.voter = a) = false := by
        rw [List.any_eq_false]
        intro w hw hwa
        exact hv (List.mem_map.mpr ⟨w, hw, by rw [hva]; simpa using hwa⟩)
      rw [hnone] at ih
      unfold votesBy at ih ⊢
      rw [List.filter_cons_of_pos (by simpa using hva), List.length_cons, ih]
      simp [hva]
    · unfold votesBy at ih ⊢
      rw [List.filter_cons_of_neg (by simpa using hva), ih]
      simp [hva]

/-- The votes credited to a validator in all rounds. -/
def Rounds.credited {threshold : ℤ} {tallied : TallyState}
    (rs : Rounds sched k params st threshold tallied) : ExchangeRateBallot :=
  rs.rounds.flatMap (fun r => r.2.winners)

/-- A validator is credited once for each round it won. -/
theorem Rounds.votesBy_credited_length {threshold : ℤ} {tallied : TallyState}
    (rs : Rounds sched k params st threshold tallied) (hacc : AcceptedVotes st.votes)
    (a : ValAddr) :
    (votesBy a rs.credited).length = (rs.rounds.filter (fun r => r.2.wonBy a)).length := by
  -- over the rounds one by one: each credits a voter at most once
  have hall : ∀ l : List (Denom × Round), (∀ r ∈ l, r ∈ rs.rounds) →
      (votesBy a (l.flatMap (fun r => r.2.winners))).length =
        (l.filter (fun r => r.2.wonBy a)).length := by
    intro l
    induction l with
    | nil => intro _; rfl
    | cons r rest ih =>
      intro hl
      have ih := ih (fun x hx => hl x (List.mem_cons_of_mem _ hx))
      have hone := votesBy_length (rs.winners_voters hacc (hl r List.mem_cons_self)).1 a
      unfold votesBy at ih hone ⊢
      rw [List.flatMap_cons, List.filter_append, List.length_append, ih, hone]
      by_cases hw : r.2.wonBy a = true
      · rw [List.filter_cons_of_pos (by simpa using hw), List.length_cons]
        unfold Round.wonBy at hw
        rw [hw, if_pos rfl]
        omega
      · rw [List.filter_cons_of_neg (by simpa using hw)]
        unfold Round.wonBy at hw
        rw [if_neg hw]
        omega
  exact hall rs.rounds (fun _ h => h)

/-- The claims after the tally loop. -/
theorem Rounds.claims_get {threshold : ℤ} {tallied : TallyState}
    (rs : Rounds sched k params st threshold tallied) (hacc : AcceptedVotes st.votes)
    (a : ValAddr) :
    tallied.claims.get a =
      if a ∈ activeSet k.staking then
        some ⟨powerOf k.staking.validators a, toInt64 (totalPower (votesBy a rs.credited)),
          (rs.rounds.filter (fun r => r.2.wonBy a)).length, a⟩
      else none := by
  have hclaims : tallied.claims = rs.credited.foldl creditClaim (startClaims k.staking) := by
    have := congrArg TallyState.claims rs.result
    rwa [foldl_applyRound_claims] at this
  rw [hclaims]
  have hstart := startClaims_get k.staking a
  by_cases hact : a ∈ activeSet k.staking
  · rw [if_pos hact] at hstart ⊢
    have hzero : toInt64 (freshClaim k.staking a).weight = (freshClaim k.staking a).weight := rfl
    rw [foldl_creditClaim_get _ hstart hzero, ← rs.votesBy_credited_length hacc]
    simp [freshClaim]
  · rw [if_neg hact] at hstart ⊢
    apply foldl_creditClaim_get_none hstart
    -- only active validators have votes to be credited
    intro v hv heq
    obtain ⟨r, hr, hv⟩ := List.mem_flatMap.mp hv
    exact hact (heq ▸ (rs.winners_voters hacc hr).2 v hv)

/-! ### The counters -/

/-- Counting misses over claims that name their own validator. -/
theorem foldl_missStep_get {l : List (ValAddr × Claim)} (hnd : (l.map Prod.fst).Nodup)
    (hrec : ∀ e ∈ l, e.2.recipient = e.1) (len : ℕ) (m : SortedMap ValAddr UInt64)
    (a : ValAddr) :
    (l.foldl (missStep len) m).get a =
      match SortedMap.lookup a l with
      | some c => if c.winCount = len then m.get a else some (getMissCounter m a + 1)
      | none => m.get a := by
  induction l generalizing m with
  | nil => rfl
  | cons e rest ih =>
    obtain ⟨he, hrest⟩ := List.nodup_cons.mp hnd
    have hrece := hrec e List.mem_cons_self
    rw [List.foldl_cons, ih hrest (fun x hx => hrec x (List.mem_cons_of_mem _ hx))]
    by_cases ha : a = e.1
    · have hnone : SortedMap.lookup a rest = none :=
        SortedMap.lookup_eq_none_of_not_mem (ha ▸ he)
      rw [hnone]
      simp only [SortedMap.lookup, if_pos ha]
      unfold missStep
      split
      · rfl
      · rw [hrece, ha, SortedMap.get_set_self]
    · have hsame : (missStep len m e).get a = m.get a := by
        unfold missStep
        split
        · rfl
        · rw [hrece, SortedMap.get_set_ne _ _ ha]
      simp only [SortedMap.lookup, if_neg ha, hsame, getMissCounter, SortedMap.getD]

/-! ### Who is charged -/

/-- A vote target on which no active validator voted, not even to abstain. -/
def Unanswered (k : Keepers) (st : Store) (d : Denom) : Prop :=
  (st.tobinTaxes.get d).isSome ∧ ∀ a ∈ activeSet k.staking, rateOf st.votes d a = none

/-- The validator has a vote in the tallied ballot of `d` that lies inside the
    reward band, or that is not positive. -/
def WinningVote (sched : Schedule) (k : Keepers) (params : Params) (st : Store) (d : Denom)
    (a : ValAddr) : Prop :=
  ∃ b tb spread v, (passing k st (requiredPower k params)).get d = some b ∧
    talliedBallot sched k st (requiredPower k params) d b = some tb ∧
    rewardSpread k.float tb params.rewardBand = some spread ∧ v ∈ tb ∧ v.voter = a ∧
    (withinBand (weightedMedian tb) spread v.exchangeRate = some true ∨
      v.exchangeRate.isPositive = false)

/-- The reasons to charge an active validator. -/
def Missed (sched : Schedule) (k : Keepers) (params : Params) (st : Store) (a : ValAddr) : Prop :=
  (∃ d, Unanswered k st d) ∨
    ∃ d, ((passing k st (requiredPower k params)).get d).isSome ∧
      ¬ WinningVote sched k params st d a

theorem isWinner_iff {median spread : Dec} {pb : ExchangeRateBallot}
    (hok : BandOk median spread pb) {v : VoteForTally} (hv : v ∈ pb) :
    isWinner median spread v = true ↔
      withinBand median spread v.exchangeRate = some true ∨ v.exchangeRate.isPositive = false := by
  obtain ⟨c, hc⟩ := Option.isSome_iff_exists.mp (hok v hv)
  have hband := withinBand_eq_some hc
  unfold isWinner
  rw [hc, hband]
  simp

theorem Rounds.wonBy_iff {tallied : TallyState}
    (rs : Rounds sched k params st (requiredPower k params) tallied) {d : Denom} {r : Round}
    (h : (d, r) ∈ rs.rounds) (a : ValAddr) :
    r.wonBy a = true ↔ WinningVote sched k params st d a := by
  obtain ⟨b, hb, hr⟩ := rs.roundOf_of_mem h
  obtain ⟨tb, spread, htb, hspread, hok, hw⟩ := roundOf_winners hr
  unfold Round.wonBy
  rw [List.any_eq_true, hw]
  constructor
  · rintro ⟨v, hv, hva⟩
    obtain ⟨hmem, hwin⟩ := List.mem_filter.mp hv
    exact ⟨b, tb, spread, v, hb, htb, hspread, hmem, by simpa using hva,
      (isWinner_iff hok hmem).mp hwin⟩
  · rintro ⟨b', tb', spread', v, hb', htb', hspread', hmem, hva, hwin⟩
    obtain rfl : b' = b := Option.some.inj (hb'.symm.trans hb)
    obtain rfl : tb' = tb := Option.some.inj (htb'.symm.trans htb)
    obtain rfl : spread' = spread := Option.some.inj (hspread'.symm.trans hspread)
    exact ⟨v, List.mem_filter.mpr ⟨hmem, (isWinner_iff hok hmem).mpr hwin⟩, by simpa using hva⟩

theorem ballotOf_eq_nil_iff (hacc : AcceptedVotes st.votes) (d : Denom) :
    ballotOf (startClaims k.staking) st.votes d = [] ↔
      ∀ a ∈ activeSet k.staking, rateOf st.votes d a = none := by
  rw [List.eq_nil_iff_forall_not_mem]
  constructor
  · intro h a hact
    cases hr : rateOf st.votes d a with
    | none => rfl
    | some rate => exact absurd (mem_ballotOf_of_rate hacc hact hr) (h _)
  · intro h v hv
    obtain ⟨hact, hr, _⟩ := submitted_of_mem_ballotOf hacc hv
    rw [h _ hact] at hr
    cases hr

/-- A target is left when its ballot passes or nobody voted on it. -/
theorem mem_targetsLeft_keys (hacc : AcceptedVotes st.votes) {threshold : ℤ} {d : Denom} :
    d ∈ (targetsLeft k st threshold).keys ↔
      ((passing k st threshold).get d).isSome ∨ Unanswered k st d := by
  unfold targetsLeft leftTargets Unanswered
  rw [SortedMap.mem_keys, SortedMap.get_filter, collectVotes_get, passing_get,
    ← ballotOf_eq_nil_iff hacc]
  have hnil : passes threshold [] = false := by simp [passes, ballotIsPassing, power]
  cases ht : st.tobinTaxes.get d with
  | none => simp
  | some t =>
    by_cases hb : ballotOf (startClaims k.staking) st.votes d = []
    · simp [hb, hnil, Option.filter]
    · by_cases hp : passes threshold (ballotOf (startClaims k.staking) st.votes d) = true
      · simp [hb, hp, Option.filter]
      · simp [hb, hp, Option.filter]

/-- A validator won as many rounds as there are targets left exactly when it
    missed none. -/
theorem Rounds.wins_all_iff {tallied : TallyState}
    (rs : Rounds sched k params st (requiredPower k params) tallied)
    (hacc : AcceptedVotes st.votes) (a : ValAddr) :
    (rs.rounds.filter (fun r => r.2.wonBy a)).length =
        (targetsLeft k st (requiredPower k params)).size ↔
      ¬ Missed sched k params st a := by
  have hlen : rs.rounds.length = (passing k st (requiredPower k params)).keys.length := by
    rw [← rs.denoms, List.length_map]
  have hsize : (targetsLeft k st (requiredPower k params)).size =
      (targetsLeft k st (requiredPower k params)).keys.length := by
    unfold SortedMap.size SortedMap.keys
    rw [List.length_map]
  have hsub : (passing k st (requiredPower k params)).keys ⊆
      (targetsLeft k st (requiredPower k params)).keys := by
    intro d hd
    exact (mem_targetsLeft_keys hacc).mpr (Or.inl (SortedMap.mem_keys.mp hd))
  have hperm := List.subperm_of_subset (SortedMap.keys_nodup _) hsub
  have hle := hperm.length_le
  have hfilter := List.length_filter_le (fun r : Denom × Round => r.2.wonBy a) rs.rounds
  constructor
  · rintro heq (⟨d, hun⟩ | ⟨d, hpass, hlost⟩)
    · -- all targets have a passing ballot, `d` has no vote at all
      have hmem := (hperm.perm_of_length_le (by omega)).symm.subset
        ((mem_targetsLeft_keys hacc).mpr (Or.inr hun))
      have hpass := SortedMap.mem_keys.mp hmem
      rw [passing_get, (ballotOf_eq_nil_iff hacc d).mpr hun.2] at hpass
      simp [passes, ballotIsPassing, power] at hpass
    · have hall := List.length_filter_eq_length_iff.mp (by omega :
        (rs.rounds.filter (fun r => r.2.wonBy a)).length = rs.rounds.length)
      have hmem : d ∈ rs.rounds.map Prod.fst := by
        rw [rs.denoms]
        exact SortedMap.mem_keys.mpr hpass
      obtain ⟨⟨d', r⟩, hr, rfl⟩ := List.mem_map.mp hmem
      exact hlost ((rs.wonBy_iff hr a).mp (hall _ hr))
  · intro hnot
    have hback : (targetsLeft k st (requiredPower k params)).keys ⊆
        (passing k st (requiredPower k params)).keys := by
      intro d hd
      rcases (mem_targetsLeft_keys hacc).mp hd with hpass | hun
      · exact SortedMap.mem_keys.mpr hpass
      · exact absurd (Or.inl ⟨d, hun⟩) hnot
    have hge := (List.subperm_of_subset (SortedMap.keys_nodup _) hback).length_le
    have hall : (rs.rounds.filter (fun r => r.2.wonBy a)).length = rs.rounds.length := by
      rw [List.length_filter_eq_length_iff]
      rintro ⟨d, r⟩ hr
      rw [rs.wonBy_iff hr a]
      by_contra hlost
      obtain ⟨b, hb, _⟩ := rs.roundOf_of_mem hr
      exact hnot (Or.inr ⟨d, by rw [hb]; rfl, hlost⟩)
    omega

/-- An abstain vote stays an abstain vote in the ballot that `Tally` sees. -/
theorem talliedBallot_abstain {threshold : ℤ} {d : Denom} {b tb : ExchangeRateBallot}
    (h : talliedBallot sched k st threshold d b = some tb) {v : VoteForTally} (hv : v ∈ b)
    (habs : v.exchangeRate.isPositive = false) :
    ∃ w ∈ tb, w.voter = v.voter ∧ w.exchangeRate.isPositive = false := by
  have hv' : v ∈ sched.sort b := (sched.sort_perm b).symm.subset hv
  unfold talliedBallot at h
  split at h
  · obtain ⟨cross, hcross, rfl⟩ := Option.map_eq_some_iff.mp h
    obtain ⟨w, hw, hvw⟩ := Reorder.exists_result_of_mapM hcross hv'
    refine ⟨w, (sched.sort_perm cross).symm.subset hw, crossVote_voter hvw, ?_⟩
    unfold crossVote at hvw
    rw [habs] at hvw
    split at hvw
    · rw [if_neg Bool.false_ne_true] at hvw
      rw [← Option.some.inj hvw]
      rfl
    · rw [← Option.some.inj hvw]
      rfl
  · obtain rfl := Option.some.inj h
    exact ⟨v, hv', rfl, habs⟩

/-- The miss counters after the end of a vote period. -/
theorem endVotePeriod_missCounters {o : Outcome} (hacc : AcceptedVotes st.votes)
    (h : endVotePeriod sched k params height st = some o) (a : ValAddr) :
    (a ∈ activeSet k.staking → Missed sched k params st a →
      o.store.missCounters.get a = some (getMissCounter st.missCounters a + 1)) ∧
    ((a ∈ activeSet k.staking → ¬ Missed sched k params st a) →
      o.store.missCounters.get a = st.missCounters.get a) := by
  obtain ⟨threshold, tallied, reward, targets, hthr, htally, _, _, rfl⟩ := endVotePeriod_eq_some h
  obtain rfl := thresholdVotes_eq_some hthr
  obtain ⟨rs⟩ := exists_rounds hacc htally
  have hrec : ∀ e ∈ tallied.claims.entries, e.2.recipient = e.1 := by
    intro e he
    have hget : tallied.claims.get e.1 = some e.2 := SortedMap.mem_entries.mp he
    rw [rs.claims_get hacc] at hget
    split at hget
    · rw [← Option.some.inj hget]
    · cases hget
  -- every claim names its own validator, so the counters are written key by key
  have hget := foldl_missStep_get tallied.claims.keys_nodup hrec
    (targetsLeft k st (requiredPower k params)).size st.missCounters a
  have hclaim : SortedMap.lookup a tallied.claims.entries = _ := rs.claims_get hacc a
  have hwins := rs.wins_all_iff hacc a
  show ((_ → _ → (tallied.claims.entries.foldl _ st.missCounters).get a = _) ∧
    (_ → (tallied.claims.entries.foldl _ st.missCounters).get a = _))
  rw [hget, hclaim]
  by_cases hact : a ∈ activeSet k.staking
  · rw [if_pos hact]
    simp only
    constructor
    · intro _ hmiss
      rw [if_neg (fun heq => hwins.mp heq hmiss)]
    · intro hnot
      rw [if_pos (hwins.mpr (hnot hact))]
  · rw [if_neg hact]
    exact ⟨fun h => absurd h hact, fun _ => rfl⟩

/-- A validator that abstains on every vote target has missed nothing. -/
theorem not_missed_of_abstain {o : Outcome} (hacc : AcceptedVotes st.votes)
    (h : endVotePeriod sched k params height st = some o) {a : ValAddr}
    (hact : a ∈ activeSet k.staking)
    (habs : ∀ d, (st.tobinTaxes.get d).isSome →
      ∃ rate, rateOf st.votes d a = some rate ∧ rate.isPositive = false) :
    ¬ Missed sched k params st a := by
  obtain ⟨threshold, tallied, reward, targets, hthr, htally, _, _, rfl⟩ := endVotePeriod_eq_some h
  obtain rfl := thresholdVotes_eq_some hthr
  obtain ⟨rs⟩ := exists_rounds hacc htally
  -- the abstain vote answers the target, and it counts as a win in a passing ballot
  rintro (⟨d, ht, hun⟩ | ⟨d, hpass, hlost⟩)
  · obtain ⟨rate, hr, _⟩ := habs d ht
    rw [hun a hact] at hr
    cases hr
  · obtain ⟨rate, hr, hnp⟩ := habs d ((passing_isSome_iff hacc _ d).mp hpass).1
    obtain ⟨b, hb⟩ := Option.isSome_iff_exists.mp hpass
    obtain ⟨r, hround⟩ := Option.isSome_iff_exists.mp (rs.returned hb)
    obtain ⟨tb, spread, htb, hspread, _, _⟩ := roundOf_winners hround
    have hmem := mem_ballotOf_of_rate hacc hact hr
    rw [← (passing_good hacc hb).1] at hmem
    obtain ⟨w, hw, hwa, hwn⟩ := talliedBallot_abstain htb hmem hnp
    exact hlost ⟨b, tb, spread, w, hb, htb, hspread, hw, hwa, Or.inr hwn⟩

/-- Miss counting at the last block of a vote period that does not also end a
    slash window. -/
theorem missCounters_exact {o : Outcome} (hacc : AcceptedVotes st.votes)
    (hlast : isPeriodLastBlock height params.votePeriod = some true)
    (hslash : isPeriodLastBlock height params.slashWindow = some false)
    (h : endBlocker sched k params height st = some o) :
    (∀ a ∈ activeSet k.staking,
      (getMissCounter o.store.missCounters a = getMissCounter st.missCounters a + 1 ↔
        Missed sched k params st a) ∧
      (¬ Missed sched k params st a →
        getMissCounter o.store.missCounters a = getMissCounter st.missCounters a)) ∧
    (∀ a, a ∉ activeSet k.staking → o.store.missCounters.get a = st.missCounters.get a) ∧
    (∀ a ∈ activeSet k.staking, (∀ d, (st.tobinTaxes.get d).isSome →
        ∃ rate, rateOf st.votes d a = some rate ∧ rate.isPositive = false) →
      getMissCounter o.store.missCounters a = getMissCounter st.missCounters a) := by
  obtain ⟨o', ho', hcase⟩ := endBlocker_last hlast h
  rcases hcase with ⟨_, rfl⟩ | ⟨htrue, _⟩
  · have hsame : ∀ a, (a ∈ activeSet k.staking → ¬ Missed sched k params st a) →
        getMissCounter o.store.missCounters a = getMissCounter st.missCounters a := by
      intro a hnot
      unfold getMissCounter SortedMap.getD
      rw [(endVotePeriod_missCounters hacc ho' a).2 hnot]
    refine ⟨?_, ?_, ?_⟩
    · intro a hact
      refine ⟨⟨?_, ?_⟩, fun hnot => hsame a (fun _ => hnot)⟩
      · intro hup
        by_contra hnot
        rw [hsame a (fun _ => hnot)] at hup
        simp at hup
      · intro hmiss
        have := (endVotePeriod_missCounters hacc ho' a).1 hact hmiss
        unfold getMissCounter SortedMap.getD at this ⊢
        rw [this]
        rfl
    · intro a hact
      exact (endVotePeriod_missCounters hacc ho' a).2 (fun hc => absurd hc hact)
    · intro a hact habs
      exact hsame a (fun _ => not_missed_of_abstain hacc ho' hact habs)
  · rw [hslash] at htrue
    cases htrue

/-- Validator `a` abstains on both targets and is not charged. -/
theorem missCounters_exact_abstain :
    ∃ o, endBlocker Schedule.inOrder smallKeepers smallParams ⟨4, by decide⟩
        (smallStore [("a", [⟨"ukrw", Dec.zero⟩, ⟨"uusd", Dec.zero⟩]),
          ("b", [⟨"ukrw", Dec.ofInt 2⟩, ⟨"uusd", Dec.ofInt 2⟩]),
          ("c", [⟨"ukrw", Dec.ofInt 2⟩, ⟨"uusd", Dec.ofInt 2⟩])]) = some o ∧
      getMissCounter o.store.missCounters "a" = 0 := by
  have hsome : (endBlocker Schedule.inOrder smallKeepers smallParams ⟨4, by decide⟩
      (smallStore [("a", [⟨"ukrw", Dec.zero⟩, ⟨"uusd", Dec.zero⟩]),
        ("b", [⟨"ukrw", Dec.ofInt 2⟩, ⟨"uusd", Dec.ofInt 2⟩]),
        ("c", [⟨"ukrw", Dec.ofInt 2⟩, ⟨"uusd", Dec.ofInt 2⟩])])).isSome := by decide +kernel
  obtain ⟨o, ho⟩ := Option.isSome_iff_exists.mp hsome
  have hexact := missCounters_exact (by decide +kernel) (by decide) (by decide) ho
  refine ⟨o, ho, hexact.2.2 "a" (by decide) ?_⟩
  intro d hd
  have hkeys : d ∈ ["ukrw", "uusd"] := SortedMap.mem_keys.mpr hd
  rcases List.mem_pair.mp hkeys with rfl | rfl
  · exact ⟨Dec.zero, by decide +kernel, rfl⟩
  · exact ⟨Dec.zero, by decide +kernel, rfl⟩

/-- Nobody votes, so everybody has missed; but the block also ends a slash
    window and every counter is deleted. -/
theorem missCounters_reset :
    ∃ o, endBlocker Schedule.inOrder smallKeepers { smallParams with slashWindow := 5 }
        ⟨4, by decide⟩ (smallStore []) = some o ∧
      isPeriodLastBlock ⟨4, by decide⟩ smallParams.votePeriod = some true ∧
      AcceptedVotes (smallStore []).votes ∧ "a" ∈ activeSet smallKeepers.staking ∧
      Unanswered smallKeepers (smallStore []) "ukrw" ∧
      getMissCounter o.store.missCounters "a" ≠
        getMissCounter (smallStore []).missCounters "a" + 1 := by
  have hrun : (endBlocker Schedule.inOrder smallKeepers { smallParams with slashWindow := 5 }
      ⟨4, by decide⟩ (smallStore [])).map (fun o => getMissCounter o.store.missCounters "a") =
      some 0 := by decide +kernel
  obtain ⟨o, ho, hcount⟩ := Option.map_eq_some_iff.mp hrun
  refine ⟨o, ho, by decide, by decide, by decide, ⟨by decide, by decide⟩, ?_⟩
  rw [hcount]
  decide

end TerraClassic.Oracle
