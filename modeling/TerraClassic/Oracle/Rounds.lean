import TerraClassic.Oracle.BallotMap

/-! # The tally loop, round by round

    A round of the tally loop computes a rate and a list of credited votes
    from one ballot (`ballotRound`), and only then touches the claims and the
    store of rates (`applyRound`).  The first part does not read what earlier
    rounds wrote and the second part commutes for different denoms, so the
    loop is the same in every order (`tallyBallots_eq`).
-/

namespace TerraClassic.Oracle

/-- What tallying one ballot gives: the rate to store and the votes to credit. -/
structure Round where
  rate : Dec
  winners : ExchangeRateBallot

/-- `Tally`, without the claims. -/
def tallyRound (float : FloatSqrt) (pb : ExchangeRateBallot) (rewardBand : Dec) :
    Option Round := do
  let spread ← rewardSpread float pb rewardBand
  if BandOk (weightedMedian pb) spread pb then
    return ⟨weightedMedian pb, pb.filter (isWinner (weightedMedian pb) spread)⟩
  else
    failure

theorem tally_eq (float : FloatSqrt) (pb : ExchangeRateBallot) (rewardBand : Dec)
    (claims : SortedMap ValAddr Claim) :
    tally float pb rewardBand claims =
      (tallyRound float pb rewardBand).map
        (fun r => (r.rate, r.winners.foldl creditClaim claims)) := by
  unfold tally tallyRound
  cases rewardSpread float pb rewardBand with
  | none => rfl
  | some spread =>
    simp only [Option.bind_eq_bind, Option.bind_some, foldlM_tallyVote]
    split <;> rfl

/-- A round of the tally loop, without its effect. -/
def ballotRound (sched : Schedule) (float : FloatSqrt) (rewardBand : Dec) (referenceTerra : Denom)
    (voteMapRT : SortedMap ValAddr Dec) (exchangeRateRT : Dec)
    (entry : Denom × ExchangeRateBallot) : Option Round := do
  if entry.1 ≠ referenceTerra then
    let cross ← toCrossRate entry.2 voteMapRT
    let round ← tallyRound float (sched.sort cross) rewardBand
    let exchangeRate ← exchangeRateRT.quo round.rate
    return ⟨exchangeRate, round.winners⟩
  else
    tallyRound float entry.2 rewardBand

/-- The effect of a round on the claims and the rates. -/
def applyRound (s : TallyState) (round : Denom × Round) : TallyState :=
  ⟨round.2.winners.foldl creditClaim s.claims, s.exchangeRates.set round.1 round.2.rate⟩

theorem tallyStep_eq (sched : Schedule) (float : FloatSqrt) (rewardBand : Dec)
    (referenceTerra : Denom) (voteMapRT : SortedMap ValAddr Dec) (exchangeRateRT : Dec)
    (s : TallyState) (entry : Denom × ExchangeRateBallot) :
    tallyStep sched float rewardBand referenceTerra voteMapRT exchangeRateRT s entry =
      ((ballotRound sched float rewardBand referenceTerra voteMapRT exchangeRateRT entry).map
        (Prod.mk entry.1)).bind (fun round => some (applyRound s round)) := by
  unfold tallyStep ballotRound
  split
  · cases toCrossRate entry.2 voteMapRT with
    | none => rfl
    | some cross =>
      simp only [Option.bind_eq_bind, Option.bind_some, tally_eq]
      cases tallyRound float (sched.sort cross) rewardBand with
      | none => rfl
      | some round =>
        simp only [Option.map_some, Option.bind_some]
        cases exchangeRateRT.quo round.rate with
        | none => rfl
        | some rate => rfl
  · rw [tally_eq]
    cases tallyRound float entry.2 rewardBand with
    | none => rfl
    | some round => rfl

theorem applyRound_comm (s : TallyState) {r q : Denom × Round} (h : r.1 ≠ q.1) :
    applyRound (applyRound s r) q = applyRound (applyRound s q) r := by
  unfold applyRound
  rw [SortedMap.set_comm _ _ _ h, ← List.foldl_append, ← List.foldl_append,
    foldl_creditClaim_perm List.perm_append_comm]

/-- The rounds of all ballots, in the order of the denoms. -/
def ballotRounds (sched : Schedule) (float : FloatSqrt) (rewardBand : Dec)
    (referenceTerra : Denom) (voteMap : SortedMap Denom ExchangeRateBallot) :
    Option (List (Denom × Round)) :=
  voteMap.entries.mapM (fun entry =>
    (ballotRound sched float rewardBand referenceTerra (toMap (voteMap.getD referenceTerra []))
      (weightedMedian (voteMap.getD referenceTerra [])) entry).map (Prod.mk entry.1))

/-- The denoms of the rounds are the denoms of the ballots. -/
theorem map_fst_of_mapM {f : Denom × ExchangeRateBallot → Option Round}
    {l : List (Denom × ExchangeRateBallot)} {rs : List (Denom × Round)}
    (h : l.mapM (fun e => (f e).map (Prod.mk e.1)) = some rs) :
    rs.map Prod.fst = l.map Prod.fst := by
  apply Reorder.map_eq_of_mapM h
  intro e r hr
  obtain ⟨round, _, rfl⟩ := Option.map_eq_some_iff.mp hr
  rfl

/-- Looking up the round of a denom runs the round of its ballot. -/
theorem lookup_of_mapM {f : Denom × ExchangeRateBallot → Option Round}
    {l : List (Denom × ExchangeRateBallot)} {rs : List (Denom × Round)}
    (h : l.mapM (fun e => (f e).map (Prod.mk e.1)) = some rs) (d : Denom) :
    SortedMap.lookup d rs = (SortedMap.lookup d l).bind (fun b => f (d, b)) := by
  induction l generalizing rs with
  | nil =>
    obtain rfl : rs = [] := by simpa using h.symm
    rfl
  | cons e rest ih =>
    rw [Reorder.mapM_cons_eq] at h
    obtain ⟨r, hr, h⟩ := Option.bind_eq_some_iff.mp h
    obtain ⟨rs', hrs, h⟩ := Option.bind_eq_some_iff.mp h
    obtain ⟨round, hround, rfl⟩ := Option.map_eq_some_iff.mp hr
    rw [← Option.some.inj h]
    by_cases hd : d = e.1
    · have he : (d, e.2) = e := by rw [hd]
      simp [SortedMap.lookup, ← hd, he, hround]
    · simpa [SortedMap.lookup, hd] using ih hrs

/-- The rates after some rounds. -/
theorem foldl_applyRound_rates {rs : List (Denom × Round)} (hnd : (rs.map Prod.fst).Nodup)
    (s : TallyState) (d : Denom) :
    (rs.foldl applyRound s).exchangeRates.get d =
      match SortedMap.lookup d rs with
      | some r => some r.rate
      | none => s.exchangeRates.get d := by
  induction rs generalizing s with
  | nil => rfl
  | cons r rest ih =>
    obtain ⟨hr, hrest⟩ := List.nodup_cons.mp hnd
    rw [List.foldl_cons, ih hrest]
    by_cases hd : d = r.1
    · have hnone : SortedMap.lookup d rest = none :=
        SortedMap.lookup_eq_none_of_not_mem (hd ▸ hr)
      rw [hnone]
      simp [SortedMap.lookup, hd, applyRound]
    · simp [SortedMap.lookup, hd, applyRound]

/-- The claims after some rounds. -/
theorem foldl_applyRound_claims (rs : List (Denom × Round)) (s : TallyState) :
    (rs.foldl applyRound s).claims =
      (rs.flatMap (fun r => r.2.winners)).foldl creditClaim s.claims := by
  induction rs generalizing s with
  | nil => rfl
  | cons r rest ih =>
    rw [List.foldl_cons, ih, List.flatMap_cons, List.foldl_append]
    rfl

/-- A loop of rounds over the ballots, in any order. -/
theorem foldlM_rounds (g : Denom × ExchangeRateBallot → Option Round)
    {voteMap : SortedMap Denom ExchangeRateBallot} {l : List (Denom × ExchangeRateBallot)}
    (hl : l.Perm voteMap.entries) (s : TallyState) :
    l.foldlM (fun s e => ((g e).map (Prod.mk e.1)).bind (fun r => some (applyRound s r))) s =
      (voteMap.entries.mapM (fun e => (g e).map (Prod.mk e.1))).map
        (fun rounds => rounds.foldl applyRound s) := by
  rw [Reorder.foldlM_perm hl, Reorder.foldlM_bind_eq_mapM]
  · cases voteMap.entries.mapM (fun e => (g e).map (Prod.mk e.1)) with
    | none => rfl
    | some rounds => exact Reorder.foldlM_some rounds applyRound s
  · -- rounds of different denoms commute
    intro x hx y hy hxy b
    have hne : x.1 ≠ y.1 := SortedMap.key_ne_of_ne (hl.subset hx) (hl.subset hy) hxy
    cases hgx : g x with
    | none => cases hgy : g y <;> simp
    | some r =>
      cases hgy : g y with
      | none => simp
      | some q =>
        simp only [Option.map_some, Option.bind_some]
        rw [applyRound_comm _ (show (x.1, r).1 ≠ (y.1, q).1 from hne)]

/-- The tally loop, in the order of the denoms. -/
theorem tallyBallots_eq (sched : Schedule) (float : FloatSqrt) (rewardBand : Dec)
    (referenceTerra : Denom) (voteMap : SortedMap Denom ExchangeRateBallot) (s : TallyState) :
    tallyBallots sched float rewardBand referenceTerra voteMap s =
      if referenceTerra = "" then some s
      else (ballotRounds sched float rewardBand referenceTerra voteMap).map
        (fun rounds => rounds.foldl applyRound s) := by
  unfold tallyBallots ballotRounds
  split
  · rfl
  · rw [← foldlM_rounds _ (sched.range_perm .tally voteMap.entries)]
    exact Reorder.foldlM_congr (fun entry _ s => tallyStep_eq _ _ _ _ _ _ s entry) s

end TerraClassic.Oracle
