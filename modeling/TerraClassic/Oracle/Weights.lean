import TerraClassic.Oracle.RoundSafety

/-! # The weights of the claims

    `Tally` adds the power of a vote to its voter's weight if the vote lies inside the reward
    band or its rate is not positive.  The second case is meant for abstain votes, which have
    no power.  But a cross rate is a rounded quotient: one below half of the last decimal
    becomes zero and keeps its power, so that a vote far outside the band is
    credited like one inside it.

    `claim_weight_iff` says when the weight is the power times the number of votes inside
    the band.
-/

namespace TerraClassic.Oracle

variable {sched : Schedule} {k : Keepers} {params : Params} {height : BlockHeight} {st : Store}

/-! ### Rates and bands -/

/-- The rate with which a validator's vote is tallied: the rate it submitted for the
    reference denom, the cross rate for every other denom.  None if it abstained on one
    of the two. -/
def talliedRate (sched : Schedule) (k : Keepers) (st : Store) (threshold : ℤ) (d : Denom)
    (a : ValAddr) : Option Dec := do
  let rate ← rateOf st.votes d a
  if !rate.isPositive then none
  else if d = referenceTerra sched k st threshold then some rate
  else
    let base ← rateOf st.votes (referenceTerra sched k st threshold) a
    if !base.isPositive then none else some ⟨Dec.quoRaw base.i rate.i⟩

/-- Whether the tallied rate lies between median minus spread and median plus spread. -/
def inBand (sched : Schedule) (k : Keepers) (params : Params) (st : Store) (d : Denom)
    (a : ValAddr) : Option Bool := do
  let b ← (passing k st (requiredPower k params)).get d
  let tb ← talliedBallot sched k st (requiredPower k params) d b
  let spread ← rewardSpread k.float tb params.rewardBand
  let rate ← talliedRate sched k st (requiredPower k params) d a
  withinBand (weightedMedian tb) spread rate

/-- The passing ballots in whose band a validator voted. -/
def inBandCount (sched : Schedule) (k : Keepers) (params : Params) (st : Store) (a : ValAddr) :
    ℕ :=
  (passing k st (requiredPower k params)).keys.countP (fun d =>
    inBand sched k params st d a = some true)

/-- The vote lies outside the band, with a cross rate that was rounded to zero. -/
def lostToZero (sched : Schedule) (k : Keepers) (params : Params) (st : Store) (d : Denom)
    (a : ValAddr) : Bool :=
  inBand sched k params st d a = some false ∧
    talliedRate sched k st (requiredPower k params) d a = some Dec.zero

def lostToZeroCount (sched : Schedule) (k : Keepers) (params : Params) (st : Store)
    (a : ValAddr) : ℕ :=
  (passing k st (requiredPower k params)).keys.countP (fun d => lostToZero sched k params st d a)

/-! ### The vote of a validator in a tallied ballot -/

/-- A ballot without repeated voters has one vote of a voter. -/
theorem votesBy_eq_singleton {pb : ExchangeRateBallot} (hnd : (pb.map VoteForTally.voter).Nodup)
    {v : VoteForTally} (hv : v ∈ pb) : votesBy v.voter pb = [v] := by
  induction pb with
  | nil => cases hv
  | cons w rest ih =>
    obtain ⟨hw, hrest⟩ := List.nodup_cons.mp hnd
    unfold votesBy
    rcases List.mem_cons.mp hv with rfl | hv
    · have hnil : rest.filter (fun u => u.voter = v.voter) = [] := by
        rw [List.filter_eq_nil_iff]
        intro u hu huv
        exact hw (List.mem_map.mpr ⟨u, hu, by simpa using huv⟩)
      rw [List.filter_cons_of_pos (by simp), hnil]
    · have hne : w.voter ≠ v.voter := fun heq => hw (heq ▸ List.mem_map_of_mem hv)
      rw [List.filter_cons_of_neg (by simpa using hne)]
      exact ih hrest hv

theorem votesBy_eq_nil {pb : ExchangeRateBallot} {a : ValAddr}
    (h : a ∉ pb.map VoteForTally.voter) : votesBy a pb = [] := by
  unfold votesBy
  rw [List.filter_eq_nil_iff]
  intro v hv hva
  exact h (List.mem_map.mpr ⟨v, hv, by simpa using hva⟩)

/-- The vote that `Tally` sees of a validator: its rate and power are those of `talliedRate`,
    or it has no power. -/
def IsTalliedVote (sched : Schedule) (k : Keepers) (st : Store) (threshold : ℤ) (d : Denom)
    (v : VoteForTally) : Prop :=
  match talliedRate sched k st threshold d v.voter with
  | some rate => v.exchangeRate = rate ∧ v.power = powerOf k.staking.validators v.voter
  | none => v.power = 0

theorem powerBehind_of_pos {staking : StakingKeeper} {a : ValAddr} {rate : Dec}
    (h : rate.isPositive = true) : powerBehind staking a rate = powerOf staking.validators a := by
  unfold powerBehind
  rw [h]
  rfl

theorem powerBehind_of_not_pos {staking : StakingKeeper} {a : ValAddr} {rate : Dec}
    (h : rate.isPositive = false) : powerBehind staking a rate = 0 := by
  unfold powerBehind
  rw [h]
  rfl

theorem talliedRate_of_not_pos {threshold : ℤ} {d : Denom} {a : ValAddr} {rate : Dec}
    (hrate : rateOf st.votes d a = some rate) (h : rate.isPositive = false) :
    talliedRate sched k st threshold d a = none := by
  unfold talliedRate
  rw [hrate]
  simp [h]

theorem talliedRate_reference {threshold : ℤ} {d : Denom} {a : ValAddr} {rate : Dec}
    (hrate : rateOf st.votes d a = some rate) (h : rate.isPositive = true)
    (hd : d = referenceTerra sched k st threshold) :
    talliedRate sched k st threshold d a = some rate := by
  unfold talliedRate
  rw [hrate]
  simp [h, hd]

theorem talliedRate_cross {threshold : ℤ} {d : Denom} {a : ValAddr} {rate : Dec}
    (hrate : rateOf st.votes d a = some rate) (h : rate.isPositive = true)
    (hd : d ≠ referenceTerra sched k st threshold) :
    talliedRate sched k st threshold d a =
      ((rateOf st.votes (referenceTerra sched k st threshold) a).filter Dec.isPositive).map
        (fun base => ⟨Dec.quoRaw base.i rate.i⟩) := by
  unfold talliedRate
  rw [hrate]
  cases hbase : rateOf st.votes (referenceTerra sched k st threshold) a with
  | none => simp [hd]
  | some base => cases hpos : base.isPositive <;> simp [h, hd, hpos]

/-- A vote of the reference ballot is tallied as it is. -/
theorem isTalliedVote_reference (hacc : AcceptedVotes st.votes) {threshold : ℤ} {d : Denom}
    (hd : d = referenceTerra sched k st threshold) {v : VoteForTally}
    (hv : v ∈ ballotOf (startClaims k.staking) st.votes d) :
    IsTalliedVote sched k st threshold d v := by
  obtain ⟨_, hrate, hpower⟩ := submitted_of_mem_ballotOf hacc hv
  unfold IsTalliedVote
  cases hpos : v.exchangeRate.isPositive with
  | false =>
    rw [talliedRate_of_not_pos hrate hpos]
    rw [powerBehind_of_not_pos hpos] at hpower
    exact hpower
  | true =>
    rw [talliedRate_reference hrate hpos hd]
    rw [powerBehind_of_pos hpos] at hpower
    exact ⟨rfl, hpower⟩

/-- A vote of another ballot is tallied with its cross rate. -/
theorem isTalliedVote_cross (hacc : AcceptedVotes st.votes) {threshold : ℤ} {d : Denom}
    {b : ExchangeRateBallot} (hb : (passing k st threshold).get d = some b)
    (hd : d ≠ referenceTerra sched k st threshold) {u v : VoteForTally}
    (hu : u ∈ ballotOf (startClaims k.staking) st.votes d)
    (hv : crossVote (toMap (ballotRT sched k st threshold)) u = some v) :
    IsTalliedVote sched k st threshold d v := by
  obtain ⟨hact, hrate, hpower⟩ := submitted_of_mem_ballotOf hacc hu
  have hvoter := crossVote_voter hv
  unfold IsTalliedVote
  unfold crossVote at hv
  rw [toMap_ballotRT_eq hacc hb hact] at hv
  rw [hvoter]
  cases hpos : u.exchangeRate.isPositive with
  | false =>
    rw [talliedRate_of_not_pos hrate hpos]
    -- an abstain vote stays one, whatever the voter has named for the reference denom
    rw [hpos] at hv
    split at hv
    · rw [if_neg Bool.false_ne_true] at hv
      cases hv
      rfl
    · cases hv
      rfl
  | true =>
    rw [talliedRate_cross hrate hpos hd]
    cases hbase : (rateOf st.votes (referenceTerra sched k st threshold) u.voter).filter
        Dec.isPositive with
    | none =>
      -- without a base rate the conversion sets the power to zero
      rw [hbase] at hv
      cases hv
      rfl
    | some base =>
      rw [hbase] at hv
      simp only [hpos, if_true] at hv
      obtain ⟨rate, hquo, hv⟩ := Option.bind_eq_some_iff.mp hv
      cases hv
      rw [powerBehind_of_pos hpos] at hpower
      exact ⟨Dec.ext (Dec.quo_raw hquo), hpower⟩

theorem isTalliedVote_of_mem (hacc : AcceptedVotes st.votes) {threshold : ℤ} {d : Denom}
    {b tb : ExchangeRateBallot} (hb : (passing k st threshold).get d = some b)
    (htb : talliedBallot sched k st threshold d b = some tb) {v : VoteForTally} (hv : v ∈ tb) :
    IsTalliedVote sched k st threshold d v := by
  have hballot : ∀ u, u ∈ sched.sort b → u ∈ ballotOf (startClaims k.staking) st.votes d := by
    intro u hu
    rw [← (passing_good hacc hb).1]
    exact (sched.sort_perm b).subset hu
  unfold talliedBallot at htb
  split at htb
  · next hd =>
    obtain ⟨cross, hcross, rfl⟩ := Option.map_eq_some_iff.mp htb
    obtain ⟨u, hu, huv⟩ := Reorder.exists_of_mem_mapM hcross ((sched.sort_perm cross).subset hv)
    exact isTalliedVote_cross hacc hb hd (hballot u hu) huv
  · next hd =>
    obtain rfl := Option.some.inj htb
    exact isTalliedVote_reference hacc (not_not.mp hd) (hballot v hv)

/-! ### What a round credits -/

theorem isPositive_eq_false_iff {rate : Dec} (h : 0 ≤ rate.i) :
    rate.isPositive = false ↔ rate = Dec.zero := by
  unfold Dec.isPositive
  rw [decide_eq_false_iff_not]
  constructor
  · intro hle
    exact Dec.ext (le_antisymm (not_lt.mp hle) h)
  · rintro rfl
    exact lt_irrefl 0

/-- The band of a round, at the tallied rate of a validator. -/
theorem inBand_eq {d : Denom} {b tb : ExchangeRateBallot} {spread : Dec}
    (hb : (passing k st (requiredPower k params)).get d = some b)
    (htb : talliedBallot sched k st (requiredPower k params) d b = some tb)
    (hspread : rewardSpread k.float tb params.rewardBand = some spread) (a : ValAddr) :
    inBand sched k params st d a =
      (talliedRate sched k st (requiredPower k params) d a).bind
        (withinBand (weightedMedian tb) spread) := by
  unfold inBand
  rw [hb]
  simp only [Option.bind_eq_bind, Option.bind_some, htb, hspread]

/-- Who is not in the tallied ballot has named no rate for the denom. -/
theorem talliedRate_of_no_vote (hacc : AcceptedVotes st.votes) {threshold : ℤ} {d : Denom}
    {b tb : ExchangeRateBallot} (hb : (passing k st threshold).get d = some b)
    (htb : talliedBallot sched k st threshold d b = some tb) {a : ValAddr}
    (hact : a ∈ activeSet k.staking) (hvoted : a ∉ tb.map VoteForTally.voter) :
    talliedRate sched k st threshold d a = none := by
  have hnone : rateOf st.votes d a = none := by
    cases hrate : rateOf st.votes d a with
    | none => rfl
    | some rate =>
      have hvoters := talliedBallot_voters htb
      rw [(passing_good hacc hb).1] at hvoters
      refine absurd (hvoters.symm.subset ?_) hvoted
      exact List.mem_map.mpr ⟨_, mem_ballotOf_of_rate hacc hact hrate, rfl⟩
  unfold talliedRate
  rw [hnone]
  rfl

/-- A tallied vote with a rate wins inside the band, and outside it if the rate was
    rounded to zero. -/
theorem isWinner_iff_credited {d : Denom} {tb : ExchangeRateBallot} {spread : Dec}
    (hok : BandOk (weightedMedian tb) spread tb) {v : VoteForTally} (hv : v ∈ tb)
    (hnonneg : 0 ≤ v.exchangeRate.i)
    (hrate : talliedRate sched k st (requiredPower k params) d v.voter = some v.exchangeRate)
    (hband : inBand sched k params st d v.voter =
      withinBand (weightedMedian tb) spread v.exchangeRate) :
    isWinner (weightedMedian tb) spread v = true ↔
      inBand sched k params st d v.voter = some true ∨ lostToZero sched k params st d v.voter := by
  obtain ⟨c, hc⟩ := Option.isSome_iff_exists.mp (hok v hv)
  rw [isWinner_iff hok hv, isPositive_eq_false_iff hnonneg]
  unfold lostToZero
  rw [hband, hrate, hc]
  cases c with
  | true => simp
  | false => simp

/-- What the vote of a validator in a tallied ballot is credited with. -/
theorem power_of_vote (hacc : AcceptedVotes st.votes) {d : Denom} {b tb : ExchangeRateBallot}
    {spread : Dec} (hb : (passing k st (requiredPower k params)).get d = some b)
    (htb : talliedBallot sched k st (requiredPower k params) d b = some tb)
    (hspread : rewardSpread k.float tb params.rewardBand = some spread)
    (hok : BandOk (weightedMedian tb) spread tb) {v : VoteForTally} (hv : v ∈ tb) :
    totalPower ([v].filter (isWinner (weightedMedian tb) spread)) =
      if inBand sched k params st d v.voter = some true ∨ lostToZero sched k params st d v.voter
      then powerOf k.staking.validators v.voter else 0 := by
  have hband := inBand_eq hb htb hspread v.voter
  have htallied := isTalliedVote_of_mem hacc hb htb hv
  unfold IsTalliedVote at htallied
  cases hrate : talliedRate sched k st (requiredPower k params) d v.voter with
  | none =>
    -- an abstain vote may count as a winner, but has no power
    rw [hrate] at htallied hband
    have hpower : v.power = 0 := htallied
    unfold lostToZero
    rw [hband, hrate]
    by_cases hwin : isWinner (weightedMedian tb) spread v = true
    · simp [hwin, totalPower, hpower]
    · simp [hwin, totalPower]
  | some rate =>
    rw [hrate] at htallied hband
    obtain ⟨rfl, hpower⟩ : v.exchangeRate = rate ∧ _ := htallied
    have hnonneg := ((talliedBallot_good hacc hb htb).1.rates v hv).1
    have hwin := isWinner_iff_credited hok hv hnonneg hrate hband
    by_cases hw : isWinner (weightedMedian tb) spread v = true
    · rw [if_pos (hwin.mp hw), ← hpower]
      simp [hw, totalPower]
    · rw [if_neg (fun hflag => hw (hwin.mpr hflag))]
      simp [hw, totalPower]

/-- A validator's vote in a passing ballot is credited with its power if it lies in the
    band or was rounded to zero. -/
theorem Rounds.power_credited {tallied : TallyState}
    (rs : Rounds sched k params st (requiredPower k params) tallied)
    (hacc : AcceptedVotes st.votes) {d : Denom} {r : Round} (hr : (d, r) ∈ rs.rounds)
    {a : ValAddr} (hact : a ∈ activeSet k.staking) :
    totalPower (votesBy a r.winners) =
      if inBand sched k params st d a = some true ∨ lostToZero sched k params st d a
      then powerOf k.staking.validators a else 0 := by
  obtain ⟨b, hb, hround⟩ := rs.roundOf_of_mem hr
  obtain ⟨tb, spread, htb, hspread, hok, hwinners⟩ := roundOf_winners hround
  have hcomm : votesBy a r.winners =
      (votesBy a tb).filter (isWinner (weightedMedian tb) spread) := by
    rw [hwinners]
    unfold votesBy
    rw [List.filter_filter, List.filter_filter]
    simp only [Bool.and_comm]
  rw [hcomm]
  by_cases hvoted : a ∈ tb.map VoteForTally.voter
  · obtain ⟨v, hv, rfl⟩ := List.mem_map.mp hvoted
    have hvoters := talliedBallot_voters htb
    rw [(passing_good hacc hb).1] at hvoters
    rw [votesBy_eq_singleton (hvoters.nodup_iff.mpr (ballotOf_voters_nodup k.staking hacc d)) hv]
    exact power_of_vote hacc hb htb hspread hok hv
  · rw [votesBy_eq_nil hvoted]
    unfold lostToZero
    rw [inBand_eq hb htb hspread, talliedRate_of_no_vote hacc hb htb hact hvoted]
    simp [totalPower]

/-- All rounds together credit the power once for each such vote. -/
theorem Rounds.totalPower_credited {tallied : TallyState}
    (rs : Rounds sched k params st (requiredPower k params) tallied)
    (hacc : AcceptedVotes st.votes) {a : ValAddr} (hact : a ∈ activeSet k.staking) :
    totalPower (votesBy a rs.credited) = powerOf k.staking.validators a *
      (inBandCount sched k params st a + lostToZeroCount sched k params st a) := by
  -- the two kinds of votes are counted round by round
  have hall : ∀ l : List (Denom × Round), (∀ r ∈ l, r ∈ rs.rounds) →
      totalPower (votesBy a (l.flatMap (fun r => r.2.winners))) =
        powerOf k.staking.validators a *
          ((l.map Prod.fst).countP (fun d => inBand sched k params st d a = some true) +
            (l.map Prod.fst).countP (fun d => lostToZero sched k params st d a)) := by
    intro l
    induction l with
    | nil => intro _; rfl
    | cons r rest ih =>
      intro hl
      have ih := ih (fun x hx => hl x (List.mem_cons_of_mem _ hx))
      have hone := rs.power_credited hacc (hl r List.mem_cons_self) hact
      have hsplit : totalPower (votesBy a ((r :: rest).flatMap (fun r => r.2.winners))) =
          totalPower (votesBy a r.2.winners) +
            totalPower (votesBy a (rest.flatMap (fun r => r.2.winners))) := by
        unfold votesBy totalPower
        rw [List.flatMap_cons, List.filter_append, List.map_append, List.sum_append]
      rw [hsplit, ih, hone, List.map_cons, List.countP_cons, List.countP_cons]
      -- a vote inside the band is not also counted as lost
      by_cases hin : inBand sched k params st r.1 a = some true
      · have hlost : lostToZero sched k params st r.1 a = false := by
          unfold lostToZero
          simp [hin]
        simp only [hin, hlost, true_or, if_true, decide_true, Bool.false_eq_true, if_false]
        push_cast
        ring
      · by_cases hlost : lostToZero sched k params st r.1 a = true
        · simp only [hin, hlost, or_true, if_true, decide_false, Bool.false_eq_true, if_false]
          push_cast
          ring
        · simp only [hin, hlost, or_self, decide_false, Bool.false_eq_true, if_false]
          push_cast
          ring
  have h := hall rs.rounds (fun _ hr => hr)
  rw [rs.denoms] at h
  exact h

/-! ### The weights -/

/-- The weight of an active validator after a vote period is its power times the number of
    passing ballots in whose band it voted exactly when that product is an `int64` and no
    power was credited for cross rates that were rounded to zero outside the band. -/
theorem claim_weight_iff {o : Outcome} (hacc : AcceptedVotes st.votes)
    (hlast : isPeriodLastBlock height params.votePeriod = some true)
    (h : endBlocker sched k params height st = some o) {a : ValAddr}
    (hact : a ∈ activeSet k.staking) :
    ∃ claim, o.claims.get a = some claim ∧
      (claim.weight = (powerOf k.staking.validators a : ℤ) * inBandCount sched k params st a ↔
        (powerOf k.staking.validators a : ℤ) * inBandCount sched k params st a < 2 ^ 63 ∧
          2 ^ 64 ∣ (powerOf k.staking.validators a : ℤ) *
            lostToZeroCount sched k params st a) := by
  obtain ⟨tallied, _, hclaims, ⟨rs⟩⟩ := endBlocker_tallied hacc hlast h
  have hget := rs.claims_get hacc a
  rw [if_pos hact, ← hclaims] at hget
  refine ⟨_, hget, ?_⟩
  show toInt64 (totalPower (votesBy a rs.credited)) = _ ↔ _
  rw [rs.totalPower_credited hacc hact, mul_add]
  exact toInt64_add_eq_left_iff (by positivity)

/-- All four validators vote 2 on `ukrw`; three vote 1 on `uusd`, the fourth `last`. -/
def votesAround (last : ℤ) : Store :=
  smallStore [("a", [⟨"ukrw", Dec.ofInt 2⟩, ⟨"uusd", Dec.ofInt 1⟩]),
    ("b", [⟨"ukrw", Dec.ofInt 2⟩, ⟨"uusd", Dec.ofInt 1⟩]),
    ("c", [⟨"ukrw", Dec.ofInt 2⟩, ⟨"uusd", Dec.ofInt 1⟩]),
    ("d", [⟨"ukrw", Dec.ofInt 2⟩, ⟨"uusd", Dec.ofInt last⟩])]

theorem claim_weight_unanimous :
    ∃ o claim, endBlocker Schedule.inOrder smallKeepers smallParams ⟨4, by decide⟩
        (votesAround 1) = some o ∧ o.claims.get "d" = some claim ∧ claim.weight = 2 := by
  have hsome : (endBlocker Schedule.inOrder smallKeepers smallParams ⟨4, by decide⟩
      (votesAround 1)).isSome := by decide +kernel
  obtain ⟨o, ho⟩ := Option.isSome_iff_exists.mp hsome
  obtain ⟨claim, hget, hiff⟩ := claim_weight_iff (a := "d") (by decide +kernel) (by decide) ho
    (by decide +kernel)
  exact ⟨o, claim, ho, hget, (hiff.mpr (by decide +kernel)).trans (by decide +kernel)⟩

/-- The fourth validator votes `5 * 10^18` on `uusd`: its cross rate is rounded to zero,
    which is outside the band from 1 to 3, and still its power is credited. -/
theorem claim_weight_outside_band :
    AcceptedVotes (votesAround 5000000000000000000).votes ∧
    inBand Schedule.inOrder smallKeepers smallParams (votesAround 5000000000000000000) "uusd" "d" =
      some false ∧
    inBandCount Schedule.inOrder smallKeepers smallParams
      (votesAround 5000000000000000000) "d" = 1 ∧
    ((endBlocker Schedule.inOrder smallKeepers smallParams ⟨4, by decide⟩
      (votesAround 5000000000000000000)).bind (fun o => o.claims.get "d")).map Claim.weight =
        some 2 := by
  decide +kernel

end TerraClassic.Oracle
