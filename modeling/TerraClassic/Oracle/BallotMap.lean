import TerraClassic.Oracle.Ballot
import TerraClassic.Oracle.EndBlocker

/-! # The claim map, the ballots of a period, and the reference denom

    * `activeSet`: the validators with a claim, and their claim map `startClaims`.
    * `ballotOf`: the votes a denom receives, in store order, and
      `organizeBallotByDenom_get`: the ballot of a denom is these votes,
      sorted.
    * `PickReferenceTerra` in terms of sets of denoms: what stays in the two
      maps (`pick_voteMap`, `pick_voteTargets`) and which denom is chosen
      (`pick_reference`), for every order of the loop.
-/

namespace TerraClassic.Oracle

/-! ### The claim map -/

/-- `IsBonded` of an operator, false if unknown. -/
def isBonded (validators : SortedMap ValAddr Validator) (a : ValAddr) : Bool :=
  ((validators.get a).map Validator.bonded).getD false

/-- The operators with a claim: the first `maxValidators` bonded validators in
    power order. -/
def activeSet (staking : StakingKeeper) : List ValAddr :=
  (staking.powerIndex.filter (isBonded staking.validators)).take staking.maxValidators

/-- The claim a validator starts with. -/
def freshClaim (staking : StakingKeeper) (a : ValAddr) : Claim :=
  ⟨powerOf staking.validators a, 0, 0, a⟩

theorem claimLoop_eq (validators : SortedMap ValAddr Validator) (remaining : ℕ)
    {l : List ValAddr} (hl : ∀ a ∈ l, (validators.get a).isSome)
    (claims : SortedMap ValAddr Claim) :
    claimLoop validators remaining l claims =
      some (((l.filter (isBonded validators)).take remaining).foldl
        (fun c a => c.set a ⟨powerOf validators a, 0, 0, a⟩) claims) := by
  induction l generalizing remaining claims with
  | nil => cases remaining <;> simp [claimLoop]
  | cons a rest ih =>
    cases remaining with
    | zero => simp [claimLoop]
    | succ n =>
      have hrest : ∀ b ∈ rest, (validators.get b).isSome :=
        fun b hb => hl b (List.mem_cons_of_mem _ hb)
      obtain ⟨v, hv⟩ := Option.isSome_iff_exists.mp (hl a List.mem_cons_self)
      have hpow : powerOf validators a = v.consensusPower := by simp [powerOf, hv]
      have hb : isBonded validators a = v.bonded := by simp [isBonded, hv]
      unfold claimLoop
      simp only [hv]
      by_cases hbond : v.bonded = true
      · rw [if_pos hbond, ih n hrest]
        simp [hb, hbond, hpow]
      · rw [if_neg hbond, ih (n + 1) hrest]
        simp [hb, hbond]

/-- The claim map before the tally. -/
def startClaims (staking : StakingKeeper) : SortedMap ValAddr Claim :=
  (activeSet staking).foldl (fun c a => c.set a (freshClaim staking a)) ∅

theorem buildClaims_eq (staking : StakingKeeper) :
    buildClaims staking = some (startClaims staking) :=
  claimLoop_eq staking.validators staking.maxValidators staking.powerIndex_known ∅

theorem startClaims_get (staking : StakingKeeper) (a : ValAddr) :
    (startClaims staking).get a =
      if a ∈ activeSet staking then some (freshClaim staking a) else none := by
  have := SortedMap.get_foldl_set (freshClaim staking) (activeSet staking) ∅ a
  simpa [startClaims] using this

theorem mem_powerIndex_of_active {staking : StakingKeeper} {a : ValAddr}
    (h : a ∈ activeSet staking) : a ∈ staking.powerIndex :=
  List.mem_of_mem_filter (List.mem_of_mem_take h)

theorem activeSet_nodup (staking : StakingKeeper) : (activeSet staking).Nodup :=
  (staking.powerIndex_nodup.filter _).sublist (List.take_sublist _ _)

theorem powerOf_le {staking : StakingKeeper} {a : ValAddr} (h : a ∈ staking.powerIndex) :
    powerOf staking.validators a ≤ maxTotalVotingPower :=
  le_trans (List.single_le_sum (fun _ _ => Nat.zero_le _) _ (List.mem_map.mpr ⟨a, h, rfl⟩))
    staking.totalPower_le

/-- Claims whose powers come from staking. -/
def ClaimsOk (claims : SortedMap ValAddr Claim) : Prop :=
  ∀ a c, claims.get a = some c → 0 ≤ c.power ∧ c.power ≤ maxTotalVotingPower

theorem startClaims_ok (staking : StakingKeeper) : ClaimsOk (startClaims staking) := by
  intro a c hc
  rw [startClaims_get] at hc
  split at hc
  · next hact =>
    obtain rfl := Option.some.inj hc
    have := powerOf_le (mem_powerIndex_of_active hact)
    exact ⟨Int.natCast_nonneg _, Int.ofNat_le.mpr this⟩
  · cases hc

/-! ### The ballots -/

/-- The vote that a tuple of a claimed validator contributes. -/
def tupleVote (claimPower : ℤ) (voterAddr : ValAddr) (tuple : ExchangeRateTuple) : VoteForTally :=
  ⟨tuple.denom, tuple.exchangeRate, voterAddr,
    if !tuple.exchangeRate.isPositive then 0 else claimPower⟩

/-- The votes one stored aggregate vote contributes to the ballot of `denom`. -/
def votesOfEntry (claims : SortedMap ValAddr Claim) (denom : Denom)
    (entry : ValAddr × AggregateExchangeRateVote) : ExchangeRateBallot :=
  match claims.get entry.2.voter with
  | some claim =>
    (entry.2.exchangeRateTuples.filter (fun t => t.denom = denom)).map
      (tupleVote claim.power entry.1)
  | none => []

/-- The votes for `denom`, in the order of the store. -/
def ballotOf (claims : SortedMap ValAddr Claim)
    (stored : SortedMap ValAddr AggregateExchangeRateVote) (denom : Denom) :
    ExchangeRateBallot :=
  stored.entries.flatMap (votesOfEntry claims denom)

/-- The ballots before sorting. -/
def collectVotes (claims : SortedMap ValAddr Claim)
    (stored : SortedMap ValAddr AggregateExchangeRateVote) :
    SortedMap Denom ExchangeRateBallot :=
  stored.entries.foldl (aggregateHandler claims) ∅

/-- A ballot that received the votes `l` on top of what the map had. -/
def received (votes : SortedMap Denom ExchangeRateBallot) (denom : Denom)
    (l : ExchangeRateBallot) : Option ExchangeRateBallot :=
  if l = [] then votes.get denom else some (votes.getD denom [] ++ l)

theorem received_trans {votes votes' : SortedMap Denom ExchangeRateBallot} {denom : Denom}
    {l : ExchangeRateBallot} (l' : ExchangeRateBallot)
    (h : votes'.get denom = received votes denom l) :
    received votes' denom l' = received votes denom (l ++ l') := by
  unfold received SortedMap.getD at *
  by_cases hl : l = [] <;> by_cases hl' : l' = [] <;> simp_all

theorem foldl_appendTuple_get (claimPower : ℤ) (voterAddr : ValAddr)
    (tuples : List ExchangeRateTuple) (votes : SortedMap Denom ExchangeRateBallot)
    (denom : Denom) :
    (tuples.foldl (appendTuple claimPower voterAddr) votes).get denom =
      received votes denom
        ((tuples.filter (fun t => t.denom = denom)).map (tupleVote claimPower voterAddr)) := by
  induction tuples generalizing votes with
  | nil => simp [received]
  | cons t rest ih =>
    rw [List.foldl_cons, ih]
    have hone : (appendTuple claimPower voterAddr votes t).get denom =
        received votes denom
          (([t].filter (fun t => t.denom = denom)).map (tupleVote claimPower voterAddr)) := by
      unfold appendTuple received
      by_cases hd : t.denom = denom
      · simp [hd, tupleVote]
      · have hd' : denom ≠ t.denom := fun h => hd h.symm
        simp [hd, hd']
    rw [received_trans _ hone, ← List.map_append, ← List.filter_append, List.singleton_append]

theorem foldl_aggregateHandler_get (claims : SortedMap ValAddr Claim)
    (l : List (ValAddr × AggregateExchangeRateVote)) (votes : SortedMap Denom ExchangeRateBallot)
    (denom : Denom) :
    (l.foldl (aggregateHandler claims) votes).get denom =
      received votes denom (l.flatMap (votesOfEntry claims denom)) := by
  induction l generalizing votes with
  | nil => simp [received]
  | cons e rest ih =>
    rw [List.foldl_cons, ih]
    have hone : (aggregateHandler claims votes e).get denom =
        received votes denom (votesOfEntry claims denom e) := by
      unfold aggregateHandler votesOfEntry
      cases claims.get e.2.voter with
      | none => simp [received]
      | some claim => exact foldl_appendTuple_get claim.power e.1 _ votes denom
    rw [received_trans _ hone, List.flatMap_cons]

theorem collectVotes_get (claims : SortedMap ValAddr Claim)
    (stored : SortedMap ValAddr AggregateExchangeRateVote) (denom : Denom) :
    (collectVotes claims stored).get denom =
      if ballotOf claims stored denom = [] then none
      else some (ballotOf claims stored denom) := by
  unfold collectVotes
  rw [foldl_aggregateHandler_get]
  unfold received ballotOf
  split <;> simp [SortedMap.getD]

/-- Sorting the ballots in any order of the denoms sorts each of them. -/
theorem organizeBallotByDenom_eq (sched : Schedule) (claims : SortedMap ValAddr Claim)
    (stored : SortedMap ValAddr AggregateExchangeRateVote) :
    organizeBallotByDenom sched claims stored = (collectVotes claims stored).mapVal sched.sort :=
  SortedMap.foldl_set_eq_mapVal _ _ (sched.range_perm _ _)

/-- The ballot of a denom. -/
theorem organizeBallotByDenom_get (sched : Schedule) (claims : SortedMap ValAddr Claim)
    (stored : SortedMap ValAddr AggregateExchangeRateVote) (denom : Denom) :
    (organizeBallotByDenom sched claims stored).get denom =
      if ballotOf claims stored denom = [] then none
      else some (sched.sort (ballotOf claims stored denom)) := by
  rw [organizeBallotByDenom_eq, SortedMap.get_mapVal, collectVotes_get]
  split <;> rfl

theorem ballotOf_powersOk {claims : SortedMap ValAddr Claim} (h : ClaimsOk claims)
    (stored : SortedMap ValAddr AggregateExchangeRateVote) (denom : Denom) :
    PowersOk (ballotOf claims stored denom) := by
  intro v hv
  obtain ⟨e, _, hve⟩ := List.mem_flatMap.mp hv
  unfold votesOfEntry at hve
  split at hve
  · next claim hc =>
    obtain ⟨t, _, rfl⟩ := List.mem_map.mp hve
    unfold tupleVote
    by_cases hp : t.exchangeRate.isPositive = true
    · simpa [hp] using h _ _ hc
    · simp [hp]
  · cases hve

/-! ### The reference denom -/

/-- `ballotIsPassing`, without the power. -/
def passes (threshold : ℤ) (b : ExchangeRateBallot) : Bool := (ballotIsPassing b threshold).2

/-- The ballots that stay in `voteMap`: vote targets whose ballot passes. -/
def keeps (voteTargets : SortedMap Denom Dec) (threshold : ℤ) (denom : Denom)
    (b : ExchangeRateBallot) : Bool :=
  (voteTargets.get denom).isSome && passes threshold b

theorem passes_iff (threshold : ℤ) (b : ExchangeRateBallot) :
    passes threshold b = true ↔ power b ≠ 0 ∧ threshold ≤ power b := by
  simp [passes, ballotIsPassing]

theorem passes_perm {b₁ b₂ : ExchangeRateBallot} (hp : b₁.Perm b₂) (threshold : ℤ) :
    passes threshold b₁ = passes threshold b₂ := by
  unfold passes ballotIsPassing
  rw [power_perm hp]

/-- The three rounds of the loop: not a target, a failed ballot, a passing one. -/
theorem pickStep_of_not_target {threshold : ℤ} {s : PickState} {e : Denom × ExchangeRateBallot}
    (h : s.voteTargets.get e.1 = none) :
    pickStep threshold s e = { s with voteMap := s.voteMap.erase e.1 } := by
  unfold pickStep
  exact if_pos (by rw [h]; rfl)

theorem pickStep_of_failed {threshold : ℤ} {s : PickState} {e : Denom × ExchangeRateBallot}
    (h : (s.voteTargets.get e.1).isSome) (hp : passes threshold e.2 = false) :
    pickStep threshold s e =
      { s with voteTargets := s.voteTargets.erase e.1, voteMap := s.voteMap.erase e.1 } := by
  have hb : ballotIsPassing e.2 threshold = (power e.2, false) := Prod.ext rfl hp
  unfold pickStep
  rw [if_neg (by rw [Option.isNone_iff_eq_none, ← ne_eq, Option.ne_none_iff_isSome]; exact h), hb]

theorem pickStep_of_passing {threshold : ℤ} {s : PickState} {e : Denom × ExchangeRateBallot}
    (h : (s.voteTargets.get e.1).isSome) (hp : passes threshold e.2 = true) :
    pickStep threshold s e =
      if power e.2 > s.largestBallotPower ∨ s.largestBallotPower = 0 then
        { s with referenceTerra := e.1, largestBallotPower := power e.2 }
      else if s.largestBallotPower = power e.2 ∧ s.referenceTerra > e.1 then
        { s with referenceTerra := e.1 }
      else s := by
  have hb : ballotIsPassing e.2 threshold = (power e.2, true) := Prod.ext rfl hp
  unfold pickStep
  rw [if_neg (by rw [Option.isNone_iff_eq_none, ← ne_eq, Option.ne_none_iff_isSome]; exact h), hb]

/-- A passing ballot leaves both maps alone. -/
theorem pickStep_maps_of_passing {threshold : ℤ} {s : PickState}
    {e : Denom × ExchangeRateBallot} (h : (s.voteTargets.get e.1).isSome)
    (hp : passes threshold e.2 = true) :
    (pickStep threshold s e).voteTargets = s.voteTargets ∧
      (pickStep threshold s e).voteMap = s.voteMap := by
  rw [pickStep_of_passing h hp]
  split
  · exact ⟨rfl, rfl⟩
  · split
    · exact ⟨rfl, rfl⟩
    · exact ⟨rfl, rfl⟩

theorem pickStep_voteMap (threshold : ℤ) (s : PickState) (e : Denom × ExchangeRateBallot) :
    (pickStep threshold s e).voteMap =
      if keeps s.voteTargets threshold e.1 e.2 then s.voteMap else s.voteMap.erase e.1 := by
  unfold keeps
  cases h : s.voteTargets.get e.1 with
  | none => rw [pickStep_of_not_target h]; rfl
  | some t =>
    have hsome : (s.voteTargets.get e.1).isSome := by rw [h]; rfl
    cases hp : passes threshold e.2 with
    | false => rw [pickStep_of_failed hsome hp]; rfl
    | true => rw [(pickStep_maps_of_passing hsome hp).2]; rfl

theorem pickStep_voteTargets_get (threshold : ℤ) (s : PickState)
    (e : Denom × ExchangeRateBallot) (d : Denom) :
    (pickStep threshold s e).voteTargets.get d =
      if d = e.1 ∧ passes threshold e.2 = false then none else s.voteTargets.get d := by
  cases h : s.voteTargets.get e.1 with
  | none =>
    rw [pickStep_of_not_target h]
    split
    · next hd => rw [hd.1]; exact h
    · rfl
  | some t =>
    have hsome : (s.voteTargets.get e.1).isSome := by rw [h]; rfl
    cases hp : passes threshold e.2 with
    | false =>
      rw [pickStep_of_failed hsome hp]
      show (s.voteTargets.erase e.1).get d = _
      by_cases hd : d = e.1 <;> simp [hd]
    | true =>
      rw [(pickStep_maps_of_passing hsome hp).1]
      simp

/-- Visiting other denoms does not change which denoms are targets. -/
theorem foldl_pickStep_voteTargets_get (threshold : ℤ) (l : List (Denom × ExchangeRateBallot))
    (s : PickState) (hnd : (l.map Prod.fst).Nodup) (d : Denom) :
    (l.foldl (pickStep threshold) s).voteTargets.get d =
      match SortedMap.lookup d l with
      | some b => if passes threshold b then s.voteTargets.get d else none
      | none => s.voteTargets.get d := by
  induction l generalizing s with
  | nil => rfl
  | cons e rest ih =>
    obtain ⟨he, hrest⟩ := List.nodup_cons.mp hnd
    rw [List.foldl_cons, ih _ hrest]
    by_cases hd : d = e.1
    · have hnone : SortedMap.lookup d rest = none :=
        SortedMap.lookup_eq_none_of_not_mem (hd ▸ he)
      rw [hnone]
      simp only [pickStep_voteTargets_get, SortedMap.lookup, if_pos hd]
      cases hp : passes threshold e.2 <;> simp [hd]
    · simp [SortedMap.lookup, hd, pickStep_voteTargets_get]

theorem keeps_pickStep (threshold : ℤ) (s : PickState) {e x : Denom × ExchangeRateBallot}
    (h : x.1 ≠ e.1) :
    keeps (pickStep threshold s e).voteTargets threshold x.1 x.2 =
      keeps s.voteTargets threshold x.1 x.2 := by
  unfold keeps
  rw [pickStep_voteTargets_get]
  simp [h]

theorem foldl_pickStep_voteMap_get (threshold : ℤ) (l : List (Denom × ExchangeRateBallot))
    (s : PickState) (hnd : (l.map Prod.fst).Nodup) (d : Denom) :
    (l.foldl (pickStep threshold) s).voteMap.get d =
      match SortedMap.lookup d l with
      | some b => if keeps s.voteTargets threshold d b then s.voteMap.get d else none
      | none => s.voteMap.get d := by
  induction l generalizing s with
  | nil => rfl
  | cons e rest ih =>
    obtain ⟨he, hrest⟩ := List.nodup_cons.mp hnd
    rw [List.foldl_cons, ih _ hrest]
    by_cases hd : d = e.1
    · have hnone : SortedMap.lookup d rest = none :=
        SortedMap.lookup_eq_none_of_not_mem (hd ▸ he)
      rw [hnone, pickStep_voteMap]
      simp only [SortedMap.lookup, hd, if_true]
      split <;> simp
    · have hmap : (pickStep threshold s e).voteMap.get d = s.voteMap.get d := by
        rw [pickStep_voteMap]
        split <;> simp [hd]
      simp only [SortedMap.lookup, if_neg hd, hmap]
      cases hlook : SortedMap.lookup d rest with
      | none => rfl
      | some b => simp only [keeps_pickStep threshold s (x := (d, b)) hd]

/-- The denom `PickReferenceTerra` chooses among the entries that stay: the
    greatest power, and the alphabetically first on a tie. -/
def IsReference (kept : List (Denom × ExchangeRateBallot)) (ref : Denom) : Prop :=
  (kept = [] ∧ ref = "") ∨
    ∃ b, (ref, b) ∈ kept ∧
      ∀ e ∈ kept, power e.2 < power b ∨ (power e.2 = power b ∧ ref ≤ e.1)

/-- The loop invariant behind `IsReference`: zero stands for "none yet", which
    is safe because the power of a passing ballot is not zero. -/
def RefInv (kept : List (Denom × ExchangeRateBallot)) (s : PickState) : Prop :=
  (kept = [] ∧ s.largestBallotPower = 0 ∧ s.referenceTerra = "") ∨
    ∃ b, (s.referenceTerra, b) ∈ kept ∧ power b = s.largestBallotPower ∧
      s.largestBallotPower ≠ 0 ∧
      ∀ e ∈ kept, power e.2 < s.largestBallotPower ∨
        (power e.2 = s.largestBallotPower ∧ s.referenceTerra ≤ e.1)

/-- An entry that is dropped changes neither variable of the reference. -/
theorem pickStep_reference_of_dropped {threshold : ℤ} {s : PickState}
    {e : Denom × ExchangeRateBallot} (hk : ¬ keeps s.voteTargets threshold e.1 e.2 = true) :
    (pickStep threshold s e).largestBallotPower = s.largestBallotPower ∧
      (pickStep threshold s e).referenceTerra = s.referenceTerra := by
  cases htarget : s.voteTargets.get e.1 with
  | none =>
    rw [pickStep_of_not_target htarget]
    exact ⟨rfl, rfl⟩
  | some t =>
    have hsome : (s.voteTargets.get e.1).isSome := by rw [htarget]; rfl
    have hpass : passes threshold e.2 = false := by simpa [keeps, hsome] using hk
    rw [pickStep_of_failed hsome hpass]
    exact ⟨rfl, rfl⟩

theorem refInv_pickStep (threshold : ℤ) {s : PickState}
    {kept : List (Denom × ExchangeRateBallot)} (hinv : RefInv kept s)
    (e : Denom × ExchangeRateBallot) :
    RefInv (kept ++ [e].filter (fun x => keeps s.voteTargets threshold x.1 x.2))
      (pickStep threshold s e) := by
  by_cases hk : keeps s.voteTargets threshold e.1 e.2 = true
  · obtain ⟨htarget, hpass⟩ : (s.voteTargets.get e.1).isSome ∧ passes threshold e.2 = true := by
      simpa [keeps] using hk
    obtain ⟨hne, _⟩ := (passes_iff threshold e.2).mp hpass
    rw [List.filter_cons_of_pos (by simpa using hk), List.filter_nil,
      pickStep_of_passing htarget hpass]
    split
    · -- a new largest ballot
      next hnew =>
      right
      refine ⟨e.2, by simp, rfl, hne, ?_⟩
      intro x hx
      rcases List.mem_append.mp hx with hx | hx
      · rcases hinv with ⟨hnil, _, _⟩ | ⟨_, _, _, hl, hmax⟩
        · rw [hnil] at hx; cases hx
        · left
          rcases hnew with hnew | hnew
          · rcases hmax x hx with h | ⟨h, _⟩ <;> simp only [] <;> omega
          · exact absurd hnew hl
      · rw [List.mem_singleton.mp hx]
        exact Or.inr ⟨rfl, le_rfl⟩
    · next hnew =>
      have hnew' : power e.2 ≤ s.largestBallotPower ∧ s.largestBallotPower ≠ 0 := by
        constructor <;> by_contra hcon <;> exact hnew (by omega)
      rcases hinv with ⟨_, hzero, _⟩ | ⟨b, hmem, hpb, hl, hmax⟩
      · exact absurd hzero hnew'.2
      · split
        · -- a tie with an earlier name
          next htie =>
          right
          refine ⟨e.2, by simp, htie.1.symm, hl, ?_⟩
          intro x hx
          rcases List.mem_append.mp hx with hx | hx
          · rcases hmax x hx with h | ⟨h, hle⟩
            · exact Or.inl h
            · exact Or.inr ⟨h, le_trans htie.2.le hle⟩
          · rw [List.mem_singleton.mp hx]
            exact Or.inr ⟨htie.1.symm, le_rfl⟩
        · next htie =>
          right
          refine ⟨b, List.mem_append_left _ hmem, hpb, hl, ?_⟩
          intro x hx
          rcases List.mem_append.mp hx with hx | hx
          · exact hmax x hx
          · rw [List.mem_singleton.mp hx]
            rcases lt_or_eq_of_le hnew'.1 with h | h
            · exact Or.inl h
            · refine Or.inr ⟨h, ?_⟩
              by_contra hgt
              exact htie ⟨h.symm, not_le.mp hgt⟩
  · have hsame := pickStep_reference_of_dropped hk
    rw [List.filter_cons_of_neg (by simpa using hk), List.filter_nil, List.append_nil]
    unfold RefInv at hinv ⊢
    rw [hsame.1, hsame.2]
    exact hinv

theorem refInv_foldl (threshold : ℤ) (l : List (Denom × ExchangeRateBallot))
    (hnd : (l.map Prod.fst).Nodup) (s : PickState)
    (kept : List (Denom × ExchangeRateBallot)) (hinv : RefInv kept s) :
    RefInv (kept ++ l.filter (fun x => keeps s.voteTargets threshold x.1 x.2))
      (l.foldl (pickStep threshold) s) := by
  induction l generalizing s kept with
  | nil => simpa using hinv
  | cons e rest ih =>
    obtain ⟨he, hrest⟩ := List.nodup_cons.mp hnd
    have hstep := refInv_pickStep threshold hinv e
    have hfilter : rest.filter
          (fun x => keeps (pickStep threshold s e).voteTargets threshold x.1 x.2) =
        rest.filter (fun x => keeps s.voteTargets threshold x.1 x.2) := by
      apply List.filter_congr
      intro x hx
      exact keeps_pickStep threshold s
        (fun h => he (List.mem_map.mpr ⟨x, hx, h⟩))
    have := ih hrest _ _ hstep
    rw [hfilter, List.append_assoc, ← List.filter_append, List.singleton_append] at this
    exact this

/-- What is left of `voteMap`. -/
theorem pick_voteMap (sched : Schedule) (threshold : ℤ) (voteTargets : SortedMap Denom Dec)
    (voteMap : SortedMap Denom ExchangeRateBallot) :
    (pickReferenceTerra sched threshold voteTargets voteMap).voteMap =
      voteMap.filter (keeps voteTargets threshold) := by
  have hperm := sched.range_perm .pick voteMap.entries
  have hnd := (hperm.map Prod.fst).nodup_iff.mpr voteMap.keys_nodup
  apply SortedMap.ext_get
  intro d
  unfold pickReferenceTerra
  rw [foldl_pickStep_voteMap_get threshold _ _ hnd, SortedMap.get_filter,
    SortedMap.lookup_perm hperm]
  cases h : voteMap.get d with
  | none => rfl
  | some b => cases hk : keeps voteTargets threshold d b <;> simp [Option.filter, hk]

/-- What is left of `voteTargets`: only a target with a failed ballot is lost. -/
theorem pick_voteTargets (sched : Schedule) (threshold : ℤ) (voteTargets : SortedMap Denom Dec)
    (voteMap : SortedMap Denom ExchangeRateBallot) :
    (pickReferenceTerra sched threshold voteTargets voteMap).voteTargets =
      voteTargets.filter (fun d _ => ((voteMap.get d).map (passes threshold)).getD true) := by
  have hperm := sched.range_perm .pick voteMap.entries
  have hnd := (hperm.map Prod.fst).nodup_iff.mpr voteMap.keys_nodup
  apply SortedMap.ext_get
  intro d
  unfold pickReferenceTerra
  rw [foldl_pickStep_voteTargets_get threshold _ _ hnd, SortedMap.get_filter,
    SortedMap.lookup_perm hperm]
  cases h : voteMap.get d with
  | none => cases ht : voteTargets.get d <;> simp [Option.filter]
  | some b =>
    cases hk : passes threshold b <;> cases ht : voteTargets.get d <;>
      simp [Option.filter, hk]

/-- The chosen denom, for every order of the loop. -/
theorem pick_reference (sched : Schedule) (threshold : ℤ)
    (voteTargets : SortedMap Denom Dec) (voteMap : SortedMap Denom ExchangeRateBallot) :
    IsReference (voteMap.filter (keeps voteTargets threshold)).entries
      (pickReferenceTerra sched threshold voteTargets voteMap).referenceTerra := by
  have hperm := sched.range_perm .pick voteMap.entries
  have hnd := (hperm.map Prod.fst).nodup_iff.mpr voteMap.keys_nodup
  have hinit : RefInv [] ⟨0, "", voteTargets, voteMap⟩ := Or.inl ⟨rfl, rfl, rfl⟩
  have hfinal := refInv_foldl threshold _ hnd _ [] hinit
  have hfperm : ((sched.range .pick voteMap.entries).filter
      (fun x => keeps voteTargets threshold x.1 x.2)).Perm
      (voteMap.filter (keeps voteTargets threshold)).entries := hperm.filter _
  rw [List.nil_append] at hfinal
  rcases hfinal with ⟨hnil, _, href⟩ | ⟨b, hmem, hpb, _, hmax⟩
  · left
    refine ⟨?_, href⟩
    have := hfperm
    rw [hnil] at this
    exact this.nil_eq.symm
  · right
    refine ⟨b, hfperm.subset hmem, ?_⟩
    intro e he
    rw [hpb]
    exact hmax e (hfperm.symm.subset he)

/-- The reference is determined by the powers. -/
theorem IsReference.unique {kept : List (Denom × ExchangeRateBallot)} {r₁ r₂ : Denom}
    (h₁ : IsReference kept r₁) (h₂ : IsReference kept r₂) : r₁ = r₂ := by
  rcases h₁ with ⟨hnil, rfl⟩ | ⟨b₁, hm₁, hmax₁⟩
  · rcases h₂ with ⟨_, rfl⟩ | ⟨b₂, hm₂, _⟩
    · rfl
    · rw [hnil] at hm₂; cases hm₂
  · rcases h₂ with ⟨hnil, _⟩ | ⟨b₂, hm₂, hmax₂⟩
    · rw [hnil] at hm₁; cases hm₁
    · have h12 := hmax₁ _ hm₂
      have h21 := hmax₂ _ hm₁
      simp only at h12 h21
      rcases h12 with h | ⟨_, hle₁⟩
      · rcases h21 with h' | ⟨h', _⟩ <;> omega
      · rcases h21 with h' | ⟨_, hle₂⟩
        · omega
        · exact le_antisymm hle₁ hle₂

end TerraClassic.Oracle
