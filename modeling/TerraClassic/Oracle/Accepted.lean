import TerraClassic.Oracle.Order
import Mathlib.Algebra.BigOperators.Ring.Finset
import Mathlib.Algebra.Order.BigOperators.Group.List

/-! # Ballots of accepted votes

    A vote that `AggregateExchangeRateVote` accepted is stored under its voter,
    names each denom at most once and has rates of at most 315 bits, none of
    them negative.  The ballot of a denom then has one vote for each active
    validator that named it (`ballotOf_eq`), and its power is a sum over the
    active set that cannot overflow (`power_ballotOf`).
-/

namespace TerraClassic.Oracle

/-- What the message server checked of a stored vote. -/
structure AcceptedVote (a : ValAddr) (vote : AggregateExchangeRateVote) : Prop where
  voter : vote.voter = a
  nodup : (vote.exchangeRateTuples.map ExchangeRateTuple.denom).Nodup
  named : ∀ t ∈ vote.exchangeRateTuples, t.denom ≠ ""
  rates : ∀ t ∈ vote.exchangeRateTuples, 0 ≤ t.exchangeRate.i ∧ Dec.Fits t.exchangeRate.i

/-- Every stored vote was accepted. -/
def AcceptedVotes (stored : SortedMap ValAddr AggregateExchangeRateVote) : Prop :=
  ∀ a vote, stored.get a = some vote → AcceptedVote a vote

instance (a : ValAddr) (vote : AggregateExchangeRateVote) : Decidable (AcceptedVote a vote) :=
  decidable_of_iff
    (vote.voter = a ∧ (vote.exchangeRateTuples.map ExchangeRateTuple.denom).Nodup ∧
      (∀ t ∈ vote.exchangeRateTuples, t.denom ≠ "") ∧
      ∀ t ∈ vote.exchangeRateTuples, 0 ≤ t.exchangeRate.i ∧ Dec.Fits t.exchangeRate.i)
    ⟨fun ⟨h₁, h₂, h₃, h₄⟩ => ⟨h₁, h₂, h₃, h₄⟩, fun h => ⟨h.voter, h.nodup, h.named, h.rates⟩⟩

instance (stored : SortedMap ValAddr AggregateExchangeRateVote) :
    Decidable (AcceptedVotes stored) :=
  decidable_of_iff (∀ e ∈ stored.entries, AcceptedVote e.1 e.2)
    ⟨fun h a vote hget => h (a, vote) (SortedMap.mem_entries.mpr hget),
      fun h e he => h e.1 e.2 (SortedMap.mem_entries.mp he)⟩

/-- The rate a validator submitted for a denom. -/
def rateOf (stored : SortedMap ValAddr AggregateExchangeRateVote) (denom : Denom)
    (a : ValAddr) : Option Dec :=
  (stored.get a).bind (fun vote =>
    (vote.exchangeRateTuples.find? (fun t => t.denom = denom)).map ExchangeRateTuple.exchangeRate)

/-- The power behind a rate: an abstain vote has none. -/
def powerBehind (staking : StakingKeeper) (a : ValAddr) (rate : Dec) : ℤ :=
  if !rate.isPositive then 0 else powerOf staking.validators a

/-- The vote of an active validator in the ballot of a denom. -/
def voteOf (staking : StakingKeeper) (stored : SortedMap ValAddr AggregateExchangeRateVote)
    (denom : Denom) (a : ValAddr) : Option VoteForTally :=
  if a ∈ activeSet staking then
    (rateOf stored denom a).map (fun rate => ⟨denom, rate, a, powerBehind staking a rate⟩)
  else none

/-- The power of the active validators whose vote for `denom` does not abstain. -/
def votingPower (staking : StakingKeeper)
    (stored : SortedMap ValAddr AggregateExchangeRateVote) (denom : Denom) : ℤ :=
  ((activeSet staking).map (fun a =>
    ((rateOf stored denom a).map (powerBehind staking a)).getD 0)).sum

/-! ### One vote for each voter -/

theorem filter_denom_eq {tuples : List ExchangeRateTuple}
    (h : (tuples.map ExchangeRateTuple.denom).Nodup) (denom : Denom) :
    tuples.filter (fun t => t.denom = denom) =
      (tuples.find? (fun t => t.denom = denom)).toList := by
  induction tuples with
  | nil => rfl
  | cons t rest ih =>
    obtain ⟨ht, hrest⟩ := List.nodup_cons.mp h
    by_cases hd : t.denom = denom
    · have hnil : rest.filter (fun t => t.denom = denom) = [] := by
        rw [List.filter_eq_nil_iff]
        intro x hx hxd
        exact ht (List.mem_map.mpr ⟨x, hx, by rw [hd]; simpa using hxd⟩)
      simp [hd, hnil]
    · simpa [hd] using ih hrest

/-- What an accepted vote contributes to a ballot. -/
theorem votesOfEntry_eq (staking : StakingKeeper)
    {stored : SortedMap ValAddr AggregateExchangeRateVote} (hacc : AcceptedVotes stored)
    (denom : Denom) {e : ValAddr × AggregateExchangeRateVote} (he : e ∈ stored.entries) :
    votesOfEntry (startClaims staking) denom e = (voteOf staking stored denom e.1).toList := by
  have hget : stored.get e.1 = some e.2 := SortedMap.mem_entries.mp he
  have hok := hacc e.1 e.2 hget
  unfold votesOfEntry voteOf rateOf
  rw [hok.voter, startClaims_get, hget, filter_denom_eq hok.nodup]
  by_cases hact : e.1 ∈ activeSet staking
  · rw [if_pos hact, if_pos hact]
    cases hfind : e.2.exchangeRateTuples.find? (fun t => t.denom = denom) with
    | none => simp [hfind]
    | some t =>
      have hd : t.denom = denom := by simpa using List.find?_some hfind
      simp [hfind, tupleVote, powerBehind, freshClaim, hd]
  · rw [if_neg hact, if_neg hact]
    rfl

/-- The ballot of a denom, voter by voter. -/
theorem ballotOf_eq (staking : StakingKeeper)
    {stored : SortedMap ValAddr AggregateExchangeRateVote} (hacc : AcceptedVotes stored)
    (denom : Denom) :
    ballotOf (startClaims staking) stored denom =
      stored.keys.filterMap (voteOf staking stored denom) := by
  unfold ballotOf SortedMap.keys
  rw [List.filterMap_map, List.filterMap_eq_flatMap_toList]
  apply List.flatMap_congr
  intro e he
  exact votesOfEntry_eq staking hacc denom he

theorem voteOf_voter {staking : StakingKeeper}
    {stored : SortedMap ValAddr AggregateExchangeRateVote} {denom : Denom} {a : ValAddr}
    {v : VoteForTally} (h : voteOf staking stored denom a = some v) : v.voter = a := by
  unfold voteOf at h
  split at h
  · obtain ⟨rate, _, rfl⟩ := Option.map_eq_some_iff.mp h
    rfl
  · cases h

theorem mem_ballotOf {staking : StakingKeeper}
    {stored : SortedMap ValAddr AggregateExchangeRateVote} (hacc : AcceptedVotes stored)
    {denom : Denom} {v : VoteForTally} :
    v ∈ ballotOf (startClaims staking) stored denom ↔
      voteOf staking stored denom v.voter = some v := by
  rw [ballotOf_eq staking hacc, List.mem_filterMap]
  constructor
  · rintro ⟨a, _, ha⟩
    rw [voteOf_voter ha]
    exact ha
  · intro h
    refine ⟨v.voter, ?_, h⟩
    rw [SortedMap.mem_keys]
    unfold voteOf rateOf at h
    split at h
    · cases hget : stored.get v.voter with
      | none => simp [hget] at h
      | some vote => rfl
    · cases h

theorem mem_ballotOf_of_rate {staking : StakingKeeper}
    {stored : SortedMap ValAddr AggregateExchangeRateVote} (hacc : AcceptedVotes stored)
    {denom : Denom} {a : ValAddr} {rate : Dec} (hact : a ∈ activeSet staking)
    (hr : rateOf stored denom a = some rate) :
    (⟨denom, rate, a, powerBehind staking a rate⟩ : VoteForTally) ∈
      ballotOf (startClaims staking) stored denom := by
  apply (mem_ballotOf hacc).mpr
  show voteOf staking stored denom a = _
  unfold voteOf
  rw [if_pos hact, hr]
  rfl

/-- Every vote of a ballot was submitted by an active validator. -/
theorem submitted_of_mem_ballotOf {staking : StakingKeeper}
    {stored : SortedMap ValAddr AggregateExchangeRateVote} (hacc : AcceptedVotes stored)
    {denom : Denom} {v : VoteForTally} (hv : v ∈ ballotOf (startClaims staking) stored denom) :
    v.voter ∈ activeSet staking ∧ rateOf stored denom v.voter = some v.exchangeRate ∧
      v.power = powerBehind staking v.voter v.exchangeRate := by
  have h := (mem_ballotOf hacc).mp hv
  unfold voteOf at h
  split at h
  · next hact =>
    obtain ⟨rate, hr, hv⟩ := Option.map_eq_some_iff.mp h
    have hrate : v.exchangeRate = rate := by rw [← hv]
    have hpower : v.power = powerBehind staking v.voter rate := by rw [← hv]
    rw [hrate]
    exact ⟨hact, hr, hpower⟩
  · cases h

/-- A submitted rate comes from a tuple of an accepted vote. -/
theorem tuple_of_rateOf {stored : SortedMap ValAddr AggregateExchangeRateVote}
    (hacc : AcceptedVotes stored) {denom : Denom} {a : ValAddr} {rate : Dec}
    (h : rateOf stored denom a = some rate) :
    denom ≠ "" ∧ 0 ≤ rate.i ∧ Dec.Fits rate.i := by
  obtain ⟨vote, hvote, h⟩ := Option.bind_eq_some_iff.mp h
  obtain ⟨t, ht, rfl⟩ := Option.map_eq_some_iff.mp h
  have hd : t.denom = denom := by simpa using List.find?_some ht
  have hmem := List.mem_of_find?_eq_some ht
  exact ⟨hd ▸ (hacc _ _ hvote).named t hmem, (hacc _ _ hvote).rates t hmem⟩

/-- No voter appears twice in a ballot. -/
theorem ballotOf_voters_nodup (staking : StakingKeeper)
    {stored : SortedMap ValAddr AggregateExchangeRateVote} (hacc : AcceptedVotes stored)
    (denom : Denom) :
    ((ballotOf (startClaims staking) stored denom).map VoteForTally.voter).Nodup := by
  rw [ballotOf_eq staking hacc]
  have hsub : ∀ l : List ValAddr,
      ((l.filterMap (voteOf staking stored denom)).map VoteForTally.voter).Sublist l := by
    intro l
    induction l with
    | nil => exact List.Sublist.slnil
    | cons a rest ih =>
      cases h : voteOf staking stored denom a with
      | none =>
        rw [List.filterMap_cons_none h]
        exact ih.cons a
      | some v =>
        rw [List.filterMap_cons_some h, List.map_cons, voteOf_voter h]
        exact ih.cons_cons a
  exact stored.keys_nodup.sublist (hsub _)

/-! ### The power of a ballot -/

theorem totalPower_filterMap (g : ValAddr → Option VoteForTally) (l : List ValAddr) :
    totalPower (l.filterMap g) =
      (l.map (fun a => ((g a).map VoteForTally.power).getD 0)).sum := by
  induction l with
  | nil => rfl
  | cons a rest ih =>
    unfold totalPower at ih ⊢
    cases h : g a with
    | none => simp [List.filterMap_cons_none h, h, ih]
    | some v => simp [List.filterMap_cons_some h, h, ih]

/-- Sums over two lists without repetition agree when the summand vanishes off
    their intersection. -/
theorem sum_map_eq_of_support {l₁ l₂ : List ValAddr} (h₁ : l₁.Nodup) (h₂ : l₂.Nodup)
    {w : ValAddr → ℤ} (hw : ∀ a, w a ≠ 0 → a ∈ l₁ ∧ a ∈ l₂) :
    (l₁.map w).sum = (l₂.map w).sum := by
  rw [← List.sum_toFinset w h₁, ← List.sum_toFinset w h₂]
  have hsub : ∀ {l l' : List ValAddr}, (∀ a, w a ≠ 0 → a ∈ l) →
      l.toFinset.sum w = (l.toFinset ∪ l'.toFinset).sum w := by
    intro l l' hl
    apply Finset.sum_subset Finset.subset_union_left
    intro a _ ha
    by_contra hne
    exact ha (List.mem_toFinset.mpr (hl a hne))
  rw [hsub (fun a ha => (hw a ha).1), Finset.union_comm, ← hsub (fun a ha => (hw a ha).2)]

theorem totalPower_ballotOf (staking : StakingKeeper)
    {stored : SortedMap ValAddr AggregateExchangeRateVote} (hacc : AcceptedVotes stored)
    (denom : Denom) :
    totalPower (ballotOf (startClaims staking) stored denom) =
      votingPower staking stored denom := by
  rw [ballotOf_eq staking hacc, totalPower_filterMap]
  have hkeys : ∀ a, ((voteOf staking stored denom a).map VoteForTally.power).getD 0 ≠ 0 →
      a ∈ stored.keys ∧ a ∈ activeSet staking := by
    intro a ha
    rw [SortedMap.mem_keys]
    unfold voteOf rateOf at ha
    by_cases hact : a ∈ activeSet staking
    · cases hget : stored.get a with
      | none => simp [hget] at ha
      | some vote => exact ⟨rfl, hact⟩
    · simp [hact] at ha
  rw [sum_map_eq_of_support stored.keys_nodup (activeSet_nodup staking) hkeys]
  unfold votingPower
  congr 1
  apply List.map_congr_left
  intro a ha
  unfold voteOf
  rw [if_pos ha]
  cases rateOf stored denom a <;> rfl

theorem powerBehind_le (staking : StakingKeeper) (a : ValAddr) (rate : Dec) :
    powerBehind staking a rate ≤ powerOf staking.validators a := by
  unfold powerBehind
  split <;> simp

theorem powerBehind_nonneg (staking : StakingKeeper) (a : ValAddr) (rate : Dec) :
    0 ≤ powerBehind staking a rate := by
  unfold powerBehind
  split <;> simp

theorem votingPower_nonneg (staking : StakingKeeper)
    (stored : SortedMap ValAddr AggregateExchangeRateVote) (denom : Denom) :
    0 ≤ votingPower staking stored denom := by
  apply List.sum_nonneg
  intro x hx
  obtain ⟨a, _, rfl⟩ := List.mem_map.mp hx
  cases rateOf stored denom a with
  | none => exact le_rfl
  | some rate => exact powerBehind_nonneg staking a rate

/-- No ballot has more power than CometBFT allows the whole set. -/
theorem votingPower_le (staking : StakingKeeper)
    (stored : SortedMap ValAddr AggregateExchangeRateVote) (denom : Denom) :
    votingPower staking stored denom ≤ maxTotalVotingPower := by
  have hactive : votingPower staking stored denom ≤
      ((activeSet staking).map (fun a => (powerOf staking.validators a : ℤ))).sum := by
    apply List.sum_le_sum
    intro a _
    cases rateOf stored denom a with
    | none => exact Int.natCast_nonneg _
    | some rate => exact powerBehind_le staking a rate
  have hsub : (activeSet staking).Sublist staking.powerIndex :=
    (List.take_sublist _ _).trans List.filter_sublist
  have hnat : ((activeSet staking).map (powerOf staking.validators)).sum ≤ maxTotalVotingPower :=
    le_trans ((hsub.map _).sum_le_sum (fun _ _ => Nat.zero_le _)) staking.totalPower_le
  have hcast : ((activeSet staking).map (fun a => (powerOf staking.validators a : ℤ))).sum =
      (((activeSet staking).map (powerOf staking.validators)).sum : ℕ) := by
    rw [Nat.cast_list_sum, List.map_map]
    rfl
  omega

/-- The power of a ballot is the voting power behind its denom. -/
theorem power_ballotOf (staking : StakingKeeper)
    {stored : SortedMap ValAddr AggregateExchangeRateVote} (hacc : AcceptedVotes stored)
    (denom : Denom) :
    power (ballotOf (startClaims staking) stored denom) = votingPower staking stored denom := by
  rw [power_eq, totalPower_ballotOf staking hacc]
  have hle := votingPower_le staking stored denom
  have hnn := votingPower_nonneg staking stored denom
  have hmax : (maxTotalVotingPower : ℤ) < 2 ^ 63 := by decide
  exact toInt64_of_lt (by omega) (by omega)

end TerraClassic.Oracle
