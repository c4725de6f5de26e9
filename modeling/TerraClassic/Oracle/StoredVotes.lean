import Mathlib
import TerraClassic.Oracle.Chain

/-! # Stored votes name current targets

    A vote is checked against the vote targets when it is revealed.  The targets
    change later, when the end blocker applies a whitelist that governance has
    changed, but only in the block and after the step that deletes every vote.
    So a stored vote and the targets it was checked against always go together.
-/

namespace TerraClassic.Oracle

/-- What holds of a stored vote: its denoms are distinct and are vote targets, no
    rate is negative, and its `Voter` is the text of the address that is its key. -/
structure WellFormedVote (codec : Codec) (targets : SortedMap Denom Dec) (a : ValAddr)
    (vote : AggregateExchangeRateVote) : Prop where
  distinct : (vote.exchangeRateTuples.map ExchangeRateTuple.denom).Nodup
  targets : ∀ t ∈ vote.exchangeRateTuples, (targets.get t.denom).isSome
  nonneg : ∀ t ∈ vote.exchangeRateTuples, 0 ≤ t.exchangeRate.i
  voter : codec.valAddressString vote.voter = codec.valAddressString a

/-- Every denom of a stored vote is a vote target. -/
def TargetsCurrent (st : Store) : Prop :=
  ∀ a vote, st.votes.get a = some vote →
    ∀ t ∈ vote.exchangeRateTuples, (st.tobinTaxes.get t.denom).isSome

theorem targetsCurrent_step {codec : Codec} {votePeriod : UInt64} {s s' : ChainState}
    (h : Step codec votePeriod s s') (hs : TargetsCurrent s.store) : TargetsCurrent s'.store := by
  cases h with
  | failed => exact hs
  | prevote msg v voteHash hval hhash => exact hs
  | vote msg v prevote tuples hbasic hval hget hP hperiod hparse htargets hhash =>
    intro a w hw
    rw [SortedMap.get_set] at hw
    split at hw
    · cases hw
      exact htargets
    · exact hs a w hw
  | delegate delegations => exact hs
  | endBlock sched k params outcome hheight hend =>
    rcases endBlocker_ballots hend with ⟨_, hvotes, _⟩ | ⟨hmid, _, _⟩
    · -- the targets may be new here, but there are no votes
      intro a w hw
      rw [hvotes] at hw
      cases hw
    · obtain ⟨missCounters, hstore⟩ := endBlocker_mid hmid hend
      show TargetsCurrent outcome.store
      rw [hstore]
      exact hs

theorem targetsCurrent_run {codec : Codec} {votePeriod : UInt64} {height : BlockHeight}
    {store : Store} (hvotes : store.votes = ∅) {events : List Event} {s : ChainState}
    (hrun : Run.run (step codec votePeriod) events (ChainState.start height store) = some s) :
    TargetsCurrent s.store := by
  refine run_step_invariant (fun _ _ h hs => targetsCurrent_step h hs) hrun ?_
  intro a w hw
  rw [ChainState.start, hvotes] at hw
  cases hw

/-- The ballots of votes that name targets only are ballots of targets. -/
theorem organizeBallotByDenom_targets {st : Store} (hst : TargetsCurrent st) (sched : Schedule)
    (claims : SortedMap ValAddr Claim) {d : Denom} {b : ExchangeRateBallot}
    (hb : (organizeBallotByDenom sched claims st.votes).get d = some b) :
    (st.tobinTaxes.get d).isSome := by
  rw [organizeBallotByDenom_get] at hb
  split at hb
  · cases hb
  · next hne =>
    -- some vote is in the ballot, and one of its tuples has the denom
    obtain ⟨v, hv⟩ := List.exists_mem_of_ne_nil _ hne
    obtain ⟨e, he, hve⟩ := List.mem_flatMap.mp hv
    unfold votesOfEntry at hve
    split at hve
    · obtain ⟨t, ht, _⟩ := List.mem_map.mp hve
      obtain ⟨hmem, hd⟩ := List.mem_filter.mp ht
      have hd : t.denom = d := by simpa using hd
      rw [← hd]
      exact hst e.1 e.2 (SortedMap.mem_entries.mp he) t hmem
    · cases hve

/-- In every run from a state without votes, with governance changing the whitelist
    between the blocks as it likes: the stored votes are well formed, and in the ballots
    the end blocker builds of them each voter has one vote and each denom is a target. -/
theorem stored_votes_well_formed (codec : Codec) (votePeriod : UInt64) (height : BlockHeight)
    (store : Store) (hvotes : store.votes = ∅) (events : List Event) (s : ChainState)
    (hrun : Run.run (step codec votePeriod) events (ChainState.start height store) = some s) :
    (∀ a vote, s.store.votes.get a = some vote →
      WellFormedVote codec s.store.tobinTaxes a vote) ∧
    ∀ (sched : Schedule) (k : Keepers) (claims : SortedMap ValAddr Claim),
      buildClaims k.staking = some claims → ∀ d b,
        (organizeBallotByDenom sched claims s.store.votes).get d = some b →
        (b.map VoteForTally.voter).Nodup ∧ (s.store.tobinTaxes.get d).isSome := by
  have hacc := acceptedVotes_run hvotes hrun
  have hcurrent := targetsCurrent_run hvotes hrun
  constructor
  · intro a vote hget
    have hok := hacc a vote hget
    exact ⟨hok.nodup, hcurrent a vote hget, fun t ht => (hok.rates t ht).1, by rw [hok.voter]⟩
  · intro sched k claims hclaims d b hb
    refine ⟨?_, organizeBallotByDenom_targets hcurrent sched claims hb⟩
    rw [buildClaims_eq] at hclaims
    cases hclaims
    rw [organizeBallotByDenom_get] at hb
    split at hb
    · cases hb
    · cases hb
      rw [((sched.sort_perm _).map VoteForTally.voter).nodup_iff]
      exact ballotOf_voters_nodup k.staking hacc d

/-- After a prevote and its vote there is one stored vote, for a target. -/
theorem stored_votes_well_formed_one :
    ∃ s, Run.run (step smallCodec 1) (smallEvents.take 3)
        (ChainState.start ⟨0, by norm_num⟩ (smallStore [])) = some s ∧
      s.store.votes.get "a" = some ⟨[⟨"ukrw", Dec.withPrec 20 1⟩], "a"⟩ ∧
      WellFormedVote smallCodec s.store.tobinTaxes "a" ⟨[⟨"ukrw", Dec.withPrec 20 1⟩], "a"⟩ := by
  have hrun : (Run.run (step smallCodec 1) (smallEvents.take 3)
      (ChainState.start ⟨0, by norm_num⟩ (smallStore []))).map (fun s => s.store.votes.get "a") =
      some (some ⟨[⟨"ukrw", Dec.withPrec 20 1⟩], "a"⟩) := by decide +kernel
  obtain ⟨s, hs, hget⟩ := Option.map_eq_some_iff.mp hrun
  exact ⟨s, hs, hget, (stored_votes_well_formed smallCodec 1 _ _ rfl _ s hs).1 _ _ hget⟩

end TerraClassic.Oracle
