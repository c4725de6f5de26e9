import TerraClassic.Oracle.Msgs
import TerraClassic.Oracle.Period

/-! # Runs of the oracle

    A run delivers prevotes, votes and feeder delegations in any order, from
    any feeders, and calls the end blocker once for each block.  Staking and
    the other keepers may be different at every step; the vote period stays
    the same.

    `ChainState.log` is a ghost variable: the accepted prevotes and votes,
    newest first.  Nothing the code does depends on it; the results of
    `CommitReveal` compare the store with it.
-/

namespace TerraClassic.Oracle

/-- An accepted prevote or vote message, with the block it was accepted in. -/
inductive Record where
  | prevote (height : BlockHeight) (msg : MsgAggregateExchangeRatePrevote)
  | vote (height : BlockHeight) (msg : MsgAggregateExchangeRateVote)
  deriving DecidableEq

def Record.height : Record → BlockHeight
  | .prevote height _ => height
  | .vote height _ => height

/-- The validator a message names. -/
def Record.validator : Record → String
  | .prevote _ msg => msg.validator
  | .vote _ msg => msg.validator

/-- The message was accepted for the validator `v`. -/
def Record.isFor (codec : Codec) (v : ValAddr) (r : Record) : Bool :=
  codec.valAddressFromBech32 r.validator = .ok v

/-- The last message accepted for `v`. -/
def latest (codec : Codec) (v : ValAddr) (log : List Record) : Option Record :=
  log.find? (Record.isFor codec v)

/-- The last prevote accepted for `v`. -/
def lastPrevote (codec : Codec) (v : ValAddr) (log : List Record) :
    Option (BlockHeight × MsgAggregateExchangeRatePrevote) :=
  log.findSome? fun
    | .prevote height msg =>
      if (Record.prevote height msg).isFor codec v then some (height, msg) else none
    | .vote _ _ => none

structure ChainState where
  height : BlockHeight
  store : Store
  log : List Record

/-- A chain before the first message. -/
def ChainState.start (height : BlockHeight) (store : Store) : ChainState := ⟨height, store, []⟩

inductive Event where
  | prevote (staking : StakingKeeper) (msg : MsgAggregateExchangeRatePrevote)
  | vote (staking : StakingKeeper) (msg : MsgAggregateExchangeRateVote)
  | delegate (staking : StakingKeeper) (msg : MsgDelegateFeedConsent)
  | endBlock (sched : Schedule) (k : Keepers) (params : Params)

/-- Deliver one message, or end the block.  A message that fails changes
    nothing; an end blocker that panics halts the chain. -/
def step (codec : Codec) (votePeriod : UInt64) (s : ChainState) : Event → Option ChainState
  | .prevote staking msg =>
    match (do
      msg.validateBasic codec
      aggregateExchangeRatePrevote codec staking s.height msg s.store) with
    | .ok store => some { s with store := store, log := .prevote s.height msg :: s.log }
    | .error _ => some s
  | .vote staking msg =>
    match (do
      msg.validateBasic codec
      aggregateExchangeRateVote codec staking votePeriod s.height msg s.store) with
    | .ok store => some { s with store := store, log := .vote s.height msg :: s.log }
    | .error _ => some s
  | .delegate staking msg =>
    match (do
      msg.validateBasic codec
      delegateFeedConsent codec staking msg s.store) with
    | .ok store => some { s with store := store }
    | .error _ => some s
  | .endBlock sched k params => do
    let outcome ← endBlocker sched k { params with votePeriod := votePeriod } s.height s.store
    if h : s.height.val + 1 < 2 ^ 63 then
      return { s with height := ⟨s.height.val + 1, h⟩, store := outcome.store }
    else failure

/-! ### What one step can do -/

/-- The steps of the chain, with everything the code checked on the way. -/
inductive Step (codec : Codec) (votePeriod : UInt64) (s : ChainState) : ChainState → Prop where
  | failed : Step codec votePeriod s s
  | prevote (msg : MsgAggregateExchangeRatePrevote) (v : ValAddr) (voteHash : List UInt8)
      (hval : codec.valAddressFromBech32 msg.validator = .ok v)
      (hhash : aggregateVoteHashFromHexString msg.hash = .ok voteHash) :
      Step codec votePeriod s {
        height := s.height
        store := { s.store with
          prevotes := s.store.prevotes.set v
            ⟨hexEncode voteHash, v, UInt64.ofNat s.height.val⟩ }
        log := .prevote s.height msg :: s.log }
  | vote (msg : MsgAggregateExchangeRateVote) (v : ValAddr)
      (prevote : AggregateExchangeRatePrevote) (tuples : List ExchangeRateTuple)
      (hbasic : msg.validateBasic codec = .ok ())
      (hval : codec.valAddressFromBech32 msg.validator = .ok v)
      (hget : s.store.prevotes.get v = some prevote) (hP : votePeriod ≠ 0)
      (hperiod : revealPeriod s.height prevote.submitBlock votePeriod = true)
      (hparse : parseExchangeRateTuples codec msg.exchangeRates = .ok tuples)
      (htargets : ∀ t ∈ tuples, (s.store.tobinTaxes.get t.denom).isSome)
      (hhash : prevote.hash =
        hexEncode (getAggregateVoteHash codec msg.salt msg.exchangeRates v)) :
      Step codec votePeriod s {
        height := s.height
        store := { s.store with
          votes := s.store.votes.set v ⟨tuples, v⟩
          prevotes := s.store.prevotes.erase v }
        log := .vote s.height msg :: s.log }
  | delegate (delegations : SortedMap ValAddr AccAddr) :
      Step codec votePeriod s
        { s with store := { s.store with feederDelegations := delegations } }
  | endBlock (sched : Schedule) (k : Keepers) (params : Params) (outcome : Outcome)
      (hheight : s.height.val + 1 < 2 ^ 63)
      (hend : endBlocker sched k { params with votePeriod := votePeriod } s.height s.store =
        some outcome) :
      Step codec votePeriod s
        { s with height := ⟨s.height.val + 1, hheight⟩, store := outcome.store }

theorem step_sound {codec : Codec} {votePeriod : UInt64} {s s' : ChainState} {e : Event}
    (h : step codec votePeriod s e = some s') : Step codec votePeriod s s' := by
  cases e with
  | prevote staking msg =>
    simp only [step] at h
    split at h
    · next store hok =>
      cases h
      obtain ⟨_, _, hok⟩ := Run.bind_eq_ok.mp hok
      obtain ⟨v, voteHash, hval, hhash, rfl⟩ := aggregateExchangeRatePrevote_ok hok
      exact .prevote msg v voteHash hval hhash
    · cases h
      exact .failed
  | vote staking msg =>
    simp only [step] at h
    split at h
    · next store hok =>
      cases h
      obtain ⟨_, hbasic, hok⟩ := Run.bind_eq_ok.mp hok
      obtain ⟨v, prevote, tuples, hval, hget, hP, hperiod, hparse, htargets, hhash, rfl⟩ :=
        aggregateExchangeRateVote_ok hok
      exact .vote msg v prevote tuples hbasic hval hget hP hperiod hparse htargets hhash
    · cases h
      exact .failed
  | delegate staking msg =>
    simp only [step] at h
    split at h
    · next store hok =>
      cases h
      obtain ⟨_, _, hok⟩ := Run.bind_eq_ok.mp hok
      obtain ⟨delegations, rfl⟩ := delegateFeedConsent_ok hok
      exact .delegate delegations
    · cases h
      exact .failed
  | endBlock sched k params =>
    obtain ⟨outcome, hend, h⟩ := Option.bind_eq_some_iff.mp h
    split at h
    · next hheight =>
      cases h
      exact .endBlock sched k params outcome hheight hend
    · cases h

/-- What every `Step` keeps, every run keeps. -/
theorem run_step_invariant {codec : Codec} {votePeriod : UInt64} {I : ChainState → Prop}
    (hstep : ∀ s s', Step codec votePeriod s s' → I s → I s') {events : List Event}
    {s s' : ChainState} (h : Run.run (step codec votePeriod) events s = some s') (hs : I s) :
    I s' :=
  Run.run_invariant (fun s _ s' he => hstep s s' (step_sound he)) h hs

/-! ### The end blocker on prevotes and votes -/

theorem isPeriodLastBlock_eq_some {height : BlockHeight} {period : UInt64} {b : Bool}
    (h : isPeriodLastBlock height period = some b) :
    0 < period.toNat ∧ (b = true ↔ (height.val + 1) % period.toNat = 0) := by
  unfold isPeriodLastBlock at h
  split at h
  · cases h
  · next hP =>
    have hpos : 0 < period.toNat := by
      rw [Nat.pos_iff_ne_zero]
      intro h0
      exact hP (UInt64.toNat_inj.mp h0)
    have hnat : toUint64 ((height.val : ℤ) + 1) = height.val + 1 := by
      unfold toUint64
      have := height.isLt
      omega
    rw [hnat] at h
    cases h
    exact ⟨hpos, by simp⟩

/-- The slash window part writes the miss counters only. -/
theorem endSlashWindow_store {k : Keepers} {params : Params} {height : BlockHeight}
    {o o' : Outcome} (h : endSlashWindow k params height o = some o') :
    ∃ missCounters, o'.store = { o.store with missCounters := missCounters } := by
  obtain ⟨b, _, h⟩ := Option.bind_eq_some_iff.mp h
  cases b with
  | false =>
    rw [if_neg Bool.false_ne_true] at h
    cases h
    exact ⟨o.store.missCounters, rfl⟩
  | true =>
    rw [if_pos rfl] at h
    obtain ⟨slashes, _, rfl⟩ := Option.map_eq_some_iff.mp h
    exact ⟨∅, rfl⟩

/-- Within a vote period the end blocker writes the miss counters at most. -/
theorem endBlocker_mid {sched : Schedule} {k : Keepers} {params : Params}
    {height : BlockHeight} {st : Store} {o : Outcome}
    (hmid : isPeriodLastBlock height params.votePeriod = some false)
    (h : endBlocker sched k params height st = some o) :
    ∃ missCounters, o.store = { st with missCounters := missCounters } := by
  rw [endBlocker_eq, hmid, Option.bind_some, if_neg Bool.false_ne_true, Option.bind_some] at h
  exact endSlashWindow_store h

/-- At the last block of a vote period the end blocker drops every vote and the
    expired prevotes; at any other block it keeps them all. -/
theorem endBlocker_ballots {sched : Schedule} {k : Keepers} {params : Params}
    {height : BlockHeight} {st : Store} {o : Outcome}
    (h : endBlocker sched k params height st = some o) :
    (isPeriodLastBlock height params.votePeriod = some true ∧ o.store.votes = ∅ ∧
      o.store.prevotes = clearPrevotes height params.votePeriod st.prevotes) ∨
    (isPeriodLastBlock height params.votePeriod = some false ∧ o.store.votes = st.votes ∧
      o.store.prevotes = st.prevotes) := by
  cases hlast : isPeriodLastBlock height params.votePeriod with
  | none =>
    rw [endBlocker_eq, hlast] at h
    cases h
  | some last =>
    cases last with
    | false =>
      obtain ⟨missCounters, hstore⟩ := endBlocker_mid hlast h
      rw [hstore]
      exact Or.inr ⟨rfl, rfl, rfl⟩
    | true =>
      obtain ⟨o', ho', hcase⟩ := endBlocker_last hlast h
      obtain ⟨_, _, _, _, _, _, _, _, rfl⟩ := endVotePeriod_eq_some ho'
      rcases hcase with ⟨_, rfl⟩ | ⟨_, slashes, rfl⟩
      · exact Or.inl ⟨rfl, rfl, rfl⟩
      · exact Or.inl ⟨rfl, rfl, rfl⟩

/-! ### Stored votes are accepted votes -/

theorem acceptedVotes_step {codec : Codec} {votePeriod : UInt64} {s s' : ChainState}
    (h : Step codec votePeriod s s') (hacc : AcceptedVotes s.store.votes) :
    AcceptedVotes s'.store.votes := by
  cases h with
  | failed => exact hacc
  | prevote msg v voteHash hval hhash => exact hacc
  | vote msg v prevote tuples hbasic hval hget hP hperiod hparse htargets hhash =>
    intro a w hw
    rw [SortedMap.get_set] at hw
    split at hw
    · next heq =>
      cases hw
      obtain ⟨hnodup, hrates⟩ := parseExchangeRateTuples_ok hparse
      exact ⟨heq.symm, hnodup, fun t ht => (hrates t ht).1,
        fun t ht => ⟨(hrates t ht).2, validateBasic_rates_fit hbasic hparse t ht⟩⟩
    · exact hacc a w hw
  | delegate delegations => exact hacc
  | endBlock sched k params outcome hheight hend =>
    rcases endBlocker_ballots hend with ⟨_, hvotes, _⟩ | ⟨_, hvotes, _⟩
    · intro a w hw
      rw [hvotes] at hw
      cases hw
    · rw [hvotes]
      exact hacc

/-- The votes the end blocker tallies passed the checks of the message server. -/
theorem acceptedVotes_run {codec : Codec} {votePeriod : UInt64} {height : BlockHeight}
    {store : Store} (hvotes : store.votes = ∅) {events : List Event} {s : ChainState}
    (hrun : Run.run (step codec votePeriod) events (ChainState.start height store) = some s) :
    AcceptedVotes s.store.votes := by
  refine run_step_invariant (fun _ _ h hacc => acceptedVotes_step h hacc) hrun ?_
  intro a w hw
  rw [ChainState.start, hvotes] at hw
  cases hw

/-! ### A small chain, for examples -/

/-- The libraries on the texts of one prevote and its vote. -/
def smallCodec : Codec where
  accAddressFromBech32 := fun s =>
    if s = "terra1vynex3pr" then .ok "a" else .error "decoding bech32 failed"
  valAddressFromBech32 := fun s =>
    if s = "terravaloper1vy3vsmy0" then .ok "a" else .error "decoding bech32 failed"
  accAddressString := fun _ => "terra1vynex3pr"
  valAddressString := fun _ => "terravaloper1vy3vsmy0"
  parseDecCoin := fun s =>
    if s = "2.0ukrw" then .ok ("ukrw", Dec.withPrec 20 1) else .error "invalid decimal coin"
  truncatedHash := fun s =>
    if s = "1234:2.0ukrw:terravaloper1vy3vsmy0" then
      [201, 29, 15, 210, 69, 187, 43, 76, 150, 193, 82, 110, 155, 79, 54, 226, 152, 29, 108, 120]
    else []
  parseDecCoin_named := by
    intro s denom rate h
    split at h
    · cases h
      decide
    · cases h
  parseDecCoin_nonneg := by
    intro s denom rate h
    split at h
    · cases h
      decide
    · cases h

def smallPrevote : MsgAggregateExchangeRatePrevote where
  hash := "c91d0fd245bb2b4c96c1526e9b4f36e2981d6c78"
  feeder := "terra1vynex3pr"
  validator := "terravaloper1vy3vsmy0"

def smallVote : MsgAggregateExchangeRateVote where
  salt := "1234"
  exchangeRates := "2.0ukrw"
  feeder := "terra1vynex3pr"
  validator := "terravaloper1vy3vsmy0"

/-- A prevote in one block, its vote in the next. -/
def smallEvents : List Event := [
  .prevote smallStaking smallPrevote,
  .endBlock .inOrder smallKeepers smallParams,
  .vote smallStaking smallVote,
  .endBlock .inOrder smallKeepers smallParams]

end TerraClassic.Oracle
