import TerraClassic.Oracle.CommitReveal

/-! # Who votes for a validator

    A prevote or vote is signed by a feeder, a delegation by the operator.  Over a run in
    which anybody sends anything, what is stored for a validator was sent by its own account
    or by the feeder of the last delegation that its own account signed.

    * `Act`: a message that was accepted, with its signer.
    * `feederOf`: the feeder of a validator after some acts.
    * `SentFor`: a ballot message of the validator or of its feeder.
    * `feeder_run`: the result for runs.
-/

namespace TerraClassic.Oracle

/-! ### Signed messages -/

/-- `GetSigners`: each message has one. -/
def Event.signer (codec : Codec) : Event → Option AccAddr
  | .prevote _ msg => (codec.accAddressFromBech32 msg.feeder).toOption
  | .vote _ msg => (codec.accAddressFromBech32 msg.feeder).toOption
  | .delegate _ msg => (codec.valAddressFromBech32 msg.operator).toOption
  | .endBlock _ _ _ => none

/-- An accepted message. -/
inductive Act where
  /-- The signer names the feeder of an operator. -/
  | consent (signer : AccAddr) (operator : ValAddr) (delegate : AccAddr)
  /-- A prevote or a vote for a bonded validator. -/
  | ballot (signer : AccAddr) (validator : ValAddr) (record : Record)
  deriving DecidableEq

/-- The entry of an act in the log of the chain. -/
def Act.record : Act → Option Record
  | .consent _ _ _ => none
  | .ballot _ _ record => some record

/-- The feeder of a validator after some acts, the newest first. -/
def feederOf (start : Store) (validator : ValAddr) : List Act → AccAddr
  | [] => getFeederDelegation start validator
  | .consent _ operator delegate :: earlier =>
    if operator = validator then delegate else feederOf start validator earlier
  | .ballot _ _ _ :: earlier => feederOf start validator earlier

/-- A ballot message was accepted for `v`, signed by its own account or by the feeder that it
    had named by then. -/
def SentFor (start : Store) (acts : List Act) (v : ValAddr) (record : Record) : Prop :=
  ∃ signer earlier, .ballot signer v record :: earlier <:+ acts ∧
    (signer = v ∨ feederOf start v earlier = signer)

/-- The chain with the acts, the newest first. -/
structure FeederState where
  chain : ChainState
  acts : List Act

section Step

variable (codec : Codec) (votePeriod : UInt64)

/-- What an event of a sender does, if the chain accepts it. -/
def actOf (sender : AccAddr) (s : ChainState) : Event → Option Act
  | .prevote staking msg =>
    match (do
      msg.validateBasic codec
      aggregateExchangeRatePrevote codec staking s.height msg s.store) with
    | .ok _ => (codec.valAddressFromBech32 msg.validator).toOption.map
        (fun v => .ballot sender v (.prevote s.height msg))
    | .error _ => none
  | .vote staking msg =>
    match (do
      msg.validateBasic codec
      aggregateExchangeRateVote codec staking votePeriod s.height msg s.store) with
    | .ok _ => (codec.valAddressFromBech32 msg.validator).toOption.map
        (fun v => .ballot sender v (.vote s.height msg))
    | .error _ => none
  | .delegate staking msg =>
    match (do
      msg.validateBasic codec
      delegateFeedConsent codec staking msg s.store) with
    | .ok _ => do
      let operator ← (codec.valAddressFromBech32 msg.operator).toOption
      let delegate ← (codec.accAddressFromBech32 msg.delegate).toOption
      return .consent sender operator delegate
    | .error _ => none
  | .endBlock _ _ _ => none

/-- Somebody sends an event; a message whose signer is another is not delivered.  The end
    blocker is called by the chain, whoever is named. -/
def feederStep (s : FeederState) (sent : AccAddr × Event) : Option FeederState :=
  match sent.2.signer codec with
  | none =>
    match sent.2 with
    | .endBlock sched k params => do
      let chain ← step codec votePeriod s.chain (.endBlock sched k params)
      return { s with chain := chain }
    | _ => some s
  | some signer =>
    if sent.1 ≠ signer then some s
    else do
      let chain ← step codec votePeriod s.chain sent.2
      return ⟨chain, (actOf codec votePeriod sent.1 s.chain sent.2).toList ++ s.acts⟩

end Step

/-! ### What the handlers check -/

section Handlers

variable {codec : Codec} {staking : StakingKeeper} {height : BlockHeight} {st st' : Store}

theorem validateFeeder_ok {feederAddr : AccAddr} {validatorAddr : ValAddr}
    (h : validateFeeder codec staking st feederAddr validatorAddr = .ok ()) :
    feederAddr = validatorAddr ∨ getFeederDelegation st validatorAddr = feederAddr := by
  unfold validateFeeder at h
  by_cases hself : feederAddr = validatorAddr
  · exact Or.inl hself
  · by_cases hdelegate : getFeederDelegation st validatorAddr = feederAddr
    · exact Or.inr hdelegate
    · rw [if_pos hself, if_pos hdelegate] at h
      cases h

/-- The feeder of an accepted prevote. -/
theorem aggregateExchangeRatePrevote_feeder {msg : MsgAggregateExchangeRatePrevote}
    (h : aggregateExchangeRatePrevote codec staking height msg st = .ok st') :
    ∃ valAddr feederAddr, codec.valAddressFromBech32 msg.validator = .ok valAddr ∧
      codec.accAddressFromBech32 msg.feeder = .ok feederAddr ∧
      (feederAddr = valAddr ∨ getFeederDelegation st valAddr = feederAddr) ∧
      st'.feederDelegations = st.feederDelegations := by
  obtain ⟨valAddr, hval, h⟩ := Run.bind_eq_ok.mp h
  obtain ⟨feederAddr, hfeeder, h⟩ := Run.bind_eq_ok.mp h
  obtain ⟨_, hvalid, h⟩ := Run.bind_eq_ok.mp h
  obtain ⟨voteHash, _, h⟩ := Run.bind_eq_ok.mp h
  cases h
  exact ⟨valAddr, feederAddr, SdkError.mapError_eq_ok.mp hval, SdkError.mapError_eq_ok.mp hfeeder,
    validateFeeder_ok hvalid, rfl⟩

/-- The feeder of an accepted vote. -/
theorem aggregateExchangeRateVote_feeder {votePeriod : UInt64}
    {msg : MsgAggregateExchangeRateVote}
    (h : aggregateExchangeRateVote codec staking votePeriod height msg st = .ok st') :
    ∃ valAddr feederAddr, codec.valAddressFromBech32 msg.validator = .ok valAddr ∧
      codec.accAddressFromBech32 msg.feeder = .ok feederAddr ∧
      (feederAddr = valAddr ∨ getFeederDelegation st valAddr = feederAddr) ∧
      st'.feederDelegations = st.feederDelegations := by
  obtain ⟨valAddr, prevote, tuples, hval, _, _, _, _, _, _, rfl⟩ := aggregateExchangeRateVote_ok h
  -- the checks before the prevote is looked up
  obtain ⟨valAddr', hval', h⟩ := Run.bind_eq_ok.mp h
  obtain ⟨feederAddr, hfeeder, h⟩ := Run.bind_eq_ok.mp h
  obtain ⟨_, hvalid, _⟩ := Run.bind_eq_ok.mp h
  have hval' := SdkError.mapError_eq_ok.mp hval'
  rw [hval] at hval'
  cases hval'
  exact ⟨valAddr, feederAddr, hval, SdkError.mapError_eq_ok.mp hfeeder, validateFeeder_ok hvalid,
    rfl⟩

theorem delegateFeedConsent_feeder {msg : MsgDelegateFeedConsent}
    (h : delegateFeedConsent codec staking msg st = .ok st') :
    ∃ operator delegate, codec.valAddressFromBech32 msg.operator = .ok operator ∧
      codec.accAddressFromBech32 msg.delegate = .ok delegate ∧
      st' = { st with feederDelegations := st.feederDelegations.set operator delegate } := by
  obtain ⟨operator, hoperator, h⟩ := Run.bind_eq_ok.mp h
  obtain ⟨delegate, hdelegate, h⟩ := Run.bind_eq_ok.mp h
  cases hget : staking.validators.get operator with
  | none =>
    simp only [hget] at h
    cases h
  | some validator =>
    simp only [hget] at h
    cases h
    exact ⟨operator, delegate, SdkError.mapError_eq_ok.mp hoperator,
      SdkError.mapError_eq_ok.mp hdelegate, rfl⟩

end Handlers

/-! ### One event -/

section Events

variable {codec : Codec} {votePeriod : UInt64}

/-- The end blocker has no part in the delegations. -/
theorem endBlocker_feeders {sched : Schedule} {k : Keepers} {params : Params}
    {height : BlockHeight} {st : Store} {o : Outcome}
    (h : endBlocker sched k params height st = some o) :
    o.store.feederDelegations = st.feederDelegations := by
  cases hlast : isPeriodLastBlock height params.votePeriod with
  | none =>
    rw [endBlocker_eq, hlast] at h
    cases h
  | some last =>
    cases last with
    | false =>
      obtain ⟨missCounters, hstore⟩ := endBlocker_mid hlast h
      rw [hstore]
    | true =>
      obtain ⟨o', ho', hcase⟩ := endBlocker_last hlast h
      obtain ⟨_, _, _, _, _, _, _, _, rfl⟩ := endVotePeriod_eq_some ho'
      rcases hcase with ⟨_, rfl⟩ | ⟨_, slashes, rfl⟩
      · rfl
      · rfl

/-- An event is dropped, delivered for its signer, or the chain's own. -/
theorem feederStep_delivers {s s' : FeederState} {sender : AccAddr} {e : Event}
    (h : feederStep codec votePeriod s (sender, e) = some s') :
    s' = s ∨ (e.signer codec = some sender ∧ ∃ chain, step codec votePeriod s.chain e = some chain ∧
        s' = ⟨chain, (actOf codec votePeriod sender s.chain e).toList ++ s.acts⟩) ∨
      ∃ sched k params chain, step codec votePeriod s.chain (.endBlock sched k params) =
        some chain ∧ s' = { s with chain := chain } := by
  unfold feederStep at h
  cases hsigner : e.signer codec with
  | some signer =>
    simp only [hsigner] at h
    split at h
    · exact Or.inl (Option.some.inj h).symm
    · next hsender =>
      obtain ⟨chain, hstep, h⟩ := Option.bind_eq_some_iff.mp h
      cases h
      exact Or.inr (Or.inl ⟨congrArg some (not_not.mp hsender).symm, chain, hstep, rfl⟩)
  | none =>
    simp only [hsigner] at h
    cases e with
    | prevote staking msg => exact Or.inl (Option.some.inj h).symm
    | vote staking msg => exact Or.inl (Option.some.inj h).symm
    | delegate staking msg => exact Or.inl (Option.some.inj h).symm
    | endBlock sched k params =>
      obtain ⟨chain, hstep, h⟩ := Option.bind_eq_some_iff.mp h
      exact Or.inr (Or.inr ⟨sched, k, params, chain, hstep, (Option.some.inj h).symm⟩)

theorem toOption_eq_some {ε α : Type} {x : Except ε α} {a : α} (h : x = .ok a) :
    x.toOption = some a := by
  rw [h]
  rfl

/-- What a sender can do to the log and to the delegations. -/
theorem feederStep_cases {s s' : FeederState} {sender : AccAddr} {e : Event}
    (h : feederStep codec votePeriod s (sender, e) = some s') :
    (∃ v record, s'.acts = .ballot sender v record :: s.acts ∧
      s'.chain.log = record :: s.chain.log ∧ record.isFor codec v = true ∧
      (sender = v ∨ getFeederDelegation s.chain.store v = sender) ∧
      s'.chain.store.feederDelegations = s.chain.store.feederDelegations) ∨
    (∃ delegate, s'.acts = .consent sender sender delegate :: s.acts ∧
      s'.chain.log = s.chain.log ∧ s'.chain.store.feederDelegations =
        s.chain.store.feederDelegations.set sender delegate) ∨
    (s'.acts = s.acts ∧ s'.chain.log = s.chain.log ∧
      s'.chain.store.feederDelegations = s.chain.store.feederDelegations) := by
  rcases feederStep_delivers h with rfl | ⟨hsigner, chain, hstep, rfl⟩ |
    ⟨sched, k, params, chain, hstep, rfl⟩
  · exact Or.inr (Or.inr ⟨rfl, rfl, rfl⟩)
  · cases e with
    | prevote staking msg =>
      simp only [step] at hstep
      split at hstep
      · next store hok =>
        cases hstep
        obtain ⟨_, _, hhandled⟩ := Run.bind_eq_ok.mp hok
        obtain ⟨v, feeder, hval, hfeeder, hauth, hdelegations⟩ :=
          aggregateExchangeRatePrevote_feeder hhandled
        -- the signer of the message is the feeder that it names
        have hfeeder : feeder = sender :=
          Option.some.inj ((toOption_eq_some hfeeder).symm.trans hsigner)
        subst hfeeder
        refine Or.inl ⟨v, .prevote s.chain.height msg, ?_, rfl, (isFor_iff hval).mpr rfl, hauth,
          hdelegations⟩
        simp only [actOf, hok, toOption_eq_some hval]
        rfl
      · next hfailed =>
        cases hstep
        have hnone : actOf codec votePeriod sender s.chain (.prevote staking msg) = none := by
          simp only [actOf, hfailed]
        rw [hnone]
        exact Or.inr (Or.inr ⟨rfl, rfl, rfl⟩)
    | vote staking msg =>
      simp only [step] at hstep
      split at hstep
      · next store hok =>
        cases hstep
        obtain ⟨_, _, hhandled⟩ := Run.bind_eq_ok.mp hok
        obtain ⟨v, feeder, hval, hfeeder, hauth, hdelegations⟩ :=
          aggregateExchangeRateVote_feeder hhandled
        have hfeeder : feeder = sender :=
          Option.some.inj ((toOption_eq_some hfeeder).symm.trans hsigner)
        subst hfeeder
        refine Or.inl ⟨v, .vote s.chain.height msg, ?_, rfl, (isFor_iff hval).mpr rfl, hauth,
          hdelegations⟩
        simp only [actOf, hok, toOption_eq_some hval]
        rfl
      · next hfailed =>
        cases hstep
        have hnone : actOf codec votePeriod sender s.chain (.vote staking msg) = none := by
          simp only [actOf, hfailed]
        rw [hnone]
        exact Or.inr (Or.inr ⟨rfl, rfl, rfl⟩)
    | delegate staking msg =>
      simp only [step] at hstep
      split at hstep
      · next store hok =>
        cases hstep
        obtain ⟨_, _, hhandled⟩ := Run.bind_eq_ok.mp hok
        obtain ⟨operator, delegate, hoperator, hdelegate, hstore⟩ :=
          delegateFeedConsent_feeder hhandled
        have hsender : operator = sender :=
          Option.some.inj ((toOption_eq_some hoperator).symm.trans hsigner)
        subst hsender
        refine Or.inr (Or.inl ⟨delegate, ?_, rfl, by rw [hstore]⟩)
        simp only [actOf, hok, toOption_eq_some hoperator, toOption_eq_some hdelegate]
        rfl
      · next hfailed =>
        cases hstep
        have hnone : actOf codec votePeriod sender s.chain (.delegate staking msg) = none := by
          simp only [actOf, hfailed]
        rw [hnone]
        exact Or.inr (Or.inr ⟨rfl, rfl, rfl⟩)
    | endBlock sched k params => cases hsigner
  · obtain ⟨outcome, hend, hstep⟩ := Option.bind_eq_some_iff.mp hstep
    split at hstep
    · cases hstep
      exact Or.inr (Or.inr ⟨rfl, rfl, endBlocker_feeders hend⟩)
    · cases hstep

/-- A chain with senders makes the steps of the chain. -/
theorem feederStep_commits {s s' : FeederState} {sent : AccAddr × Event}
    (h : feederStep codec votePeriod s sent = some s') (hi : Inv codec votePeriod s.chain) :
    Inv codec votePeriod s'.chain := by
  rcases feederStep_delivers h with rfl | ⟨_, chain, hstep, rfl⟩ | ⟨_, _, _, chain, hstep, rfl⟩
  · exact hi
  · exact hi.step (step_sound hstep)
  · exact hi.step (step_sound hstep)

end Events

/-! ### Runs -/

/-- The delegations are the consents, the ballots are of the feeders, and the log is of the
    ballots. -/
structure FeederInv (codec : Codec) (start : Store) (s : FeederState) : Prop where
  feeders : ∀ v, getFeederDelegation s.chain.store v = feederOf start v s.acts
  consents : ∀ signer operator delegate, .consent signer operator delegate ∈ s.acts →
    signer = operator
  ballots : ∀ signer v record earlier, .ballot signer v record :: earlier <:+ s.acts →
    record.isFor codec v = true ∧ (signer = v ∨ feederOf start v earlier = signer)
  log : s.acts.filterMap Act.record = s.chain.log

section Runs

variable {codec : Codec} {votePeriod : UInt64} {start : Store}

theorem FeederInv.ballot {s s' : FeederState} (h : FeederInv codec start s) {sender : AccAddr}
    {v : ValAddr} {record : Record} (hacts : s'.acts = .ballot sender v record :: s.acts)
    (hlog : s'.chain.log = record :: s.chain.log) (hfor : record.isFor codec v = true)
    (hauth : sender = v ∨ getFeederDelegation s.chain.store v = sender)
    (hdelegations : s'.chain.store.feederDelegations = s.chain.store.feederDelegations) :
    FeederInv codec start s' := by
  refine ⟨?_, ?_, ?_, ?_⟩
  · intro a
    rw [hacts, getFeederDelegation, hdelegations]
    exact h.feeders a
  · intro signer operator delegate hmem
    rw [hacts] at hmem
    rcases List.mem_cons.mp hmem with heq | hmem
    · cases heq
    · exact h.consents signer operator delegate hmem
  · intro signer a r earlier hsuffix
    rw [hacts] at hsuffix
    rcases List.suffix_cons_iff.mp hsuffix with heq | hsuffix
    · -- the new ballot: the store before it names the feeder
      cases heq
      rw [← h.feeders]
      exact ⟨hfor, hauth⟩
    · exact h.ballots signer a r earlier hsuffix
  · rw [hacts, hlog, ← h.log]
    rfl

theorem FeederInv.consent {s s' : FeederState} (h : FeederInv codec start s)
    {sender delegate : AccAddr} (hacts : s'.acts = .consent sender sender delegate :: s.acts)
    (hlog : s'.chain.log = s.chain.log) (hdelegations : s'.chain.store.feederDelegations =
      s.chain.store.feederDelegations.set sender delegate) : FeederInv codec start s' := by
  refine ⟨?_, ?_, ?_, ?_⟩
  · intro a
    rw [hacts, getFeederDelegation, hdelegations]
    unfold SortedMap.getD feederOf
    rw [SortedMap.get_set]
    by_cases ha : a = sender
    · rw [if_pos ha, if_pos ha.symm]
      rfl
    · rw [if_neg ha, if_neg (Ne.symm ha)]
      exact h.feeders a
  · intro signer operator delegate' hmem
    rw [hacts] at hmem
    rcases List.mem_cons.mp hmem with heq | hmem
    · cases heq
      rfl
    · exact h.consents signer operator delegate' hmem
  · intro signer a record earlier hsuffix
    rw [hacts] at hsuffix
    rcases List.suffix_cons_iff.mp hsuffix with heq | hsuffix
    · cases heq
    · exact h.ballots signer a record earlier hsuffix
  · rw [hacts, hlog, ← h.log]
    rfl

theorem feederStep_inv {s s' : FeederState} {sent : AccAddr × Event}
    (hstep : feederStep codec votePeriod s sent = some s') (h : FeederInv codec start s) :
    FeederInv codec start s' := by
  rcases feederStep_cases hstep with ⟨v, record, hacts, hlog, hfor, hauth, hdelegations⟩ |
    ⟨delegate, hacts, hlog, hdelegations⟩ | ⟨hacts, hlog, hdelegations⟩
  · exact h.ballot hacts hlog hfor hauth hdelegations
  · exact h.consent hacts hlog hdelegations
  · refine ⟨?_, ?_, ?_, ?_⟩
    · intro v
      rw [hacts, getFeederDelegation, hdelegations]
      exact h.feeders v
    · rw [hacts]
      exact h.consents
    · rw [hacts]
      exact h.ballots
    · rw [hacts, hlog]
      exact h.log

/-- What was accepted for a validator was sent for it. -/
theorem FeederInv.sentFor {s : FeederState} (h : FeederInv codec start s) {v : ValAddr}
    {record : Record} (hmem : record ∈ s.chain.log) (hfor : record.isFor codec v = true) :
    SentFor start s.acts v record := by
  rw [← h.log] at hmem
  obtain ⟨act, hact, hrecord⟩ := List.mem_filterMap.mp hmem
  cases act with
  | consent signer operator delegate => cases hrecord
  | ballot signer v' record' =>
    cases hrecord
    obtain ⟨newer, earlier, hsplit⟩ := List.append_of_mem hact
    have hsuffix : .ballot signer v' record :: earlier <:+ s.acts := ⟨newer, hsplit.symm⟩
    obtain ⟨hfor', hauth⟩ := h.ballots signer v' record earlier hsuffix
    -- a message names one validator
    obtain rfl : v = v' := (isFor_iff (of_decide_eq_true hfor')).mp hfor
    exact ⟨signer, earlier, hsuffix, hauth⟩

/-- In every run in which anybody sends anything, from a store without prevotes and votes: a
    feeder is named by the operator itself, the delegations in the store are the last ones
    so named, each accepted prevote and vote was signed by the validator's own account or by
    the feeder that it had named at that time, and the prevote and the vote that are stored for
    a validator are those of such messages. -/
theorem feeder_run (hprevotes : start.prevotes = ∅) (hvotes : start.votes = ∅)
    {height : BlockHeight} {sent : List (AccAddr × Event)} {s : FeederState}
    (hrun : Run.run (feederStep codec votePeriod) sent ⟨ChainState.start height start, []⟩ =
      some s) :
    FeederInv codec start s ∧
    (∀ v prevote, s.chain.store.prevotes.get v = some prevote →
      ∃ submitBlock msg voteHash, SentFor start s.acts v (.prevote submitBlock msg) ∧
        aggregateVoteHashFromHexString msg.hash = .ok voteHash ∧
        prevote = ⟨hexEncode voteHash, v, UInt64.ofNat submitBlock.val⟩) ∧
    ∀ v vote, s.chain.store.votes.get v = some vote →
      ∃ block msg, SentFor start s.acts v (.vote block msg) ∧
        parseExchangeRateTuples codec msg.exchangeRates = .ok vote.exchangeRateTuples ∧
        vote.voter = v := by
  have hstart : FeederInv codec start ⟨ChainState.start height start, []⟩ := by
    refine ⟨fun v => rfl, ?_, ?_, rfl⟩
    · intro signer operator delegate hmem
      cases hmem
    · intro signer v record earlier hsuffix
      cases List.suffix_nil.mp hsuffix
  have hinv : FeederInv codec start s :=
    Run.run_invariant (fun _ _ _ hstep h => feederStep_inv hstep h) hrun hstart
  have hcommits : Inv codec votePeriod s.chain :=
    Run.run_invariant (I := fun s : FeederState => Inv codec votePeriod s.chain)
      (fun _ _ _ hstep h => feederStep_commits hstep h) hrun (Inv.start hprevotes hvotes)
  refine ⟨hinv, ?_, ?_⟩
  · intro v prevote hget
    obtain ⟨submitBlock, msg, voteHash, hlatest, hhash, hprevote⟩ :=
      hcommits.prevotes v prevote hget
    have hsent := hinv.sentFor (List.mem_of_find?_eq_some hlatest) (List.find?_some hlatest)
    exact ⟨submitBlock, msg, voteHash, hsent, hhash, hprevote⟩
  · intro v vote hget
    obtain ⟨block, msg, hmem, _, hval, hparse, hvoter⟩ := (hcommits.votes v vote).mp hget
    exact ⟨block, msg, hinv.sentFor hmem ((isFor_iff (r := .vote block msg) hval).mpr rfl), hparse,
      hvoter⟩

end Runs

/-! ### On a small chain -/

/-- Somebody else sends the prevote in vain; then the validator commits, names a feeder and
    reveals. -/
def smallSent : List (AccAddr × Event) := [
  ("z", .prevote smallStaking smallPrevote),
  ("a", .prevote smallStaking smallPrevote),
  ("", .endBlock .inOrder smallKeepers smallParams),
  ("a", .delegate smallStaking ⟨"terravaloper1vy3vsmy0", "terra1vynex3pr"⟩),
  ("a", .vote smallStaking smallVote)]

theorem feeder_run_own_account :
    ∃ s, Run.run (feederStep smallCodec 5) smallSent
        ⟨ChainState.start ⟨4, by decide⟩ (smallStore []), []⟩ = some s ∧
      s.acts = [.ballot "a" "a" (.vote ⟨5, by decide⟩ smallVote), .consent "a" "a" "a",
        .ballot "a" "a" (.prevote ⟨4, by decide⟩ smallPrevote)] ∧
      ∃ block msg, SentFor (smallStore []) s.acts "a" (.vote block msg) ∧
        parseExchangeRateTuples smallCodec msg.exchangeRates =
          .ok [⟨"ukrw", Dec.withPrec 20 1⟩] := by
  have hacts : (Run.run (feederStep smallCodec 5) smallSent
      ⟨ChainState.start ⟨4, by decide⟩ (smallStore []), []⟩).map
        (fun s => (s.acts, s.chain.store.votes.get "a")) =
      some ([.ballot "a" "a" (.vote ⟨5, by decide⟩ smallVote), .consent "a" "a" "a",
        .ballot "a" "a" (.prevote ⟨4, by decide⟩ smallPrevote)],
        some ⟨[⟨"ukrw", Dec.withPrec 20 1⟩], "a"⟩) := by decide +kernel
  obtain ⟨s, hrun, hs⟩ := Option.map_eq_some_iff.mp hacts
  obtain ⟨hacts, hvote⟩ := Prod.mk.inj hs
  obtain ⟨block, msg, hsent, hparse, _⟩ := (feeder_run rfl rfl hrun).2.2 "a" _ hvote
  exact ⟨s, hrun, hacts, block, msg, hsent, hparse⟩

end TerraClassic.Oracle
