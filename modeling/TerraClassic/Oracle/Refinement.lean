import TerraClassic.Lib.Simulation
import TerraClassic.Oracle.Represents
import TerraClassic.Oracle.Slash

/-! # The byte-keyed oracle refines the oracle of records

    The bottom level is `RawKeeper`, the upper one the chain of records in `Chain`.

    * `aggregateExchangeRateVote_refines` and its like: a handler writes what the record's
      handler writes, or fails with the same error.
    * `endBlocker_refines`: the end blocker tallies, pays, slashes and stores the same.
    * `oracle_store_refines`: so does every run, and afterwards the getters, the iterators,
      the next vote and the next end blocker answer from the record.
-/

namespace TerraClassic.Oracle.Raw

open SdkError (wrapErr orPanic)
open Simulation (RelExcept rel_bind rel_bind_same rel_bind_read rel_foldlM)

/-! ### Message handlers -/

section Handlers

variable {codec : ByteCodec} {kv : KVStore} {st : Store} {staking : StakingKeeper}
  {bz feeder : Bytes}

theorem parseVal_eq (codec : ByteCodec) (s : String) :
    parseAddress (codec.toCodec.valAddressFromBech32 s) =
      (parseAddress (codec.valAddressFromBech32 s)).map addressOf := by
  show parseAddress ((codec.valAddressFromBech32 s).map addressOf) = _
  cases codec.valAddressFromBech32 s <;> rfl

theorem parseAcc_eq (codec : ByteCodec) (s : String) :
    parseAddress (codec.toCodec.accAddressFromBech32 s) =
      (parseAddress (codec.accAddressFromBech32 s)).map addressOf := by
  show parseAddress ((codec.accAddressFromBech32 s).map addressOf) = _
  cases codec.accAddressFromBech32 s <;> rfl

theorem isAddress_of_parseVal {s : String}
    (h : parseAddress (codec.valAddressFromBech32 s) = .ok bz) : IsAddress bz :=
  codec.val_isAddress (SdkError.mapError_eq_ok.mp h)

theorem isAddress_of_parseAcc {s : String}
    (h : parseAddress (codec.accAddressFromBech32 s) = .ok bz) : IsAddress bz :=
  codec.acc_isAddress (SdkError.mapError_eq_ok.mp h)

theorem getFeederDelegation_mem (h : Represents codec kv st) (hbz : IsAddress bz) :
    Oracle.getFeederDelegation st (addressOf bz) ∈ addresses := by
  unfold Oracle.getFeederDelegation SortedMap.getD
  cases hget : st.feederDelegations.get (addressOf bz) with
  | none => exact addressOf_mem hbz
  | some a => exact (h .feederDelegation).2 _ a hget

theorem checkFeeder_eq (h : Represents codec kv st) (hbz : IsAddress bz) :
    checkFeeder codec kv feeder bz =
      if feeder ≠ bz then
        if addressBytes (Oracle.getFeederDelegation st (addressOf bz)) ≠ feeder then
          .error (.wrap .noVotingPermission (codec.accAddressString feeder))
        else .ok ()
      else .ok () := by
  unfold checkFeeder
  rw [getFeederDelegation_eq h hbz]
  rfl

theorem validateFeeder_eq (h : Represents codec kv st) (hbz : IsAddress bz) :
    validateFeeder codec staking kv feeder bz =
      Oracle.validateFeeder codec.toCodec staking st (addressOf feeder) (addressOf bz) := by
  unfold validateFeeder Oracle.validateFeeder
  rw [checkFeeder_eq h hbz]
  simp only [ByteCodec.toCodec, addressBytes_addressOf]
  -- the store compares the bytes of two addresses, the record their texts
  by_cases hself : feeder = bz
  · subst hself
    simp only [ne_eq, not_true_eq_false, if_false]
    rfl
  have hself' : addressOf feeder ≠ addressOf bz := fun heq => hself (addressOf_injective heq)
  simp only [ne_eq, hself, hself', not_false_eq_true, if_true]
  by_cases hconsent : Oracle.getFeederDelegation st (addressOf bz) = addressOf feeder
  · simp only [hconsent, addressBytes_addressOf, not_true_eq_false, if_false]
    rfl
  · have hconsent' : addressBytes (Oracle.getFeederDelegation st (addressOf bz)) ≠ feeder := by
      intro heq
      rw [← heq, addressOf_addressBytes (getFeederDelegation_mem h hbz)] at hconsent
      exact hconsent rfl
    simp only [hconsent, hconsent', not_false_eq_true, if_true]
    rfl

theorem aggregateExchangeRatePrevote_refines (h : Represents codec kv st)
    (height : BlockHeight) (msg : MsgAggregateExchangeRatePrevote) :
    RelExcept (Represents codec)
      (aggregateExchangeRatePrevote codec staking height msg kv)
      (Oracle.aggregateExchangeRatePrevote codec.toCodec staking height msg st) := by
  unfold aggregateExchangeRatePrevote Oracle.aggregateExchangeRatePrevote
  simp only [parseVal_eq, parseAcc_eq]
  refine RelExcept.bind_map fun bz hval => ?_
  refine RelExcept.bind_map fun feeder _ => ?_
  have hbz := isAddress_of_parseVal hval
  rw [validateFeeder_eq h hbz]
  refine RelExcept.bind_same fun _ _ => RelExcept.bind_same fun voteHash _ => ?_
  obtain ⟨kv', hset, hkv'⟩ := setPrevote_refines h hbz
    ⟨hexEncode voteHash, addressOf bz, UInt64.ofNat height.val⟩
  unfold storedPrevote at hset
  rw [addressBytes_addressOf] at hset
  rw [hset]
  exact .ok hkv'

theorem checkTargets_eq (h : Represents codec kv st) (tuples : List ExchangeRateTuple) :
    tuples.forM (checkTarget kv) =
      match tuples.find? (fun t => (st.tobinTaxes.get t.denom).isNone) with
      | some t => .error (.wrap .unknownDenom t.denom)
      | none => .ok () := by
  induction tuples with
  | nil => rfl
  | cons t rest ih =>
    show (checkTarget kv t >>= fun _ => rest.forM (checkTarget kv)) = _
    rw [List.find?_cons, ih]
    unfold checkTarget
    rw [isVoteTarget_eq h]
    cases st.tobinTaxes.get t.denom with
    | none => rfl
    | some tax => rfl

/-- The check of the denoms and what follows it. -/
theorem checkTargets_bind (h : Represents codec kv st) (tuples : List ExchangeRateTuple)
    {f : Unit → Except MsgError KVStore} {g : Except MsgError Store}
    (hfg : RelExcept (Represents codec) (f ()) g) :
    RelExcept (Represents codec) (tuples.forM (checkTarget kv) >>= f)
      (match tuples.find? (fun t => (st.tobinTaxes.get t.denom).isNone) with
      | some t => throw (.wrap .unknownDenom t.denom)
      | none => g) := by
  rw [checkTargets_eq h]
  cases tuples.find? (fun t => (st.tobinTaxes.get t.denom).isNone) with
  | some t => exact .error _
  | none => exact hfg

theorem aggregateExchangeRateVote_refines (h : Represents codec kv st) (votePeriod : UInt64)
    (height : BlockHeight) (msg : MsgAggregateExchangeRateVote) :
    RelExcept (Represents codec)
      (aggregateExchangeRateVote codec staking votePeriod height msg kv)
      (Oracle.aggregateExchangeRateVote codec.toCodec staking votePeriod height msg st) := by
  unfold aggregateExchangeRateVote Oracle.aggregateExchangeRateVote
  simp only [parseVal_eq, parseAcc_eq]
  refine RelExcept.bind_map fun bz hval => ?_
  refine RelExcept.bind_map fun feeder _ => ?_
  have hbz := isAddress_of_parseVal hval
  rw [validateFeeder_eq h hbz, getPrevote_eq h hbz]
  refine RelExcept.bind_same fun _ _ => ?_
  cases st.prevotes.get (addressOf bz) with
  | none => exact .error _
  | some prevote =>
    -- the stored prevote has the hash and the block of the record
    show RelExcept _ (revealVote codec votePeriod height msg bz (storedPrevote codec prevote) kv) _
    unfold revealVote
    by_cases hP : votePeriod = 0
    · simp only [if_pos hP]
      exact .error _
    simp only [if_neg hP]
    cases hperiod : revealPeriod height prevote.submitBlock votePeriod with
    | false =>
      simp only [storedPrevote, hperiod]
      exact .error _
    | true =>
      simp only [storedPrevote, hperiod]
      refine RelExcept.bind_same fun tuples _ => checkTargets_bind h tuples ?_
      -- the revealed hash is over the text of the operator, which the bytes determine
      have hhash : getAggregateVoteHash codec.toCodec msg.salt msg.exchangeRates (addressOf bz) =
          codec.truncatedHash
            (msg.salt ++ ":" ++ msg.exchangeRates ++ ":" ++ codec.valAddressString bz) := by
        unfold getAggregateVoteHash ByteCodec.toCodec
        simp only [addressBytes_addressOf]
      obtain ⟨kv₁, hset, hkv₁⟩ := setVote_refines h hbz ⟨tuples, addressOf bz⟩
      obtain ⟨kv₂, hdelete, hkv₂⟩ := deletePrevote_refines hkv₁ hbz
      unfold storedVote at hset
      rw [addressBytes_addressOf] at hset
      simp only [hhash, hset]
      by_cases hmatch : prevote.hash = hexEncode (codec.truncatedHash
          (msg.salt ++ ":" ++ msg.exchangeRates ++ ":" ++ codec.valAddressString bz))
      · simp only [if_neg (not_not.mpr hmatch)]
        show RelExcept _ (orPanic (deleteAggregateExchangeRatePrevote kv₁ bz)) _
        rw [hdelete]
        exact .ok hkv₂
      · simp only [if_pos hmatch]
        exact .error _

theorem delegateFeedConsent_refines (h : Represents codec kv st) (msg : MsgDelegateFeedConsent) :
    RelExcept (Represents codec) (delegateFeedConsent codec staking msg kv)
      (Oracle.delegateFeedConsent codec.toCodec staking msg st) := by
  unfold delegateFeedConsent Oracle.delegateFeedConsent
  simp only [parseVal_eq, parseAcc_eq]
  refine RelExcept.bind_map fun bz hval => ?_
  refine RelExcept.bind_map fun feeder hacc => ?_
  cases staking.validators.get (addressOf bz) with
  | none => exact .error _
  | some validator =>
    obtain ⟨kv', hset, hkv'⟩ := setFeederDelegation_refines h (isAddress_of_parseVal hval)
      (isAddress_of_parseAcc hacc)
    show RelExcept _ (orPanic (setFeederDelegation kv bz feeder)) _
    rw [hset]
    exact .ok hkv'

end Handlers

/-! ### The end of a vote period -/

/-- The operators of a staking keeper are addresses, as staking has checked. -/
def OperatorsOk (staking : StakingKeeper) : Prop := ∀ v ∈ staking.powerIndex, v ∈ addresses

section Period

variable {codec : ByteCodec} {kv : KVStore} {st : Store}

/-- An operator is known by its text. -/
theorem valAddressString_injOn :
    Set.InjOn (fun v => codec.valAddressString (addressBytes v)) addresses := by
  rintro _ ⟨a, ha, rfl⟩ _ ⟨b, hb, rfl⟩ h
  simp only [addressBytes_addressOf] at h
  have hparse := codec.val_roundTrip ha
  rw [h, codec.val_roundTrip hb] at hparse
  rw [Except.ok.inj hparse]

/-- The lookup by text is a lookup by address. -/
theorem claimOf_eq {claims : SortedMap ValAddr Claim}
    (hclaims : ∀ e ∈ claims.entries, e.1 ∈ addresses) {v : ValAddr} (hv : v ∈ addresses) :
    claimOf codec claims (codec.valAddressString (addressBytes v)) = claims.get v := by
  unfold claimOf
  cases hfind : claims.entries.find? (fun e =>
      codec.valAddressString (addressBytes e.1) = codec.valAddressString (addressBytes v)) with
  | none =>
    cases hget : claims.get v with
    | none => rfl
    | some claim =>
      have hnone := List.find?_eq_none.mp hfind (v, claim) (SortedMap.mem_entries.mpr hget)
      exact absurd (decide_eq_true rfl) hnone
  | some e =>
    have hmem := List.mem_of_find?_eq_some hfind
    have heq : e.1 = v :=
      valAddressString_injOn (hclaims e hmem) hv (by simpa using List.find?_some hfind)
    have hget : claims.get e.1 = some e.2 := SortedMap.mem_entries.mp hmem
    rw [← heq, hget]
    rfl

theorem organizeBallotByDenom_refines (h : Represents codec kv st) (hacc : AcceptedVotes st.votes)
    {claims : SortedMap ValAddr Claim} (hclaims : ∀ e ∈ claims.entries, e.1 ∈ addresses)
    (sched : Schedule) :
    organizeBallotByDenom codec sched claims kv =
      some (Oracle.organizeBallotByDenom sched claims st.votes) := by
  have hvotes : (st.votes.entries.map (fun e => (addressBytes e.1, storedVote codec e.2))).foldl
      (aggregateHandler codec claims) ∅ =
        st.votes.entries.foldl (Oracle.aggregateHandler claims) ∅ := by
    rw [List.foldl_map]
    apply List.foldl_ext
    intro votes e he
    have hget : st.votes.get e.1 = some e.2 := SortedMap.mem_entries.mp he
    obtain ⟨hbz, haddr⟩ := isAddress_of_mem (h .vote) he
    have hkey : e.1 ∈ addresses := haddr ▸ addressOf_mem hbz
    -- the stored text is the text of the key
    unfold aggregateHandler Oracle.aggregateHandler storedVote
    rewrite [(hacc e.1 e.2 hget).voter, claimOf_eq hclaims hkey, haddr]
    cases claims.get e.1 <;> rfl
  refine Option.bind_eq_some_iff.mpr ⟨_, iterateVotes_eq h, ?_⟩
  rw [hvotes]
  rfl

/-- The two states of the tally loop. -/
def TallyMatches (codec : ByteCodec) (st : Store) (s : TallyState) (t : Oracle.TallyState) :
    Prop :=
  s.claims = t.claims ∧ Represents codec s.kv { st with exchangeRates := t.exchangeRates }

theorem tallyStep_refines (sched : Schedule) (float : FloatSqrt) (rewardBand : Dec)
    (referenceTerra : Denom) (voteMapRT : SortedMap ValAddr Dec) (exchangeRateRT : Dec)
    {s : TallyState} {t : Oracle.TallyState} (h : TallyMatches codec st s t)
    (entry : Denom × ExchangeRateBallot) :
    Option.Rel (TallyMatches codec st)
      (tallyStep sched float rewardBand referenceTerra voteMapRT exchangeRateRT s entry)
      (Oracle.tallyStep sched float rewardBand referenceTerra voteMapRT exchangeRateRT t
        entry) := by
  obtain ⟨hclaims, hkv⟩ := h
  unfold tallyStep Oracle.tallyStep
  rw [hclaims]
  -- the reference denom is tallied on its own ballot, the others by their cross rate
  by_cases hdenom : entry.1 = referenceTerra
  · rw [if_neg (not_not.mpr hdenom), if_neg (not_not.mpr hdenom)]
    refine rel_bind_same fun result _ => ?_
    exact .some ⟨rfl, represents_setLunaExchangeRate hkv entry.1 result.1⟩
  · rw [if_pos hdenom, if_pos hdenom]
    refine rel_bind_same fun cross _ => ?_
    refine rel_bind_same fun result _ => ?_
    refine rel_bind_same fun exchangeRate _ => ?_
    exact .some ⟨rfl, represents_setLunaExchangeRate hkv entry.1 exchangeRate⟩

theorem tallyBallots_refines (sched : Schedule) (float : FloatSqrt) (rewardBand : Dec)
    (referenceTerra : Denom) (voteMap : SortedMap Denom ExchangeRateBallot)
    {s : TallyState} {t : Oracle.TallyState} (h : TallyMatches codec st s t) :
    Option.Rel (TallyMatches codec st)
      (tallyBallots sched float rewardBand referenceTerra voteMap s)
      (Oracle.tallyBallots sched float rewardBand referenceTerra voteMap t) := by
  unfold tallyBallots Oracle.tallyBallots
  by_cases hnone : referenceTerra = ""
  · rw [if_pos hnone, if_pos hnone]
    exact .some h
  · rw [if_neg hnone, if_neg hnone]
    exact rel_foldlM (fun s t entry _ hst => tallyStep_refines _ _ _ _ _ _ hst entry) h

theorem countMisses_refines (h : Represents codec kv st) {claims : SortedMap ValAddr Claim}
    (hclaims : ∀ e ∈ claims.entries, e.2.recipient ∈ addresses) (sched : Schedule) (len : ℕ) :
    ∃ kv', countMisses sched len claims kv = some kv' ∧ Represents codec kv' { st with
      missCounters := Oracle.countMisses sched len claims st.missCounters } := by
  refine Simulation.exists_foldlM
    (R := fun kv m => Represents codec kv { st with missCounters := m }) ?_ h
  intro kv m e he hkv
  unfold missStep Oracle.missStep
  by_cases hwon : e.2.winCount = len
  · rw [if_pos hwon, if_pos hwon]
    exact ⟨kv, rfl, hkv⟩
  · rw [if_neg hwon, if_neg hwon]
    -- the counter is kept under the bytes of the recipient
    obtain ⟨bz, hbz, hrecipient⟩ := hclaims e ((sched.range_perm .miss _).mem_iff.mp he)
    rw [← hrecipient, addressBytes_addressOf]
    obtain ⟨kv', hset, hkv'⟩ := setMissCounter_refines hkv hbz
      (Oracle.getMissCounter m (addressOf bz) + 1)
    exact ⟨kv', Option.bind_eq_some_iff.mpr ⟨_, getMissCounter_eq hkv hbz, hset⟩, hkv'⟩

/-- The loop over the prevotes. -/
theorem clearPrevotes_refines (h : Represents codec kv st) (height : BlockHeight)
    (votePeriod : UInt64) :
    ∃ kv', (st.prevotes.entries.map (fun e => (addressBytes e.1, storedPrevote codec e.2))).foldlM
        (clearPrevote height votePeriod) kv = some kv' ∧
      Represents codec kv' { st with prevotes := clearPrevotes height votePeriod st.prevotes } := by
  have hloop : ∃ kv',
      (st.prevotes.entries.map (fun e => (addressBytes e.1, storedPrevote codec e.2))).foldlM
        (clearPrevote height votePeriod) kv = some kv' ∧
      Represents codec kv' { st with
        prevotes := st.prevotes.entries.foldl (fun m e =>
          if prevoteExpired height votePeriod e.2 then m.erase e.1 else m) st.prevotes } := by
    rw [List.foldlM_map]
    refine Simulation.exists_foldlM
      (R := fun kv m => Represents codec kv { st with prevotes := m }) ?_ h
    intro kv' m e he hkv
    obtain ⟨hbz, haddr⟩ := isAddress_of_mem (h .prevote) he
    obtain ⟨kv'', hdelete, hkv''⟩ := deletePrevote_refines hkv hbz
    rw [haddr] at hkv''
    show ∃ s', (if (height.val : ℤ) > toInt64 (e.2.submitBlock + votePeriod).toNat then
      deleteAggregateExchangeRatePrevote kv' (addressBytes e.1) else some kv') = some s' ∧ _
    -- the same prevotes expire on both sides: the stored block is the block of the record
    unfold prevoteExpired
    by_cases hexpired : (height.val : ℤ) > toInt64 (e.2.submitBlock + votePeriod).toNat
    · rw [if_pos hexpired, if_pos (decide_eq_true hexpired)]
      exact ⟨kv'', hdelete, hkv''⟩
    · rw [if_neg hexpired, if_neg (by simpa using hexpired)]
      exact ⟨kv', rfl, hkv⟩
  rwa [SortedMap.foldl_erase_filter] at hloop

/-- The loop over the votes leaves none. -/
theorem clearVotes_refines (h : Represents codec kv st) :
    ∃ kv', (st.votes.entries.map (fun e => (addressBytes e.1, storedVote codec e.2))).foldlM
        (fun kv e => deleteAggregateExchangeRateVote kv e.1) kv = some kv' ∧
      Represents codec kv' { st with votes := ∅ } := by
  have hempty : st.votes.entries.foldl (fun m e => m.erase e.1) st.votes = ∅ := by
    have hkeys := st.votes.foldl_erase_keys
    unfold SortedMap.keys at hkeys
    rwa [List.foldl_map] at hkeys
  rw [List.foldlM_map, ← hempty]
  refine Simulation.exists_foldlM
    (R := fun kv m => Represents codec kv { st with votes := m }) ?_ h
  intro kv' m e he hkv
  obtain ⟨hbz, haddr⟩ := isAddress_of_mem (h .vote) he
  obtain ⟨kv'', hdelete, hkv''⟩ := deleteVote_refines hkv hbz
  rw [haddr] at hkv''
  exact ⟨kv'', hdelete, hkv''⟩

theorem clearBallots_refines (h : Represents codec kv st) (height : BlockHeight)
    (votePeriod : UInt64) :
    ∃ kv', clearBallots height votePeriod kv = some kv' ∧ Represents codec kv' { st with
      prevotes := clearPrevotes height votePeriod st.prevotes, votes := ∅ } := by
  obtain ⟨kv₁, hprevotes, hkv₁⟩ := clearPrevotes_refines h height votePeriod
  obtain ⟨kv₂, hvotes, hkv₂⟩ := clearVotes_refines hkv₁
  refine ⟨kv₂, ?_, hkv₂⟩
  -- the second iterator opens after the first loop, which has not touched the votes
  refine Option.bind_eq_some_iff.mpr ⟨_, iteratePrevotes_eq h, ?_⟩
  refine Option.bind_eq_some_iff.mpr ⟨kv₁, hprevotes, ?_⟩
  exact Option.bind_eq_some_iff.mpr ⟨_, iterateVotes_eq hkv₁, hvotes⟩

/-- The two states of the loop in `ApplyWhitelist`. -/
def TargetsMatch (codec : ByteCodec) (st : Store) (s : TargetState) (t : Oracle.TargetState) :
    Prop :=
  s.metadata = t.metadata ∧ Represents codec s.kv { st with tobinTaxes := t.tobinTaxes }

theorem applyItem_refines {s : TargetState} {t : Oracle.TargetState} (h : TargetsMatch codec st s t)
    (item : DenomItem) :
    Option.Rel (TargetsMatch codec st) (applyItem s item) (Oracle.applyItem t item) := by
  obtain ⟨hmetadata, hkv⟩ := h
  have hset := represents_setTobinTax hkv item.name item.tobinTax
  unfold applyItem Oracle.applyItem
  rw [hmetadata]
  by_cases hnew : (t.metadata.get item.name).isNone = true
  · simp only [if_pos hnew]
    exact rel_bind_same fun metadata _ => .some ⟨rfl, hset⟩
  · simp only [if_neg hnew]
    exact .some ⟨rfl, hset⟩

theorem applyWhitelist_refines {s : TargetState} {t : Oracle.TargetState}
    (h : TargetsMatch codec st s t) (whitelist : List DenomItem)
    (voteTargets : SortedMap Denom Dec) :
    Option.Rel (TargetsMatch codec st) (applyWhitelist whitelist voteTargets s)
      (Oracle.applyWhitelist whitelist voteTargets t) := by
  unfold applyWhitelist Oracle.applyWhitelist
  by_cases hupdate : updateRequired whitelist voteTargets = true
  · rw [if_pos hupdate, if_pos hupdate]
    refine rel_foldlM (fun s t item _ hst => applyItem_refines hst item) ?_
    have hclear := represents_clearTobinTaxes h.2
    exact ⟨h.1, hclear⟩
  · rw [if_neg hupdate, if_neg hupdate]
    exact .some h

end Period

/-! ### The end blocker -/

/-- The two outcomes of the end blocker. -/
structure OutcomeMatches (codec : ByteCodec) (o : Outcome) (o' : Oracle.Outcome) : Prop where
  store : Represents codec o.kv o'.store
  claims : o.claims = o'.claims
  reward : o.reward = o'.reward
  metadata : o.metadata = o'.metadata
  slashes : o.slashes = o'.slashes

section EndBlocker

variable {codec : ByteCodec} {kv : KVStore} {st : Store} {k : Keepers}

theorem startClaims_keys (hops : OperatorsOk k.staking) :
    ∀ e ∈ (startClaims k.staking).entries, e.1 ∈ addresses := by
  intro e he
  have hget : (startClaims k.staking).get e.1 = some e.2 := SortedMap.mem_entries.mp he
  rw [startClaims_get] at hget
  split at hget
  · next hactive => exact hops _ (mem_powerIndex_of_active hactive)
  · cases hget

theorem endVotePeriod_refines (h : Represents codec kv st) (hacc : AcceptedVotes st.votes)
    (hops : OperatorsOk k.staking) (sched : Schedule) (params : Params) (height : BlockHeight) :
    Option.Rel (OutcomeMatches codec) (endVotePeriod codec sched k params height kv)
      (Oracle.endVotePeriod sched k params height st) := by
  have h₁ := represents_clearExchangeRates h
  have hvoteMap := organizeBallotByDenom_refines h₁ hacc (startClaims_keys hops) sched
  rw [endVotePeriod_eq]
  unfold endVotePeriod
  -- what the store reads before the tally is what the record says
  refine rel_bind_read (buildClaims_eq k.staking) ?_
  refine rel_bind_read (readVoteTargets_eq h) ?_
  refine rel_bind_read (clearExchangeRates_eq h) ?_
  refine rel_bind_read hvoteMap ?_
  refine rel_bind_same fun threshold _ => ?_
  simp only [pick_voteMap_eq, pick_voteTargets_eq]
  have htally : TallyMatches codec st ⟨startClaims k.staking, KeySpace.clear kv 0x01⟩
      ⟨startClaims k.staking, ∅⟩ := ⟨rfl, h₁⟩
  refine Simulation.rel_bind_eq (tallyBallots_refines _ _ _ _ _ htally) ?_
  intro tallied tallied' heq hmatch
  obtain ⟨hclaims, hkv⟩ := hmatch
  -- the tally gives every claim to its own operator
  obtain ⟨rounds⟩ := exists_rounds hacc heq
  have hrecipients : ∀ e ∈ tallied'.claims.entries, e.2.recipient ∈ addresses := by
    intro e he
    have hget : tallied'.claims.get e.1 = some e.2 := SortedMap.mem_entries.mp he
    rw [rounds.claims_get hacc] at hget
    split at hget
    · next hactive =>
      rw [← Option.some.inj hget]
      exact hops _ (mem_powerIndex_of_active hactive)
    · cases hget
  rw [hclaims]
  obtain ⟨kv₂, hmisses, h₂⟩ := countMisses_refines hkv hrecipients sched
    (targetsLeft k st threshold).size
  refine rel_bind_read hmisses ?_
  refine rel_bind_same fun reward _ => ?_
  obtain ⟨kv₃, hclear, h₃⟩ := clearBallots_refines h₂ height params.votePeriod
  refine rel_bind_read hclear ?_
  have htargets : TargetsMatch codec (periodOutcome k params height st threshold tallied' reward
      ⟨st.tobinTaxes, k.bank.metadata⟩).store ⟨kv₃, k.bank.metadata⟩
      ⟨st.tobinTaxes, k.bank.metadata⟩ := by
    refine ⟨rfl, ?_⟩
    rw [countMisses_eq] at h₃
    exact h₃
  refine rel_bind (applyWhitelist_refines htargets params.whitelist _) ?_
  intro targets targets' hmatch
  exact .some ⟨hmatch.2, rfl, rfl, hmatch.1, rfl⟩

/-- The loop of the slash window: the same slashes, and no counter left. -/
theorem slashAndResetMissCounters_refines (h : Represents codec kv st) (params : Params)
    (height : BlockHeight) :
    Option.Rel (fun s slashes => s.slashes = slashes ∧
        Represents codec s.kv { st with missCounters := ∅ })
      (slashAndResetMissCounters k.staking params height kv)
      (Oracle.slashAndResetMissCounters k.staking params height st.missCounters) := by
  have hall : Option.Rel (fun (s : SlashState) (t : Oracle.SlashState) =>
        s.slashes = t.slashes ∧ Represents codec s.kv { st with missCounters := t.missCounters })
      (slashAndResetMissCounters k.staking params height kv)
      (slashAndResetAll k.staking params height st.missCounters) := by
    unfold slashAndResetMissCounters slashAndResetAll
    refine rel_bind_same fun periods _ => ?_
    refine rel_bind_read (iterateMissCounters_eq h) ?_
    rw [List.foldlM_map]
    refine rel_foldlM ?_ ⟨rfl, h⟩
    rintro s t e he ⟨hslashes, hkv⟩
    -- each pass slashes or not, and then deletes the counter it is at
    obtain ⟨hbz, haddr⟩ := isAddress_of_mem (h .missCounter) he
    obtain ⟨kv', hdelete, hkv'⟩ := deleteMissCounter_refines hkv hbz
    unfold slashAndDelete Oracle.slashAndDelete
    rw [hslashes, haddr]
    rw [haddr] at hkv'
    refine rel_bind_same fun slashes _ => ?_
    refine rel_bind_read hdelete ?_
    exact .some ⟨rfl, hkv'⟩
  rw [slashAndResetAll_eq] at hall
  exact Simulation.rel_of_map hall

theorem endSlashWindow_refines {o : Outcome} {o' : Oracle.Outcome} (h : OutcomeMatches codec o o')
    (params : Params) (height : BlockHeight) :
    Option.Rel (OutcomeMatches codec) (endSlashWindow k params height o)
      (Oracle.endSlashWindow k params height o') := by
  unfold endSlashWindow Oracle.endSlashWindow
  refine rel_bind_same fun slashWindowEnds _ => ?_
  cases slashWindowEnds with
  | false => exact .some h
  | true =>
    have hslash := slashAndResetMissCounters_refines (k := k) h.store params height
    rw [if_pos rfl, if_pos rfl, Option.map_eq_bind]
    refine rel_bind hslash ?_
    intro s slashes hs
    exact .some ⟨hs.2, h.claims, h.reward, h.metadata, hs.1⟩

theorem endBlocker_refines (h : Represents codec kv st) (hacc : AcceptedVotes st.votes)
    (hops : OperatorsOk k.staking) (sched : Schedule) (params : Params) (height : BlockHeight) :
    Option.Rel (OutcomeMatches codec) (endBlocker codec sched k params height kv)
      (Oracle.endBlocker sched k params height st) := by
  rw [endBlocker_eq]
  unfold endBlocker
  refine rel_bind_same fun votePeriodEnds _ => ?_
  -- the slash window is looked at after the vote period, on its outcome
  refine rel_bind (R := OutcomeMatches codec) ?_ fun o o' ho => endSlashWindow_refines ho _ _
  cases votePeriodEnds with
  | false => exact .some ⟨h, rfl, rfl, rfl, rfl⟩
  | true => exact endVotePeriod_refines h hacc hops sched params height

end EndBlocker

/-! ### Runs -/

/-- The staking keeper of an end block knows its operators by their addresses. -/
def EventOk : Event → Prop
  | .endBlock _ k _ => OperatorsOk k.staking
  | _ => True

/-- The two chains, with what the votes of the record are known to be. -/
structure InStep (codec : ByteCodec) (raw : ChainState) (s : Oracle.ChainState) : Prop where
  height : raw.height = s.height
  store : Represents codec raw.kv s.store
  accepted : AcceptedVotes s.store.votes

section Runs

variable {codec : ByteCodec} {votePeriod : UInt64}

/-- A message is accepted by both, or changes neither. -/
theorem deliver_refines {raw : ChainState} {s : Oracle.ChainState} (h : InStep codec raw s)
    {x : Except MsgError KVStore} {y : Except MsgError Store} {log : List Record} :
    RelExcept (Represents codec) x y →
      Option.Rel (fun raw (s : Oracle.ChainState) => raw.height = s.height ∧
          Represents codec raw.kv s.store) (some (raw.deliver x))
        (match y with
        | .ok store => some { s with store := store, log := log }
        | .error _ => some s) := by
  intro hxy
  cases hxy with
  | ok hkv => exact .some ⟨h.height, hkv⟩
  | error err => exact .some ⟨h.height, h.store⟩

theorem step_refines {raw : ChainState} {s : Oracle.ChainState} (h : InStep codec raw s)
    {e : Event} (he : EventOk e) :
    Option.Rel (InStep codec) (step codec votePeriod raw e)
      (Oracle.step codec.toCodec votePeriod s e) := by
  have hmatch : Option.Rel (fun raw (s : Oracle.ChainState) => raw.height = s.height ∧
      Represents codec raw.kv s.store) (step codec votePeriod raw e)
      (Oracle.step codec.toCodec votePeriod s e) := by
    cases e with
    | prevote staking msg =>
      refine deliver_refines h (RelExcept.bind_same fun _ _ => ?_)
      rw [h.height]
      exact aggregateExchangeRatePrevote_refines h.store s.height msg
    | vote staking msg =>
      refine deliver_refines h (RelExcept.bind_same fun _ _ => ?_)
      rw [h.height]
      exact aggregateExchangeRateVote_refines h.store votePeriod s.height msg
    | delegate staking msg =>
      refine deliver_refines h (RelExcept.bind_same fun _ _ => ?_)
      exact delegateFeedConsent_refines h.store msg
    | endBlock sched k params =>
      have hend := endBlocker_refines h.store h.accepted (k := k) he sched
        { params with votePeriod := votePeriod } s.height
      unfold step Oracle.step
      rw [h.height]
      refine rel_bind hend ?_
      intro o o' ho
      split
      · exact .some ⟨rfl, ho.store⟩
      · exact .none
  refine Simulation.rel_mono_eq hmatch ?_
  intro raw' s' _ hs hmatch
  exact ⟨hmatch.1, hmatch.2, acceptedVotes_step (step_sound hs) h.accepted⟩

/-- What the two chains have in common for everybody who asks: the getters and iterators of
    the store answer from the record, and so do the next message of each kind, with its error,
    and the next end blocker. -/
structure Answers (codec : ByteCodec) (raw : ChainState) (s : Oracle.ChainState) : Prop where
  height : raw.height = s.height
  exchangeRate : ∀ denom, getLunaExchangeRate raw.kv denom =
    some (if denom = microLunaDenom then some Dec.one else s.store.exchangeRates.get denom)
  tobinTax : ∀ denom, getTobinTax raw.kv denom = some (s.store.tobinTaxes.get denom)
  feeder : ∀ bz, IsAddress bz → getFeederDelegation raw.kv bz =
    some (addressBytes (Oracle.getFeederDelegation s.store (addressOf bz)))
  missCounter : ∀ bz, IsAddress bz → getMissCounter raw.kv bz =
    some (Oracle.getMissCounter s.store.missCounters (addressOf bz))
  prevote : ∀ bz, IsAddress bz → getAggregateExchangeRatePrevote raw.kv bz =
    some ((s.store.prevotes.get (addressOf bz)).map (storedPrevote codec))
  vote : ∀ bz, IsAddress bz → getAggregateExchangeRateVote raw.kv bz =
    some ((s.store.votes.get (addressOf bz)).map (storedVote codec))
  targets : readVoteTargets raw.kv = some s.store.tobinTaxes
  exchangeRates : ∃ l : List (Denom × Dec), l.Perm s.store.exchangeRates.entries ∧
    l.Pairwise (fun e e' => utf8 e.1 < utf8 e'.1) ∧
    iterateLunaExchangeRates raw.kv = some (l.map (fun e => (utf8 e.1, e.2)))
  tobinTaxes : ∃ l : List (Denom × Dec), l.Perm s.store.tobinTaxes.entries ∧
    l.Pairwise (fun e e' => utf8 e.1 < utf8 e'.1) ∧
    iterateTobinTaxes raw.kv = some (l.map (fun e => (utf8 e.1, e.2)))
  feeders : iterateFeederDelegations raw.kv =
    some (s.store.feederDelegations.entries.map (fun e => (addressBytes e.1, addressBytes e.2)))
  prevotes : iterateAggregateExchangeRatePrevotes raw.kv =
    some (s.store.prevotes.entries.map (fun e => (addressBytes e.1, storedPrevote codec e.2)))
  missCounters : iterateMissCounters raw.kv =
    some (s.store.missCounters.entries.map (fun e => (addressBytes e.1, e.2)))
  votes : iterateAggregateExchangeRateVotes raw.kv =
    some (s.store.votes.entries.map (fun e => (addressBytes e.1, storedVote codec e.2)))
  commit : ∀ staking msg, RelExcept (Represents codec)
    (aggregateExchangeRatePrevote codec staking raw.height msg raw.kv)
    (Oracle.aggregateExchangeRatePrevote codec.toCodec staking s.height msg s.store)
  delegate : ∀ staking msg, RelExcept (Represents codec)
    (delegateFeedConsent codec staking msg raw.kv)
    (Oracle.delegateFeedConsent codec.toCodec staking msg s.store)
  reveal : ∀ staking votePeriod msg, RelExcept (Represents codec)
    (aggregateExchangeRateVote codec staking votePeriod raw.height msg raw.kv)
    (Oracle.aggregateExchangeRateVote codec.toCodec staking votePeriod s.height msg s.store)
  endBlock : ∀ sched k params, OperatorsOk k.staking → Option.Rel (OutcomeMatches codec)
    (endBlocker codec sched k params raw.height raw.kv)
    (Oracle.endBlocker sched k params s.height s.store)

theorem InStep.answers {raw : ChainState} {s : Oracle.ChainState} (h : InStep codec raw s) :
    Answers codec raw s where
  height := h.height
  exchangeRate := getLunaExchangeRate_eq h.store
  tobinTax := getTobinTax_eq h.store
  feeder := fun _ hbz => getFeederDelegation_eq h.store hbz
  missCounter := fun _ hbz => getMissCounter_eq h.store hbz
  prevote := fun _ hbz => getPrevote_eq h.store hbz
  vote := fun _ hbz => getVote_eq h.store hbz
  targets := readVoteTargets_eq h.store
  exchangeRates := iterateRates_perm h.store
  tobinTaxes := iterateTobinTaxes_perm h.store
  feeders := iterateFeeders_eq h.store
  prevotes := iteratePrevotes_eq h.store
  missCounters := iterateMissCounters_eq h.store
  votes := iterateVotes_eq h.store
  commit := fun staking msg => by
    rw [h.height]
    exact aggregateExchangeRatePrevote_refines h.store s.height msg
  delegate := fun staking msg => delegateFeedConsent_refines h.store msg
  reveal := fun staking votePeriod msg => by
    rw [h.height]
    exact aggregateExchangeRateVote_refines h.store votePeriod s.height msg
  endBlock := fun sched k params hops => by
    rw [h.height]
    exact endBlocker_refines h.store h.accepted hops sched params s.height

/-- Through every run of prevotes, votes, delegations and end blocks the byte-keyed chain and
    the chain of records stay in step: one halts exactly when the other does, and whatever is
    asked of the store, the record has the answer. -/
theorem oracle_store_refines {height : BlockHeight} {kv : KVStore} {st : Store}
    (h : Represents codec kv st) (hvotes : st.votes = ∅) {events : List Event}
    (hevents : ∀ e ∈ events, EventOk e) :
    Option.Rel (Answers codec) (Run.run (step codec votePeriod) events ⟨height, kv⟩)
      (Run.run (Oracle.step codec.toCodec votePeriod) events
        (Oracle.ChainState.start height st)) := by
  have hstart : InStep codec ⟨height, kv⟩ (Oracle.ChainState.start height st) := by
    refine ⟨rfl, h, ?_⟩
    intro v vote hget
    rw [Oracle.ChainState.start, hvotes] at hget
    cases hget
  have hrun : Option.Rel (InStep codec) (Run.run (step codec votePeriod) events ⟨height, kv⟩)
      (Run.run (Oracle.step codec.toCodec votePeriod) events
        (Oracle.ChainState.start height st)) := by
    unfold Run.run
    refine rel_foldlM ?_ hstart
    intro raw s e he hs
    exact step_refines hs (hevents e he)
  exact Simulation.rel_mono hrun fun raw s hs => hs.answers

end Runs

/-! ### On a small chain -/

/-- Bech32 and the libraries on the texts of one prevote and its vote. -/
def sampleByteCodec : ByteCodec where
  toAddressCodec := sampleCodec
  parseDecCoin := smallCodec.parseDecCoin
  truncatedHash := smallCodec.truncatedHash
  parseDecCoin_named := smallCodec.parseDecCoin_named
  parseDecCoin_nonneg := smallCodec.parseDecCoin_nonneg

/-- One bonded validator. -/
def sampleStaking : StakingKeeper where
  validators := (∅ : SortedMap ValAddr Validator).set (addressOf [0x61])
    ⟨true, false, 1, some "consA"⟩
  powerIndex := [addressOf [0x61]]
  maxValidators := 100
  totalBondedPower := 1
  powerIndex_nodup := by decide
  powerIndex_known := by decide +kernel
  consAddr_isSome := by decide +kernel
  totalPower_le := by decide +kernel

theorem sampleStaking_operators : OperatorsOk sampleStaking := by
  intro v hv
  rw [List.mem_singleton.mp hv]
  exact addressOf_mem (by decide)

/-- A prevote in one block, its vote in the next. -/
def sampleEvents : List Event := [
  .prevote sampleStaking smallPrevote,
  .endBlock .inOrder ⟨sampleStaking, smallBank, smallFloat⟩ smallParams,
  .vote sampleStaking smallVote]

def sampleTargets : KVStore :=
  setTobinTax (setTobinTax ∅ (utf8 "ukrw") Dec.zero) (utf8 "uusd") Dec.zero

theorem sampleTargets_represents : Represents sampleByteCodec sampleTargets (smallStore []) :=
  represents_setTobinTax (represents_setTobinTax (represents_empty _) "ukrw" Dec.zero) "uusd"
    Dec.zero

/-- The vote is under its key, and the record has it too. -/
theorem oracle_store_refines_small :
    ∃ raw s, Run.run (step sampleByteCodec 5) sampleEvents ⟨⟨4, by decide⟩, sampleTargets⟩ =
        some raw ∧
      Run.run (Oracle.step sampleByteCodec.toCodec 5) sampleEvents
        (Oracle.ChainState.start ⟨4, by decide⟩ (smallStore [])) = some s ∧
      raw.kv.get [0x05, 0x01, 0x61] = some (.vote
        ⟨[⟨"ukrw", Dec.withPrec 20 1⟩], "terravaloper1vy3vsmy0"⟩) ∧
      Answers sampleByteCodec raw s := by
  have hstored : (Run.run (step sampleByteCodec 5) sampleEvents
      ⟨⟨4, by decide⟩, sampleTargets⟩).map (fun raw => raw.kv.get [0x05, 0x01, 0x61]) =
        some (some (.vote ⟨[⟨"ukrw", Dec.withPrec 20 1⟩], "terravaloper1vy3vsmy0"⟩)) := by
    decide +kernel
  have hevents : ∀ e ∈ sampleEvents, EventOk e := by
    intro e he
    simp only [sampleEvents, List.mem_cons, List.not_mem_nil, or_false] at he
    rcases he with rfl | rfl | rfl
    · trivial
    · exact sampleStaking_operators
    · trivial
  have hrel : Option.Rel (Answers sampleByteCodec)
      (Run.run (step sampleByteCodec 5) sampleEvents ⟨⟨4, by decide⟩, sampleTargets⟩)
      (Run.run (Oracle.step sampleByteCodec.toCodec 5) sampleEvents
        (Oracle.ChainState.start ⟨4, by decide⟩ (smallStore []))) :=
    oracle_store_refines sampleTargets_represents rfl hevents
  obtain ⟨raw, hraw, hstored⟩ := Option.map_eq_some_iff.mp hstored
  obtain ⟨s, hs, hanswers⟩ := Simulation.rel_of_eq_some hrel hraw
  exact ⟨raw, s, hraw, hs, hstored, hanswers⟩

end TerraClassic.Oracle.Raw
