import TerraClassic.Oracle.Feeder
import TerraClassic.Oracle.Prevotes

/-! # An honest feeder is heard

    A feeder commits to its rates by their hash and reveals them one vote period later.
    Whatever anybody else sends in between, the commitment is found again, the reveal is
    accepted, and the rates are in the ballots when the period is tallied.

    * `hexDecode_hexEncode`: the text of a hash reads back as the hash.
    * `Permits`: what the message server asks of a feeder.
    * `reveal_accepted_iff`: the reveal of a stored commitment needs nothing else.
    * `honest_feeder_heard`: the whole way from the commitment to the ballot.
-/

namespace TerraClassic.Oracle

open SdkError (mapError_eq_ok)

/-! ### Hash strings -/

theorem bytes_ofList (l : List Char) :
    (String.ofList l).toUTF8.data.toList = l.flatMap String.utf8EncodeChar := by
  show (String.ofList l).toByteArray.data.toList = _
  rw [String.toByteArray_ofList]
  unfold List.utf8Encode
  simp

/-- The byte of a hex digit. -/
def hexByte (n : ℕ) : UInt8 := UInt8.ofNat (if n < 10 then 48 + n else 87 + n)

theorem hexDigit_bytes {n : ℕ} (h : n < 16) :
    String.utf8EncodeChar (hexDigit n) = [hexByte n] ∧
      fromHexChar (hexByte n) = some (UInt8.ofNat n) := by
  have hall : ∀ m < 16, String.utf8EncodeChar (hexDigit m) = [hexByte m] ∧
      fromHexChar (hexByte m) = some (UInt8.ofNat m) := by decide
  exact hall n h

/-- Two digits for each byte, the higher half first. -/
theorem bytes_hexEncode (bytes : List UInt8) : (hexEncode bytes).toUTF8.data.toList =
    bytes.flatMap (fun b => [hexByte (b.toNat / 16), hexByte (b.toNat % 16)]) := by
  unfold hexEncode
  rw [bytes_ofList, List.flatMap_assoc]
  refine List.flatMap_congr (fun b _ => ?_)
  have hb := b.toNat_lt
  obtain ⟨hhi, _⟩ := hexDigit_bytes (n := b.toNat / 16) (by omega)
  obtain ⟨hlo, _⟩ := hexDigit_bytes (n := b.toNat % 16) (by omega)
  rw [List.flatMap_cons, List.flatMap_singleton, hhi, hlo]
  rfl

/-- A hash is read back from its text. -/
theorem hexDecode_hexEncode (bytes : List UInt8) :
    aggregateVoteHashFromHexString (hexEncode bytes) = .ok bytes := by
  unfold aggregateVoteHashFromHexString
  rw [bytes_hexEncode]
  induction bytes with
  | nil => rfl
  | cons b rest ih =>
    have hb := b.toNat_lt
    obtain ⟨_, hhi⟩ := hexDigit_bytes (n := b.toNat / 16) (by omega)
    obtain ⟨_, hlo⟩ := hexDigit_bytes (n := b.toNat % 16) (by omega)
    have hbyte : UInt8.ofNat (b.toNat / 16) * 16 + UInt8.ofNat (b.toNat % 16) = b := by
      apply UInt8.toNat_inj.mp
      rw [UInt8.toNat_add, UInt8.toNat_mul, UInt8.toNat_ofNat', UInt8.toNat_ofNat']
      show ((b.toNat / 16 % 2 ^ 8 * 16) % 2 ^ 8 + b.toNat % 16 % 2 ^ 8) % 2 ^ 8 = b.toNat
      omega
    show hexDecodeBytes (hexByte _ :: hexByte _ :: _) = _
    unfold hexDecodeBytes
    rw [hhi, hlo]
    show (hexDecodeBytes (rest.flatMap _)).map _ = _
    rw [ih]
    show Except.ok ((UInt8.ofNat (b.toNat / 16) * 16 + UInt8.ofNat (b.toNat % 16)) :: rest) = _
    rw [hbyte]

theorem utf8ByteSize_hexEncode (bytes : List UInt8) :
    (hexEncode bytes).utf8ByteSize = 2 * bytes.length := by
  show (hexEncode bytes).toUTF8.data.toList.length = _
  rw [bytes_hexEncode, List.length_flatMap]
  simp [mul_comm]

/-! ### The feeder -/

/-- The rates of a feeder for one period, the salt, and the accounts it writes. -/
structure Submission where
  salt : String
  exchangeRates : String
  feeder : String
  validator : String

/-- The commitment, with the hash as `GetAggregateVoteHash` makes it. -/
def Submission.prevote (codec : Codec) (sub : Submission) (v : ValAddr) :
    MsgAggregateExchangeRatePrevote :=
  ⟨hexEncode (getAggregateVoteHash codec sub.salt sub.exchangeRates v), sub.feeder, sub.validator⟩

/-- The reveal. -/
def Submission.vote (sub : Submission) : MsgAggregateExchangeRateVote :=
  ⟨sub.salt, sub.exchangeRates, sub.feeder, sub.validator⟩

/-- The texts stand for a validator, a feeder and rates, and the reveal passes the stateless
    checks. -/
structure Submission.WellFormed (codec : Codec) (sub : Submission) (v : ValAddr)
    (feederAddr : AccAddr) (tuples : List ExchangeRateTuple) : Prop where
  validator : codec.valAddressFromBech32 sub.validator = .ok v
  feeder : codec.accAddressFromBech32 sub.feeder = .ok feederAddr
  rates : parseExchangeRateTuples codec sub.exchangeRates = .ok tuples
  basic : sub.vote.validateBasic codec = .ok ()

/-- `tmhash.TruncatedSize`. -/
def TruncatedTo20 (codec : Codec) : Prop := ∀ text, (codec.truncatedHash text).length = 20

section Messages

variable {codec : Codec} {votePeriod : UInt64} {staking : StakingKeeper} {height : BlockHeight}
  {st : Store} {sub : Submission} {v : ValAddr} {feederAddr : AccAddr}
  {tuples : List ExchangeRateTuple}

/-- A commitment of a permitted feeder is stored. -/
theorem prevote_accepted (hsub : sub.WellFormed codec v feederAddr tuples)
    (hhash : TruncatedTo20 codec)
    (hpermit : validateFeeder codec staking st feederAddr v = .ok ()) :
    (do
      (sub.prevote codec v).validateBasic codec
      aggregateExchangeRatePrevote codec staking height (sub.prevote codec v) st) =
      .ok { st with
        prevotes := st.prevotes.set v
          ⟨(sub.prevote codec v).hash, v, UInt64.ofNat height.val⟩ } := by
  have hdecode := hexDecode_hexEncode
    (getAggregateVoteHash codec sub.salt sub.exchangeRates v)
  have hlength : (sub.prevote codec v).hash.utf8ByteSize = 20 * 2 := by
    show (hexEncode _).utf8ByteSize = _
    rw [utf8ByteSize_hexEncode]
    unfold getAggregateVoteHash
    rw [hhash]
  have hbasic : (sub.prevote codec v).validateBasic codec = .ok () := by
    unfold MsgAggregateExchangeRatePrevote.validateBasic
    refine Run.bind_eq_ok.mpr ⟨_, mapError_eq_ok.mpr hdecode, ?_⟩
    simp only [if_neg (not_not.mpr hlength)]
    exact Run.bind_eq_ok.mpr ⟨_, mapError_eq_ok.mpr hsub.feeder,
      Run.bind_eq_ok.mpr ⟨_, mapError_eq_ok.mpr hsub.validator, rfl⟩⟩
  refine Run.bind_eq_ok.mpr ⟨_, hbasic, ?_⟩
  exact Run.bind_eq_ok.mpr ⟨_, mapError_eq_ok.mpr hsub.validator,
    Run.bind_eq_ok.mpr ⟨_, mapError_eq_ok.mpr hsub.feeder,
      Run.bind_eq_ok.mpr ⟨_, hpermit,
        Run.bind_eq_ok.mpr ⟨_, mapError_eq_ok.mpr hdecode, rfl⟩⟩⟩⟩

/-- The reveal of a stored commitment, one period later, is accepted exactly when the feeder is
    permitted and every denom is a vote target. -/
theorem reveal_accepted_iff (hsub : sub.WellFormed codec v feederAddr tuples)
    {submitBlock : UInt64} (hP : votePeriod ≠ 0)
    (hget : st.prevotes.get v = some ⟨(sub.prevote codec v).hash, v, submitBlock⟩)
    (hperiod : revealPeriod height submitBlock votePeriod = true) :
    (do
      sub.vote.validateBasic codec
      aggregateExchangeRateVote codec staking votePeriod height sub.vote st) =
      .ok { st with
        votes := st.votes.set v ⟨tuples, v⟩
        prevotes := st.prevotes.erase v } ↔
      validateFeeder codec staking st feederAddr v = .ok () ∧
        ∀ t ∈ tuples, (st.tobinTaxes.get t.denom).isSome := by
  constructor
  · intro h
    obtain ⟨_, _, h⟩ := Run.bind_eq_ok.mp h
    obtain ⟨_, _, tuples', _, _, _, _, hparse, htargets, _⟩ := aggregateExchangeRateVote_ok h
    cases hsub.rates.symm.trans hparse
    obtain ⟨valAddr, hval, h⟩ := Run.bind_eq_ok.mp h
    obtain ⟨feederAddr', hfeeder, h⟩ := Run.bind_eq_ok.mp h
    obtain ⟨_, hpermit, _⟩ := Run.bind_eq_ok.mp h
    cases hsub.validator.symm.trans (mapError_eq_ok.mp hval)
    cases hsub.feeder.symm.trans (mapError_eq_ok.mp hfeeder)
    exact ⟨hpermit, htargets⟩
  · intro ⟨hpermit, htargets⟩
    have hfind : tuples.find? (fun t => (st.tobinTaxes.get t.denom).isNone) = none := by
      refine List.find?_eq_none.mpr (fun t ht => ?_)
      simpa [Option.isSome_iff_ne_none] using htargets t ht
    refine Run.bind_eq_ok.mpr ⟨_, hsub.basic, ?_⟩
    refine Run.bind_eq_ok.mpr ⟨_, mapError_eq_ok.mpr hsub.validator, ?_⟩
    refine Run.bind_eq_ok.mpr ⟨_, mapError_eq_ok.mpr hsub.feeder, ?_⟩
    refine Run.bind_eq_ok.mpr ⟨_, hpermit, ?_⟩
    rw [hget]
    simp only [if_neg hP, hperiod]
    refine Run.bind_eq_ok.mpr ⟨_, mapError_eq_ok.mpr hsub.rates, ?_⟩
    rw [hfind]
    -- the hash of the reveal is the one that was committed to
    exact if_neg (not_not.mpr rfl)

end Messages

/-! ### What others send -/

/-- The accounts that a message names as its validator and its feeder. -/
def Event.parties : Event → Option (String × String)
  | .prevote _ msg => some (msg.validator, msg.feeder)
  | .vote _ msg => some (msg.validator, msg.feeder)
  | .delegate _ _ => none
  | .endBlock _ _ _ => none

/-- A message for `v` does not come from its own account or its feeder. -/
def Outsider (codec : Codec) (v : ValAddr) (s : ChainState) (e : Event) : Prop :=
  ∀ validator feeder, e.parties = some (validator, feeder) →
    codec.valAddressFromBech32 validator = .ok v →
    ∀ feederAddr, codec.accAddressFromBech32 feeder = .ok feederAddr →
      feederAddr ≠ v ∧ getFeederDelegation s.store v ≠ feederAddr

section Others

variable {codec : Codec} {votePeriod : UInt64} {v : ValAddr}

/-- What outsiders send is not accepted for `v`. -/
theorem latest_of_outsider {s s' : ChainState} {e : Event} (hout : Outsider codec v s e)
    (h : step codec votePeriod s e = some s') : latest codec v s'.log = latest codec v s.log := by
  cases e with
  | prevote staking msg =>
    simp only [step] at h
    split at h
    · next store hok =>
      cases h
      obtain ⟨_, _, hok⟩ := Run.bind_eq_ok.mp hok
      obtain ⟨valAddr, feederAddr, hval, hfeeder, hright, _⟩ :=
        aggregateExchangeRatePrevote_feeder hok
      refine latest_cons_of_not_for (fun hfor => ?_) _
      -- an accepted prevote for `v` is signed by `v` or its feeder
      cases (isFor_iff (r := .prevote s.height msg) hval).mp hfor
      obtain ⟨hself, hdelegate⟩ := hout _ _ rfl hval feederAddr hfeeder
      exact hright.elim hself hdelegate
    · cases h
      rfl
  | vote staking msg =>
    simp only [step] at h
    split at h
    · next store hok =>
      cases h
      obtain ⟨_, _, hok⟩ := Run.bind_eq_ok.mp hok
      obtain ⟨valAddr, feederAddr, hval, hfeeder, hright, _⟩ := aggregateExchangeRateVote_feeder hok
      refine latest_cons_of_not_for (fun hfor => ?_) _
      cases (isFor_iff (r := .vote s.height msg) hval).mp hfor
      obtain ⟨hself, hdelegate⟩ := hout _ _ rfl hval feederAddr hfeeder
      exact hright.elim hself hdelegate
    · cases h
      rfl
  | delegate staking msg =>
    simp only [step] at h
    split at h
    · cases h
      rfl
    · cases h
      rfl
  | endBlock sched k params =>
    obtain ⟨outcome, _, h⟩ := Option.bind_eq_some_iff.mp h
    split at h
    · cases h
      rfl
    · cases h

theorem latest_of_outsiders {events : List Event} {s s' : ChainState}
    (hrun : Run.run (step codec votePeriod) events s = some s')
    (hout : Run.Along (step codec votePeriod) (Outsider codec v) events s) :
    latest codec v s'.log = latest codec v s.log :=
  Run.run_invariant_along (I := fun t => latest codec v t.log = latest codec v s.log)
    (fun _ _ _ hstep hout hlatest => (latest_of_outsider hout hstep).trans hlatest) hrun hout rfl

/-- The log only grows. -/
theorem log_suffix {events : List Event} {s s' : ChainState}
    (hrun : Run.run (step codec votePeriod) events s = some s') : s.log <:+ s'.log := by
  refine run_step_invariant (I := fun t => s.log <:+ t.log) ?_ hrun (List.suffix_refl _)
  intro t t' hstep hsuffix
  cases hstep with
  | failed => exact hsuffix
  | prevote msg v voteHash hval hhash => exact hsuffix.trans (List.suffix_cons _ _)
  | vote msg v prevote tuples hbasic hval hget hP hperiod hparse htargets hhash =>
    exact hsuffix.trans (List.suffix_cons _ _)
  | delegate delegations => exact hsuffix
  | endBlock sched k params outcome hheight hend => exact hsuffix

/-- The reveal test, for a prevote of the period before. -/
theorem revealPeriod_of_periodOf {height submitBlock : BlockHeight}
    (h : periodOf votePeriod height = periodOf votePeriod submitBlock + 1) :
    revealPeriod height (UInt64.ofNat submitBlock.val) votePeriod = true := by
  unfold revealPeriod
  rw [beq_iff_eq]
  apply UInt64.toNat_inj.mp
  have hheight := height.isLt
  have hle : height.val / votePeriod.toNat ≤ height.val := Nat.div_le_self _ _
  rw [UInt64.toNat_sub, UInt64.toNat_div, UInt64.toNat_div, toNat_ofHeight, toNat_ofHeight]
  unfold periodOf at h
  show _ = 1
  generalize height.val / votePeriod.toNat = p at h hle ⊢
  generalize submitBlock.val / votePeriod.toNat = q at h ⊢
  omega

end Others

/-! ### The result -/

section Heard

variable {codec : Codec} {votePeriod : UInt64} {v : ValAddr} {sub : Submission}
  {feederAddr : AccAddr} {tuples : List ExchangeRateTuple} {height : BlockHeight} {store : Store}

/-- What runs keep of prevotes and votes. -/
theorem stored_run {events : List Event} {s s' : ChainState}
    (hrun : Run.run (step codec votePeriod) events s = some s')
    (hi : PrevoteInv codec votePeriod s) (hacc : AcceptedVotes s.store.votes) :
    PrevoteInv codec votePeriod s' ∧ AcceptedVotes s'.store.votes :=
  ⟨run_step_invariant (fun _ _ h hi => PrevoteInv.step h hi) hrun hi,
    run_step_invariant (I := fun s => AcceptedVotes s.store.votes)
      (fun _ _ h hacc => acceptedVotes_step h hacc) hrun hacc⟩

/-- A commitment that is the last message accepted for its validator is found one period
    later. -/
theorem commitment_found {t : ChainState} (hi : PrevoteInv codec votePeriod t)
    {submitBlock : BlockHeight}
    (hlatest : latest codec v t.log = some (.prevote submitBlock (sub.prevote codec v)))
    (hperiod : periodOf votePeriod t.height = periodOf votePeriod submitBlock + 1)
    (hfits : t.height.val + votePeriod.toNat < 2 ^ 63) :
    t.store.prevotes.get v =
      some ⟨(sub.prevote codec v).hash, v, UInt64.ofNat submitBlock.val⟩ := by
  -- the heights in the log are past, so their sums with the period do not overflow
  have hsums : ∀ block msg, Record.prevote block msg ∈ t.log → SumFits votePeriod block := by
    intro block msg hmem
    have hpast : block.val ≤ t.height.val := hi.inv.past _ hmem
    exact Or.inl (by omega)
  obtain ⟨voteHash, hhash, hget⟩ := hi.revealable hsums v submitBlock _ hlatest hperiod.le
  have hdecode : aggregateVoteHashFromHexString (sub.prevote codec v).hash =
      .ok (getAggregateVoteHash codec sub.salt sub.exchangeRates v) := hexDecode_hexEncode _
  cases hdecode.symm.trans hhash
  exact hget

theorem step_commit (hhash : TruncatedTo20 codec)
    (hsub : sub.WellFormed codec v feederAddr tuples) {s : ChainState} {staking : StakingKeeper}
    (hpermit : validateFeeder codec staking s.store feederAddr v = .ok ()) :
    step codec votePeriod s (.prevote staking (sub.prevote codec v)) =
      some { s with
        store := { s.store with
          prevotes := s.store.prevotes.set v
            ⟨(sub.prevote codec v).hash, v, UInt64.ofNat s.height.val⟩ }
        log := .prevote s.height (sub.prevote codec v) :: s.log } := by
  simp only [step]
  rw [prevote_accepted hsub hhash hpermit]

theorem step_reveal (hsub : sub.WellFormed codec v feederAddr tuples) {t : ChainState}
    {submitBlock : BlockHeight}
    (hget : t.store.prevotes.get v =
      some ⟨(sub.prevote codec v).hash, v, UInt64.ofNat submitBlock.val⟩)
    (hperiod : periodOf votePeriod t.height = periodOf votePeriod submitBlock + 1)
    {staking : StakingKeeper}
    (hpermit : validateFeeder codec staking t.store feederAddr v = .ok ())
    (htargets : ∀ x ∈ tuples, (t.store.tobinTaxes.get x.denom).isSome) :
    step codec votePeriod t (.vote staking sub.vote) =
      some { t with
        store := { t.store with
          votes := t.store.votes.set v ⟨tuples, v⟩
          prevotes := t.store.prevotes.erase v }
        log := .vote t.height sub.vote :: t.log } := by
  -- with a period of zero every block is in period zero
  have hP : votePeriod ≠ 0 := by
    rintro rfl
    have hzero : ∀ block : BlockHeight, periodOf 0 block = 0 := fun block => Nat.div_zero _
    rw [hzero, hzero] at hperiod
    cases hperiod
  have haccepted := (reveal_accepted_iff hsub hP hget
    (revealPeriod_of_periodOf hperiod)).mpr ⟨hpermit, htargets⟩
  simp only [step]
  rw [haccepted]

/-- The rates of a vote that is stored are in the ballots. -/
theorem ballots_of_stored {stored : SortedMap ValAddr AggregateExchangeRateVote}
    (hacc : AcceptedVotes stored) (hget : stored.get v = some ⟨tuples, v⟩) (sched : Schedule)
    {k : Keepers} (hact : v ∈ activeSet k.staking) {x : ExchangeRateTuple} (hx : x ∈ tuples) :
    ∃ ballot, (organizeBallotByDenom sched (startClaims k.staking) stored).get x.denom =
        some ballot ∧
      ⟨x.denom, x.exchangeRate, v, powerBehind k.staking v x.exchangeRate⟩ ∈ ballot := by
  have hnodup : (tuples.map ExchangeRateTuple.denom).Nodup := (hacc v _ hget).nodup
  have hfind : tuples.find? (fun t => t.denom = x.denom) = some x := by
    have hmem : x ∈ tuples.filter (fun t => t.denom = x.denom) := by
      rw [List.mem_filter]
      exact ⟨hx, decide_eq_true rfl⟩
    -- an accepted vote has one rate for a denom
    rw [filter_denom_eq hnodup, Option.mem_toList] at hmem
    exact hmem
  have hrate : rateOf stored x.denom v = some x.exchangeRate := by
    unfold rateOf
    rw [hget]
    show (tuples.find? _).map _ = _
    rw [hfind]
    rfl
  have hmem := mem_ballotOf_of_rate hacc hact hrate
  refine ⟨sched.sort (ballotOf (startClaims k.staking) stored x.denom), ?_, ?_⟩
  · rw [organizeBallotByDenom_get, if_neg (List.ne_nil_of_mem hmem)]
  · exact (sched.sort_perm _).mem_iff.mpr hmem

/-- Over every run: a feeder commits, others send what they like, and one vote period later the
    feeder reveals.  If it may feed for `v` at both moments and its denoms are vote targets,
    its vote is stored until the end of the period, and when that period is tallied each of
    its rates is in the ballot of the denom, with the power of `v`. -/
theorem honest_feeder_heard (hhash : TruncatedTo20 codec)
    (hsub : sub.WellFormed codec v feederAddr tuples) (hprevotes : store.prevotes = ∅)
    (hvotes : store.votes = ∅) {before middle after : List Event} {s s₁ t u : ChainState}
    (hbefore : Run.run (step codec votePeriod) before (ChainState.start height store) = some s)
    {staking : StakingKeeper}
    (hcommits : validateFeeder codec staking s.store feederAddr v = .ok ())
    (hcommit : step codec votePeriod s (.prevote staking (sub.prevote codec v)) = some s₁)
    (hmiddle : Run.run (step codec votePeriod) middle s₁ = some t)
    (hothers : Run.Along (step codec votePeriod) (Outsider codec v) middle s₁)
    (hperiod : periodOf votePeriod t.height = periodOf votePeriod s.height + 1)
    (hfits : t.height.val + votePeriod.toNat < 2 ^ 63) {staking' : StakingKeeper}
    (hreveals : validateFeeder codec staking' t.store feederAddr v = .ok ())
    (htargets : ∀ x ∈ tuples, (t.store.tobinTaxes.get x.denom).isSome)
    (hafter : Run.run (step codec votePeriod) (.vote staking' sub.vote :: after) t = some u)
    (hsame : periodOf votePeriod u.height = periodOf votePeriod t.height) :
    u.store.votes.get v = some ⟨tuples, v⟩ ∧
      ∀ (sched : Schedule) (k : Keepers), v ∈ activeSet k.staking → ∀ x ∈ tuples,
        ∃ ballot, (organizeBallotByDenom sched (startClaims k.staking) u.store.votes).get x.denom =
            some ballot ∧
          ⟨x.denom, x.exchangeRate, v, powerBehind k.staking v x.exchangeRate⟩ ∈ ballot := by
  obtain ⟨hi₀, hacc₀⟩ := stored_run hbefore (PrevoteInv.start hprevotes hvotes)
    (fun a w hw => by rw [ChainState.start, hvotes] at hw; cases hw)
  obtain ⟨hi, hacc⟩ := stored_run hmiddle (hi₀.step (step_sound hcommit))
    (acceptedVotes_step (step_sound hcommit) hacc₀)
  obtain ⟨hi', hacc'⟩ := stored_run hafter hi hacc
  -- the commitment is the last message for `v`, so it is found
  have hlatest : latest codec v t.log = some (.prevote s.height (sub.prevote codec v)) := by
    rw [latest_of_outsiders hmiddle hothers]
    rw [step_commit hhash hsub hcommits] at hcommit
    cases hcommit
    exact latest_cons_of_for ((isFor_iff hsub.validator).mpr rfl) _
  have hvote := step_reveal hsub (commitment_found hi hlatest hperiod hfits) hperiod hreveals
    htargets
  obtain ⟨t₁, ht₁, hrest⟩ := Option.bind_eq_some_iff.mp hafter
  -- the vote was cast in the period that `u` is still in
  have hcast : CastIn codec votePeriod (periodOf votePeriod u.height) v ⟨tuples, v⟩ u.log := by
    rw [hvote] at ht₁
    cases ht₁
    have hlog := log_suffix hrest
    exact ⟨t.height, sub.vote, hlog.subset List.mem_cons_self, hsame.symm, hsub.validator,
      hsub.rates, rfl⟩
  have hget := (hi'.inv.votes v _).mpr hcast
  exact ⟨hget, fun sched k hact x hx => ballots_of_stored hacc' hget sched hact hx⟩

end Heard

/-- The libraries of the small chain, with twenty bytes for every hash. -/
def smallHashCodec : Codec :=
  { smallCodec with truncatedHash := fun s =>
      (smallCodec.truncatedHash s ++ List.replicate 20 0).take 20 }

def smallSubmission : Submission where
  salt := "1234"
  exchangeRates := "2.0ukrw"
  feeder := "terra1vynex3pr"
  validator := "terravaloper1vy3vsmy0"

/-- A commitment in the last block of a period and its reveal in the next block. -/
theorem honest_feeder_heard_small :
    ∃ u, Run.run (step smallHashCodec 5)
        [.prevote smallStaking (smallSubmission.prevote smallHashCodec "a"),
          .endBlock .inOrder smallKeepers smallParams, .vote smallStaking smallSubmission.vote]
        (ChainState.start 4 (smallStore [])) = some u ∧
      u.store.votes.get "a" = some ⟨[⟨"ukrw", Dec.withPrec 20 1⟩], "a"⟩ := by
  have hhash : TruncatedTo20 smallHashCodec := by
    intro text
    show (List.take 20 (_ ++ List.replicate 20 0)).length = 20
    rw [List.length_take, List.length_append, List.length_replicate]
    omega
  have hsub : smallSubmission.WellFormed smallHashCodec "a" "a" [⟨"ukrw", Dec.withPrec 20 1⟩] :=
    ⟨by decide +kernel, by decide +kernel, by decide +kernel, by decide +kernel⟩
  have hpermit : validateFeeder smallHashCodec smallStaking (smallStore []) "a" "a" = .ok () := by
    decide +kernel
  let commit : Event := .prevote smallStaking (smallSubmission.prevote smallHashCodec "a")
  let endPeriod : Event := .endBlock .inOrder smallKeepers smallParams
  let reveal : Event := .vote smallStaking smallSubmission.vote
  obtain ⟨s₁, hcommit⟩ : ∃ s₁,
      step smallHashCodec 5 (ChainState.start 4 (smallStore [])) commit = some s₁ :=
    ⟨_, step_commit hhash hsub hpermit⟩
  have hmiddle : ((step smallHashCodec 5 (ChainState.start 4 (smallStore [])) commit).bind
      (Run.run (step smallHashCodec 5) [endPeriod])).map (fun t =>
        (t.height, (t.store.tobinTaxes.get "ukrw").isSome,
          validateFeeder smallHashCodec smallStaking t.store "a" "a",
          (Run.run (step smallHashCodec 5) [reveal] t).map ChainState.height)) =
      some (5, true, .ok (), some 5) := by decide +kernel
  rw [hcommit] at hmiddle
  obtain ⟨t, hmiddle, ht⟩ := Option.map_eq_some_iff.mp hmiddle
  have hmiddle : Run.run (step smallHashCodec 5) [endPeriod] s₁ = some t := hmiddle
  obtain ⟨hheight, ht⟩ := Prod.mk.inj ht
  obtain ⟨htarget, ht⟩ := Prod.mk.inj ht
  obtain ⟨hpermit', ht⟩ := Prod.mk.inj ht
  obtain ⟨u, hreveal, hheight'⟩ := Option.map_eq_some_iff.mp ht
  have htargets : ∀ x ∈ ([⟨"ukrw", Dec.withPrec 20 1⟩] : List ExchangeRateTuple),
      (t.store.tobinTaxes.get x.denom).isSome := by
    intro x hx
    rw [List.mem_singleton.mp hx]
    exact htarget
  have hothers : Run.Along (step smallHashCodec 5) (Outsider smallHashCodec "a") [endPeriod] s₁ :=
    ⟨fun _ _ hparties => (by cases hparties), fun _ _ => trivial⟩
  have hperiod : periodOf 5 t.height = periodOf 5 (4 : BlockHeight) + 1 := by
    rw [hheight]
    decide
  have hstart : Run.run (step smallHashCodec 5) [] (ChainState.start 4 (smallStore [])) =
    some (ChainState.start 4 (smallStore [])) := rfl
  obtain ⟨hstored, _⟩ := honest_feeder_heard hhash hsub rfl rfl hstart hpermit hcommit
    hmiddle hothers hperiod (by rw [hheight]; decide) hpermit' htargets hreveal
    (by rw [hheight, hheight'])
  refine ⟨u, ?_, hstored⟩
  obtain ⟨t', ht', hnil⟩ := Option.bind_eq_some_iff.mp hmiddle
  cases hnil
  unfold Run.run
  rw [List.foldlM_cons]
  refine Option.bind_eq_some_iff.mpr ⟨s₁, hcommit, ?_⟩
  rw [List.foldlM_cons]
  exact Option.bind_eq_some_iff.mpr ⟨t, ht', hreveal⟩

end TerraClassic.Oracle
