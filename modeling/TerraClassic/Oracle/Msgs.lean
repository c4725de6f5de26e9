import TerraClassic.Oracle.Accepted
import TerraClassic.Sdk.Errors

/-! # The oracle messages and their server

    `MsgAggregateExchangeRatePrevote`, `MsgAggregateExchangeRateVote` and
    `MsgDelegateFeedConsent`, with the stateless checks of `msgs.go`, the parser
    of `vote.go`, the hash strings of `hash.go` and the handlers of
    `msg_server.go`.

    A handler returns the new store or an error; baseapp drops the writes of a
    message that fails, so an error leaves the store as it was.  A panic inside
    a handler is recovered by baseapp and is an error like the others.
-/

namespace TerraClassic.Oracle

open SdkError (wrapErr mapError_eq_ok)

/-! ### Errors -/

/-- The registered errors the oracle returns. -/
inductive ErrorKind where
  | invalidExchangeRate
  | noVotingPermission
  | invalidHash
  | invalidHashLength
  | verificationFailed
  | revealPeriodMissMatch
  | invalidSaltLength
  | noAggregatePrevote
  | unknownDenom
  | invalidAddress
  | unknownRequest
  | invalidRequest
  | invalidCoins
  | noValidatorFound
  deriving DecidableEq, Repr

/-- An error of an oracle message. -/
abbrev MsgError : Type := SdkError ErrorKind

/-- The library functions the messages call: bech32, `sdk.ParseDecCoin` and the
    truncated SHA-256 of Tendermint.  `ParseDecCoin` accepts an unsigned decimal
    followed by a denom. -/
structure Codec extends Bech32 where
  parseDecCoin : String → Except String (Denom × Dec)
  truncatedHash : String → List UInt8
  parseDecCoin_named : ∀ s denom rate, parseDecCoin s = .ok (denom, rate) → denom ≠ ""
  parseDecCoin_nonneg : ∀ s denom rate, parseDecCoin s = .ok (denom, rate) → 0 ≤ rate.i

/-! ### Hash strings -/

/-- A digit of `hex.EncodeToString`. -/
def hexDigit (n : ℕ) : Char := "0123456789abcdef".toList.getD n '0'

/-- `hex.EncodeToString`. -/
def hexEncode (bytes : List UInt8) : String :=
  String.ofList (bytes.flatMap (fun b => [hexDigit (b.toNat / 16), hexDigit (b.toNat % 16)]))

/-- `fromHexChar`: both cases are accepted. -/
def fromHexChar (b : UInt8) : Option UInt8 :=
  if 48 ≤ b ∧ b ≤ 57 then some (b - 48)
  else if 97 ≤ b ∧ b ≤ 102 then some (b - 97 + 10)
  else if 65 ≤ b ∧ b ≤ 70 then some (b - 65 + 10)
  else none

/-- The text of `hex.InvalidByteError`: the byte as a code point, quoted when it
    is printable. -/
def invalidByteText (b : UInt8) : String :=
  let printable := (32 ≤ b && b ≤ 126) || (161 ≤ b && b ≠ 173)
  let upper := (hexEncode [b]).toUpper
  "encoding/hex: invalid byte: U+00" ++ upper ++
    (if printable then " '" ++ String.singleton (Char.ofNat b.toNat) ++ "'" else "")

/-- `hex.DecodeString` on the bytes of a string. -/
def hexDecodeBytes : List UInt8 → Except String (List UInt8)
  | [] => .ok []
  | [b] =>
    match fromHexChar b with
    | none => .error (invalidByteText b)
    | some _ => .error "encoding/hex: odd length hex string"
  | b₁ :: b₂ :: rest =>
    match fromHexChar b₁, fromHexChar b₂ with
    | none, _ => .error (invalidByteText b₁)
    | some _, none => .error (invalidByteText b₂)
    | some hi, some lo => (hexDecodeBytes rest).map (fun bytes => (hi * 16 + lo) :: bytes)

/-- `AggregateVoteHashFromHexString`. -/
def aggregateVoteHashFromHexString (s : String) : Except String (List UInt8) :=
  hexDecodeBytes s.toUTF8.data.toList

/-- `GetAggregateVoteHash`. -/
def getAggregateVoteHash (codec : Codec) (salt exchangeRatesStr : String) (voter : ValAddr) :
    List UInt8 :=
  codec.truncatedHash (salt ++ ":" ++ exchangeRatesStr ++ ":" ++ codec.valAddressString voter)

/-! ### Parsing the exchange rates -/

/-- `unicode.IsSpace`. -/
def isSpace (c : Char) : Bool :=
  let n := c.toNat
  (9 ≤ n && n ≤ 13) || n == 0x20 || n == 0x85 || n == 0xA0 || n == 0x1680 ||
    (0x2000 ≤ n && n ≤ 0x200a) || n == 0x2028 || n == 0x2029 || n == 0x202f || n == 0x205f ||
    n == 0x3000

/-- `strings.TrimSpace`. -/
def trimSpace (s : String) : String :=
  String.ofList ((s.toList.dropWhile isSpace).reverse.dropWhile isSpace).reverse

/-- `strings.Split(s, ",")`. -/
def splitComma (s : String) : List String := (s.toList.splitOn ',').map String.ofList

/-- One round of the loop in `ParseExchangeRateTuples`; the denoms of the tuples
    so far are the keys of `duplicateCheckMap`. -/
def parseTuple (codec : Codec) (tuples : List ExchangeRateTuple) (tupleStr : String) :
    Except String (List ExchangeRateTuple) := do
  let (denom, amount) ← codec.parseDecCoin tupleStr
  if denom ∈ tuples.map ExchangeRateTuple.denom then
    throw ("duplicated denom " ++ denom)
  return tuples ++ [⟨denom, amount⟩]

/-- `ParseExchangeRateTuples`. -/
def parseExchangeRateTuples (codec : Codec) (tuplesStr : String) :
    Except String (List ExchangeRateTuple) :=
  let trimmed := trimSpace tuplesStr
  if trimmed.utf8ByteSize = 0 then .ok []
  else (splitComma trimmed).foldlM (parseTuple codec) []

/-! ### Messages -/

/-- `MsgAggregateExchangeRatePrevote`. -/
structure MsgAggregateExchangeRatePrevote where
  hash : String
  feeder : String
  validator : String
  deriving DecidableEq, Repr

/-- `MsgAggregateExchangeRateVote`. -/
structure MsgAggregateExchangeRateVote where
  salt : String
  exchangeRates : String
  feeder : String
  validator : String
  deriving DecidableEq, Repr

/-- `MsgDelegateFeedConsent`. -/
structure MsgDelegateFeedConsent where
  operator : String
  delegate : String
  deriving DecidableEq, Repr

/-- The check of one address in `ValidateBasic`. -/
def checkAddress {α : Type} (role : String) (parsed : Except String α) : Except MsgError α :=
  wrapErr .invalidAddress (fun err => "Invalid " ++ role ++ " address (" ++ err ++ ")") parsed

/-- `MsgAggregateExchangeRatePrevote.ValidateBasic`. -/
def MsgAggregateExchangeRatePrevote.validateBasic (codec : Codec)
    (msg : MsgAggregateExchangeRatePrevote) : Except MsgError Unit := do
  let _ ← wrapErr .invalidHash (fun err => "Invalid vote hash (" ++ err ++ ")")
    (aggregateVoteHashFromHexString msg.hash)
  if msg.hash.utf8ByteSize ≠ 20 * 2 then throw (.registered .invalidHashLength)
  let _ ← checkAddress "feeder" (codec.accAddressFromBech32 msg.feeder)
  let _ ← checkAddress "operator" (codec.valAddressFromBech32 msg.validator)

/-- `MsgAggregateExchangeRateVote.ValidateBasic`. -/
def MsgAggregateExchangeRateVote.validateBasic (codec : Codec)
    (msg : MsgAggregateExchangeRateVote) : Except MsgError Unit := do
  let _ ← checkAddress "feeder" (codec.accAddressFromBech32 msg.feeder)
  let _ ← checkAddress "operator" (codec.valAddressFromBech32 msg.validator)
  if msg.exchangeRates.utf8ByteSize = 0 then
    throw (.wrap .unknownRequest "must provide at least one oracle exchange rate")
  else if msg.exchangeRates.utf8ByteSize > 4096 then
    throw (.wrap .invalidRequest "exchange rates string can not exceed 4096 characters")
  let exchangeRates ← wrapErr .invalidCoins
    (fun err => "failed to parse exchange rates string cause: " ++ err)
    (parseExchangeRateTuples codec msg.exchangeRates)
  if exchangeRates.any (fun t => bitLen t.exchangeRate.i > 255 + 60) then
    throw (.wrap .invalidExchangeRate "overflow")
  if msg.salt.utf8ByteSize > 4 ∨ msg.salt.utf8ByteSize < 1 then
    throw (.wrap .invalidSaltLength "salt length must be [1, 4]")

/-- `MsgDelegateFeedConsent.ValidateBasic`. -/
def MsgDelegateFeedConsent.validateBasic (codec : Codec) (msg : MsgDelegateFeedConsent) :
    Except MsgError Unit := do
  let _ ← checkAddress "operator" (codec.valAddressFromBech32 msg.operator)
  let _ ← checkAddress "delegate" (codec.accAddressFromBech32 msg.delegate)

/-! ### Handlers -/

/-- An address a handler parses again; the error is the parser's own. -/
def parseAddress {α : Type} : Except String α → Except MsgError α := Except.mapError .plain

/-- `GetFeederDelegation`: by default the right is the validator's own. -/
def getFeederDelegation (st : Store) (operator : ValAddr) : AccAddr :=
  st.feederDelegations.getD operator operator

/-- `ValidateFeeder`. -/
def validateFeeder (codec : Codec) (staking : StakingKeeper) (st : Store) (feederAddr : AccAddr)
    (validatorAddr : ValAddr) : Except MsgError Unit := do
  if feederAddr ≠ validatorAddr then
    if getFeederDelegation st validatorAddr ≠ feederAddr then
      throw (.wrap .noVotingPermission (codec.accAddressString feederAddr))
  if ((staking.validators.get validatorAddr).filter Validator.bonded).isNone then
    throw (.wrap .noValidatorFound
      ("validator " ++ codec.valAddressString validatorAddr ++ " is not active set"))

/-- `AggregateExchangeRatePrevote`. -/
def aggregateExchangeRatePrevote (codec : Codec) (staking : StakingKeeper) (height : BlockHeight)
    (msg : MsgAggregateExchangeRatePrevote) (st : Store) : Except MsgError Store := do
  let valAddr ← parseAddress (codec.valAddressFromBech32 msg.validator)
  let feederAddr ← parseAddress (codec.accAddressFromBech32 msg.feeder)
  validateFeeder codec staking st feederAddr valAddr
  let voteHash ← wrapErr .invalidHash id (aggregateVoteHashFromHexString msg.hash)
  return { st with
    prevotes := st.prevotes.set valAddr
      ⟨hexEncode voteHash, valAddr, UInt64.ofNat height.val⟩ }

/-- The period test of `AggregateExchangeRateVote`, in `uint64`. -/
def revealPeriod (height : BlockHeight) (submitBlock votePeriod : UInt64) : Bool :=
  UInt64.ofNat height.val / votePeriod - submitBlock / votePeriod == 1

/-- `AggregateExchangeRateVote`. -/
def aggregateExchangeRateVote (codec : Codec) (staking : StakingKeeper) (votePeriod : UInt64)
    (height : BlockHeight) (msg : MsgAggregateExchangeRateVote) (st : Store) :
    Except MsgError Store := do
  let valAddr ← parseAddress (codec.valAddressFromBech32 msg.validator)
  let feederAddr ← parseAddress (codec.accAddressFromBech32 msg.feeder)
  validateFeeder codec staking st feederAddr valAddr
  match st.prevotes.get valAddr with
  | none => throw (.wrap .noAggregatePrevote msg.validator)
  | some aggregatePrevote =>
    -- dividing by a zero vote period panics
    if votePeriod = 0 then throw .panicked
    if !revealPeriod height aggregatePrevote.submitBlock votePeriod then
      throw (.registered .revealPeriodMissMatch)
    let exchangeRateTuples ← wrapErr .invalidCoins id
      (parseExchangeRateTuples codec msg.exchangeRates)
    match exchangeRateTuples.find? (fun t => (st.tobinTaxes.get t.denom).isNone) with
    | some t => throw (.wrap .unknownDenom t.denom)
    | none =>
      let hash := hexEncode (getAggregateVoteHash codec msg.salt msg.exchangeRates valAddr)
      if aggregatePrevote.hash ≠ hash then
        throw (.wrap .verificationFailed
          ("must be given " ++ aggregatePrevote.hash ++ " not " ++ hash))
      return { st with
        votes := st.votes.set valAddr ⟨exchangeRateTuples, valAddr⟩
        prevotes := st.prevotes.erase valAddr }

/-- `DelegateFeedConsent`. -/
def delegateFeedConsent (codec : Codec) (staking : StakingKeeper) (msg : MsgDelegateFeedConsent)
    (st : Store) : Except MsgError Store := do
  let operatorAddr ← parseAddress (codec.valAddressFromBech32 msg.operator)
  let delegateAddr ← parseAddress (codec.accAddressFromBech32 msg.delegate)
  match staking.validators.get operatorAddr with
  | none => throw (.wrap .noValidatorFound msg.operator)
  | some _ =>
    return { st with feederDelegations := st.feederDelegations.set operatorAddr delegateAddr }

/-! ### What an accepted message did -/

/-- An accepted prevote is stored under its validator, with the block. -/
theorem aggregateExchangeRatePrevote_ok {codec : Codec} {staking : StakingKeeper}
    {height : BlockHeight} {msg : MsgAggregateExchangeRatePrevote} {st st' : Store}
    (h : aggregateExchangeRatePrevote codec staking height msg st = .ok st') :
    ∃ valAddr voteHash, codec.valAddressFromBech32 msg.validator = .ok valAddr ∧
      aggregateVoteHashFromHexString msg.hash = .ok voteHash ∧
      st' = { st with
        prevotes := st.prevotes.set valAddr
          ⟨hexEncode voteHash, valAddr, UInt64.ofNat height.val⟩ } := by
  obtain ⟨valAddr, hval, h⟩ := Run.bind_eq_ok.mp h
  obtain ⟨feederAddr, _, h⟩ := Run.bind_eq_ok.mp h
  obtain ⟨_, _, h⟩ := Run.bind_eq_ok.mp h
  obtain ⟨voteHash, hhash, h⟩ := Run.bind_eq_ok.mp h
  cases h
  exact ⟨valAddr, voteHash, mapError_eq_ok.mp hval, mapError_eq_ok.mp hhash, rfl⟩

/-- What the handler checked of an accepted vote, and what it wrote. -/
theorem aggregateExchangeRateVote_ok {codec : Codec} {staking : StakingKeeper}
    {votePeriod : UInt64} {height : BlockHeight} {msg : MsgAggregateExchangeRateVote}
    {st st' : Store}
    (h : aggregateExchangeRateVote codec staking votePeriod height msg st = .ok st') :
    ∃ valAddr prevote tuples, codec.valAddressFromBech32 msg.validator = .ok valAddr ∧
      st.prevotes.get valAddr = some prevote ∧ votePeriod ≠ 0 ∧
      revealPeriod height prevote.submitBlock votePeriod = true ∧
      parseExchangeRateTuples codec msg.exchangeRates = .ok tuples ∧
      (∀ t ∈ tuples, (st.tobinTaxes.get t.denom).isSome) ∧
      prevote.hash = hexEncode (getAggregateVoteHash codec msg.salt msg.exchangeRates valAddr) ∧
      st' = { st with
        votes := st.votes.set valAddr ⟨tuples, valAddr⟩
        prevotes := st.prevotes.erase valAddr } := by
  obtain ⟨valAddr, hval, h⟩ := Run.bind_eq_ok.mp h
  obtain ⟨feederAddr, _, h⟩ := Run.bind_eq_ok.mp h
  obtain ⟨_, _, h⟩ := Run.bind_eq_ok.mp h
  cases hget : st.prevotes.get valAddr with
  | none =>
    rw [hget] at h
    cases h
  | some prevote =>
    simp only [hget] at h
    by_cases hP : votePeriod = 0
    · rw [if_pos hP] at h
      cases h
    rw [if_neg hP] at h
    by_cases hperiod : revealPeriod height prevote.submitBlock votePeriod = true
    · simp only [hperiod] at h
      obtain ⟨tuples, htuples, h⟩ := Run.bind_eq_ok.mp h
      cases hfind : tuples.find? (fun t => (st.tobinTaxes.get t.denom).isNone) with
      | some t =>
        rw [hfind] at h
        cases h
      | none =>
        simp only [hfind] at h
        by_cases hhash : prevote.hash =
            hexEncode (getAggregateVoteHash codec msg.salt msg.exchangeRates valAddr)
        · rw [if_neg (not_not.mpr hhash)] at h
          cases h
          refine ⟨valAddr, prevote, tuples, mapError_eq_ok.mp hval, hget, hP, hperiod,
            mapError_eq_ok.mp htuples, ?_, hhash, rfl⟩
          intro t ht
          simpa [Option.isSome_iff_ne_none] using List.find?_eq_none.mp hfind t ht
        · rw [if_pos hhash] at h
          cases h
    · simp only [hperiod] at h
      cases h

theorem delegateFeedConsent_ok {codec : Codec} {staking : StakingKeeper}
    {msg : MsgDelegateFeedConsent} {st st' : Store}
    (h : delegateFeedConsent codec staking msg st = .ok st') :
    ∃ delegations, st' = { st with feederDelegations := delegations } := by
  obtain ⟨operatorAddr, _, h⟩ := Run.bind_eq_ok.mp h
  obtain ⟨delegateAddr, _, h⟩ := Run.bind_eq_ok.mp h
  cases hget : staking.validators.get operatorAddr with
  | none =>
    rw [hget] at h
    cases h
  | some validator =>
    rw [hget] at h
    cases h
    exact ⟨_, rfl⟩

/-! ### Hash strings name their bytes -/

theorem hexDigit_injective {m n : ℕ} (hm : m < 16) (hn : n < 16)
    (h : hexDigit m = hexDigit n) : m = n := by
  have : ∀ a < 16, ∀ b < 16, hexDigit a = hexDigit b → a = b := by decide
  exact this m hm n hn h

theorem hexEncode_injective {b₁ b₂ : List UInt8} (h : hexEncode b₁ = hexEncode b₂) :
    b₁ = b₂ := by
  have h' := String.ofList_injective h
  induction b₁ generalizing b₂ with
  | nil =>
    cases b₂ with
    | nil => rfl
    | cons b rest => simp at h'
  | cons b rest ih =>
    cases b₂ with
    | nil => simp at h'
    | cons b' rest' =>
      simp only [List.flatMap_cons, List.cons_append, List.nil_append, List.cons.injEq] at h'
      obtain ⟨hhi, hlo, hrest⟩ := h'
      have hb := b.toNat_lt
      have hb' := b'.toNat_lt
      have hhi := hexDigit_injective (by omega) (by omega) hhi
      have hlo := hexDigit_injective (by omega) (by omega) hlo
      have heq : b = b' := UInt8.toNat_inj.mp (by omega)
      rw [heq, ih (by unfold hexEncode; rw [hrest]) hrest]

/-! ### Parsed votes are accepted votes -/

/-- A round of the loop adds the tuple of its piece. -/
theorem parseTuple_eq_ok {codec : Codec} {tuples tuples' : List ExchangeRateTuple} {piece : String}
    (h : parseTuple codec tuples piece = .ok tuples') :
    ∃ t : ExchangeRateTuple, codec.parseDecCoin piece = .ok (t.denom, t.exchangeRate) ∧
      t.denom ∉ tuples.map ExchangeRateTuple.denom ∧ tuples' = tuples ++ [t] := by
  obtain ⟨⟨denom, amount⟩, hparse, h⟩ := Run.bind_eq_ok.mp h
  by_cases hdup : denom ∈ tuples.map ExchangeRateTuple.denom
  · simp only [if_pos hdup] at h
    cases h
  · simp only [if_neg hdup] at h
    cases h
    exact ⟨⟨denom, amount⟩, hparse, hdup, rfl⟩

/-- The tuples of a parsed vote name distinct denoms and have no negative rate. -/
theorem parseExchangeRateTuples_ok {codec : Codec} {s : String} {tuples : List ExchangeRateTuple}
    (h : parseExchangeRateTuples codec s = .ok tuples) :
    (tuples.map ExchangeRateTuple.denom).Nodup ∧
      ∀ t ∈ tuples, t.denom ≠ "" ∧ 0 ≤ t.exchangeRate.i := by
  simp only [parseExchangeRateTuples] at h
  split at h
  · cases h
    simp
  · refine Run.foldlM_ok (I := fun tuples : List ExchangeRateTuple =>
      (tuples.map ExchangeRateTuple.denom).Nodup ∧
        ∀ t ∈ tuples, t.denom ≠ "" ∧ 0 ≤ t.exchangeRate.i) ?_ h (by simp)
    intro tuples piece tuples' hstep ⟨hnodup, hrates⟩
    obtain ⟨new, hparse, hdup, rfl⟩ := parseTuple_eq_ok hstep
    constructor
    · rw [List.map_append, List.nodup_append]
      refine ⟨hnodup, by simp, ?_⟩
      intro a ha b hb
      rintro rfl
      have hb : a = new.denom := List.mem_singleton.mp hb
      exact hdup (hb ▸ ha)
    · intro t ht
      rcases List.mem_append.mp ht with ht | ht
      · exact hrates t ht
      · rw [List.mem_singleton.mp ht]
        exact ⟨codec.parseDecCoin_named _ _ _ hparse, codec.parseDecCoin_nonneg _ _ _ hparse⟩

/-- A vote message that passed `ValidateBasic` parses, with rates of at most 315 bits. -/
theorem validateBasic_parses {codec : Codec} {msg : MsgAggregateExchangeRateVote}
    (h : msg.validateBasic codec = .ok ()) :
    ∃ tuples, parseExchangeRateTuples codec msg.exchangeRates = .ok tuples ∧
      ∀ t ∈ tuples, Dec.Fits t.exchangeRate.i := by
  obtain ⟨_, _, h⟩ := Run.bind_eq_ok.mp h
  obtain ⟨_, _, h⟩ := Run.bind_eq_ok.mp h
  by_cases hempty : msg.exchangeRates.utf8ByteSize = 0
  · simp only [if_pos hempty] at h
    cases h
  by_cases hlong : msg.exchangeRates.utf8ByteSize > 4096
  · simp only [if_neg hempty, if_pos hlong] at h
    cases h
  simp only [if_neg hempty, if_neg hlong] at h
  obtain ⟨tuples, hparse, h⟩ := Run.bind_eq_ok.mp h
  by_cases hover : tuples.any (fun t => bitLen t.exchangeRate.i > 255 + 60) = true
  · simp only [if_pos hover] at h
    cases h
  · refine ⟨tuples, mapError_eq_ok.mp hparse, ?_⟩
    intro t ht
    have hle : ¬ bitLen t.exchangeRate.i > 255 + 60 := by
      intro hgt
      exact hover (List.any_eq_true.mpr ⟨t, ht, by simpa using hgt⟩)
    exact (bitLen_le_iff _ _).mp (not_lt.mp hle)

theorem validateBasic_rates_fit {codec : Codec} {msg : MsgAggregateExchangeRateVote}
    (h : msg.validateBasic codec = .ok ()) {tuples : List ExchangeRateTuple}
    (hparse : parseExchangeRateTuples codec msg.exchangeRates = .ok tuples) :
    ∀ t ∈ tuples, Dec.Fits t.exchangeRate.i := by
  obtain ⟨parsed, hparsed, hfits⟩ := validateBasic_parses h
  rw [hparse] at hparsed
  cases hparsed
  exact hfits

end TerraClassic.Oracle
