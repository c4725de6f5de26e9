import Mathlib.Data.List.TakeWhile
import TerraClassic.Oracle.Chain

/-! # What an accepted vote message carries

    `ValidateBasic` of `MsgAggregateExchangeRateVote` asks for at least one exchange
    rate, but looks at the length of the raw string; `ParseExchangeRateTuples`
    trims it first, and returns no tuples if nothing is left.  So a message of
    spaces is accepted and votes for nothing.  Any other accepted message carries one
    tuple for each piece between commas.
-/

namespace TerraClassic.Oracle

/-! ### Trimming -/

theorem trimSpace_empty_iff (s : String) :
    (trimSpace s).utf8ByteSize = 0 ↔ ∀ c ∈ s.toList, isSpace c = true := by
  rw [String.utf8ByteSize_eq_zero_iff, trimSpace, String.ofList_eq_empty_iff,
    List.reverse_eq_nil_iff, List.dropWhile_eq_nil_iff]
  constructor
  · intro h c hc
    by_contra hspace
    -- the first character that is no space survives the left trim
    have hne : s.toList.dropWhile isSpace ≠ [] := by
      intro hnil
      exact hspace (List.dropWhile_eq_nil_iff.mp hnil c hc)
    have hhead := List.head_dropWhile_not isSpace hne
    rw [h _ (List.mem_reverse.mpr (List.head_mem hne))] at hhead
    cases hhead
  · intro h c hc
    exact h c ((List.dropWhile_suffix isSpace).mem (List.mem_reverse.mp hc))

theorem splitComma_ne_nil (s : String) : splitComma s ≠ [] := by
  unfold splitComma
  rw [Ne, List.map_eq_nil_iff]
  exact List.splitOn_ne_nil ',' s.toList

/-! ### Parsing -/

/-- The tuples of the loop are those of the pieces, in order. -/
theorem foldlM_parseTuple {codec : Codec} {pieces : List String}
    {tuples tuples' : List ExchangeRateTuple}
    (h : pieces.foldlM (parseTuple codec) tuples = .ok tuples') :
    ∃ new, tuples' = tuples ++ new ∧ List.Forall₂ (fun piece t =>
      codec.parseDecCoin piece = .ok (t.denom, t.exchangeRate)) pieces new := by
  induction pieces generalizing tuples with
  | nil =>
    cases h
    exact ⟨[], (List.append_nil _).symm, .nil⟩
  | cons piece rest ih =>
    rw [List.foldlM_cons] at h
    obtain ⟨tuples₁, hpiece, hrest⟩ := Run.bind_eq_ok.mp h
    obtain ⟨t, hparse, _, rfl⟩ := parseTuple_eq_ok hpiece
    obtain ⟨new, rfl, hnew⟩ := ih hrest
    exact ⟨t :: new, by rw [List.append_assoc]; rfl, .cons hparse hnew⟩

/-- Nothing but spaces parses to no tuples. -/
theorem parseExchangeRateTuples_blank (codec : Codec) {s : String}
    (h : ∀ c ∈ s.toList, isSpace c = true) : parseExchangeRateTuples codec s = .ok [] :=
  if_pos ((trimSpace_empty_iff s).mpr h)

/-- Everything else parses to one tuple for each piece. -/
theorem parseExchangeRateTuples_pieces {codec : Codec} {s : String}
    {tuples : List ExchangeRateTuple} (h : parseExchangeRateTuples codec s = .ok tuples)
    (hs : ∃ c ∈ s.toList, isSpace c = false) :
    List.Forall₂ (fun piece t => codec.parseDecCoin piece = .ok (t.denom, t.exchangeRate))
      (splitComma (trimSpace s)) tuples := by
  have hne : ¬ (trimSpace s).utf8ByteSize = 0 := by
    intro hempty
    obtain ⟨c, hc, hspace⟩ := hs
    rw [(trimSpace_empty_iff s).mp hempty c hc] at hspace
    cases hspace
  simp only [parseExchangeRateTuples, if_neg hne] at h
  obtain ⟨new, rfl, hnew⟩ := foldlM_parseTuple h
  exact hnew

/-! ### Accepted messages -/

/-- The message carries votes: one for each piece of the trimmed string, for distinct denoms
    and with rates that are not negative and have at most 315 bits. -/
def CarriesVotes (codec : Codec) (msg : MsgAggregateExchangeRateVote) : Prop :=
  ∃ tuples, parseExchangeRateTuples codec msg.exchangeRates = .ok tuples ∧ tuples ≠ [] ∧
    tuples.length = (splitComma (trimSpace msg.exchangeRates)).length ∧
    (tuples.map ExchangeRateTuple.denom).Nodup ∧
    ∀ t ∈ tuples, 0 ≤ t.exchangeRate.i ∧ bitLen t.exchangeRate.i ≤ 315

/-- An accepted message carries votes exactly when it is not blank. -/
theorem carriesVotes_iff (codec : Codec) (msg : MsgAggregateExchangeRateVote)
    (h : msg.validateBasic codec = .ok ()) :
    CarriesVotes codec msg ↔ ∃ c ∈ msg.exchangeRates.toList, isSpace c = false := by
  constructor
  · rintro ⟨tuples, hparse, hne, _⟩
    by_contra hblank
    push Not at hblank
    rw [parseExchangeRateTuples_blank codec (fun c hc => by simpa using hblank c hc)] at hparse
    exact hne (Except.ok.inj hparse).symm
  · intro hs
    obtain ⟨tuples, hparse, hfits⟩ := validateBasic_parses h
    obtain ⟨hnodup, hrates⟩ := parseExchangeRateTuples_ok hparse
    have hlength := (parseExchangeRateTuples_pieces hparse hs).length_eq
    refine ⟨tuples, hparse, ?_, hlength.symm, hnodup, ?_⟩
    · rintro rfl
      exact splitComma_ne_nil _ (List.eq_nil_of_length_eq_zero hlength)
    · intro t ht
      exact ⟨(hrates t ht).2, (bitLen_le_iff _ maxDecBitLen).mpr (hfits t ht)⟩

theorem carriesVotes_small :
    smallVote.validateBasic smallCodec = .ok () ∧ CarriesVotes smallCodec smallVote := by
  have hbasic : smallVote.validateBasic smallCodec = .ok () := by decide +kernel
  exact ⟨hbasic, (carriesVotes_iff smallCodec smallVote hbasic).mpr ⟨'2', by decide, by decide⟩⟩

/-- A message with one space for its exchange rates passes the check and votes for
    nothing. -/
theorem blank_vote_accepted :
    ({ smallVote with exchangeRates := " " } : MsgAggregateExchangeRateVote).validateBasic
      smallCodec = .ok () ∧
    parseExchangeRateTuples smallCodec " " = .ok [] := by
  refine ⟨by decide +kernel, by decide +kernel⟩

end TerraClassic.Oracle
