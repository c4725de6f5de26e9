import TerraClassic.Oracle.Chain

/-! # Commit and reveal over whole runs

    The store of a running oracle, read against the log of accepted messages.

    * A stored prevote is the last message accepted for its validator
      (`Inv.prevotes`), so a reveal answers the last prevote.
    * The log is in block order (`Inv.ordered`), so the last message before a
      reveal being a prevote of the period before rules out a second reveal in
      the same period.
    * The stored votes are those cast in the current period (`Inv.votes`).
-/

namespace TerraClassic.Oracle

variable {codec : Codec} {votePeriod : UInt64}

/-- The vote period of a block. -/
def periodOf (votePeriod : UInt64) (height : BlockHeight) : ℕ := height.val / votePeriod.toNat

/-- `w` is the vote of a message accepted for `v` in the period `p`. -/
def CastIn (codec : Codec) (votePeriod : UInt64) (p : ℕ) (v : ValAddr)
    (w : AggregateExchangeRateVote) (log : List Record) : Prop :=
  ∃ height msg, Record.vote height msg ∈ log ∧ periodOf votePeriod height = p ∧
    codec.valAddressFromBech32 msg.validator = .ok v ∧
    parseExchangeRateTuples codec msg.exchangeRates = .ok w.exchangeRateTuples ∧ w.voter = v

/-- A vote accepted after `earlier` reveals the last prevote of its validator,
    which is of the period before, and is the first vote in its own period. -/
def Reveals (codec : Codec) (votePeriod : UInt64) (height : BlockHeight)
    (msg : MsgAggregateExchangeRateVote) (earlier : List Record) : Prop :=
  ∃ v, codec.valAddressFromBech32 msg.validator = .ok v ∧
    (∃ submitBlock prevote, lastPrevote codec v earlier = some (submitBlock, prevote) ∧
      aggregateVoteHashFromHexString prevote.hash =
        .ok (getAggregateVoteHash codec msg.salt msg.exchangeRates v) ∧
      periodOf votePeriod submitBlock + 1 = periodOf votePeriod height) ∧
    ∀ height' msg', Record.vote height' msg' ∈ earlier →
      codec.valAddressFromBech32 msg'.validator = .ok v →
      periodOf votePeriod height' ≠ periodOf votePeriod height

/-! ### The log -/

theorem latest_cons_of_for {v : ValAddr} {r : Record} (h : r.isFor codec v = true)
    (log : List Record) : latest codec v (r :: log) = some r := by
  unfold latest
  rw [List.find?_cons, h]

theorem latest_cons_of_not_for {v : ValAddr} {r : Record} (h : ¬ r.isFor codec v = true)
    (log : List Record) : latest codec v (r :: log) = latest codec v log := by
  unfold latest
  rw [List.find?_cons, Bool.not_eq_true _ |>.mp h]

/-- A message names one validator. -/
theorem isFor_iff {v a : ValAddr} {r : Record}
    (h : codec.valAddressFromBech32 r.validator = .ok v) : r.isFor codec a = true ↔ a = v := by
  unfold Record.isFor
  rw [h]
  constructor
  · intro ha
    exact (Except.ok.inj (of_decide_eq_true ha)).symm
  · rintro rfl
    exact decide_eq_true rfl

theorem lastPrevote_of_latest {v : ValAddr} {height : BlockHeight}
    {msg : MsgAggregateExchangeRatePrevote} {log : List Record}
    (h : latest codec v log = some (.prevote height msg)) :
    lastPrevote codec v log = some (height, msg) := by
  obtain ⟨hfor, before, after, rfl, hbefore⟩ := List.find?_eq_some_iff_append.mp h
  unfold lastPrevote
  rw [List.findSome?_append, List.findSome?_eq_none_iff.mpr, Option.none_or,
    List.findSome?_cons_of_isSome]
  · simp [hfor]
  · simp [hfor]
  · intro r hr
    cases r with
    | prevote height' msg' => simpa using hbefore _ hr
    | vote height' msg' => rfl

/-- Blocks do not decrease along the log. -/
def Ordered (log : List Record) : Prop :=
  log.Pairwise (fun newer older => older.height ≤ newer.height)

theorem height_le_latest {v : ValAddr} {r last : Record} {log : List Record} (ho : Ordered log)
    (hlast : latest codec v log = some last) (hr : r ∈ log) (hfor : r.isFor codec v = true) :
    r.height ≤ last.height := by
  obtain ⟨_, before, after, rfl, hbefore⟩ := List.find?_eq_some_iff_append.mp hlast
  rcases List.mem_append.mp hr with hr | hr
  · have := hbefore r hr
    simp [hfor] at this
  · rcases List.mem_cons.mp hr with rfl | hr
    · exact le_rfl
    · have hpair := (List.pairwise_append.mp ho).2.1
      exact (List.pairwise_cons.mp hpair).1 r hr

/-! ### Periods -/

theorem toNat_ofHeight (height : BlockHeight) : (UInt64.ofNat height.val).toNat = height.val := by
  have := height.isLt
  rw [UInt64.toNat_ofNat']
  omega

/-- The reveal test, for a prevote that is not of a later block. -/
theorem periodOf_of_revealPeriod {height submitBlock : BlockHeight} (hle : submitBlock ≤ height)
    (h : revealPeriod height (UInt64.ofNat submitBlock.val) votePeriod = true) :
    periodOf votePeriod submitBlock + 1 = periodOf votePeriod height := by
  unfold revealPeriod at h
  have hsub := congrArg UInt64.toNat (beq_iff_eq.mp h)
  rw [UInt64.toNat_sub, UInt64.toNat_div, UInt64.toNat_div, toNat_ofHeight, toNat_ofHeight] at hsub
  have hone : (1 : UInt64).toNat = 1 := rfl
  have hdiv : submitBlock.val / votePeriod.toNat ≤ height.val / votePeriod.toNat :=
    Nat.div_le_div_right hle
  have hlt : height.val / votePeriod.toNat ≤ height.val := Nat.div_le_self _ _
  have hheight := height.isLt
  unfold periodOf
  -- the subtraction does not wrap, since the quotients are in order
  generalize height.val / votePeriod.toNat = p at hsub hdiv hlt ⊢
  generalize submitBlock.val / votePeriod.toNat = q at hsub hdiv ⊢
  omega

/-- The next block is of the same period, unless this one is the last. -/
theorem periodOf_next {height : BlockHeight} (hnext : height.val + 1 < 2 ^ 63) {b : Bool}
    (h : isPeriodLastBlock height votePeriod = some b) :
    periodOf votePeriod ⟨height.val + 1, hnext⟩ =
      periodOf votePeriod height + if b then 1 else 0 := by
  obtain ⟨_, hb⟩ := isPeriodLastBlock_eq_some h
  unfold periodOf
  rw [Nat.succ_div]
  simp only [hb, Nat.dvd_iff_mod_eq_zero]

theorem periodOf_mono (votePeriod : UInt64) {h₁ h₂ : BlockHeight} (h : h₁ ≤ h₂) :
    periodOf votePeriod h₁ ≤ periodOf votePeriod h₂ :=
  Nat.div_le_div_right h

/-! ### The invariant -/

/-- The store of a running oracle against the log of accepted messages. -/
structure Inv (codec : Codec) (votePeriod : UInt64) (s : ChainState) : Prop where
  ordered : Ordered s.log
  past : ∀ r ∈ s.log, r.height ≤ s.height
  prevotes : ∀ v prevote, s.store.prevotes.get v = some prevote →
    ∃ height msg voteHash, latest codec v s.log = some (.prevote height msg) ∧
      aggregateVoteHashFromHexString msg.hash = .ok voteHash ∧
      prevote = ⟨hexEncode voteHash, v, UInt64.ofNat height.val⟩
  votes : ∀ v w, s.store.votes.get v = some w ↔
    CastIn codec votePeriod (periodOf votePeriod s.height) v w s.log
  reveals : ∀ height msg earlier, (Record.vote height msg :: earlier) <:+ s.log →
    Reveals codec votePeriod height msg earlier

theorem Inv.start {height : BlockHeight} {store : Store} (hprevotes : store.prevotes = ∅)
    (hvotes : store.votes = ∅) : Inv codec votePeriod (ChainState.start height store) where
  ordered := List.Pairwise.nil
  past := by simp [ChainState.start]
  prevotes := by
    intro v prevote h
    rw [ChainState.start, hprevotes] at h
    cases h
  votes := by
    intro v w
    simp only [ChainState.start, hvotes, CastIn]
    constructor
    · intro h
      cases h
    · rintro ⟨_, _, h, _⟩
      cases h
  reveals := by
    intro height msg earlier h
    cases List.suffix_nil.mp h

/-- A message of the current block keeps the log in order. -/
theorem Inv.ordered_cons {s : ChainState} (hi : Inv codec votePeriod s) {r : Record}
    (hr : r.height = s.height) :
    Ordered (r :: s.log) ∧ ∀ r' ∈ r :: s.log, r'.height ≤ s.height := by
  constructor
  · refine List.pairwise_cons.mpr ⟨?_, hi.ordered⟩
    intro r' hr'
    rw [hr]
    exact hi.past r' hr'
  · intro r' hr'
    rcases List.mem_cons.mp hr' with rfl | hr'
    · exact le_of_eq hr
    · exact hi.past r' hr'

/-- The block a stored prevote was submitted in has not been passed by a later
    message of its validator. -/
theorem Inv.submitted {s : ChainState} (hi : Inv codec votePeriod s) {v : ValAddr}
    {prevote : AggregateExchangeRatePrevote} (h : s.store.prevotes.get v = some prevote) :
    ∃ height : BlockHeight, prevote.submitBlock = UInt64.ofNat height.val ∧ height ≤ s.height := by
  obtain ⟨height, msg, voteHash, hlatest, _, rfl⟩ := hi.prevotes v prevote h
  exact ⟨height, rfl, hi.past _ (List.mem_of_find?_eq_some hlatest)⟩

/-- An accepted vote reveals the last prevote, for the first time. -/
theorem Inv.reveals_of_vote {s : ChainState} (hi : Inv codec votePeriod s)
    {msg : MsgAggregateExchangeRateVote} {v : ValAddr} {prevote : AggregateExchangeRatePrevote}
    (hval : codec.valAddressFromBech32 msg.validator = .ok v)
    (hget : s.store.prevotes.get v = some prevote)
    (hperiod : revealPeriod s.height prevote.submitBlock votePeriod = true)
    (hhash : prevote.hash =
      hexEncode (getAggregateVoteHash codec msg.salt msg.exchangeRates v)) :
    Reveals codec votePeriod s.height msg s.log := by
  obtain ⟨submitBlock, pmsg, voteHash, hlatest, hdecode, rfl⟩ := hi.prevotes v prevote hget
  have hle : submitBlock ≤ s.height := hi.past _ (List.mem_of_find?_eq_some hlatest)
  have hnext := periodOf_of_revealPeriod hle hperiod
  refine ⟨v, hval, ⟨submitBlock, pmsg, lastPrevote_of_latest hlatest, ?_, hnext⟩, ?_⟩
  · rw [hdecode, hexEncode_injective hhash]
  · -- an earlier vote is older than the prevote, so its period is over
    intro height' msg' hmem hval' heq
    have hold : height' ≤ submitBlock :=
      height_le_latest hi.ordered hlatest hmem ((isFor_iff hval').mpr rfl)
    have := periodOf_mono votePeriod hold
    omega

theorem Inv.step_prevote {s : ChainState} (hi : Inv codec votePeriod s)
    {msg : MsgAggregateExchangeRatePrevote} {v : ValAddr} {voteHash : List UInt8}
    (hval : codec.valAddressFromBech32 msg.validator = .ok v)
    (hhash : aggregateVoteHashFromHexString msg.hash = .ok voteHash) :
    Inv codec votePeriod {
      height := s.height
      store := { s.store with
        prevotes := s.store.prevotes.set v
          ⟨hexEncode voteHash, v, UInt64.ofNat s.height.val⟩ }
      log := .prevote s.height msg :: s.log } where
  ordered := (hi.ordered_cons rfl).1
  past := (hi.ordered_cons rfl).2
  prevotes := by
    intro a prevote hget
    rw [SortedMap.get_set] at hget
    have hfor := isFor_iff (r := .prevote s.height msg) (a := a) hval
    split at hget
    · next heq =>
      cases hget
      refine ⟨s.height, msg, voteHash, latest_cons_of_for (hfor.mpr heq) _, hhash, ?_⟩
      rw [heq]
    · next hne =>
      rw [latest_cons_of_not_for (fun h => hne (hfor.mp h))]
      exact hi.prevotes a prevote hget
  votes := by
    intro a w
    rw [hi.votes a w]
    simp [CastIn]
  reveals := by
    intro height m earlier hsuffix
    rcases List.suffix_cons_iff.mp hsuffix with heq | hsuffix
    · cases heq
    · exact hi.reveals height m earlier hsuffix

theorem Inv.step_vote {s : ChainState} (hi : Inv codec votePeriod s)
    {msg : MsgAggregateExchangeRateVote} {v : ValAddr} {prevote : AggregateExchangeRatePrevote}
    {tuples : List ExchangeRateTuple}
    (hval : codec.valAddressFromBech32 msg.validator = .ok v)
    (hget : s.store.prevotes.get v = some prevote)
    (hperiod : revealPeriod s.height prevote.submitBlock votePeriod = true)
    (hparse : parseExchangeRateTuples codec msg.exchangeRates = .ok tuples)
    (hhash : prevote.hash =
      hexEncode (getAggregateVoteHash codec msg.salt msg.exchangeRates v)) :
    Inv codec votePeriod {
      height := s.height
      store := { s.store with
        votes := s.store.votes.set v ⟨tuples, v⟩
        prevotes := s.store.prevotes.erase v }
      log := .vote s.height msg :: s.log } where
  ordered := (hi.ordered_cons rfl).1
  past := (hi.ordered_cons rfl).2
  prevotes := by
    intro a p hp
    rw [SortedMap.get_erase] at hp
    have hfor := isFor_iff (r := .vote s.height msg) (a := a) hval
    split at hp
    · cases hp
    · next hne =>
      rw [latest_cons_of_not_for (fun h => hne (hfor.mp h))]
      exact hi.prevotes a p hp
  votes := by
    -- no earlier vote of this validator is in the period, so the new one is the only one
    obtain ⟨v', hval', _, hfirst⟩ := hi.reveals_of_vote hval hget hperiod hhash
    have hv : v' = v := Except.ok.inj (hval'.symm.trans hval)
    subst hv
    intro a w
    rw [SortedMap.get_set]
    by_cases ha : a = v'
    · subst ha
      rw [if_pos rfl]
      constructor
      · intro hw
        cases hw
        exact ⟨s.height, msg, List.mem_cons_self, rfl, hval, hparse, rfl⟩
      · rintro ⟨height, msg', hmem, hp, hval'', hparse', hvoter⟩
        rcases List.mem_cons.mp hmem with heq | hmem
        · cases heq
          rw [hparse] at hparse'
          cases w
          cases hparse'
          cases hvoter
          rfl
        · exact absurd hp (hfirst height msg' hmem hval'')
    · rw [if_neg ha, hi.votes a w]
      constructor
      · rintro ⟨height, msg', hmem, hrest⟩
        exact ⟨height, msg', List.mem_cons_of_mem _ hmem, hrest⟩
      · rintro ⟨height, msg', hmem, hp, hval'', hrest⟩
        rcases List.mem_cons.mp hmem with heq | hmem
        · cases heq
          exact absurd (Except.ok.inj (hval''.symm.trans hval)) ha
        · exact ⟨height, msg', hmem, hp, hval'', hrest⟩
  reveals := by
    intro height m earlier hsuffix
    rcases List.suffix_cons_iff.mp hsuffix with heq | hsuffix
    · cases heq
      exact hi.reveals_of_vote hval hget hperiod hhash
    · exact hi.reveals height m earlier hsuffix

theorem Inv.step_endBlock {s : ChainState} (hi : Inv codec votePeriod s) {sched : Schedule}
    {k : Keepers} {params : Params} {outcome : Outcome} (hheight : s.height.val + 1 < 2 ^ 63)
    (hend : endBlocker sched k { params with votePeriod := votePeriod } s.height s.store =
      some outcome) :
    Inv codec votePeriod
      { s with height := ⟨s.height.val + 1, hheight⟩, store := outcome.store } where
  ordered := hi.ordered
  past := by
    intro r hr
    exact le_trans (hi.past r hr) (Fin.le_def.mpr (Nat.le_succ s.height.val))
  prevotes := by
    intro v prevote hget
    apply hi.prevotes v prevote
    rcases endBlocker_ballots hend with ⟨_, _, hprevotes⟩ | ⟨_, _, hprevotes⟩
    · rw [hprevotes, clearPrevotes, SortedMap.get_filter] at hget
      exact (Option.filter_eq_some_iff.mp hget).1
    · rwa [hprevotes] at hget
  votes := by
    intro v w
    rcases endBlocker_ballots hend with ⟨hlast, hvotes, _⟩ | ⟨hlast, hvotes, _⟩
    · -- a new period starts, and no vote was cast in it
      have hnext := periodOf_next hheight hlast
      rw [hvotes, hnext]
      constructor
      · intro h
        cases h
      · rintro ⟨height, msg, hmem, hp, _⟩
        have hmono := periodOf_mono votePeriod (hi.past _ hmem)
        simp only [Record.height, if_true] at hmono hp
        omega
    · have hnext := periodOf_next hheight hlast
      rw [hvotes, hnext]
      exact hi.votes v w
  reveals := hi.reveals

theorem Inv.step {s s' : ChainState} (h : Step codec votePeriod s s')
    (hi : Inv codec votePeriod s) : Inv codec votePeriod s' := by
  cases h with
  | failed => exact hi
  | prevote msg v voteHash hval hhash => exact hi.step_prevote hval hhash
  | vote msg v prevote tuples hbasic hval hget hP hperiod hparse htargets hhash =>
    exact hi.step_vote hval hget hperiod hparse hhash
  | delegate delegations => exact ⟨hi.ordered, hi.past, hi.prevotes, hi.votes, hi.reveals⟩
  | endBlock sched k params outcome hheight hend => exact hi.step_endBlock hheight hend

/-- Every run keeps the invariant. -/
theorem Inv.run {height : BlockHeight} {store : Store} (hprevotes : store.prevotes = ∅)
    (hvotes : store.votes = ∅) {events : List Event} {s : ChainState}
    (hrun : Run.run (Oracle.step codec votePeriod) events (ChainState.start height store) =
      some s) : Inv codec votePeriod s :=
  run_step_invariant (fun _ _ h hi => Inv.step h hi) hrun (Inv.start hprevotes hvotes)

/-- Commit and reveal.  In every run that starts without prevotes and votes,
    each accepted vote reveals the last prevote of its validator, which is of
    the period before, and is the only one in its period; the votes in the
    store are, at every moment, those cast in the current period; and the end
    blocker that tallies them leaves none. -/
theorem commit_reveal {height : BlockHeight} {store : Store} (hprevotes : store.prevotes = ∅)
    (hvotes : store.votes = ∅) {events : List Event} {s : ChainState}
    (hrun : Run.run (step codec votePeriod) events (ChainState.start height store) = some s) :
    (∀ height msg earlier, (Record.vote height msg :: earlier) <:+ s.log →
      Reveals codec votePeriod height msg earlier) ∧
    (∀ v w, s.store.votes.get v = some w ↔
      CastIn codec votePeriod (periodOf votePeriod s.height) v w s.log) ∧
    (∀ (sched : Schedule) (k : Keepers) (params : Params) (outcome : Outcome),
      isPeriodLastBlock s.height votePeriod = some true →
      endBlocker sched k { params with votePeriod := votePeriod } s.height s.store =
        some outcome →
      outcome.store.votes = ∅) := by
  have hi : Inv codec votePeriod s := Inv.run hprevotes hvotes hrun
  refine ⟨hi.reveals, hi.votes, ?_⟩
  intro sched k params outcome hlast hend
  rcases endBlocker_ballots hend with ⟨_, hempty, _⟩ | ⟨hnot, _, _⟩
  · exact hempty
  · have hnot : isPeriodLastBlock s.height votePeriod = some false := hnot
    rw [hlast] at hnot
    cases hnot

theorem commit_reveal_one_vote :
    ∃ s, Run.run (step smallCodec 5) smallEvents (ChainState.start 4 (smallStore [])) = some s ∧
      s.log = [.vote 5 smallVote, .prevote 4 smallPrevote] ∧
      Reveals smallCodec 5 5 smallVote [.prevote 4 smallPrevote] ∧
      s.store.votes.get "a" = some ⟨[⟨"ukrw", Dec.withPrec 20 1⟩], "a"⟩ := by
  have hlog : (Run.run (step smallCodec 5) smallEvents
      (ChainState.start 4 (smallStore []))).map ChainState.log =
        some [.vote 5 smallVote, .prevote 4 smallPrevote] := by decide +kernel
  obtain ⟨s, hrun, hlog⟩ := Option.map_eq_some_iff.mp hlog
  obtain ⟨hreveals, hvotes, _⟩ := commit_reveal rfl rfl hrun
  refine ⟨s, hrun, hlog, hreveals 5 smallVote _ (by rw [hlog]), ?_⟩
  rw [hvotes, hlog]
  refine ⟨5, smallVote, by decide, ?_, by decide +kernel, by decide +kernel, rfl⟩
  have hheight : (Run.run (step smallCodec 5) smallEvents
      (ChainState.start 4 (smallStore []))).map ChainState.height = some 6 := by decide +kernel
  rw [hrun] at hheight
  rw [Option.some.inj hheight]
  decide

end TerraClassic.Oracle
