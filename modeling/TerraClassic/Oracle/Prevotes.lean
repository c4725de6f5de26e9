import TerraClassic.Oracle.CommitReveal

/-! # How long a prevote lives

    `ClearBallots` drops a prevote when the block height passes its submit
    block plus the vote period, and a vote is accepted in the period after the
    prevote's own.  Where the sum is an `int64` the two tests agree: no
    prevote is dropped before its reveal period is over.  The sum is taken in
    `uint64` and read as an `int64`, so where it is not one, every period end
    drops the prevote.
-/

namespace TerraClassic.Oracle

variable {codec : Codec} {votePeriod : UInt64}

/-- The sum `ClearBallots` computes for a prevote of this block is an `int64`,
    or there is no block in the next period. -/
def SumFits (votePeriod : UInt64) (submitBlock : BlockHeight) : Prop :=
  submitBlock.val + votePeriod.toNat < 2 ^ 63 ∨
    2 ^ 63 ≤ (periodOf votePeriod submitBlock + 1) * votePeriod.toNat

/-- Every prevote that no later message of its validator replaced is stored
    through the period after its own. -/
def Revealable (codec : Codec) (votePeriod : UInt64) (s : ChainState) : Prop :=
  ∀ v submitBlock msg, latest codec v s.log = some (.prevote submitBlock msg) →
    periodOf votePeriod s.height ≤ periodOf votePeriod submitBlock + 1 →
    ∃ voteHash, aggregateVoteHashFromHexString msg.hash = .ok voteHash ∧
      s.store.prevotes.get v = some ⟨hexEncode voteHash, v, UInt64.ofNat submitBlock.val⟩

/-- The blocks a prevote left after the end of a period may be from. -/
def Fresh (votePeriod : UInt64) (height : BlockHeight) (submitBlock : ℕ) : Prop :=
  height.val ≤ submitBlock + votePeriod.toNat ∧
    (submitBlock / votePeriod.toNat = periodOf votePeriod height ∨
      submitBlock + votePeriod.toNat = height.val)

/-! ### The expiry test -/

theorem toInt64_natCast_le (n : ℕ) : toInt64 n ≤ n := by
  unfold toInt64
  rw [Int.bmod_def]
  omega

/-- A prevote that is not expired is within one vote period. -/
theorem le_of_not_expired {height : BlockHeight} {prevote : AggregateExchangeRatePrevote}
    (h : prevoteExpired height votePeriod prevote = false) :
    height.val ≤ prevote.submitBlock.toNat + votePeriod.toNat := by
  unfold prevoteExpired at h
  have hle := not_lt.mp (of_decide_eq_false h)
  have hcast := toInt64_natCast_le (prevote.submitBlock + votePeriod).toNat
  have hadd : (prevote.submitBlock + votePeriod).toNat ≤
      prevote.submitBlock.toNat + votePeriod.toNat := by
    rw [UInt64.toNat_add]
    exact Nat.mod_le _ _
  omega

theorem not_expired_of_sum_lt {height : BlockHeight} {prevote : AggregateExchangeRatePrevote}
    (hsum : prevote.submitBlock.toNat + votePeriod.toNat < 2 ^ 63)
    (hle : height.val ≤ prevote.submitBlock.toNat + votePeriod.toNat) :
    prevoteExpired height votePeriod prevote = false := by
  have hadd : (prevote.submitBlock + votePeriod).toNat =
      prevote.submitBlock.toNat + votePeriod.toNat := by
    rw [UInt64.toNat_add]
    omega
  unfold prevoteExpired
  rw [hadd, toInt64_of_lt (by omega) (by omega)]
  apply decide_eq_false
  omega

/-! ### What the end of a period leaves -/

theorem get_clearPrevotes {height : BlockHeight}
    {prevotes : SortedMap ValAddr AggregateExchangeRatePrevote} {v : ValAddr}
    {prevote : AggregateExchangeRatePrevote} :
    (clearPrevotes height votePeriod prevotes).get v = some prevote ↔
      prevotes.get v = some prevote ∧ prevoteExpired height votePeriod prevote = false := by
  unfold clearPrevotes
  rw [SortedMap.get_filter, Option.filter_eq_some_iff]
  simp

/-- The prevotes left at the last block of a period are fresh. -/
theorem fresh_of_not_expired {height submitBlock : BlockHeight} (hle : submitBlock ≤ height)
    (hlast : isPeriodLastBlock height votePeriod = some true)
    (h : height.val ≤ submitBlock.val + votePeriod.toNat) :
    Fresh votePeriod height submitBlock.val := by
  obtain ⟨hpos, hmod⟩ := isPeriodLastBlock_eq_some hlast
  have hmod := Nat.dvd_of_mod_eq_zero (hmod.mp rfl)
  obtain ⟨q, hq⟩ := hmod
  refine ⟨h, ?_⟩
  unfold periodOf
  have hle : submitBlock.val ≤ height.val := hle
  generalize votePeriod.toNat = P at hpos hq h ⊢
  -- the height is the last of period `q - 1`
  obtain ⟨p, rfl⟩ : ∃ p, q = p + 1 := by
    cases q with
    | zero => omega
    | succ p => exact ⟨p, rfl⟩
  rw [Nat.mul_succ] at hq
  have hheight : height.val / P = p := Nat.div_eq_of_lt_le (by nlinarith) (by nlinarith)
  by_cases hcur : P * p ≤ submitBlock.val
  · left
    rw [hheight]
    exact Nat.div_eq_of_lt_le (by nlinarith) (by nlinarith)
  · right
    omega

/-- A prevote that may be revealed in the next block survives the end of this
    one. -/
theorem not_expired_of_revealable {height submitBlock : BlockHeight} {hash : String} {v : ValAddr}
    (hle : submitBlock ≤ height) (hfits : SumFits votePeriod submitBlock)
    (hlast : isPeriodLastBlock height votePeriod = some true)
    (hnext : height.val + 1 < 2 ^ 63)
    (hperiod : periodOf votePeriod ⟨height.val + 1, hnext⟩ ≤ periodOf votePeriod submitBlock + 1) :
    prevoteExpired height votePeriod ⟨hash, v, UInt64.ofNat submitBlock.val⟩ = false := by
  obtain ⟨hpos, hmod⟩ := isPeriodLastBlock_eq_some hlast
  have hdvd := Nat.dvd_of_mod_eq_zero (hmod.mp rfl)
  have hend : periodOf votePeriod ⟨height.val + 1, hnext⟩ * votePeriod.toNat = height.val + 1 :=
    Nat.div_mul_cancel hdvd
  have hstart : periodOf votePeriod submitBlock * votePeriod.toNat ≤ submitBlock.val :=
    Nat.div_mul_le_self _ _
  rcases hfits with hsum | hno
  · have hbound : height.val + 1 ≤ submitBlock.val + votePeriod.toNat := by
      calc height.val + 1
          = periodOf votePeriod ⟨height.val + 1, hnext⟩ * votePeriod.toNat := hend.symm
        _ ≤ (periodOf votePeriod submitBlock + 1) * votePeriod.toNat :=
            Nat.mul_le_mul_right _ hperiod
        _ = periodOf votePeriod submitBlock * votePeriod.toNat + votePeriod.toNat :=
            Nat.succ_mul _ _
        _ ≤ submitBlock.val + votePeriod.toNat := Nat.add_le_add_right hstart _
    apply not_expired_of_sum_lt
    · rw [toNat_ofHeight]
      exact hsum
    · rw [toNat_ofHeight]
      omega
  · -- the next block would start a period past the last height
    have hlater : periodOf votePeriod submitBlock + 1 ≤
        periodOf votePeriod ⟨height.val + 1, hnext⟩ := by
      rw [periodOf_next hnext hlast]
      exact Nat.succ_le_succ (periodOf_mono votePeriod hle)
    have := Nat.mul_le_mul_right votePeriod.toNat hlater
    omega

/-! ### Over runs -/

/-- What a step keeps about prevotes. -/
structure PrevoteInv (codec : Codec) (votePeriod : UInt64) (s : ChainState) : Prop where
  inv : Inv codec votePeriod s
  revealable : (∀ submitBlock msg, Record.prevote submitBlock msg ∈ s.log →
    SumFits votePeriod submitBlock) → Revealable codec votePeriod s
  lifetime : ∀ v prevote, s.store.prevotes.get v = some prevote →
    periodOf votePeriod s.height ≤ prevote.submitBlock.toNat / votePeriod.toNat + 2

/-- The prevotes left by the end blocker at the last block of a period. -/
theorem Inv.fresh {s : ChainState} (hi : Inv codec votePeriod s) {sched : Schedule} {k : Keepers}
    {params : Params} {outcome : Outcome}
    (hlast : isPeriodLastBlock s.height votePeriod = some true)
    (hend : endBlocker sched k { params with votePeriod := votePeriod } s.height s.store =
      some outcome) {v : ValAddr} {prevote : AggregateExchangeRatePrevote}
    (hget : outcome.store.prevotes.get v = some prevote) :
    Fresh votePeriod s.height prevote.submitBlock.toNat := by
  rcases endBlocker_ballots hend with ⟨_, _, hprevotes⟩ | ⟨hnot, _, _⟩
  · rw [hprevotes] at hget
    obtain ⟨hstored, hkept⟩ := get_clearPrevotes.mp hget
    obtain ⟨submitBlock, hsubmit, hle⟩ := hi.submitted hstored
    have hbound := le_of_not_expired hkept
    rw [hsubmit, toNat_ofHeight] at hbound ⊢
    exact fresh_of_not_expired hle hlast hbound
  · have hnot : isPeriodLastBlock s.height votePeriod = some false := hnot
    rw [hlast] at hnot
    cases hnot

theorem PrevoteInv.step_endBlock {s : ChainState} (hi : PrevoteInv codec votePeriod s)
    {sched : Schedule} {k : Keepers} {params : Params} {outcome : Outcome}
    (hheight : s.height.val + 1 < 2 ^ 63)
    (hend : endBlocker sched k { params with votePeriod := votePeriod } s.height s.store =
      some outcome) :
    PrevoteInv codec votePeriod
      { s with height := ⟨s.height.val + 1, hheight⟩, store := outcome.store } where
  inv := hi.inv.step_endBlock hheight hend
  revealable := by
    intro hfits v submitBlock msg hlatest hperiod
    have hmono := periodOf_mono votePeriod
      (show s.height ≤ ⟨s.height.val + 1, hheight⟩ from Fin.le_def.mpr (Nat.le_succ _))
    obtain ⟨voteHash, hhash, hstored⟩ :=
      hi.revealable hfits v submitBlock msg hlatest (le_trans hmono hperiod)
    refine ⟨voteHash, hhash, ?_⟩
    show outcome.store.prevotes.get v = _
    rcases endBlocker_ballots hend with ⟨hlast, _, hprevotes⟩ | ⟨_, _, hprevotes⟩
    -- the period ends: the prevote is not old enough to be cleared
    · have hmem := List.mem_of_find?_eq_some hlatest
      rw [hprevotes]
      exact get_clearPrevotes.mpr ⟨hstored, not_expired_of_revealable (hi.inv.past _ hmem)
        (hfits submitBlock msg hmem) hlast hheight hperiod⟩
    · rw [hprevotes]
      exact hstored
  lifetime := by
    intro v prevote hget
    rcases endBlocker_ballots hend with ⟨hlast, _, _⟩ | ⟨hlast, _, hprevotes⟩
    · have hlast : isPeriodLastBlock s.height votePeriod = some true := hlast
      obtain ⟨_, hfresh⟩ := hi.inv.fresh hlast hend hget
      obtain ⟨hpos, _⟩ := isPeriodLastBlock_eq_some hlast
      -- what is left after the clearing is from this period or the one before
      rw [periodOf_next hheight hlast, if_pos rfl]
      rcases hfresh with hsame | hbefore
      · omega
      · unfold periodOf
        rw [← hbefore, Nat.add_div_right _ hpos]
    · rw [hprevotes] at hget
      rw [periodOf_next hheight hlast]
      exact hi.lifetime v prevote hget

theorem PrevoteInv.step_prevote {s : ChainState} (hi : PrevoteInv codec votePeriod s)
    {msg : MsgAggregateExchangeRatePrevote} {v : ValAddr} {voteHash : List UInt8}
    (hval : codec.valAddressFromBech32 msg.validator = .ok v)
    (hhash : aggregateVoteHashFromHexString msg.hash = .ok voteHash) :
    PrevoteInv codec votePeriod {
      height := s.height
      store := { s.store with
        prevotes := s.store.prevotes.set v
          ⟨hexEncode voteHash, v, UInt64.ofNat s.height.val⟩ }
      log := .prevote s.height msg :: s.log } where
  inv := hi.inv.step_prevote hval hhash
  revealable := by
    intro hfits a submitBlock m hlatest hperiod
    have hfor := isFor_iff (r := .prevote s.height msg) (a := a) hval
    by_cases ha : a = v
    · rw [latest_cons_of_for (hfor.mpr ha)] at hlatest
      cases hlatest
      exact ⟨voteHash, hhash, by rw [ha, SortedMap.get_set_self]⟩
    · rw [latest_cons_of_not_for (fun h => ha (hfor.mp h))] at hlatest
      rw [SortedMap.get_set_ne _ _ ha]
      exact hi.revealable (fun b m hm => hfits b m (List.mem_cons_of_mem _ hm)) a submitBlock m
        hlatest hperiod
  lifetime := by
    intro a prevote hget
    rw [SortedMap.get_set] at hget
    split at hget
    · cases hget
      rw [toNat_ofHeight]
      exact Nat.le_add_right _ 2
    · exact hi.lifetime a prevote hget

/-- A vote takes its validator's prevote away, and no other. -/
theorem PrevoteInv.step_vote {s : ChainState} (hi : PrevoteInv codec votePeriod s)
    {msg : MsgAggregateExchangeRateVote} {v : ValAddr} {vote : AggregateExchangeRateVote}
    (hval : codec.valAddressFromBech32 msg.validator = .ok v)
    (hinv : Inv codec votePeriod {
      height := s.height
      store := { s.store with
        votes := s.store.votes.set v vote
        prevotes := s.store.prevotes.erase v }
      log := .vote s.height msg :: s.log }) :
    PrevoteInv codec votePeriod {
      height := s.height
      store := { s.store with
        votes := s.store.votes.set v vote
        prevotes := s.store.prevotes.erase v }
      log := .vote s.height msg :: s.log } where
  inv := hinv
  revealable := by
    intro hfits a submitBlock m hlatest hperiod
    have hfor := isFor_iff (r := .vote s.height msg) (a := a) hval
    by_cases ha : a = v
    · rw [latest_cons_of_for (hfor.mpr ha)] at hlatest
      cases hlatest
    · rw [latest_cons_of_not_for (fun h => ha (hfor.mp h))] at hlatest
      rw [SortedMap.get_erase_ne _ ha]
      exact hi.revealable (fun b m hm => hfits b m (List.mem_cons_of_mem _ hm)) a submitBlock m
        hlatest hperiod
  lifetime := by
    intro a prevote hget
    rw [SortedMap.get_erase] at hget
    split at hget
    · cases hget
    · exact hi.lifetime a prevote hget

theorem PrevoteInv.step {s s' : ChainState} (h : Step codec votePeriod s s')
    (hi : PrevoteInv codec votePeriod s) : PrevoteInv codec votePeriod s' := by
  have hinv : Inv codec votePeriod s' := hi.inv.step h
  cases h with
  | failed => exact hi
  | prevote msg v voteHash hval hhash => exact hi.step_prevote hval hhash
  | vote msg v prevote tuples hbasic hval hget hP hperiod hparse htargets hhash =>
    exact hi.step_vote hval hinv
  | delegate delegations => exact ⟨hinv, hi.revealable, hi.lifetime⟩
  | endBlock sched k params outcome hheight hend => exact hi.step_endBlock hheight hend

theorem PrevoteInv.start {height : BlockHeight} {store : Store} (hprevotes : store.prevotes = ∅)
    (hvotes : store.votes = ∅) : PrevoteInv codec votePeriod (ChainState.start height store) where
  inv := Inv.start hprevotes hvotes
  revealable := by
    intro _ v submitBlock msg hlatest
    cases hlatest
  lifetime := by
    intro v prevote hget
    rw [ChainState.start, hprevotes] at hget
    cases hget

/-- No revealable prevote is lost and no stale one lives on.  In every run
    whose prevotes are all accepted at blocks where the sum of `ClearBallots`
    fits: a prevote stays through the period after its own unless its
    validator replaced it; what the end of a period leaves is from this period
    or from the last block of the one before; and nothing is older than two
    periods. -/
theorem prevotes_live {height : BlockHeight} {store : Store} (hprevotes : store.prevotes = ∅)
    (hvotes : store.votes = ∅) {events : List Event} {s : ChainState}
    (hrun : Run.run (step codec votePeriod) events (ChainState.start height store) = some s)
    (hfits : ∀ submitBlock msg, Record.prevote submitBlock msg ∈ s.log →
      SumFits votePeriod submitBlock) :
    Revealable codec votePeriod s ∧
    (∀ (sched : Schedule) (k : Keepers) (params : Params) (outcome : Outcome),
      isPeriodLastBlock s.height votePeriod = some true →
      endBlocker sched k { params with votePeriod := votePeriod } s.height s.store =
        some outcome →
      ∀ v prevote, outcome.store.prevotes.get v = some prevote →
        Fresh votePeriod s.height prevote.submitBlock.toNat) ∧
    (∀ v prevote, s.store.prevotes.get v = some prevote →
      periodOf votePeriod s.height ≤ prevote.submitBlock.toNat / votePeriod.toNat + 2) := by
  have hi : PrevoteInv codec votePeriod s :=
    run_step_invariant (fun _ _ h hi => PrevoteInv.step h hi) hrun
      (PrevoteInv.start hprevotes hvotes)
  refine ⟨hi.revealable hfits, ?_, hi.lifetime⟩
  intro sched k params outcome hlast hend v prevote hget
  exact hi.inv.fresh hlast hend hget

theorem prevotes_live_small_chain :
    ∃ s, Run.run (step smallCodec 5) (smallEvents.take 2) (ChainState.start 4 (smallStore [])) =
        some s ∧
      latest smallCodec "a" s.log = some (.prevote 4 smallPrevote) ∧
      periodOf 5 s.height ≤ periodOf 5 4 + 1 ∧ Revealable smallCodec 5 s := by
  have hlog : (Run.run (step smallCodec 5) (smallEvents.take 2)
      (ChainState.start 4 (smallStore []))).map (fun s => (s.height, s.log)) =
        some (5, [.prevote 4 smallPrevote]) := by decide +kernel
  obtain ⟨s, hrun, hlog⟩ := Option.map_eq_some_iff.mp hlog
  obtain ⟨hheight, hlog⟩ := Prod.mk.inj hlog
  refine ⟨s, hrun, ?_, ?_, (prevotes_live rfl rfl hrun ?_).1⟩
  · rw [hlog]
    decide +kernel
  · rw [hheight]
    decide
  · intro submitBlock msg hmem
    rw [hlog] at hmem
    cases List.mem_singleton.mp hmem
    exact Or.inl (by decide)

/-- Vote periods so long that a height and a period add up to `2 ^ 63`. -/
def longPeriod : UInt64 := 2 ^ 62 + 1

def longParams : Params :=
  { smallParams with
    votePeriod := longPeriod
    rewardDistributionWindow := longPeriod
    slashWindow := 2 ^ 63 }

/-- A prevote two blocks before the end of a long period. -/
def longEvents : List Event := [
  .prevote smallStaking smallPrevote,
  .endBlock .inOrder smallKeepers longParams,
  .endBlock .inOrder smallKeepers longParams]

/-- The first block of the next period finds the prevote gone, although nothing
    replaced it. -/
theorem prevotes_live_fails :
    longParams.validate = .ok () ∧
    ∃ s, Run.run (step smallCodec longPeriod) longEvents
        (ChainState.start ⟨2 ^ 62 - 1, by decide⟩ (smallStore [])) = some s ∧
      latest smallCodec "a" s.log = some (.prevote ⟨2 ^ 62 - 1, by decide⟩ smallPrevote) ∧
      periodOf longPeriod s.height = periodOf longPeriod ⟨2 ^ 62 - 1, by decide⟩ + 1 ∧
      s.store.prevotes.get "a" = none ∧ ¬ Revealable smallCodec longPeriod s := by
  refine ⟨by decide +kernel, ?_⟩
  have hend : (Run.run (step smallCodec longPeriod) longEvents
      (ChainState.start ⟨2 ^ 62 - 1, by decide⟩ (smallStore []))).map
        (fun s => (s.height, s.log, s.store.prevotes.get "a")) =
      some (⟨2 ^ 62 + 1, by decide⟩, [.prevote ⟨2 ^ 62 - 1, by decide⟩ smallPrevote], none) := by
    decide +kernel
  obtain ⟨s, hrun, hend⟩ := Option.map_eq_some_iff.mp hend
  obtain ⟨hheight, hrest⟩ := Prod.mk.inj hend
  obtain ⟨hlog, hgone⟩ := Prod.mk.inj hrest
  have hlatest : latest smallCodec "a" s.log =
      some (.prevote ⟨2 ^ 62 - 1, by decide⟩ smallPrevote) := by
    rw [hlog]
    decide +kernel
  have hperiod : periodOf longPeriod s.height =
      periodOf longPeriod ⟨2 ^ 62 - 1, by decide⟩ + 1 := by
    rw [hheight]
    decide +kernel
  refine ⟨s, hrun, hlatest, hperiod, hgone, ?_⟩
  intro hlive
  obtain ⟨voteHash, _, hstored⟩ := hlive "a" _ _ hlatest (le_of_eq hperiod)
  rw [hgone] at hstored
  cases hstored

end TerraClassic.Oracle
