import TerraClassic.Oracle.Chain
import TerraClassic.Treasury.Genesis

/-! # The history of the treasury

    At the end of a week the treasury writes the week's taxes, seigniorage and stake under
    the number of the week, and begins the next one with empty proceeds and the issuance of
    the moment.

    A `Timeline` is the treasury at the height of the running block, with the weeks that were
    closed and the taxes of the running one as ghosts.

    * `Week.Written`: what the store has of a closed week.
    * `history_run`: over any run of blocks each week is written once, under its own number,
      from the taxes recorded in it, and is never written again.
-/

namespace TerraClassic.Treasury

/-! ### Weeks -/

/-- A week that was closed, and what was known when it was. -/
structure Week where
  keepers : Keepers
  /-- The bank after the burn account was emptied. -/
  bank : Bank
  rewardWeight : Dec
  /-- The taxes, one by one. -/
  recorded : List Coins
  /-- The taxes, added up by the treasury. -/
  proceeds : Coins
  /-- The issuance that the week began with. -/
  issuance : Coins

/-- The issuance that the next week begins with. -/
def Week.closing (week : Week) : Coins :=
  (microLunaDenom :: week.keepers.whitelist).foldl
    (fun issuance denom => issuance.set denom (week.bank.supply denom : ℤ)) ∅

/-- The Luna that went out of circulation in the week. -/
def Week.seigniorage (week : Week) : ℤ :=
  max 0 (week.issuance.amountOf microLunaDenom - week.bank.supply microLunaDenom)

/-- The taxes in SDR. -/
def Week.taxReward (week : Week) : Option Dec := do
  let taxRewards ← newDecCoinsFromCoins week.keepers.market week.proceeds
  alignCoins week.keepers.market taxRewards microSDRDenom

/-- The rewarded part of the seigniorage in SDR. -/
def Week.seigniorageReward (week : Week) : Option Dec := do
  let amount ← week.rewardWeight.mulInt week.seigniorage
  let reward ← Market.newDecCoinFromDec week.keepers.market microLunaDenom amount
  alignCoins week.keepers.market [reward] microSDRDenom

/-- What the store has of a week. -/
structure Week.Written (week : Week) (epoch : ℤ) (st : Store) : Prop where
  tr : ∃ reward, week.taxReward = some reward ∧ st.tr.get epoch = some reward
  sr : ∃ reward, week.seigniorageReward = some reward ∧ st.sr.get epoch = some reward
  tsl : st.tsl.get epoch = some (week.keepers.totalBondedTokens : ℤ)

/-- The sum of some coins, by denom. -/
def total (recorded : List Coins) (denom : Denom) : ℤ :=
  (recorded.map (fun coins => coins.amountOf denom)).sum

theorem total_append (recorded later : List Coins) (denom : Denom) :
    total (recorded ++ later) denom = total recorded denom + total later denom := by
  unfold total
  rw [List.map_append, List.sum_append]

/-! ### Timelines -/

structure Timeline where
  state : State
  /-- The running block. -/
  height : BlockHeight
  /-- The weeks that were closed, the oldest first. -/
  weeks : List Week
  /-- The taxes recorded in the running week. -/
  running : List Coins

/-- What is in the proceeds at the start counts as recorded in the first week. -/
def Timeline.start (s : State) (height : BlockHeight) : Timeline :=
  ⟨s, height, [], [s.store.taxProceeds]⟩

/-- The heights are an `int64`. -/
def nextBlock (height : BlockHeight) : Option BlockHeight :=
  if h : height.val + 1 < 2 ^ 63 then some ⟨height.val + 1, h⟩ else none

section Tick

variable (bech32 : Bech32) (validDenom : Denom → Bool)

/-- One event.  Blocks end one after the other; `none` is a panic, or a block out of turn. -/
def tick (t : Timeline) : Event → Option Timeline
  | .endBlock k height bank =>
    if height ≠ t.height then none
    else do
      let state ← advance bech32 validDenom t.state (.endBlock k height bank)
      let next ← nextBlock height
      let weekEnds ← isPeriodLastBlock height blocksPerWeek
      if weekEnds then
        let week : Week := ⟨k, burnCoinsFromBurnAccount bank, getRewardWeight t.state.store,
          t.running, t.state.store.taxProceeds, t.state.store.epochInitialIssuance⟩
        return ⟨state, next, t.weeks ++ [week], []⟩
      else return { t with state := state, height := next }
  | .taxes delta => do
    let state ← advance bech32 validDenom t.state (.taxes delta)
    return { t with state := state, running := t.running ++ [delta] }
  | e => do
    let state ← advance bech32 validDenom t.state e
    return { t with state := state }

end Tick

/-- The taxes that an event records. -/
def Event.delta : Event → Option Coins
  | .taxes delta => some delta
  | _ => none

/-! ### What an event does to the history -/

/-- The store up to parameters, levers and caps. -/
structure SameHistory (st st' : Store) : Prop where
  tr : st'.tr = st.tr
  sr : st'.sr = st.sr
  tsl : st'.tsl = st.tsl
  taxProceeds : st'.taxProceeds = st.taxProceeds
  epochInitialIssuance : st'.epochInitialIssuance = st.epochInitialIssuance

theorem SameHistory.refl (st : Store) : SameHistory st st := ⟨rfl, rfl, rfl, rfl, rfl⟩

theorem SameHistory.trans {st st' st'' : Store} (h : SameHistory st st')
    (h' : SameHistory st' st'') : SameHistory st st'' :=
  ⟨h'.tr.trans h.tr, h'.sr.trans h.sr, h'.tsl.trans h.tsl, h'.taxProceeds.trans h.taxProceeds,
    h'.epochInitialIssuance.trans h.epochInitialIssuance⟩

section EndBlock

variable {k : Keepers} {height : BlockHeight} {bank : Bank} {st st' : Store}

theorem updateTaxPolicy_history (h : updateTaxPolicy height st = some st') :
    SameHistory st st' := by
  unfold updateTaxPolicy at h
  obtain ⟨_, _, h⟩ := Option.bind_eq_some_iff.mp h
  obtain ⟨_, _, h⟩ := Option.bind_eq_some_iff.mp h
  obtain ⟨_, _, h⟩ := Option.bind_eq_some_iff.mp h
  obtain ⟨_, _, h⟩ := Option.bind_eq_some_iff.mp h
  cases h
  exact ⟨rfl, rfl, rfl, rfl, rfl⟩

theorem updateRewardPolicy_history (h : updateRewardPolicy height st = some st') :
    SameHistory st st' := by
  unfold updateRewardPolicy at h
  obtain ⟨_, _, h⟩ := Option.bind_eq_some_iff.mp h
  obtain ⟨_, _, h⟩ := Option.bind_eq_some_iff.mp h
  obtain ⟨_, _, h⟩ := Option.bind_eq_some_iff.mp h
  obtain ⟨_, _, h⟩ := Option.bind_eq_some_iff.mp h
  cases h
  exact ⟨rfl, rfl, rfl, rfl, rfl⟩

theorem updateTaxCap_history (h : updateTaxCap k st = some st') : SameHistory st st' := by
  unfold updateTaxCap at h
  obtain ⟨_, _, h⟩ := Option.bind_eq_some_iff.mp h
  obtain ⟨_, _, h⟩ := Option.bind_eq_some_iff.mp h
  cases h
  exact ⟨rfl, rfl, rfl, rfl, rfl⟩

theorem updatePolicies_history (h : updatePolicies k height st = some st') :
    SameHistory st st' := by
  unfold updatePolicies at h
  split at h
  · cases h
    exact SameHistory.refl st
  · obtain ⟨st₁, h₁, h⟩ := Option.bind_eq_some_iff.mp h
    obtain ⟨st₂, h₂, h₃⟩ := Option.bind_eq_some_iff.mp h
    exact ((updateTaxPolicy_history h₁).trans (updateRewardPolicy_history h₂)).trans
      (updateTaxCap_history h₃)

/-- What the last block of a week leaves. -/
structure Closed (week : Week) (epoch : ℤ) (st st' : Store) : Prop where
  tr : ∃ reward, week.taxReward = some reward ∧ st'.tr = st.tr.set epoch reward
  sr : ∃ reward, week.seigniorageReward = some reward ∧ st'.sr = st.sr.set epoch reward
  tsl : st'.tsl = st.tsl.set epoch week.keepers.totalBondedTokens
  taxProceeds : st'.taxProceeds = ∅
  epochInitialIssuance : st'.epochInitialIssuance = week.closing

theorem peekEpochSeigniorage_eq (bank : Bank) (st : Store) :
    peekEpochSeigniorage bank st =
      max 0 (st.epochInitialIssuance.amountOf microLunaDenom - bank.supply microLunaDenom) := by
  unfold peekEpochSeigniorage
  simp only
  split
  · next hneg => exact (max_eq_left hneg.le).symm
  · next hnonneg => exact (max_eq_right (not_lt.mp hnonneg)).symm

/-- The end blocker closes the week in its last block, and leaves the history alone in any
    other. -/
theorem endBlocker_history {out : Bank × Store} (h : endBlocker k height bank st = some out)
    (recorded : List Coins) :
    out.1 = burnCoinsFromBurnAccount bank ∧
      ∃ weekEnds, isPeriodLastBlock height blocksPerWeek = some weekEnds ∧
        if weekEnds then
          Closed ⟨k, burnCoinsFromBurnAccount bank, getRewardWeight st, recorded, st.taxProceeds,
            st.epochInitialIssuance⟩ (getEpoch height) st out.2
        else SameHistory st out.2 := by
  unfold endBlocker at h
  obtain ⟨weekEnds, hweek, h⟩ := Option.bind_eq_some_iff.mp h
  cases weekEnds with
  | false =>
    cases h
    exact ⟨rfl, false, hweek, SameHistory.refl st⟩
  | true =>
    obtain ⟨st₁, h₁, h⟩ := Option.bind_eq_some_iff.mp h
    obtain ⟨st₂, h₂, h⟩ := Option.bind_eq_some_iff.mp h
    cases h
    -- the indicators are written first, and the policies keep them
    have hpolicies := updatePolicies_history h₂
    unfold updateIndicators at h₁
    obtain ⟨taxRewards, hrewards, h₁⟩ := Option.bind_eq_some_iff.mp h₁
    obtain ⟨tr, htr, h₁⟩ := Option.bind_eq_some_iff.mp h₁
    obtain ⟨amount, hamount, h₁⟩ := Option.bind_eq_some_iff.mp h₁
    obtain ⟨reward, hreward, h₁⟩ := Option.bind_eq_some_iff.mp h₁
    obtain ⟨sr, hsr, h₁⟩ := Option.bind_eq_some_iff.mp h₁
    cases h₁
    rw [peekEpochSeigniorage_eq] at hamount
    refine ⟨rfl, true, hweek, ?_, ?_, hpolicies.tsl, hpolicies.taxProceeds, rfl⟩
    · exact ⟨tr, Option.bind_eq_some_iff.mpr ⟨taxRewards, hrewards, htr⟩, hpolicies.tr⟩
    · exact ⟨sr, Option.bind_eq_some_iff.mpr ⟨amount, hamount,
        Option.bind_eq_some_iff.mpr ⟨reward, hreward, hsr⟩⟩, hpolicies.sr⟩

end EndBlock

/-! ### Heights and weeks -/

theorem nextBlock_eq_some {height next : BlockHeight} (h : nextBlock height = some next) :
    next.val = height.val + 1 := by
  unfold nextBlock at h
  split at h
  · cases h
    rfl
  · cases h

/-- The number of the week goes up after its last block. -/
theorem getEpoch_nextBlock {height next : BlockHeight} (h : nextBlock height = some next)
    {weekEnds : Bool} (hweek : isPeriodLastBlock height blocksPerWeek = some weekEnds) :
    getEpoch next = getEpoch height + if weekEnds then 1 else 0 := by
  obtain ⟨_, hends⟩ := Oracle.isPeriodLastBlock_eq_some hweek
  have hperiod : blocksPerWeek.toNat = 100800 := rfl
  rw [hperiod] at hends
  have hnext := nextBlock_eq_some h
  rw [getEpoch_eq, getEpoch_eq]
  cases weekEnds with
  | true =>
    -- the next height is the first of its week
    have hlast := hends.mp rfl
    rw [if_pos rfl]
    omega
  | false =>
    have hnot : ¬ (height.val + 1) % 100800 = 0 := fun hlast => Bool.noConfusion (hends.mpr hlast)
    rw [if_neg Bool.false_ne_true]
    omega

/-! ### One event -/

section Events

variable {bech32 : Bech32} {validDenom : Denom → Bool}

/-- Proposals and parameter changes have no part in the history. -/
theorem advance_history {s s' : State} {e : Event} (h : advance bech32 validDenom s e = some s')
    (hblock : ∀ k height bank, e ≠ .endBlock k height bank) (hdelta : e.delta = none) :
    SameHistory s.store s'.store := by
  cases e with
  | endBlock k height bank => exact absurd rfl (hblock k height bank)
  | taxes delta => cases hdelta
  | addExemptions addresses =>
    obtain ⟨_, _, h⟩ := Option.bind_eq_some_iff.mp h
    cases h
    exact SameHistory.refl _
  | removeExemptions addresses =>
    obtain ⟨result, _, h⟩ := Option.bind_eq_some_iff.mp h
    cases result with
    | error err =>
      cases h
      exact SameHistory.refl _
    | ok exempt =>
      cases h
      exact SameHistory.refl _
  | params params =>
    simp only [advance] at h
    split at h
    · cases h
      exact ⟨rfl, rfl, rfl, rfl, rfl⟩
    · cases h
      exact SameHistory.refl _

/-- Recorded taxes are added to the proceeds; the rest stays. -/
theorem recordEpochTaxProceeds_ok {delta : Coins} {st st' : Store}
    (h : recordEpochTaxProceeds delta st = some st') :
    SameHistory { st with taxProceeds := st'.taxProceeds } st' ∧ ∀ denom,
      st'.taxProceeds.amountOf denom = st.taxProceeds.amountOf denom + delta.amountOf denom := by
  obtain ⟨proceeds, hadd, h⟩ := Option.bind_eq_some_iff.mp h
  cases h
  exact ⟨⟨rfl, rfl, rfl, rfl, rfl⟩, addTaxProceeds_ok hadd⟩

/-- What an event can do to a timeline. -/
theorem tick_cases {t t' : Timeline} {e : Event} (h : tick bech32 validDenom t e = some t') :
    (∃ week, Closed week (getEpoch t.height) t.state.store t'.state.store ∧
        week.recorded = t.running ∧ week.proceeds = t.state.store.taxProceeds ∧
        week.issuance = t.state.store.epochInitialIssuance ∧
        t'.weeks = t.weeks ++ [week] ∧ t'.running = [] ∧
        getEpoch t'.height = getEpoch t.height + 1 ∧ e.delta = none) ∨
    (t'.weeks = t.weeks ∧ getEpoch t'.height = getEpoch t.height ∧
      t'.running = t.running ++ e.delta.toList ∧
      SameHistory { t.state.store with taxProceeds := t'.state.store.taxProceeds }
        t'.state.store ∧
      ∀ denom, t'.state.store.taxProceeds.amountOf denom =
        t.state.store.taxProceeds.amountOf denom + total e.delta.toList denom) := by
  -- an event that leaves the history alone
  have hsame : ∀ {e : Event} {state : State} {height : BlockHeight}, e.delta = none →
      SameHistory t.state.store state.store → getEpoch height = getEpoch t.height →
      t' = ⟨state, height, t.weeks, t.running⟩ → t'.weeks = t.weeks ∧
        getEpoch t'.height = getEpoch t.height ∧ t'.running = t.running ++ e.delta.toList ∧
        SameHistory { t.state.store with taxProceeds := t'.state.store.taxProceeds }
          t'.state.store ∧
        ∀ denom, t'.state.store.taxProceeds.amountOf denom =
          t.state.store.taxProceeds.amountOf denom + total e.delta.toList denom := by
    rintro e state height hdelta hstore hheight rfl
    rw [hdelta]
    refine ⟨rfl, hheight, (List.append_nil _).symm,
      ⟨hstore.tr, hstore.sr, hstore.tsl, rfl, hstore.epochInitialIssuance⟩, ?_⟩
    intro denom
    show state.store.taxProceeds.amountOf denom = _ + 0
    rw [hstore.taxProceeds, add_zero]
  cases e with
  | endBlock k height bank =>
    simp only [tick] at h
    split at h
    · cases h
    · next hheight =>
      have hheight : height = t.height := not_not.mp hheight
      subst hheight
      obtain ⟨state, hadvance, h⟩ := Option.bind_eq_some_iff.mp h
      obtain ⟨next, hnext, h⟩ := Option.bind_eq_some_iff.mp h
      obtain ⟨weekEnds, hweek, h⟩ := Option.bind_eq_some_iff.mp h
      obtain ⟨⟨bank', store⟩, hend, hstate⟩ := Option.bind_eq_some_iff.mp hadvance
      cases hstate
      obtain ⟨_, weekEnds', hweek', hhistory⟩ := endBlocker_history hend t.running
      rw [hweek] at hweek'
      cases hweek'
      -- the week is closed exactly in the block after which its number goes up
      have hepoch := getEpoch_nextBlock hnext hweek
      cases weekEnds with
      | true =>
        cases h
        left
        refine ⟨_, hhistory, rfl, rfl, rfl, rfl, rfl, hepoch, rfl⟩
      | false =>
        cases h
        right
        have hhistory : SameHistory t.state.store store := hhistory
        exact hsame rfl hhistory (hepoch.trans (add_zero _)) rfl
  | taxes delta =>
    obtain ⟨state, hadvance, h⟩ := Option.bind_eq_some_iff.mp h
    cases h
    obtain ⟨store, hrecord, hstate⟩ := Option.bind_eq_some_iff.mp hadvance
    cases hstate
    obtain ⟨hstore, hamount⟩ := recordEpochTaxProceeds_ok hrecord
    right
    refine ⟨rfl, rfl, rfl, hstore, ?_⟩
    intro denom
    rw [hamount]
    simp [total, Event.delta]
  | addExemptions addresses =>
    obtain ⟨state, hadvance, h⟩ := Option.bind_eq_some_iff.mp h
    cases h
    right
    exact hsame rfl (advance_history hadvance (by simp) rfl) rfl rfl
  | removeExemptions addresses =>
    obtain ⟨state, hadvance, h⟩ := Option.bind_eq_some_iff.mp h
    cases h
    right
    exact hsame rfl (advance_history hadvance (by simp) rfl) rfl rfl
  | params params =>
    obtain ⟨state, hadvance, h⟩ := Option.bind_eq_some_iff.mp h
    cases h
    right
    exact hsame rfl (advance_history hadvance (by simp) rfl) rfl rfl

end Events

/-! ### Runs -/

/-- The treasury from `s` on, which ran its first block at `first`. -/
structure History (s : State) (first : BlockHeight) (t : Timeline) : Prop where
  /-- A week is closed whenever its number has passed. -/
  count : (t.weeks.length : ℤ) = getEpoch t.height - getEpoch first
  written : ∀ (i : ℕ) (week : Week), t.weeks[i]? = some week →
    week.Written (getEpoch first + i) t.state.store
  /-- No other week is written. -/
  kept : ∀ epoch, epoch < getEpoch first ∨ getEpoch t.height ≤ epoch →
    t.state.store.tr.get epoch = s.store.tr.get epoch ∧
    t.state.store.sr.get epoch = s.store.sr.get epoch ∧
    t.state.store.tsl.get epoch = s.store.tsl.get epoch
  /-- The taxes of a week are those recorded in it. -/
  proceeds : ∀ week ∈ t.weeks, ∀ denom, week.proceeds.amountOf denom = total week.recorded denom
  running : ∀ denom, t.state.store.taxProceeds.amountOf denom = total t.running denom
  /-- A week begins with the issuance that the one before closed with. -/
  issuance : t.weeks.map Week.issuance ++ [t.state.store.epochInitialIssuance] =
    s.store.epochInitialIssuance :: t.weeks.map Week.closing

section Runs

variable {bech32 : Bech32} {validDenom : Denom → Bool} {s : State} {first : BlockHeight}

theorem Week.Written.of_same {week : Week} {epoch : ℤ} {st st' : Store}
    (h : week.Written epoch st) (htr : st'.tr.get epoch = st.tr.get epoch)
    (hsr : st'.sr.get epoch = st.sr.get epoch) (htsl : st'.tsl.get epoch = st.tsl.get epoch) :
    week.Written epoch st' := by
  obtain ⟨tr, htr', hget⟩ := h.tr
  obtain ⟨sr, hsr', hget'⟩ := h.sr
  exact ⟨⟨tr, htr', htr.trans hget⟩, ⟨sr, hsr', hsr.trans hget'⟩, htsl.trans h.tsl⟩

theorem Closed.written {week : Week} {epoch : ℤ} {st st' : Store} (h : Closed week epoch st st') :
    week.Written epoch st' := by
  obtain ⟨tr, htr, hset⟩ := h.tr
  obtain ⟨sr, hsr, hset'⟩ := h.sr
  refine ⟨⟨tr, htr, ?_⟩, ⟨sr, hsr, ?_⟩, ?_⟩
  · rw [hset, SortedMap.get_set_self]
  · rw [hset', SortedMap.get_set_self]
  · rw [h.tsl, SortedMap.get_set_self]

/-- Closing a week writes no other. -/
theorem Closed.get_other {week : Week} {epoch other : ℤ} {st st' : Store}
    (h : Closed week epoch st st') (hne : other ≠ epoch) :
    st'.tr.get other = st.tr.get other ∧ st'.sr.get other = st.sr.get other ∧
      st'.tsl.get other = st.tsl.get other := by
  obtain ⟨tr, _, hset⟩ := h.tr
  obtain ⟨sr, _, hset'⟩ := h.sr
  rw [hset, hset', h.tsl]
  exact ⟨SortedMap.get_set_ne _ _ hne, SortedMap.get_set_ne _ _ hne, SortedMap.get_set_ne _ _ hne⟩

theorem History.close {t t' : Timeline} (h : History s first t) {week : Week}
    (hclosed : Closed week (getEpoch t.height) t.state.store t'.state.store)
    (hrecorded : week.recorded = t.running)
    (hproceeds : week.proceeds = t.state.store.taxProceeds)
    (hissuance : week.issuance = t.state.store.epochInitialIssuance)
    (hweeks : t'.weeks = t.weeks ++ [week]) (hrunning : t'.running = [])
    (hepoch : getEpoch t'.height = getEpoch t.height + 1) : History s first t' := by
  have hcount := h.count
  refine ⟨?_, ?_, ?_, ?_, ?_, ?_⟩
  · rw [hweeks, hepoch, List.length_append, List.length_singleton]
    omega
  · intro i week' hget
    rw [hweeks] at hget
    -- the weeks before keep what was written for them
    rcases lt_or_ge i t.weeks.length with hlt | hge
    · rw [List.getElem?_append_left hlt] at hget
      obtain ⟨htr, hsr, htsl⟩ := hclosed.get_other
        (show getEpoch first + (i : ℤ) ≠ getEpoch t.height by omega)
      exact (h.written i week' hget).of_same htr hsr htsl
    · -- the week that has just been closed
      rw [List.getElem?_append_right hge, List.getElem?_singleton] at hget
      split at hget
      · next hi =>
        cases hget
        have hnumber : getEpoch first + (i : ℤ) = getEpoch t.height := by omega
        rw [hnumber]
        exact hclosed.written
      · cases hget
  · intro epoch hother
    have hnonneg : getEpoch first ≤ getEpoch t.height := by omega
    obtain ⟨htr, hsr, htsl⟩ := hclosed.get_other (show epoch ≠ getEpoch t.height by omega)
    obtain ⟨htr', hsr', htsl'⟩ := h.kept epoch (by omega)
    exact ⟨htr.trans htr', hsr.trans hsr', htsl.trans htsl'⟩
  · intro week' hmem denom
    rw [hweeks] at hmem
    rcases List.mem_append.mp hmem with hmem | hmem
    · exact h.proceeds week' hmem denom
    · rw [List.mem_singleton.mp hmem, hproceeds, hrecorded]
      exact h.running denom
  · intro denom
    rw [hclosed.taxProceeds, hrunning]
    rfl
  · rw [hweeks, List.map_append, List.map_append, List.map_singleton, List.map_singleton,
      hissuance, hclosed.epochInitialIssuance, h.issuance]
    rfl

/-- Every event continues the history. -/
theorem tick_history {t t' : Timeline} {e : Event} (h : tick bech32 validDenom t e = some t')
    (ht : History s first t) : History s first t' := by
  rcases tick_cases h with ⟨week, hclosed, hrecorded, hproceeds, hissuance, hweeks, hrunning,
    hepoch, _⟩ | ⟨hweeks, hepoch, hrunning, hsame, hamount⟩
  · exact ht.close hclosed hrecorded hproceeds hissuance hweeks hrunning hepoch
  · refine ⟨?_, ?_, ?_, ?_, ?_, ?_⟩
    · rw [hweeks, hepoch]
      exact ht.count
    · intro i week hget
      rw [hweeks] at hget
      exact (ht.written i week hget).of_same (by rw [hsame.tr]) (by rw [hsame.sr])
        (by rw [hsame.tsl])
    · intro epoch hother
      rw [hepoch] at hother
      rw [hsame.tr, hsame.sr, hsame.tsl]
      exact ht.kept epoch hother
    · rw [hweeks]
      exact ht.proceeds
    · intro denom
      rw [hamount, hrunning, total_append, ht.running]
    · rw [hweeks, hsame.epochInitialIssuance]
      exact ht.issuance

/-- The taxes that a run records, in the weeks that it closes and in the running one. -/
theorem run_recorded {events : List Event} {t t' : Timeline}
    (h : Run.run (tick bech32 validDenom) events t = some t') :
    t'.weeks.flatMap Week.recorded ++ t'.running =
      t.weeks.flatMap Week.recorded ++ t.running ++ events.filterMap Event.delta := by
  induction events generalizing t with
  | nil =>
    cases h
    exact (List.append_nil _).symm
  | cons e rest ih =>
    unfold Run.run at h
    rw [List.foldlM_cons] at h
    obtain ⟨u, hu, hrest⟩ := Option.bind_eq_some_iff.mp h
    rw [ih hrest]
    rcases tick_cases hu with ⟨week, _, hrecorded, _, _, hweeks, hrunning, _, hdelta⟩ |
      ⟨hweeks, _, hrunning, _, _⟩
    · rw [List.filterMap_cons_none hdelta, hweeks, hrunning, List.flatMap_append,
        List.flatMap_singleton, hrecorded, List.append_nil]
    · rw [hweeks, hrunning, ← List.append_assoc, List.append_assoc (_ ++ t.running)]
      congr 1
      cases hdelta : e.delta with
      | none => rw [List.filterMap_cons_none hdelta]; rfl
      | some delta => rw [List.filterMap_cons_some hdelta]; rfl

/-- Over any run of blocks, from any state of the treasury: every week is closed in its last
    block and written under its own number, from the taxes recorded in it and the issuance
    that the week before closed with; what is written is never written again; and each
    recorded tax is counted in one week. -/
theorem history_run {events : List Event} {t : Timeline}
    (hrun : Run.run (tick bech32 validDenom) events (Timeline.start s first) = some t) :
    History s first t ∧ t.weeks.flatMap Week.recorded ++ t.running =
      s.store.taxProceeds :: events.filterMap Event.delta := by
  have hstart : History s first (Timeline.start s first) := by
    refine ⟨(sub_self _).symm, ?_, fun _ _ => ⟨rfl, rfl, rfl⟩, ?_, ?_, rfl⟩
    · intro i week hget
      cases hget
    · intro week hmem
      cases hmem
    · intro denom
      show _ = s.store.taxProceeds.amountOf denom + 0
      exact (add_zero _).symm
  exact ⟨Run.run_invariant (fun _ _ _ h ht => tick_history h ht) hrun hstart, run_recorded hrun⟩

end Runs

/-! ### On a small chain -/

/-- The small chain in the last two blocks of its first week, and after. -/
def smallWeek : List Event :=
  [.taxes (Coins.ofCoin "uusd" 7), .endBlock smallKeepers ⟨100798, by norm_num⟩ smallBank,
   .taxes (Coins.ofCoin "uusd" 5), .endBlock smallKeepers weekEnds smallBank,
   .taxes (Coins.ofCoin "uusd" 3)]

def smallStart : Timeline :=
  Timeline.start ⟨initGenesis smallKeepers smallBank defaultGenesis, ∅⟩ ⟨100798, by norm_num⟩

theorem history_run_week :
    ∃ t, Run.run (tick oneAccount (fun _ => true)) smallWeek smallStart = some t ∧
      t.weeks.length = 1 ∧ t.state.store.taxProceeds.amountOf "uusd" = 3 ∧
      ∀ week ∈ t.weeks, week.proceeds.amountOf "uusd" = 12 ∧ week.Written 0 t.state.store := by
  have hshape : (Run.run (tick oneAccount (fun _ => true)) smallWeek smallStart).map (fun t =>
      (t.weeks.map (fun week => total week.recorded "uusd"), total t.running "uusd")) =
        some ([12], 3) := by decide +kernel
  obtain ⟨t, hrun, hshape⟩ := Option.map_eq_some_iff.mp hshape
  obtain ⟨hweeks, hrunning⟩ := Prod.mk.inj hshape
  obtain ⟨hhistory, _⟩ := history_run hrun
  obtain ⟨week, hlist, htotal⟩ := List.map_eq_singleton_iff.mp hweeks
  refine ⟨t, hrun, by rw [hlist]; rfl, ?_, ?_⟩
  · rw [hhistory.running, hrunning]
  · intro week' hmem
    refine ⟨?_, ?_⟩
    · rw [hhistory.proceeds week' hmem]
      rw [hlist, List.mem_singleton] at hmem
      rw [hmem, htotal]
    · rw [hlist, List.mem_singleton] at hmem
      have hwritten := hhistory.written 0 week (by rw [hlist]; rfl)
      rw [hmem]
      exact hwritten

end TerraClassic.Treasury
