import TerraClassic.Oracle.Chain
import TerraClassic.Oracle.Misses
import TerraClassic.Oracle.Slash

/-! # Slash windows over runs

    The miss counters are raised at the end of vote periods and deleted at the end of slash
    windows, by different parts of the end blocker and with blocks and messages in between.
    Over a whole run they count what they should: a window punishes the validators that fall
    short in the vote periods that ended since the window before, and no others.

    * `WindowState`: the chain, with the charges of the running window and the windows closed
      so far as ghosts.
    * `WindowInv`: the counters are the charges, and every closed window was fair.
    * `slash_windows_run`: the result for runs.
-/

namespace TerraClassic.Oracle

/-! ### Charges and windows -/

/-- The validators charged when a vote period ends. -/
def charged (sched : Schedule) (k : Keepers) (params : Params) (st : Store) : Set ValAddr :=
  { a | a ∈ activeSet k.staking ∧ Missed sched k params st a }

open Classical in
/-- For how many of the vote periods a validator was charged. -/
noncomputable def charges (periods : List (Set ValAddr)) (a : ValAddr) : ℕ :=
  periods.countP (fun period => a ∈ period)

/-- A slash window that has ended. -/
structure SlashWindow where
  staking : StakingKeeper
  params : Params
  height : BlockHeight
  /-- The vote periods that ended in it: whom they charged. -/
  periods : List (Set ValAddr)
  slashes : List SlashEvent

/-- Parameters for which a window has vote periods, and not too many. -/
structure WindowOk (params : Params) : Prop where
  period_pos : 1 ≤ params.votePeriod.toNat
  period_le : params.votePeriod.toNat ≤ params.slashWindow.toNat
  window_lt : params.slashWindow.toNat < 2 ^ 63
  periods_lt : periodsPerWindow params < 10 ^ 18
  minValid : InUnit params.minValidPerWindow

/-- The slashes of a window are of the bonded validators, not jailed, that fall short in the
    vote periods of the window, each once. -/
def SlashWindow.Fair (w : SlashWindow) : Prop :=
  ∃ punished : List (ValAddr × Validator),
    (punished.map Prod.fst).Nodup ∧
    (∀ a v, (a, v) ∈ punished ↔ w.staking.validators.get a = some v ∧ v.bonded = true ∧
      v.jailed = false ∧ FallsShort w.params (charges w.periods a)) ∧
    w.slashes = punished.map (fun p => slashEvent w.params w.height p.2)

structure WindowState where
  chain : ChainState
  /-- The vote periods that ended in the running window. -/
  periods : List (Set ValAddr)
  /-- The windows that ended, the oldest first. -/
  windows : List SlashWindow

def WindowState.start (height : BlockHeight) (store : Store) : WindowState :=
  ⟨ChainState.start height store, [], []⟩

/-- A step of the chain, and what it adds to the ghosts. -/
def windowStep (codec : Codec) (votePeriod : UInt64) (s : WindowState) (e : Event) :
    Option WindowState := do
  let chain ← step codec votePeriod s.chain e
  match e with
  | .endBlock sched k params =>
    let params := { params with votePeriod := votePeriod }
    let outcome ← endBlocker sched k params s.chain.height s.chain.store
    let votePeriodEnds ← isPeriodLastBlock s.chain.height votePeriod
    let slashWindowEnds ← isPeriodLastBlock s.chain.height params.slashWindow
    let periods := if votePeriodEnds then s.periods ++ [charged sched k params s.chain.store]
      else s.periods
    if slashWindowEnds then
      return ⟨chain, [], s.windows ++
        [⟨k.staking, params, s.chain.height, periods, outcome.slashes⟩]⟩
    else return ⟨chain, periods, s.windows⟩
  | _ => return { s with chain := chain }

theorem charges_le_length (periods : List (Set ValAddr)) (a : ValAddr) :
    charges periods a ≤ periods.length :=
  List.countP_le_length

open Classical in
theorem charges_append (periods : List (Set ValAddr)) (period : Set ValAddr) (a : ValAddr) :
    charges (periods ++ [period]) a = charges periods a + if a ∈ period then 1 else 0 := by
  unfold charges
  rw [List.countP_append, List.countP_singleton]
  simp

/-! ### Slashes of a window that returned -/

section Slashes

variable {staking : StakingKeeper} {params : Params} {height : BlockHeight}

theorem WindowOk.periods_pos (h : WindowOk params) : 0 < periodsPerWindow params :=
  Nat.div_pos h.period_le h.period_pos

/-- Who has missed nothing does not fall short. -/
theorem WindowOk.not_fallsShort_zero (h : WindowOk params) : ¬ FallsShort params 0 := by
  rw [fallsShort_iff, Nat.cast_zero, sub_zero, not_lt, mul_comm]
  have hle : params.minValidPerWindow.i ≤ decOne := Dec.le_def.mp h.minValid.2
  exact mul_le_mul_of_nonneg_left hle (Int.natCast_nonneg _)

/-- A round that returned appends the event of its operator, if that is punished.  Only for an
    operator that does not fall short is it enough that the round returned. -/
theorem slashStep_append (h : WindowOk params) {e : ValAddr × UInt64}
    (hmisses : e.2.toNat ≤ 2 ^ 63) {slashes slashes' : List SlashEvent}
    (hstep : slashStep staking params height (periodsPerWindow params) slashes e =
      some slashes') :
    slashes' = slashes ++
      ((punishedBy staking params e).map (fun p => slashEvent params height p.2)).toList := by
  cases hget : staking.validators.get e.1 with
  | some v =>
    rw [slashStep_eq height h.periods_pos h.periods_lt h.minValid.1 hmisses (by rw [hget]; rfl)]
      at hstep
    exact (Option.some.inj hstep).symm
  | none =>
    -- a counter of no validator: the loop panics on it or passes over it
    unfold slashStep at hstep
    have hlt : periodsPerWindow params < 2 ^ 63 := lt_trans h.periods_lt (by norm_num)
    rw [validVoteRate_eq h.periods_pos hlt hmisses, hget, Option.bind_eq_bind,
      Option.bind_some] at hstep
    split at hstep
    · cases hstep
    · cases hstep
      simp [punishedBy, hget]

theorem foldlM_append_eq {α β : Type} {f : List β → α → Option (List β)} {g : α → List β}
    {l : List α} (hf : ∀ a ∈ l, ∀ acc out, f acc a = some out → out = acc ++ g a)
    {acc out : List β} (h : l.foldlM f acc = some out) : out = acc ++ l.flatMap g := by
  induction l generalizing acc with
  | nil =>
    cases h
    exact (List.append_nil _).symm
  | cons a rest ih =>
    rw [List.foldlM_cons] at h
    obtain ⟨acc', hacc', hrest⟩ := Option.bind_eq_some_iff.mp h
    rw [ih (fun b hb => hf b (List.mem_cons_of_mem a hb)) hrest,
      hf a List.mem_cons_self acc acc' hacc', List.flatMap_cons, List.append_assoc]

theorem slashes_eq (h : WindowOk params) {missCounters : SortedMap ValAddr UInt64}
    (hmisses : ∀ a misses, missCounters.get a = some misses → misses.toNat ≤ 2 ^ 63)
    {slashes : List SlashEvent}
    (hslash : slashAndResetMissCounters staking params height missCounters = some slashes) :
    slashes = (missCounters.entries.filterMap (punishedBy staking params)).map
      (fun p => slashEvent params height p.2) := by
  unfold slashAndResetMissCounters at hslash
  rw [votePeriodsPerWindow_eq h.period_pos h.period_le h.window_lt, Option.bind_eq_bind,
    Option.bind_some] at hslash
  rw [foldlM_append_eq (fun e he acc out hstep =>
      slashStep_append h (hmisses e.1 e.2 (SortedMap.mem_entries.mp he)) hstep) hslash,
    List.nil_append, List.map_filterMap, filterMap_eq_flatMap_toList]

/-- A window whose counters are the charges is fair. -/
theorem fair_of_counters (h : WindowOk params) {missCounters : SortedMap ValAddr UInt64}
    {periods : List (Set ValAddr)} (hlt : periods.length < 2 ^ 63)
    (hcounters : ∀ a, (getMissCounter missCounters a).toNat = charges periods a)
    {slashes : List SlashEvent}
    (hslash : slashAndResetMissCounters staking params height missCounters = some slashes) :
    (SlashWindow.mk staking params height periods slashes).Fair := by
  have hget : ∀ a misses, missCounters.get a = some misses →
      misses.toNat = charges periods a := by
    intro a misses hget
    rw [← hcounters, getMissCounter, SortedMap.getD, hget]
    rfl
  have hmisses : ∀ a misses, missCounters.get a = some misses → misses.toNat ≤ 2 ^ 63 := by
    intro a misses hsome
    rw [hget a misses hsome]
    exact ((charges_le_length periods a).trans_lt hlt).le
  refine ⟨missCounters.entries.filterMap (punishedBy staking params),
    punished_nodup staking params missCounters, ?_, slashes_eq h hmisses hslash⟩
  intro a v
  rw [mem_punished_iff]
  constructor
  · rintro ⟨hv, hbonded, hjailed, misses, hsome, hshort⟩
    rw [hget a misses hsome] at hshort
    exact ⟨hv, hbonded, hjailed, hshort⟩
  · rintro ⟨hv, hbonded, hjailed, hshort⟩
    refine ⟨hv, hbonded, hjailed, ?_⟩
    cases hsome : missCounters.get a with
    | none =>
      -- without a counter there were no charges
      have hzero : charges periods a = 0 := by
        rw [← hcounters, getMissCounter, SortedMap.getD, hsome]
        rfl
      rw [hzero] at hshort
      exact absurd hshort h.not_fallsShort_zero
    | some misses =>
      refine ⟨misses, rfl, ?_⟩
      rw [hget a misses hsome]
      exact hshort

end Slashes

/-! ### One block -/

section Block

variable {sched : Schedule} {k : Keepers} {params : Params} {height : BlockHeight} {st : Store}

/-- The end of a vote period raises the counters of the validators charged. -/
theorem counters_endVotePeriod {o : Outcome} (hacc : AcceptedVotes st.votes)
    (h : endVotePeriod sched k params height st = some o) {periods : List (Set ValAddr)}
    (hlt : periods.length < 2 ^ 63)
    (hcounters : ∀ a, (getMissCounter st.missCounters a).toNat = charges periods a)
    (a : ValAddr) :
    (getMissCounter o.store.missCounters a).toNat =
      charges (periods ++ [charged sched k params st]) a := by
  have hbound : charges periods a < 2 ^ 63 := (charges_le_length periods a).trans_lt hlt
  obtain ⟨hmissed, hkept⟩ := endVotePeriod_missCounters hacc h a
  rw [charges_append]
  by_cases hcharged : a ∈ charged sched k params st
  · rw [if_pos hcharged, getMissCounter, SortedMap.getD, hmissed hcharged.1 hcharged.2]
    show (getMissCounter st.missCounters a + 1).toNat = _
    -- the counter does not wrap below the bound on the periods
    rw [UInt64.toNat_add, hcounters, UInt64.toNat_one]
    omega
  · rw [if_neg hcharged, add_zero, ← hcounters, getMissCounter, SortedMap.getD,
      hkept (fun hact hmiss => hcharged ⟨hact, hmiss⟩)]
    rfl

/-- The counters after a block, and the window that it ended, if it did. -/
theorem endBlocker_counters {o : Outcome} (hacc : AcceptedVotes st.votes)
    {periods : List (Set ValAddr)} (hlt : periods.length + 1 < 2 ^ 63)
    (hcounters : ∀ a, (getMissCounter st.missCounters a).toNat = charges periods a)
    (h : endBlocker sched k params height st = some o) {votePeriodEnds slashWindowEnds : Bool}
    (hperiod : isPeriodLastBlock height params.votePeriod = some votePeriodEnds)
    (hwindow : isPeriodLastBlock height params.slashWindow = some slashWindowEnds) :
    let periods' := if votePeriodEnds then periods ++ [charged sched k params st] else periods
    if slashWindowEnds then o.store.missCounters = ∅ ∧
      (WindowOk params → (SlashWindow.mk k.staking params height periods' o.slashes).Fair)
    else ∀ a, (getMissCounter o.store.missCounters a).toNat = charges periods' a := by
  intro periods'
  rw [endBlocker_eq, hperiod, Option.bind_some] at h
  obtain ⟨o', ho', h⟩ := Option.bind_eq_some_iff.mp h
  have hcounters' : ∀ a, (getMissCounter o'.store.missCounters a).toNat = charges periods' a := by
    cases votePeriodEnds with
    | true => exact counters_endVotePeriod hacc ho' (Nat.lt_of_succ_lt hlt) hcounters
    | false =>
      cases ho'
      exact hcounters
  -- the slashes are those of the counters after the vote period of this block
  have hlt' : periods'.length < 2 ^ 63 := by
    show (if votePeriodEnds then periods ++ [_] else periods).length < 2 ^ 63
    split
    · rw [List.length_append, List.length_singleton]
      exact hlt
    · omega
  unfold endSlashWindow at h
  rw [hwindow, Option.bind_some] at h
  cases slashWindowEnds with
  | true =>
    rw [if_pos rfl] at h
    obtain ⟨slashes, hslash, rfl⟩ := Option.map_eq_some_iff.mp h
    exact ⟨rfl, fun hok => fair_of_counters hok hlt' hcounters' hslash⟩
  | false =>
    cases h
    exact hcounters'

end Block

/-! ### Runs -/

/-- The counters are the charges of the running window, and the windows before were fair. -/
structure WindowInv (s : WindowState) : Prop where
  accepted : AcceptedVotes s.chain.store.votes
  counters : ∀ a, (getMissCounter s.chain.store.missCounters a).toNat = charges s.periods a
  /-- At most one vote period ends in a block. -/
  few : s.periods.length ≤ s.chain.height.val
  fair : ∀ w ∈ s.windows, WindowOk w.params → w.Fair

section Runs

variable {codec : Codec} {votePeriod : UInt64}

/-- Messages leave the counters alone. -/
theorem step_missCounters {s s' : ChainState} {e : Event}
    (h : step codec votePeriod s e = some s')
    (hmsg : ∀ sched k params, e ≠ .endBlock sched k params) :
    s'.store.missCounters = s.store.missCounters ∧ s'.height = s.height := by
  cases e with
  | prevote staking msg =>
    simp only [step] at h
    split at h
    · next hok =>
      cases h
      obtain ⟨_, _, hok⟩ := Run.bind_eq_ok.mp hok
      obtain ⟨_, _, _, _, rfl⟩ := aggregateExchangeRatePrevote_ok hok
      exact ⟨rfl, rfl⟩
    · cases h
      exact ⟨rfl, rfl⟩
  | vote staking msg =>
    simp only [step] at h
    split at h
    · next hok =>
      cases h
      obtain ⟨_, _, hok⟩ := Run.bind_eq_ok.mp hok
      obtain ⟨_, _, _, _, _, _, _, _, _, _, rfl⟩ := aggregateExchangeRateVote_ok hok
      exact ⟨rfl, rfl⟩
    · cases h
      exact ⟨rfl, rfl⟩
  | delegate staking msg =>
    simp only [step] at h
    split at h
    · next hok =>
      cases h
      obtain ⟨_, _, hok⟩ := Run.bind_eq_ok.mp hok
      obtain ⟨_, rfl⟩ := delegateFeedConsent_ok hok
      exact ⟨rfl, rfl⟩
    · cases h
      exact ⟨rfl, rfl⟩
  | endBlock sched k params => exact absurd rfl (hmsg sched k params)

theorem windowStep_message {s s' : WindowState} {e : Event}
    (hmsg : ∀ sched k params, e ≠ .endBlock sched k params)
    (h : windowStep codec votePeriod s e = some s') :
    ∃ chain, step codec votePeriod s.chain e = some chain ∧ s' = { s with chain := chain } := by
  obtain ⟨chain, hstep, h⟩ := Option.bind_eq_some_iff.mp h
  cases e with
  | prevote staking msg => exact ⟨chain, hstep, (Option.some.inj h).symm⟩
  | vote staking msg => exact ⟨chain, hstep, (Option.some.inj h).symm⟩
  | delegate staking msg => exact ⟨chain, hstep, (Option.some.inj h).symm⟩
  | endBlock sched k params => exact absurd rfl (hmsg sched k params)

theorem windowStep_endBlock {s s' : WindowState} {sched : Schedule} {k : Keepers}
    {params : Params} (h : windowStep codec votePeriod s (.endBlock sched k params) = some s')
    (hs : WindowInv s) : WindowInv s' := by
  obtain ⟨chain, hstep, h⟩ := Option.bind_eq_some_iff.mp h
  have haccepted := acceptedVotes_step (step_sound hstep) hs.accepted
  obtain ⟨outcome, hend, h⟩ := Option.bind_eq_some_iff.mp h
  obtain ⟨votePeriodEnds, hperiod, h⟩ := Option.bind_eq_some_iff.mp h
  obtain ⟨slashWindowEnds, hwindow, h⟩ := Option.bind_eq_some_iff.mp h
  obtain ⟨outcome', hend', hstep⟩ := Option.bind_eq_some_iff.mp hstep
  rw [hend] at hend'
  cases hend'
  split at hstep
  · next hheight =>
    cases hstep
    -- the height bounds the number of periods, so no counter has wrapped
    have hfew := hs.few
    have hlt : s.periods.length + 1 < 2 ^ 63 := by omega
    have hblock := endBlocker_counters hs.accepted hlt hs.counters hend hperiod hwindow
    have hlength : (if votePeriodEnds then s.periods ++
        [charged sched k { params with votePeriod := votePeriod } s.chain.store]
        else s.periods).length ≤ s.chain.height.val + 1 := by
      split
      · rw [List.length_append, List.length_singleton]
        omega
      · omega
    cases slashWindowEnds with
    | true =>
      cases h
      obtain ⟨hempty, hfair⟩ := hblock
      refine ⟨haccepted, ?_, Nat.zero_le _, ?_⟩
      · intro a
        show (getMissCounter outcome.store.missCounters a).toNat = 0
        rw [hempty]
        rfl
      · -- the windows before, and the one that ends here
        intro w hw hok
        rcases List.mem_append.mp hw with hw | hw
        · exact hs.fair w hw hok
        · rw [List.mem_singleton.mp hw] at hok ⊢
          exact hfair hok
    | false =>
      cases h
      exact ⟨haccepted, hblock, hlength, hs.fair⟩
  · cases hstep

theorem windowStep_inv {s s' : WindowState} {e : Event}
    (h : windowStep codec votePeriod s e = some s') (hs : WindowInv s) : WindowInv s' := by
  have hmessage : (∀ sched k params, e ≠ .endBlock sched k params) → WindowInv s' := by
    intro hmsg
    obtain ⟨chain, hstep, rfl⟩ := windowStep_message hmsg h
    obtain ⟨hcounters, hheight⟩ := step_missCounters hstep hmsg
    refine ⟨acceptedVotes_step (step_sound hstep) hs.accepted, ?_, ?_, hs.fair⟩
    · intro a
      show (getMissCounter chain.store.missCounters a).toNat = _
      rw [hcounters]
      exact hs.counters a
    · show s.periods.length ≤ chain.height.val
      rw [hheight]
      exact hs.few
  cases e with
  | prevote staking msg => exact hmessage (by simp)
  | vote staking msg => exact hmessage (by simp)
  | delegate staking msg => exact hmessage (by simp)
  | endBlock sched k params => exact windowStep_endBlock h hs

/-- Over any run of messages and blocks, from a chain without votes and miss counters: the
    counter of a validator is the number of vote periods charged to it since the last slash
    window ended, and each window slashed the validators that fall short in the vote periods
    that ended in it, once, and no others. -/
theorem slash_windows_run {height : BlockHeight} {store : Store} (hvotes : store.votes = ∅)
    (hcounters : store.missCounters = ∅) {events : List Event} {s : WindowState}
    (hrun : Run.run (windowStep codec votePeriod) events (WindowState.start height store) =
      some s) :
    (∀ a, (getMissCounter s.chain.store.missCounters a).toNat = charges s.periods a) ∧
      ∀ w ∈ s.windows, WindowOk w.params → w.Fair := by
  have hstart : WindowInv (WindowState.start height store) := by
    refine ⟨?_, ?_, Nat.zero_le _, ?_⟩
    · intro a w hw
      rw [show (WindowState.start height store).chain.store.votes = ∅ from hvotes] at hw
      cases hw
    · intro a
      show (getMissCounter store.missCounters a).toNat = 0
      rw [hcounters]
      rfl
    · intro w hw
      cases hw
  have hinv := Run.run_invariant (fun _ _ _ h hs => windowStep_inv h hs) hrun hstart
  exact ⟨hinv.counters, hinv.fair⟩

end Runs

/-! ### On a small chain -/

/-- Windows of two vote periods. -/
def smallWindowParams : Params := { smallParams with slashWindow := 10 }

theorem smallWindowParams_ok : WindowOk smallWindowParams where
  period_pos := by decide
  period_le := by decide
  window_lt := by decide
  periods_lt := by decide
  minValid := ⟨by decide, by decide⟩

/-- Nobody votes in the two vote periods of a window, so everybody is slashed. -/
theorem slash_windows_run_idle :
    ∃ s w, Run.run (windowStep smallCodec 5)
        (List.replicate 6 (.endBlock .inOrder smallKeepers smallWindowParams))
        (WindowState.start ⟨4, by decide⟩ (smallStore [])) = some s ∧
      s.windows = [w] ∧ w.slashes.length = 4 ∧ w.Fair := by
  have hshape : (Run.run (windowStep smallCodec 5)
      (List.replicate 6 (.endBlock .inOrder smallKeepers smallWindowParams))
      (WindowState.start ⟨4, by decide⟩ (smallStore []))).map (fun s => s.windows.map (fun w =>
        (w.params, w.slashes.length))) = some [(smallWindowParams, 4)] := by decide +kernel
  obtain ⟨s, hrun, hshape⟩ := Option.map_eq_some_iff.mp hshape
  obtain ⟨w, hwindows, hpair⟩ := List.map_eq_singleton_iff.mp hshape
  obtain ⟨hparams, hlength⟩ := Prod.mk.inj hpair
  obtain ⟨_, hfair⟩ := slash_windows_run rfl rfl hrun
  have hmem : w ∈ s.windows := by
    rw [hwindows]
    exact List.mem_singleton_self w
  have hok : WindowOk w.params := by
    rw [hparams]
    exact smallWindowParams_ok
  exact ⟨s, w, hrun, hwindows, hlength, hfair w hmem hok⟩

end TerraClassic.Oracle
