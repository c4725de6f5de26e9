import TerraClassic.Chain.Ledger
import TerraClassic.Market.Recovery

/-! # A minimum spread of one

    The fork that was to disable swaps sets `MinStabilitySpread` to one.  The fee of a swap
    from or to Luna is then all that it returns, and the swap is refused; swaps between Terra
    denoms pay the Tobin tax only and go on.

    * `handleSwapRequest_disabled`: no swap from or to Luna succeeds.
    * `step_disabled`: no event touches Luna or the pool but the end of a block.
    * `luna_swaps_disabled`: from the fork on the supply of Luna changes by what is burned at
      the end of blocks, and the pool by its recovery.
-/

namespace TerraClassic.Market

open SdkError (orPanic_eq_ok)

variable {k : Keeper}

/-- The spread is at least the minimum. -/
theorem constantProductSpread_min {params : Params} {terraPoolDelta baseOffer spread : Dec}
    {offerIsLuna : Bool}
    (h : constantProductSpread params terraPoolDelta offerIsLuna baseOffer = some spread) :
    params.minStabilitySpread ≤ spread := by
  obtain ⟨_, _, h⟩ := Option.bind_eq_some_iff.mp h
  obtain ⟨_, _, h⟩ := Option.bind_eq_some_iff.mp h
  obtain ⟨_, _, h⟩ := Option.bind_eq_some_iff.mp h
  obtain ⟨_, _, h⟩ := Option.bind_eq_some_iff.mp h
  obtain ⟨_, _, h⟩ := Option.bind_eq_some_iff.mp h
  obtain ⟨_, _, h⟩ := Option.bind_eq_some_iff.mp h
  obtain ⟨_, _, h⟩ := Option.bind_eq_some_iff.mp h
  obtain ⟨exact, _, h⟩ := Option.bind_eq_some_iff.mp h
  rw [← Option.some.inj h]
  split
  · exact le_rfl
  · next hge => exact not_lt.mp hge

/-- A swap from or to Luna has the spread of the constant product. -/
theorem computeSwap_spread {s : State} {offerCoin : Coin} {askDenom : Denom} {retCoin : DecCoin}
    {spread : Dec} (hluna : offerCoin.denom = microLunaDenom ∨ askDenom = microLunaDenom)
    (h : computeSwap k s offerCoin askDenom = .ok (retCoin, spread)) :
    k.params.minStabilitySpread ≤ spread := by
  unfold computeSwap at h
  by_cases heq : offerCoin.denom = askDenom
  · simp only [if_pos heq] at h
    cases h
  · simp only [if_neg heq] at h
    obtain ⟨_, _, h⟩ := Run.bind_eq_ok.mp h
    obtain ⟨_, _, h⟩ := Run.bind_eq_ok.mp h
    obtain ⟨_, _, h⟩ := Run.bind_eq_ok.mp h
    rw [if_neg (fun hterra => hluna.elim hterra.1 hterra.2)] at h
    obtain ⟨_, hspread, h⟩ := Run.bind_eq_ok.mp h
    cases h
    exact constantProductSpread_min (orPanic_eq_ok.mp hspread)

/-- At a spread of one the fee leaves nothing. -/
theorem swapFee_all {coin fee : DecCoin} {spread : Dec} (hspread : Dec.one ≤ spread)
    (h : swapFee k coin spread = some fee) : coin.amount.i ≤ fee.amount.i := by
  have hone : (decOne : ℤ) ≤ spread.i := Dec.le_def.mp hspread
  have hpos := Dec.decOne_posInt
  obtain ⟨_, hfee⟩ := swapFee_raw (show 0 ≤ spread.i by omega) h
  rw [hfee]
  rcases le_or_gt 0 coin.amount.i with hnonneg | hneg
  · have hmul : (decOne : ℤ) * coin.amount.i ≤ spread.i * coin.amount.i :=
      mul_le_mul_of_nonneg_right hone hnonneg
    have hround := Dec.le_two_mul_chop (spread.i * coin.amount.i)
    -- the fee is a whole number that is at most half a unit short
    by_contra hlt
    have hstep : (decOne : ℤ) * (Dec.chopPrecisionAndRound (spread.i * coin.amount.i) + 1) ≤
        decOne * coin.amount.i := mul_le_mul_of_nonneg_left (by omega) hpos.le
    rw [mul_add, mul_one] at hstep
    omega
  · have hvalid : 0 ≤ fee.amount.i := by
      unfold swapFee at h
      split at h
      · obtain ⟨_, _, h⟩ := Option.bind_eq_some_iff.mp h
        obtain ⟨rfl, hvalid⟩ := newDecCoinFromDec_eq_some h
        exact hvalid
      · obtain ⟨rfl, hvalid⟩ := newDecCoinFromDec_eq_some h
        exact hvalid
    rw [hfee] at hvalid
    omega

/-- With a minimum spread of one no swap from or to Luna succeeds. -/
theorem handleSwapRequest_disabled (hmin : Dec.one ≤ k.params.minStabilitySpread) {s : State}
    {trader receiver : AccAddr} {offerCoin : Coin} {askDenom : Denom}
    {result : State × SwapResponse}
    (h : handleSwapRequest k s trader receiver offerCoin askDenom = .ok result) :
    offerCoin.denom ≠ microLunaDenom ∧ askDenom ≠ microLunaDenom := by
  by_contra hterra
  have hluna : offerCoin.denom = microLunaDenom ∨ askDenom = microLunaDenom := by
    by_contra hnot
    exact hterra (not_or.mp hnot)
  obtain ⟨⟨ret, spread⟩, hret, h⟩ := Run.bind_eq_ok.mp h
  obtain ⟨feeDecCoin, hfee, h⟩ := Run.bind_eq_ok.mp h
  obtain ⟨amount, hamount, h⟩ := Run.bind_eq_ok.mp h
  obtain ⟨_, _, h⟩ := Run.bind_eq_ok.mp h
  obtain ⟨_, hsettle, _⟩ := Run.bind_eq_ok.mp h
  have hspread := hmin.trans (computeSwap_spread hluna hret)
  have hall := swapFee_all hspread (orPanic_eq_ok.mp hfee)
  have hwhole : (decOne : ℤ) ≤ amount.i := settle_ok hsettle
  have hraw := Dec.sub_raw (orPanic_eq_ok.mp hamount)
  have hpos := Dec.decOne_posInt
  omega

/-- A swap between Terra denoms leaves the pool alone. -/
theorem handleSwapRequest_terra {s : State} {trader receiver : AccAddr} {offerCoin : Coin}
    {askDenom : Denom} {result : State × SwapResponse}
    (hoffer : offerCoin.denom ≠ microLunaDenom) (hask : askDenom ≠ microLunaDenom)
    (h : handleSwapRequest k s trader receiver offerCoin askDenom = .ok result) :
    result.1.terraPoolDelta = s.terraPoolDelta := by
  obtain ⟨⟨ret, spread⟩, hret, h⟩ := Run.bind_eq_ok.mp h
  obtain ⟨_, _, h⟩ := Run.bind_eq_ok.mp h
  obtain ⟨_, _, h⟩ := Run.bind_eq_ok.mp h
  obtain ⟨delta, hdelta, h⟩ := Run.bind_eq_ok.mp h
  obtain ⟨_, _, hresult⟩ := Run.bind_eq_ok.mp h
  cases hresult
  have hdenom : ret.denom = askDenom := computeSwap_denom hret
  unfold applySwapToPool at hdelta
  rw [if_pos ⟨hoffer, show ret.denom ≠ microLunaDenom by rw [hdenom]; exact hask⟩] at hdelta
  exact (Except.ok.inj hdelta).symm

end TerraClassic.Market

namespace TerraClassic.Chain

open BankState (Sound)
open Market (handleSwapRequest_disabled handleSwapRequest_terra)

/-- No proposal takes the minimum spread below one again, and only forks of the repository
    run. -/
def Event.KeepsSpread : Event → Prop
  | .params marketParams => Dec.one ≤ marketParams.minStabilitySpread
  | .beginBlock forks _ _ => forks ⊆ knownForks
  | _ => True

/-- The pool recovers at the end of a block only, over the period in force. -/
def Event.recoveryPeriods (settings : Settings) : Event → List UInt64
  | .endBlock _ => [settings.marketParams.poolRecoveryPeriod]
  | _ => []

/-- The periods in force at the ends of blocks of a run. -/
def recoveryPeriods : Settings → List Event → List UInt64
  | _, [] => []
  | settings, e :: rest =>
    e.recoveryPeriods settings ++ recoveryPeriods ((settingsStep settings e).getD settings) rest

/-- No swap has touched Luna between the two states. -/
structure LunaAlone (s s' : State) : Prop where
  offered : s'.flows.offered microLunaDenom = s.flows.offered microLunaDenom
  minted : s'.flows.minted microLunaDenom = s.flows.minted microLunaDenom

theorem LunaAlone.refl (s : State) : LunaAlone s s := ⟨rfl, rfl⟩

theorem LunaAlone.trans {s s' s'' : State} (h : LunaAlone s s') (h' : LunaAlone s' s'') :
    LunaAlone s s'' :=
  ⟨h'.offered.trans h.offered, h'.minted.trans h.minted⟩

section Runs

variable {config : BankConfig}

/-! ### The settings -/

/-- A minimum spread of one stays. -/
theorem settingsStep_spread {e : Event} (hkeeps : e.KeepsSpread) {settings settings' : Settings}
    (h : settingsStep settings e = some settings')
    (hspread : Dec.one ≤ settings.marketParams.minStabilitySpread) :
    Dec.one ≤ settings'.marketParams.minStabilitySpread := by
  cases e with
  | params params =>
    simp only [settingsStep] at h
    split at h
    · next hset =>
      cases h
      rw [setMarketParams_ok hset]
      exact hkeeps
    · cases h
      exact hspread
  | beginBlock forks chainID height => exact beginBlockForks_spread hkeeps h hspread
  | _ =>
    cases h
    exact hspread

/-! ### The ledger -/

theorem afterSwap_disabled {s : State} {k : Market.Keeper}
    (hmin : Dec.one ≤ k.params.minStabilitySpread) {trader receiver : AccAddr} {offerCoin : Coin}
    {askDenom : Denom} {result : Market.State × Market.SwapResponse}
    (h : Market.handleSwapRequest k ⟨s.terraPoolDelta, s.bank⟩ trader receiver offerCoin
      askDenom = .ok result) (recipient : AccAddr) :
    LunaAlone s (afterSwap config s recipient offerCoin askDenom result) ∧
      (afterSwap config s recipient offerCoin askDenom result).terraPoolDelta =
        s.terraPoolDelta := by
  obtain ⟨hoffer, hask⟩ := handleSwapRequest_disabled hmin h
  have hdenom : result.2.swapCoin.denom = askDenom := by
    obtain ⟨⟨ret, spread⟩, hret, hrest⟩ := Run.bind_eq_ok.mp h
    obtain ⟨fee, hfee, hrest⟩ := Run.bind_eq_ok.mp hrest
    obtain ⟨amount, _, hrest⟩ := Run.bind_eq_ok.mp hrest
    obtain ⟨_, _, hrest⟩ := Run.bind_eq_ok.mp hrest
    obtain ⟨⟨bank, response⟩, hsettle, hresult⟩ := Run.bind_eq_ok.mp hrest
    cases hresult
    have hfeeDenom := Market.swapFee_denom (SdkError.orPanic_eq_ok.mp hfee)
    have hdenom : fee.denom = (⟨ret.denom, amount⟩ : DecCoin).denom := hfeeDenom
    obtain ⟨hswap, _, _⟩ := Market.settle_ledger hdenom hsettle
    rw [hswap]
    exact Market.computeSwap_denom hret
  refine ⟨⟨?_, ?_⟩, handleSwapRequest_terra hoffer hask h⟩
  · show s.flows.offered microLunaDenom + _ = _
    rw [if_neg hoffer.symm, add_zero]
  · show s.flows.minted microLunaDenom + _ = _
    rw [hdenom, if_neg hask.symm, add_zero]

/-- One event, with a minimum spread of one in force: the settings are those that it leaves, Luna
    is not swapped, and the pool recovers. -/
theorem step_disabled {s s' : State} {e : Event}
    (hspread : Dec.one ≤ s.settings.marketParams.minStabilitySpread)
    (h : step config s e = some s') :
    settingsStep s.settings e = some s'.settings ∧ LunaAlone s s' ∧
      Run.run Market.recover (e.recoveryPeriods s.settings) s.terraPoolDelta =
        some s'.terraPoolDelta := by
  cases e with
  | tx k ctx feeTx =>
    simp only [step] at h
    split at h
    · cases h
      exact ⟨rfl, LunaAlone.refl s, rfl⟩
    · cases h
      exact ⟨rfl, ⟨rfl, rfl⟩, rfl⟩
  | send sender recipient amt =>
    simp only [step] at h
    split at h
    · cases h
      exact ⟨rfl, LunaAlone.refl s, rfl⟩
    · split at h
      · cases h
        exact ⟨rfl, LunaAlone.refl s, rfl⟩
      · cases h
        exact ⟨rfl, ⟨rfl, rfl⟩, rfl⟩
  | swap bech32 k msg =>
    simp only [step] at h
    split at h
    · cases h
      exact ⟨rfl, LunaAlone.refl s, rfl⟩
    · next hswap =>
      cases h
      obtain ⟨_, _, hswap⟩ := Run.bind_eq_ok.mp hswap
      obtain ⟨_, _, hswap⟩ := Run.bind_eq_ok.mp hswap
      obtain ⟨halone, hpool⟩ := afterSwap_disabled hspread hswap (addressOf bech32 msg.trader)
      exact ⟨rfl, halone, congrArg some hpool.symm⟩
  | swapSend bech32 k msg =>
    simp only [step] at h
    split at h
    · cases h
      exact ⟨rfl, LunaAlone.refl s, rfl⟩
    · next hswap =>
      cases h
      obtain ⟨_, _, hswap⟩ := Run.bind_eq_ok.mp hswap
      obtain ⟨_, _, hswap⟩ := Run.bind_eq_ok.mp hswap
      obtain ⟨_, _, hswap⟩ := Run.bind_eq_ok.mp hswap
      obtain ⟨halone, hpool⟩ := afterSwap_disabled hspread hswap (addressOf bech32 msg.toAddress)
      exact ⟨rfl, halone, congrArg some hpool.symm⟩
  | contractTax k contractAddr msg =>
    simp only [step] at h
    split at h
    · cases h
      exact ⟨rfl, LunaAlone.refl s, rfl⟩
    · cases h
      exact ⟨rfl, ⟨rfl, rfl⟩, rfl⟩
  | oracleReward amt =>
    simp only [step] at h
    split at h
    · cases h
      exact ⟨rfl, LunaAlone.refl s, rfl⟩
    · split at h
      · cases h
        exact ⟨rfl, LunaAlone.refl s, rfl⟩
      · cases h
        exact ⟨rfl, ⟨rfl, rfl⟩, rfl⟩
  | params params =>
    obtain ⟨_, hsettings, h⟩ := Option.bind_eq_some_iff.mp h
    cases h
    exact ⟨hsettings, ⟨rfl, rfl⟩, rfl⟩
  | beginBlock forks chainID height =>
    obtain ⟨_, hsettings, h⟩ := Option.bind_eq_some_iff.mp h
    cases h
    exact ⟨hsettings, ⟨rfl, rfl⟩, rfl⟩
  | endBlock height =>
    simp only [step, endBlock] at h
    obtain ⟨delta, hdelta, h⟩ := Option.bind_eq_some_iff.mp h
    obtain ⟨bank, _, h⟩ := Option.bind_eq_some_iff.mp h
    obtain ⟨weekEnds, _, h⟩ := Option.bind_eq_some_iff.mp h
    have hrecover : Run.run Market.recover [s.settings.marketParams.poolRecoveryPeriod]
        s.terraPoolDelta = some delta := by
      unfold Run.run
      rw [List.foldlM_cons, ← Market.replenishPools_eq_recover, hdelta]
      rfl
    cases weekEnds with
    | true =>
      cases h
      exact ⟨rfl, ⟨rfl, rfl⟩, hrecover⟩
    | false =>
      cases h
      exact ⟨rfl, ⟨rfl, rfl⟩, hrecover⟩

/-- A run from a minimum spread of one: the spread stays, and with it what one event leaves
    alone. -/
theorem run_disabled {events : List Event} (hkeeps : ∀ e ∈ events, e.KeepsSpread) {s s' : State}
    (hspread : Dec.one ≤ s.settings.marketParams.minStabilitySpread)
    (h : Run.run (step config) events s = some s') :
    LunaAlone s s' ∧
      Run.run Market.recover (recoveryPeriods s.settings events) s.terraPoolDelta =
        some s'.terraPoolDelta := by
  induction events generalizing s with
  | nil =>
    cases h
    exact ⟨LunaAlone.refl _, rfl⟩
  | cons e rest ih =>
    obtain ⟨t, ht, hrest⟩ := Option.bind_eq_some_iff.mp h
    obtain ⟨hsettings, halone, hpool⟩ := step_disabled hspread ht
    have hspread' := settingsStep_spread (hkeeps e List.mem_cons_self) hsettings hspread
    obtain ⟨halone', hpool'⟩ := ih (fun b hb => hkeeps b (List.mem_cons_of_mem e hb)) hspread' hrest
    refine ⟨halone.trans halone', ?_⟩
    unfold recoveryPeriods
    rw [hsettings]
    exact Run.run_append_eq_some.mpr ⟨t.terraPoolDelta, hpool, hpool'⟩

/-- The state in which the fork leaves the chain has a minimum spread of one. -/
theorem forked_spread {forks : List Fork} (hknown : forks ⊆ knownForks)
    (hmem : disableSwapFork ∈ forks) {height : BlockHeight}
    (hheight : height.val = disableSwapFork.upgradeHeight) {s t : State}
    (h : step config s (.beginBlock forks columbusChainID height) = some t) :
    t.settings.marketParams.minStabilitySpread = Dec.one := by
  obtain ⟨settings, hsettings, h⟩ := Option.bind_eq_some_iff.mp h
  cases h
  have hsettings : beginBlockForks forks columbusChainID height s.settings = some settings :=
    hsettings
  rw [beginBlockForks_disableSwap hknown hmem hheight] at hsettings
  rw [(runForkLogicSwapDisable_ok hsettings).1]

/-- From the block on in which the fork ran, whatever happens before it and after it: the supply
    of Luna changes only by what the end of a block burns, and the pool only by its recovery. -/
theorem luna_swaps_disabled (hconfig : ConfigOk config) {bank : BankState} {denoms : List Denom}
    (hsound : Sound denoms bank) (terraPoolDelta : Dec) (settings : Settings)
    {forks : List Fork} (hknown : forks ⊆ knownForks) (hmem : disableSwapFork ∈ forks)
    {height : BlockHeight} (hheight : height.val = disableSwapFork.upgradeHeight)
    {before after : List Event} (hbefore : ∀ e ∈ before, e.Signed config)
    (hafter : ∀ e ∈ after, e.Signed config) (hkeeps : ∀ e ∈ after, e.KeepsSpread) {t s : State}
    (hfork : Run.run (step config) (before ++ [.beginBlock forks columbusChainID height])
      (genesis bank denoms terraPoolDelta settings) = some t)
    (hrun : Run.run (step config) after t = some s) :
    t.settings.marketParams.minStabilitySpread = Dec.one ∧
      s.bank.supply microLunaDenom = t.bank.supply microLunaDenom -
        (s.flows.burned microLunaDenom - t.flows.burned microLunaDenom) ∧
      Run.run Market.recover (recoveryPeriods t.settings after) t.terraPoolDelta =
        some s.terraPoolDelta := by
  have hsigned : ∀ e ∈ before ++ [.beginBlock forks columbusChainID height],
      e.Signed config := by
    intro e he
    rcases List.mem_append.mp he with hin | hlast
    · exact hbefore e hin
    · rw [List.mem_singleton.mp hlast]
      trivial
  have hspread : t.settings.marketParams.minStabilitySpread = Dec.one := by
    obtain ⟨u, _, hlast⟩ := Run.run_append_eq_some.mp hfork
    obtain ⟨_, hbegin, hlast⟩ := Option.bind_eq_some_iff.mp hlast
    cases hlast
    exact forked_spread hknown hmem hheight hbegin
  obtain ⟨⟨hoffered, hminted⟩, hpool⟩ := run_disabled hkeeps hspread.ge hrun
  refine ⟨hspread, ?_, hpool⟩
  -- the books at the fork and at the end, over the same start
  have hbooks := run_books hconfig hsound hsigned hfork
  have hbooks' := Run.run_invariant_along
    (fun s e s' hs' (he : e.Signed config) hs => step_books hconfig he hs' hs) hrun
    (Run.Along.of_mem hafter _) hbooks
  rw [hbooks'.supply, hbooks.supply, hoffered, hminted]
  ring

end Runs

/-- The block of the fork. -/
def forkHeight : BlockHeight := ⟨7607790, by decide⟩

/-- A send to the burn account, a swap that is refused, and the end of the block. -/
def disabledEvents : List Event :=
  [.send "a" "burn" (Coins.ofCoin microLunaDenom 1000),
   .swap Market.smallBech32 ⟨Market.defaultParams, Market.smallOracle, smallBankConfig⟩
    ⟨"terra1vynex3pr", ⟨microLunaDenom, 1000000⟩, microSDRDenom⟩,
   .endBlock forkHeight]

theorem luna_swaps_disabled_small :
    ∃ t s, Run.run (step smallBankConfig)
        ([] ++ [.beginBlock [disableSwapFork] columbusChainID forkHeight])
        (genesis smallLedger [microLunaDenom, microSDRDenom] Dec.zero smallSettings) = some t ∧
      Run.run (step smallBankConfig) disabledEvents t = some s ∧
      s.bank.supply microLunaDenom = t.bank.supply microLunaDenom - 1000 := by
  have hburned : ((Run.run (step smallBankConfig)
      ([] ++ [.beginBlock [disableSwapFork] columbusChainID forkHeight])
      (genesis smallLedger [microLunaDenom, microSDRDenom] Dec.zero smallSettings)).bind
        (fun t => (Run.run (step smallBankConfig) disabledEvents t).map (fun s =>
          s.flows.burned microLunaDenom - t.flows.burned microLunaDenom))) = some 1000 := by
    decide +kernel
  obtain ⟨t, hfork, hburned⟩ := Option.bind_eq_some_iff.mp hburned
  obtain ⟨s, hrun, hburned⟩ := Option.map_eq_some_iff.mp hburned
  have hsigned : ∀ e ∈ disabledEvents, e.Signed smallBankConfig := by
    simp only [disabledEvents, List.forall_mem_cons, Event.Signed]
    exact ⟨by decide, by decide, trivial, by simp⟩
  have hkeeps : ∀ e ∈ disabledEvents, e.KeepsSpread := by
    simp only [disabledEvents, List.forall_mem_cons, Event.KeepsSpread]
    exact ⟨trivial, trivial, trivial, by simp⟩
  obtain ⟨_, hsupply, _⟩ := luna_swaps_disabled smallBankConfig_ok smallLedger_sound Dec.zero
    smallSettings (List.cons_subset_cons disableSwapFork (List.nil_subset _))
    List.mem_cons_self rfl (by simp) hsigned hkeeps hfork hrun
  refine ⟨t, s, hfork, hrun, ?_⟩
  rw [hsupply, hburned]

end TerraClassic.Chain
