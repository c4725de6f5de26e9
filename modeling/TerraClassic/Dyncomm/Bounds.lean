import TerraClassic.Dyncomm.Target

/-! # The bounds of the commissions

    The update writes staking's records without staking's checks.  It keeps
    `rate ≤ maxRate ≤ 1` because the stored target of every validator is at
    most its maximum rate.  Dyncomm has no hook for the removal of a validator: its
    record stays, and the target in it is only overwritten when the validator is
    created again under the same spelling.
-/

namespace TerraClassic.Dyncomm

variable {W : Type}

/-! ### The invariant -/

/-- The bounds of one commission with a stored target. -/
structure CommissionOk (target : Dec) (k : Commission) : Prop where
  target_le : target ≤ k.maxRate
  rate_le : k.rate ≤ k.maxRate
  maxRate_le : k.maxRate ≤ Dec.one

/-- All validators are keyed and within their bounds. -/
structure Bounded (bech32 : Bech32) (st : Staking) (rates : Rates) : Prop where
  keyed : Keyed bech32 st
  minRate : st.MinRateOk
  commission : ∀ v k, st.commissionOf v = some k →
    CommissionOk (getTargetCommissionRate rates (bech32.valAddressString v)) k

/-- A create spells the validator as the store does, or finds no target, in the
    store or in the transaction itself, above its maximum rate. -/
def FreshTarget (bech32 : Bech32) (rates : Rates) (cs : List Choice) : Prop :=
  ∀ c ∈ cs, ∀ v maxRate, c.isFor bech32 v = true → c.maxRate = some maxRate →
    c.spelling = bech32.valAddressString v ∨
      (getTargetCommissionRate rates (bech32.valAddressString v) ≤ maxRate ∧
        ∀ c' ∈ cs, c'.spelling = bech32.valAddressString v → c'.rate ≤ maxRate)

theorem FreshTarget.tail {bech32 : Bech32} {rates : Rates} {c : Choice} {cs : List Choice}
    (h : FreshTarget bech32 rates (c :: cs)) :
    FreshTarget bech32 (setTargetCommissionRate rates c.spelling c.rate) cs := by
  intro c' hc' v maxRate hfor hmax
  rcases h c' (List.mem_cons_of_mem _ hc') v maxRate hfor hmax with hspelled | ⟨hstored, hall⟩
  · exact Or.inl hspelled
  · refine Or.inr ⟨?_, fun c'' hc'' => hall c'' (List.mem_cons_of_mem _ hc'')⟩
    rw [getTargetCommissionRate_setTarget]
    split
    · next heq => exact hall c List.mem_cons_self heq.symm
    · exact hstored

/-! ### Transactions -/

theorem Bounded.of_quiet {bech32 : Bech32} {st st' : Staking} {rates : Rates}
    (h : Bounded bech32 st rates) (hquiet : Quiet st st') : Bounded bech32 st' rates :=
  ⟨fun v k hk => h.keyed v k (hquiet.commission v k hk), hquiet.minRate h.minRate,
    fun v k hk => h.commission v k (hquiet.commission v k hk)⟩

/-- A choice for one validator does not write the target of another. -/
theorem getTarget_of_ne {bech32 : Bech32} {c : Choice} {v u : ValAddr}
    (hfor : c.isFor bech32 v = true) (hne : u ≠ v)
    (hparse : bech32.valAddressFromBech32 (bech32.valAddressString u) = .ok u) (rates : Rates) :
    getTargetCommissionRate (setTargetCommissionRate rates c.spelling c.rate)
        (bech32.valAddressString u) =
      getTargetCommissionRate rates (bech32.valAddressString u) := by
  rw [getTargetCommissionRate_setTarget]
  split
  · next heq =>
    have hu : c.isFor bech32 u = true := decide_eq_true (heq ▸ hparse)
    exact absurd (isFor_unique hu hfor) hne
  · rfl

/-- The commission of one validator changes, and a target is written for it. -/
theorem Bounded.of_change {bech32 : Bech32} {st st' : Staking} {rates : Rates} {c : Choice}
    {v : ValAddr} {k : Commission} (h : Bounded bech32 st rates) (hfor : c.isFor bech32 v = true)
    (hparse : bech32.valAddressFromBech32 (bech32.valAddressString v) = .ok v)
    (hset : st'.commissionOf v = some k)
    (hrest : ∀ u, u ≠ v → st'.commissionOf u = st.commissionOf u)
    (hmin : st'.minCommissionRate = st.minCommissionRate)
    (hk : CommissionOk (getTargetCommissionRate (setTargetCommissionRate rates c.spelling c.rate)
      (bech32.valAddressString v)) k) :
    Bounded bech32 st' (setTargetCommissionRate rates c.spelling c.rate) := by
  have hkeyed : Keyed bech32 st' := by
    intro u k' hk'
    by_cases hu : u = v
    · exact hu ▸ hparse
    · exact h.keyed u k' (hrest u hu ▸ hk')
  refine ⟨hkeyed, ?_, ?_⟩
  · show 0 ≤ st'.minCommissionRate.i ∧ st'.minCommissionRate ≤ Dec.one
    rw [hmin]
    exact h.minRate
  · intro u k' hk'
    by_cases hu : u = v
    · rw [hu, hset] at hk'
      rw [hu, ← Option.some.inj hk']
      exact hk
    · rw [getTarget_of_ne hfor hu (hkeyed u k' hk')]
      exact h.commission u k' (hrest u hu ▸ hk')

theorem Bounded.choose {bech32 : Bech32} (hcodec : RoundTrip bech32)
    {st st' : Staking} {rates : Rates} {c : Choice} {cs : List Choice}
    (h : Bounded bech32 st rates) (hfresh : FreshTarget bech32 rates (c :: cs))
    (hchoice : Chooses bech32 st c st') :
    Bounded bech32 st' (setTargetCommissionRate rates c.spelling c.rate) := by
  cases hchoice with
  | edit v k hfor hmax hget hle hset hrest hmin =>
    have hold := h.commission v k hget
    refine h.of_change hfor (h.keyed v k hget) hset hrest hmin ⟨?_, hle, hold.maxRate_le⟩
    rw [getTargetCommissionRate_setTarget]
    split
    · exact hle
    · exact hold.target_le
  | create v maxRate maxChangeRate hfor hmax hget hbounds hset hrest hmin =>
    refine h.of_change hfor (hcodec _ _ (of_decide_eq_true hfor)) hset hrest hmin
      ⟨?_, hbounds.2.1, hbounds.2.2⟩
    rw [getTargetCommissionRate_setTarget]
    -- under another spelling the target of an earlier instance stays
    split
    · exact hbounds.2.1
    · next hne =>
      rcases hfresh c List.mem_cons_self v maxRate hfor hmax with hspelled | ⟨hstored, _⟩
      · exact absurd hspelled.symm hne
      · exact hstored

/-- The post decorator's writes, taken together with the messages they are for. -/
theorem Effects.bounded {bech32 : Bech32} (hcodec : RoundTrip bech32)
    {st st' : Staking} {cs : List Choice} (heffects : Effects bech32 st cs st') {rates : Rates}
    (hfresh : FreshTarget bech32 rates cs) (h : Bounded bech32 st rates) :
    Bounded bech32 st' (setTargets rates cs) := by
  induction heffects generalizing rates with
  | done hquiet => exact h.of_quiet hquiet
  | next hquiet hchoice _ ih =>
    exact ih hfresh.tail ((h.of_quiet hquiet).choose hcodec hfresh hchoice)

/-! ### Updates -/

theorem updateAll_bounded {bech32 : Bech32} {s s' : State} (hparams : s.params.Valid)
    (hs : Bounded bech32 s.staking s.rates)
    (h : updateAllBondedValidatorRates bech32 s = some s') :
    Bounded bech32 s'.staking s'.rates := by
  obtain ⟨hframe, _, _⟩ := updateAll_spec hs.keyed h
  refine ⟨updateAll_keyed hs.keyed h, ?_, ?_⟩
  · unfold Staking.MinRateOk
    rw [hframe.rules.minCommissionRate]
    exact hs.minRate
  · intro v k hk
    rw [hframe.targets]
    obtain ⟨val', hval', hk'⟩ := Staking.commissionOf_eq_some.mp hk
    obtain ⟨val, hval, hupdated⟩ := updateAll_get hs.keyed h hval'
    have hold := hs.commission v val.commission
      (Staking.commissionOf_eq_some.mpr ⟨val, hval, rfl⟩)
    rw [← hk']
    rcases hupdated with ⟨m, hm, rfl, _⟩ | ⟨rfl, _⟩
    · -- rate and maximum rate are both pushed up by the minimum, which is at most one
      exact ⟨hold.target_le.trans (le_max_left _ _), max_le_max hold.target_le le_rfl,
        max_le hold.maxRate_le (calculateDynCommission_le_one hparams hs.minRate hm)⟩
    · exact hold

/-! ### Runs -/

/-- The invariant of a run. -/
structure RunBounded (sdk : Sdk W) (s : RunState W) : Prop where
  params : s.chain.state.params.Valid
  bounded : Bounded sdk.bech32 s.chain.state.staking s.chain.state.rates

/-- Every executed transaction creates validators with fresh targets. -/
def TargetsFresh (sdk : Sdk W) (s : RunState W) : Event W → Prop
  | .deliver tx => (deliverTx sdk s.chain tx).isSome →
      FreshTarget sdk.bech32 s.chain.state.rates (choices tx)
  | _ => True

/-- Every create and edit of the transactions is a message of the top level. -/
def AllTopLevel : Event W → Prop
  | .deliver tx => ∀ c ∈ choices tx, c.topLevel = true
  | _ => True

theorem step_runBounded {sdk : Sdk W} {s s' : RunState W} {e : Event W}
    (h : step sdk s e = some s') (hfresh : TargetsFresh sdk s e) (htop : AllTopLevel e)
    (hs : RunBounded sdk s) : RunBounded sdk s' := by
  cases step_cases h with
  | refused => exact hs
  | delivered hdeliver =>
    obtain ⟨_, heffects, hrates, hparams⟩ := deliverTx_effects hdeliver
    rw [List.filter_eq_self.mpr htop] at hrates
    refine ⟨hparams ▸ hs.params, ?_⟩
    rw [hrates]
    exact heffects.bounded sdk.codec (hfresh (by rw [hdeliver]; rfl)) hs.bounded
  | updated hupdate =>
    refine ⟨?_, updateAll_bounded hs.params hs.bounded hupdate⟩
    rw [(updateAll_spec hs.bounded.keyed hupdate).1.rules.params]
    exact hs.params
  | staking world changes =>
    exact ⟨hs.params, hs.bounded.of_quiet (foldl_apply_quiet changes _)⟩
  | params hvalid => exact ⟨Params.checkPairs_eq_ok.mp hvalid, hs.bounded⟩

theorem startRun_runBounded {sdk : Sdk W} {params : Params} {c : Chain W} {start : RunState W}
    (h : startRun sdk params c = some start) (hkeyed : Keyed sdk.bech32 c.state.staking)
    (hmin : c.state.staking.MinRateOk)
    (hgenesis : ∀ v k, c.state.staking.commissionOf v = some k →
      k.rate ≤ k.maxRate ∧ k.maxRate ≤ Dec.one) : RunBounded sdk start := by
  obtain ⟨hvalid, _, hupdate⟩ := startRun_eq h
  have hbounded : Bounded sdk.bech32 (genesisState sdk.bech32 params c.state).staking
      (genesisState sdk.bech32 params c.state).rates := by
    refine ⟨hkeyed, hmin, ?_⟩
    intro v k hk
    obtain ⟨hrate, hmax⟩ := hgenesis v k hk
    obtain ⟨val, hval, rfl⟩ := Staking.commissionOf_eq_some.mp hk
    refine ⟨?_, hrate, hmax⟩
    rw [genesisState_target hkeyed hval]
    exact hrate
  refine ⟨?_, updateAll_bounded hvalid hbounded hupdate⟩
  rw [(updateAll_spec hbounded.keyed hupdate).1.rules.params]
  exact hvalid

/-! ### The maximum rate of one instance -/

/-- How often a validator was created; two states with the same number of
    creations have the same instance of it. -/
def creations (bech32 : Bech32) (v : ValAddr) (log : List Choice) : ℕ :=
  log.countP (fun c => c.isFor bech32 v && c.maxRate.isSome)

/-- Without a create, messages leave the maximum rate alone. -/
theorem Effects.maxRate {bech32 : Bech32} {st st' : Staking} {cs : List Choice}
    (h : Effects bech32 st cs st') {v : ValAddr} (hnone : creations bech32 v cs = 0)
    {k' : Commission} (hk' : st'.commissionOf v = some k') :
    ∃ k, st.commissionOf v = some k ∧ k.maxRate = k'.maxRate := by
  induction h with
  | done hquiet => exact ⟨k', hquiet.commission v k' hk', rfl⟩
  | @next st st₁ st₂ st' c cs hquiet hchoice _ ih =>
    unfold creations at hnone ih
    rw [List.countP_cons] at hnone
    obtain ⟨k, hk, hmax⟩ := ih (by omega) hk'
    -- the head of the list is no create of `v`
    have hhead : (c.isFor bech32 v && c.maxRate.isSome) = false := by
      by_contra hcreate
      rw [if_pos (Bool.eq_true_of_not_eq_false hcreate)] at hnone
      omega
    suffices hbefore : ∃ k₁, st₁.commissionOf v = some k₁ ∧ k₁.maxRate = k.maxRate by
      obtain ⟨k₁, hk₁, hmax₁⟩ := hbefore
      exact ⟨k₁, hquiet.commission v k₁ hk₁, hmax₁.trans hmax⟩
    cases hchoice with
    | edit u k₁ hfor hno hget hle hset hrest hmin =>
      by_cases hv : v = u
      · rw [hv, hset] at hk
        obtain rfl := Option.some.inj hk
        exact ⟨k₁, hv ▸ hget, rfl⟩
      · exact ⟨k, hrest v hv ▸ hk, rfl⟩
    | create u maxRate maxChangeRate hfor hsome hget hbounds hset hrest hmin =>
      by_cases hv : v = u
      · rw [hv, hfor, hsome] at hhead
        cases hhead
      · exact ⟨k, hrest v hv ▸ hk, rfl⟩

theorem creations_append (bech32 : Bech32) (v : ValAddr) (cs₁ cs₂ : List Choice) :
    creations bech32 v (cs₁ ++ cs₂) = creations bech32 v cs₁ + creations bech32 v cs₂ :=
  List.countP_append

/-- The maximum rate of an instance does not go down, from `s` to `s'`. -/
def MaxRateKept (bech32 : Bech32) (v : ValAddr) (s s' : RunState W) : Prop :=
  creations bech32 v s.log ≤ creations bech32 v s'.log ∧
    (creations bech32 v s'.log = creations bech32 v s.log →
      ∀ k', s'.chain.state.staking.commissionOf v = some k' →
        ∃ k, s.chain.state.staking.commissionOf v = some k ∧ k.maxRate ≤ k'.maxRate)

theorem MaxRateKept.refl (bech32 : Bech32) (v : ValAddr) (s : RunState W) :
    MaxRateKept bech32 v s s :=
  ⟨le_rfl, fun _ k' hk' => ⟨k', hk', le_rfl⟩⟩

theorem MaxRateKept.trans {bech32 : Bech32} {v : ValAddr} {s₁ s₂ s₃ : RunState W}
    (h₁ : MaxRateKept bech32 v s₁ s₂) (h₂ : MaxRateKept bech32 v s₂ s₃) :
    MaxRateKept bech32 v s₁ s₃ := by
  refine ⟨h₁.1.trans h₂.1, ?_⟩
  intro hsame k₃ hk₃
  have hle₁ := h₁.1
  have hle₂ := h₂.1
  obtain ⟨k₂, hk₂, hmax₂⟩ := h₂.2 (by omega) k₃ hk₃
  obtain ⟨k₁, hk₁, hmax₁⟩ := h₁.2 (by omega) k₂ hk₂
  exact ⟨k₁, hk₁, hmax₁.trans hmax₂⟩

theorem step_maxRateKept {sdk : Sdk W} {s s' : RunState W} {e : Event W}
    (h : step sdk s e = some s') (hs : RunBounded sdk s) (v : ValAddr) :
    MaxRateKept sdk.bech32 v s s' := by
  cases step_cases h with
  | refused => exact MaxRateKept.refl _ v s
  | delivered hdeliver =>
    obtain ⟨_, heffects, _, _⟩ := deliverTx_effects hdeliver
    unfold MaxRateKept
    rw [creations_append]
    refine ⟨Nat.le_add_right _ _, ?_⟩
    intro hsame k' hk'
    -- the log has as many creations as before, so the transaction made none
    obtain ⟨k, hk, hmax⟩ := heffects.maxRate (by omega) hk'
    exact ⟨k, hk, hmax.le⟩
  | updated hupdate =>
    refine ⟨le_rfl, fun _ k' hk' => ?_⟩
    obtain ⟨val', hval', rfl⟩ := Staking.commissionOf_eq_some.mp hk'
    obtain ⟨val, hval, hupdated⟩ := updateAll_get hs.bounded.keyed hupdate hval'
    refine ⟨val.commission, Staking.commissionOf_eq_some.mpr ⟨val, hval, rfl⟩, ?_⟩
    rcases hupdated with ⟨m, _, rfl, _⟩ | ⟨rfl, _⟩
    · exact le_max_left _ _
    · exact le_rfl
  | staking world changes =>
    have hquiet := foldl_apply_quiet changes s.chain.state.staking
    exact ⟨le_rfl, fun _ k' hk' => ⟨k', hquiet.commission v k' hk', le_rfl⟩⟩
  | params => exact ⟨le_rfl, fun _ k' hk' => ⟨k', hk', le_rfl⟩⟩

/-- The steps that keep the bounds: everything at the top level, fresh targets. -/
def StepOk (sdk : Sdk W) (s : RunState W) (e : Event W) : Prop :=
  TargetsFresh sdk s e ∧ AllTopLevel e

theorem run_runBounded {sdk : Sdk W} {events : List (Event W)} {s s' : RunState W}
    (hok : Run.Along (step sdk) (StepOk sdk) events s) (hs : RunBounded sdk s)
    (h : Run.run (step sdk) events s = some s') : RunBounded sdk s' :=
  Run.run_invariant_along
    (fun _ _ _ hstep hcond hinv => step_runBounded hstep hcond.1 hcond.2 hinv) h hok hs

theorem run_maxRateKept {sdk : Sdk W} {events : List (Event W)} {s s' : RunState W}
    (hok : Run.Along (step sdk) (StepOk sdk) events s) (hs : RunBounded sdk s)
    (h : Run.run (step sdk) events s = some s') (v : ValAddr) :
    MaxRateKept sdk.bech32 v s s' := by
  have hboth : RunBounded sdk s' ∧ MaxRateKept sdk.bech32 v s s' := by
    apply Run.run_invariant_along (I := fun t => RunBounded sdk t ∧ MaxRateKept sdk.bech32 v s t)
      _ h hok ⟨hs, MaxRateKept.refl _ v s⟩
    intro t e t' hstep hcond hinv
    exact ⟨step_runBounded hstep hcond.1 hcond.2 hinv.1,
      hinv.2.trans (step_maxRateKept hstep hinv.1 v)⟩
  exact hboth.2

/-! ### The bounds in every run -/

/-- In every run whose creates and edits are at the top level and whose creates find
    fresh targets: every commission is within its bounds, the maximum rate of an
    instance does not go down afterwards, and an update leaves every bonded validator
    at or above its stored minimum. -/
theorem commission_bounds (sdk : Sdk W) (params : Params) (genesis : Chain W)
    (hkeyed : Keyed sdk.bech32 genesis.state.staking)
    (hmin : genesis.state.staking.MinRateOk)
    (hgenesis : ∀ v k, genesis.state.staking.commissionOf v = some k →
      k.rate ≤ k.maxRate ∧ k.maxRate ≤ Dec.one)
    (start : RunState W) (hstart : startRun sdk params genesis = some start)
    (events : List (Event W)) (htop : ∀ e ∈ events, AllTopLevel e)
    (hfresh : Run.Along (step sdk) (TargetsFresh sdk) events start) (s : RunState W)
    (hrun : Run.run (step sdk) events start = some s) :
    (∀ v k, s.chain.state.staking.commissionOf v = some k →
      getTargetCommissionRate s.chain.state.rates (sdk.bech32.valAddressString v) ≤ k.maxRate ∧
        k.rate ≤ k.maxRate ∧ k.maxRate ≤ Dec.one) ∧
    (∀ later s', (∀ e ∈ later, AllTopLevel e) →
      Run.Along (step sdk) (TargetsFresh sdk) later s →
      Run.run (step sdk) later s = some s' → ∀ v k k',
        s.chain.state.staking.commissionOf v = some k →
        s'.chain.state.staking.commissionOf v = some k' →
        creations sdk.bech32 v s'.log = creations sdk.bech32 v s.log → k.maxRate ≤ k'.maxRate) ∧
    ∀ s', step sdk s .update = some s' → ∀ v val',
      s'.chain.state.staking.validators.get v = some val' → val'.bonded = true →
        getDynCommissionRate s'.chain.state.rates (sdk.bech32.valAddressString v) ≤
          val'.commission.rate := by
  have hs : RunBounded sdk s := run_runBounded (hfresh.and_mem htop)
    (startRun_runBounded hstart hkeyed hmin hgenesis) hrun
  refine ⟨?_, ?_, ?_⟩
  · intro v k hk
    have hok := hs.bounded.commission v k hk
    exact ⟨hok.target_le, hok.rate_le, hok.maxRate_le⟩
  · intro later s' hlater hfresh' hrun' v k k' hk hk' hsame
    obtain ⟨k₀, hk₀, hmax⟩ := (run_maxRateKept (hfresh'.and_mem hlater) hs hrun' v).2 hsame k' hk'
    rw [hk] at hk₀
    rw [Option.some.inj hk₀]
    exact hmax
  · intro s' hupdate v val' hval' hbonded
    obtain ⟨state, hstate, h⟩ := Option.bind_eq_some_iff.mp hupdate
    rw [← Option.some.inj h] at hval' ⊢
    obtain ⟨val, _, hupdated⟩ := updateAll_get hs.bounded.keyed hstate hval'
    rcases hupdated with ⟨m, _, rfl, hrecord⟩ | ⟨rfl, hnot⟩
    · show getDynCommissionRate state.rates _ ≤ _
      rw [hrecord]
      exact le_max_right _ _
    · rw [hnot] at hbonded
      cases hbonded

/-! ### On the small chain -/

theorem commission_bounds_edit :
    ∃ s, smallRun [.deliver [editTo "terravaloper1a" 40]] = some s ∧
      ∀ v k, s.chain.state.staking.commissionOf v = some k →
        getTargetCommissionRate s.chain.state.rates (oneOperator.valAddressString v) ≤
          k.maxRate ∧ k.rate ≤ k.maxRate ∧ k.maxRate ≤ Dec.one := by
  have hsome : (smallRun [.deliver [editTo "terravaloper1a" 40]]).isSome = true := by
    decide +kernel
  obtain ⟨s, hs⟩ := Option.isSome_iff_exists.mp hsome
  obtain ⟨start, hstart, hrun⟩ := Option.bind_eq_some_iff.mp hs
  have hgenesis : ∀ v k, smallChain.state.staking.commissionOf v = some k →
      k.rate ≤ k.maxRate ∧ k.maxRate ≤ Dec.one := by
    intro v k hk
    rw [smallChain_eq_a hk] at hk
    obtain rfl := Option.some.inj hk
    decide
  have htop : ∀ e ∈ [Event.deliver (W := Unit) [editTo "terravaloper1a" 40]],
      AllTopLevel e := by
    intro e he
    obtain rfl := List.mem_singleton.mp he
    intro c hc
    obtain rfl := List.mem_singleton.mp hc
    rfl
  have hfresh : Run.Along (step smallSdk) (TargetsFresh smallSdk)
      [.deliver [editTo "terravaloper1a" 40]] start := by
    refine ⟨fun _ c hc v maxRate _ hmax => ?_, fun _ _ => trivial⟩
    obtain rfl := List.mem_singleton.mp hc
    cases hmax
  exact ⟨s, hs, (commission_bounds smallSdk defaultParams smallChain smallChain_keyed
    ⟨by decide, by decide⟩ hgenesis start hstart _ htop hfresh s hrun).1⟩

/-- A new validator of the operator, with the maximum rate as its rate, in percent. -/
def createAt (address : String) (percent : ℤ) : Msg :=
  .createValidator ⟨address, "", Dec.withPrec percent 2, Dec.withPrec percent 2, Dec.withPrec 1 2,
    1, "pubkey", ⟨microLunaDenom, 1000000⟩⟩

/-- The stored target, the rate and the maximum rate of the operator. -/
def targetRateMaxRate (s : RunState Unit) : Option (Dec × Dec × Dec) :=
  (s.chain.state.staking.commissionOf "a").map (fun k =>
    (getTargetCommissionRate s.chain.state.rates "terravaloper1a", k.rate, k.maxRate))

/-- The operator's validator, with a rate of 10%, is removed and created again in
    upper case, with a maximum rate of 5%.  The old target is above that, and after
    the next update the rate is too. -/
theorem commission_bounds_stale :
    (smallRun [.staking () [.removed "a"], .deliver [createAt "TERRAVALOPER1A" 5]]).bind
      targetRateMaxRate = some (Dec.withPrec 10 2, Dec.withPrec 5 2, Dec.withPrec 5 2) ∧
    (smallRun [.staking () [.removed "a"], .deliver [createAt "TERRAVALOPER1A" 5],
      .staking () [.bonded "a" true, .lastTotalPower 2000], .update]).bind
      targetRateMaxRate = some (Dec.withPrec 10 2, Dec.withPrec 10 2, Dec.withPrec 5 2) ∧
    Dec.withPrec 5 2 < Dec.withPrec 10 2 := by
  refine ⟨by decide +kernel, by decide +kernel, by decide⟩

end TerraClassic.Dyncomm
