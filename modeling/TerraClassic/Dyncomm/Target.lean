import TerraClassic.Dyncomm.Floor
import TerraClassic.Dyncomm.Update
import TerraClassic.Lib.Run

/-! # Runs, and the operator's choice

    A run starts from `InitGenesis`, delivers transactions and updates the rates,
    in any order, while the rest of the chain changes the staking state and the
    parameters between them.

    `RunState.log` is a ghost variable: the choices of all transactions that
    were executed, oldest first.  Nothing the code does depends on it.  The stored
    target of a validator is meant to be its last choice (`TargetsFollow`); a
    choice that the post decorator does not see breaks this.
-/

namespace TerraClassic.Dyncomm

variable {W : Type}

/-! ### Runs -/

structure RunState (W : Type) where
  chain : Chain W
  log : List Choice

inductive Event (W : Type) where
  /-- A transaction in a block. -/
  | deliver (tx : List Msg)
  /-- `UpdateAllBondedValidatorRates`. -/
  | update
  /-- The rest of the chain goes on. -/
  | staking (world : W) (changes : List StakingChange)
  /-- A parameter change, which the parameter store checks. -/
  | params (params : Params)

/-- One event.  A transaction that fails changes nothing; an update that panics
    halts the chain. -/
def step (sdk : Sdk W) (s : RunState W) : Event W → Option (RunState W)
  | .deliver tx =>
    match deliverTx sdk s.chain tx with
    | some chain => some ⟨chain, s.log ++ choices tx⟩
    | none => some s
  | .update => do
    let state ← updateAllBondedValidatorRates sdk.bech32 s.chain.state
    return { s with chain := { s.chain with state := state } }
  | .staking world changes =>
    let staking := changes.foldl Staking.apply s.chain.state.staking
    some { s with chain := ⟨{ s.chain.state with staking := staking }, world⟩ }
  | .params params =>
    match params.checkPairs with
    | .ok () => some { s with
        chain := { s.chain with state := { s.chain.state with params := params } } }
    | .error _ => some s

/-- All that an event can do. -/
inductive Stepped (sdk : Sdk W) (s : RunState W) : Event W → RunState W → Prop
  /-- A transaction that fails, or parameters that the check refuses. -/
  | refused (e : Event W) : Stepped sdk s e s
  | delivered {tx : List Msg} {chain : Chain W} (h : deliverTx sdk s.chain tx = some chain) :
      Stepped sdk s (.deliver tx) ⟨chain, s.log ++ choices tx⟩
  | updated {state : State}
      (h : updateAllBondedValidatorRates sdk.bech32 s.chain.state = some state) :
      Stepped sdk s .update { s with chain := { s.chain with state := state } }
  | staking (world : W) (changes : List StakingChange) :
      Stepped sdk s (.staking world changes) { s with chain := ⟨{ s.chain.state with
        staking := changes.foldl Staking.apply s.chain.state.staking }, world⟩ }
  | params {params : Params} (h : params.checkPairs = .ok ()) :
      Stepped sdk s (.params params) { s with
        chain := { s.chain with state := { s.chain.state with params := params } } }

theorem step_cases {sdk : Sdk W} {s s' : RunState W} {e : Event W} (h : step sdk s e = some s') :
    Stepped sdk s e s' := by
  cases e with
  | deliver tx =>
    simp only [step] at h
    split at h
    · next chain hdeliver =>
      rw [← Option.some.inj h]
      exact .delivered hdeliver
    · rw [← Option.some.inj h]
      exact .refused _
  | update =>
    obtain ⟨state, hupdate, h⟩ := Option.bind_eq_some_iff.mp h
    rw [← Option.some.inj h]
    exact .updated hupdate
  | staking world changes =>
    rw [← Option.some.inj h]
    exact .staking world changes
  | params params =>
    simp only [step] at h
    split at h
    · next hvalid =>
      rw [← Option.some.inj h]
      exact .params hvalid
    · rw [← Option.some.inj h]
      exact .refused _

/-- The rates at genesis are the operators' first choices. -/
def genesisChoices (bech32 : Bech32) (st : Staking) : List Choice :=
  st.validators.entries.map (fun e =>
    ⟨bech32.valAddressString e.1, e.2.commission.rate, some e.2.commission.maxRate, true⟩)

/-- A chain after `InitGenesis`. -/
def startRun (sdk : Sdk W) (params : Params) (c : Chain W) : Option (RunState W) := do
  let state ← initGenesis sdk.bech32 params c.state
  return ⟨{ c with state := state }, genesisChoices sdk.bech32 c.state.staking⟩

/-- The state that `InitGenesis` updates. -/
def genesisState (bech32 : Bech32) (params : Params) (s : State) : State :=
  { s with params := params, rates := setTargets s.rates (genesisChoices bech32 s.staking) }

theorem initGenesis_eq {bech32 : Bech32} {params : Params} {s s' : State}
    (h : initGenesis bech32 params s = some s') :
    params.Valid ∧
      updateAllBondedValidatorRates bech32 (genesisState bech32 params s) = some s' := by
  unfold initGenesis at h
  split at h
  · cases h
  · next hvalid =>
    refine ⟨Params.checkPairs_eq_ok.mp hvalid, ?_⟩
    unfold genesisState setTargets genesisChoices
    rw [List.foldl_map]
    exact h

theorem startRun_eq {sdk : Sdk W} {params : Params} {c : Chain W} {start : RunState W}
    (h : startRun sdk params c = some start) :
    params.Valid ∧ start.log = genesisChoices sdk.bech32 c.state.staking ∧
      updateAllBondedValidatorRates sdk.bech32 (genesisState sdk.bech32 params c.state) =
        some start.chain.state := by
  unfold startRun at h
  obtain ⟨state, hstate, h⟩ := Option.bind_eq_some_iff.mp h
  obtain ⟨hvalid, hupdate⟩ := initGenesis_eq hstate
  rw [← Option.some.inj h]
  exact ⟨hvalid, rfl, hupdate⟩

/-! ### The target is the last choice -/

theorem lastChoice_append (bech32 : Bech32) (v : ValAddr) (cs₁ cs₂ : List Choice) :
    lastChoice bech32 v (cs₁ ++ cs₂) = (lastChoice bech32 v cs₂).or (lastChoice bech32 v cs₁) := by
  unfold lastChoice
  rw [List.reverse_append, List.find?_append]

/-- Writing choices that spell a validator properly leaves its last one as target. -/
theorem getTargetCommissionRate_setTargets {bech32 : Bech32} {v : ValAddr}
    (hparse : bech32.valAddressFromBech32 (bech32.valAddressString v) = .ok v)
    {cs : List Choice}
    (hspelled : ∀ c ∈ cs, c.isFor bech32 v = true → c.spelling = bech32.valAddressString v)
    (rates : Rates) :
    getTargetCommissionRate (setTargets rates cs) (bech32.valAddressString v) =
      ((lastChoice bech32 v cs).map Choice.rate).getD
        (getTargetCommissionRate rates (bech32.valAddressString v)) := by
  induction cs generalizing rates with
  | nil => rfl
  | cons c rest ih =>
    show getTargetCommissionRate (setTargets (setTargetCommissionRate rates c.spelling c.rate)
      rest) _ = _
    -- a later choice overwrites this one, in the records as in the log
    rw [ih (fun c' hc' => hspelled c' (List.mem_cons_of_mem _ hc')), lastChoice_cons,
      getTargetCommissionRate_setTarget]
    cases hlast : lastChoice bech32 v rest with
    | some c' => rfl
    | none =>
      cases hfor : c.isFor bech32 v with
      | true =>
        rw [if_pos (hspelled c List.mem_cons_self hfor).symm]
        rfl
      | false =>
        have hne : bech32.valAddressString v ≠ c.spelling := by
          intro heq
          have : c.isFor bech32 v = true := decide_eq_true (heq ▸ hparse)
          rw [hfor] at this
          cases this
        rw [if_neg hne]
        rfl

/-- Every validator is keyed, and its stored target is its last choice. -/
structure TargetsFollow (bech32 : Bech32) (s : RunState W) : Prop where
  keyed : Keyed bech32 s.chain.state.staking
  target : ∀ v k, s.chain.state.staking.commissionOf v = some k →
    ∃ c, lastChoice bech32 v s.log = some c ∧
      c.rate = getTargetCommissionRate s.chain.state.rates (bech32.valAddressString v)

/-- Every choice of an executed transaction is seen by the decorators. -/
def ChoicesSeen (sdk : Sdk W) (s : RunState W) : Event W → Prop
  | .deliver tx => (deliverTx sdk s.chain tx).isSome →
      ∀ c ∈ choices tx, ∀ v, c.isFor sdk.bech32 v = true → c.Seen sdk.bech32 v
  | _ => True

theorem Effects.forall_isFor {bech32 : Bech32} {st st' : Staking} {cs : List Choice}
    (h : Effects bech32 st cs st') : ∀ c ∈ cs, ∃ v, c.isFor bech32 v = true := by
  induction h with
  | done _ => exact fun c hc => absurd hc List.not_mem_nil
  | next _ hchoice _ ih =>
    intro c hc
    rcases List.mem_cons.mp hc with rfl | hc
    · cases hchoice with
      | edit v k hfor => exact ⟨v, hfor⟩
      | create v maxRate maxChangeRate hfor => exact ⟨v, hfor⟩
    · exact ih c hc

theorem isFor_of_lastChoice {bech32 : Bech32} {v : ValAddr} {cs : List Choice} {c : Choice}
    (h : lastChoice bech32 v cs = some c) : c.isFor bech32 v = true :=
  List.find?_some h

theorem deliverTx_targetsFollow {sdk : Sdk W} {s : RunState W} {tx : List Msg} {chain : Chain W}
    (h : deliverTx sdk s.chain tx = some chain)
    (hseen : ∀ c ∈ choices tx, ∀ v, c.isFor sdk.bech32 v = true → c.Seen sdk.bech32 v)
    (hs : TargetsFollow sdk.bech32 s) :
    TargetsFollow sdk.bech32 ⟨chain, s.log ++ choices tx⟩ := by
  obtain ⟨_, heffects, hrates, _⟩ := deliverTx_effects h
  -- all choices are seen, so the post decorator writes every one of them
  have htop : (choices tx).filter Choice.topLevel = choices tx := by
    rw [List.filter_eq_self]
    intro c hc
    obtain ⟨v, hv⟩ := heffects.forall_isFor c hc
    exact (hseen c hc v hv).1
  rw [htop] at hrates
  -- a validator made the last choice in this transaction, or was there before
  have hkeyed : Keyed sdk.bech32 chain.state.staking := by
    intro v k hk
    rcases heffects.rate hk with ⟨c, hlast, _⟩ | ⟨_, hbefore⟩
    · have hfor := isFor_of_lastChoice hlast
      rw [← (hseen c (lastChoice_mem hlast) v hfor).2]
      exact of_decide_eq_true hfor
    · exact hs.keyed v k hbefore
  refine ⟨hkeyed, ?_⟩
  intro v k hk
  have htarget := getTargetCommissionRate_setTargets (hkeyed v k hk)
    (fun c hc hfor => (hseen c hc v hfor).2) s.chain.state.rates
  show ∃ c, lastChoice sdk.bech32 v (s.log ++ choices tx) = some c ∧
    c.rate = getTargetCommissionRate chain.state.rates _
  rw [hrates, htarget, lastChoice_append]
  rcases heffects.rate hk with ⟨c, hlast, _⟩ | ⟨hnone, hbefore⟩
  · rw [hlast]
    exact ⟨c, rfl, rfl⟩
  · rw [hnone]
    exact hs.target v k hbefore

theorem step_targetsFollow {sdk : Sdk W} {s s' : RunState W} {e : Event W}
    (h : step sdk s e = some s') (hseen : ChoicesSeen sdk s e)
    (hs : TargetsFollow sdk.bech32 s) : TargetsFollow sdk.bech32 s' := by
  cases step_cases h with
  | refused => exact hs
  | delivered hdeliver =>
    exact deliverTx_targetsFollow hdeliver (hseen (by rw [hdeliver]; rfl)) hs
  | updated hupdate =>
    refine ⟨updateAll_keyed hs.keyed hupdate, ?_⟩
    intro v k hk
    obtain ⟨val', hval', _⟩ := Staking.commissionOf_eq_some.mp hk
    obtain ⟨val, hval, _⟩ := updateAll_get hs.keyed hupdate hval'
    obtain ⟨c, hlast, hrate⟩ := hs.target v val.commission
      (Staking.commissionOf_eq_some.mpr ⟨val, hval, rfl⟩)
    refine ⟨c, hlast, ?_⟩
    rw [(updateAll_spec hs.keyed hupdate).1.targets]
    exact hrate
  | staking world changes =>
    have hquiet := foldl_apply_quiet changes s.chain.state.staking
    exact ⟨fun v k hk => hs.keyed v k (hquiet.commission v k hk),
      fun v k hk => hs.target v k (hquiet.commission v k hk)⟩
  | params => exact ⟨hs.keyed, hs.target⟩

theorem mem_genesisChoices {bech32 : Bech32} {st : Staking} {c : Choice} {v : ValAddr}
    (hkeyed : Keyed bech32 st) (hc : c ∈ genesisChoices bech32 st)
    (hfor : c.isFor bech32 v = true) : c.spelling = bech32.valAddressString v := by
  obtain ⟨e, he, rfl⟩ := List.mem_map.mp hc
  have hparse := hkeyed e.1 e.2.commission
    (Staking.commissionOf_eq_some.mpr ⟨e.2, SortedMap.mem_entries.mp he, rfl⟩)
  have hv := of_decide_eq_true hfor
  rw [hparse] at hv
  rw [← Except.ok.inj hv]

/-- A validator's last choice at genesis is its rate. -/
theorem lastChoice_genesis {bech32 : Bech32} {st : Staking} (hkeyed : Keyed bech32 st)
    {v : ValAddr} {val : Validator} (hval : st.validators.get v = some val) :
    ∃ c, lastChoice bech32 v (genesisChoices bech32 st) = some c ∧
      c.rate = val.commission.rate := by
  have hparse : ∀ u w, st.validators.get u = some w →
      bech32.valAddressFromBech32 (bech32.valAddressString u) = .ok u := fun u w hw =>
    hkeyed u w.commission (Staking.commissionOf_eq_some.mpr ⟨w, hw, rfl⟩)
  cases hlast : lastChoice bech32 v (genesisChoices bech32 st) with
  | some c =>
    refine ⟨c, rfl, ?_⟩
    obtain ⟨e, he, rfl⟩ := List.mem_map.mp (lastChoice_mem hlast)
    have hget := SortedMap.mem_entries.mp he
    have hv : e.1 = v :=
      isFor_unique (decide_eq_true (hparse e.1 e.2 hget)) (isFor_of_lastChoice hlast)
    rw [hv, hval] at hget
    rw [Option.some.inj hget]
  | none =>
    exfalso
    refine List.find?_eq_none.mp hlast ⟨bech32.valAddressString v, val.commission.rate,
      some val.commission.maxRate, true⟩ ?_ (decide_eq_true (hparse v val hval))
    exact List.mem_reverse.mpr (List.mem_map.mpr ⟨(v, val), SortedMap.mem_entries.mpr hval, rfl⟩)

/-- Before the update of `InitGenesis` each target is the validator's rate. -/
theorem genesisState_target {bech32 : Bech32} {params : Params} {s : State}
    (hkeyed : Keyed bech32 s.staking) {v : ValAddr} {val : Validator}
    (hval : s.staking.validators.get v = some val) :
    getTargetCommissionRate (genesisState bech32 params s).rates (bech32.valAddressString v) =
      val.commission.rate := by
  obtain ⟨c, hlast, hrate⟩ := lastChoice_genesis hkeyed hval
  have hparse := hkeyed v val.commission (Staking.commissionOf_eq_some.mpr ⟨val, hval, rfl⟩)
  unfold genesisState
  rw [getTargetCommissionRate_setTargets hparse (fun c' hc' => mem_genesisChoices hkeyed hc'),
    hlast, ← hrate]
  rfl

theorem startRun_targetsFollow {sdk : Sdk W} {params : Params} {c : Chain W} {start : RunState W}
    (h : startRun sdk params c = some start) (hkeyed : Keyed sdk.bech32 c.state.staking) :
    TargetsFollow sdk.bech32 start := by
  obtain ⟨_, hlog, hupdate⟩ := startRun_eq h
  have hkeyed₀ : Keyed sdk.bech32 (genesisState sdk.bech32 params c.state).staking := hkeyed
  refine ⟨updateAll_keyed hkeyed₀ hupdate, ?_⟩
  intro v k hk
  obtain ⟨val', hval', _⟩ := Staking.commissionOf_eq_some.mp hk
  obtain ⟨val, hval, _⟩ := updateAll_get hkeyed₀ hupdate hval'
  obtain ⟨c', hlast, hrate⟩ := lastChoice_genesis hkeyed hval
  refine ⟨c', hlog ▸ hlast, ?_⟩
  rw [(updateAll_spec hkeyed₀ hupdate).1.targets, genesisState_target hkeyed hval, hrate]

/-! ### The update respects the choice -/

/-- In a run whose choices are all seen: an update gives each bonded validator the
    larger of the rate its operator last chose and its minimum, and leaves the
    others as they are. -/
theorem update_respects_choice (sdk : Sdk W) (params : Params) (genesis : Chain W)
    (hkeyed : Keyed sdk.bech32 genesis.state.staking) (start : RunState W)
    (hstart : startRun sdk params genesis = some start) (events : List (Event W))
    (hseen : Run.Along (step sdk) (ChoicesSeen sdk) events start) (s s' : RunState W)
    (hrun : Run.run (step sdk) events start = some s) (hupdate : step sdk s .update = some s')
    (v : ValAddr) (val : Validator) (hval : s.chain.state.staking.validators.get v = some val) :
    (val.bonded = true → ∃ val' c m, s'.chain.state.staking.validators.get v = some val' ∧
      lastChoice sdk.bech32 v s'.log = some c ∧
      calculateDynCommission s'.chain.state val' = some m ∧
      val'.commission.rate = max c.rate m) ∧
    (val.bonded = false → s'.chain.state.staking.validators.get v = some val) := by
  have hs : TargetsFollow sdk.bech32 s := Run.run_invariant_along
    (fun _ _ _ hstep hcond hinv => step_targetsFollow hstep hcond hinv) hrun hseen
    (startRun_targetsFollow hstart hkeyed)
  -- the invariant gives the stored target, the update takes its maximum with the minimum
  obtain ⟨state, hstate, h⟩ := Option.bind_eq_some_iff.mp hupdate
  obtain ⟨hframe, hupdated, _⟩ := updateAll_spec hs.keyed hstate
  have hthis := hupdated v val hval
  rw [← Option.some.inj h]
  unfold UpdatedIn at hthis
  constructor
  · intro hbonded
    rw [if_pos hbonded] at hthis
    obtain ⟨m, hm, hget, _⟩ := hthis
    obtain ⟨c, hlast, hrate⟩ := hs.target v val.commission
      (Staking.commissionOf_eq_some.mpr ⟨val, hval, rfl⟩)
    refine ⟨_, c, m, hget, hlast, ?_, ?_⟩
    · rw [hframe.rules.calculateDynCommission rfl]
      exact hm
    · rw [hrate]
      rfl
  · intro hbonded
    rwa [hbonded] at hthis

/-! ### On the small chain -/

/-- The small chain from its genesis through some events. -/
def smallRun (events : List (Event Unit)) : Option (RunState Unit) :=
  (startRun smallSdk defaultParams smallChain).bind (Run.run (step smallSdk) events)

/-- The bonded operator's last choice, its minimum and its rate. -/
def choiceMinimumRate (s : RunState Unit) : Option (Dec × Dec × Dec) := do
  let c ← lastChoice oneOperator "a" s.log
  let val ← s.chain.state.staking.validators.get "a"
  let m ← calculateDynCommission s.chain.state val
  if val.bonded then return (c.rate, m, val.commission.rate) else none

theorem smallChain_eq_a {v : ValAddr} {k : Commission}
    (h : smallChain.state.staking.commissionOf v = some k) : v = "a" := by
  obtain ⟨val, hval, _⟩ := Staking.commissionOf_eq_some.mp h
  have hmem := SortedMap.mem_entries.mpr hval
  simpa using congrArg Prod.fst (List.mem_singleton.mp hmem)

theorem smallChain_keyed : Keyed oneOperator smallChain.state.staking := by
  intro v k hk
  rw [smallChain_eq_a hk]
  decide

theorem update_respects_choice_top_level :
    ∃ s' c m val', smallRun [.deliver [editTo "terravaloper1a" 40], .update] = some s' ∧
      s'.chain.state.staking.validators.get "a" = some val' ∧
      lastChoice oneOperator "a" s'.log = some c ∧
      calculateDynCommission s'.chain.state val' = some m ∧
      val'.commission.rate = max c.rate m := by
  have hsome : (smallRun [.deliver [editTo "terravaloper1a" 40], .update]).isSome = true := by
    decide +kernel
  have hvalid : ((smallRun [.deliver [editTo "terravaloper1a" 40]]).bind (fun s =>
      s.chain.state.staking.validators.get "a")).map Validator.bonded = some true := by
    decide +kernel
  obtain ⟨s', hs'⟩ := Option.isSome_iff_exists.mp hsome
  obtain ⟨start, hstart, hrun⟩ := Option.bind_eq_some_iff.mp hs'
  obtain ⟨s, hdeliver, hupdate⟩ := Option.bind_eq_some_iff.mp hrun
  obtain ⟨s'', hupdate, hlast⟩ := Option.bind_eq_some_iff.mp hupdate
  cases hlast
  have hrun : Run.run (step smallSdk) [.deliver [editTo "terravaloper1a" 40]] start = some s := by
    show (step smallSdk start _).bind some = some s
    rw [hdeliver]
    rfl
  obtain ⟨val, hval, hbonded⟩ := Option.map_eq_some_iff.mp hvalid
  have hval : s.chain.state.staking.validators.get "a" = some val := by
    unfold smallRun at hval
    rw [hstart, Option.bind_some, hrun] at hval
    exact hval
  have hseen : Run.Along (step smallSdk) (ChoicesSeen smallSdk)
      [.deliver [editTo "terravaloper1a" 40]] start := by
    refine ⟨fun _ c hc v hfor => ?_, fun _ _ => trivial⟩
    obtain rfl := List.mem_singleton.mp hc
    have hv : v = "a" := isFor_unique hfor (u := "a") (by decide)
    rw [hv]
    exact ⟨rfl, by decide⟩
  obtain ⟨val', c, m, hget, hlast, hm, hrate⟩ := (update_respects_choice smallSdk defaultParams
    smallChain smallChain_keyed start hstart _ hseen s s' hrun hupdate "a" val hval).1 hbonded
  exact ⟨s', c, m, val', hs', hget, hlast, hm, hrate⟩

/-- The operator raises the rate to 40% inside a `MsgExec`; the next update takes it
    back to the minimum of 20%.  The same happens under the other spelling. -/
theorem update_forgets_choice :
    (smallRun [.deliver [.exec "a" [editTo "terravaloper1a" 40]], .update]).bind
      choiceMinimumRate = some (Dec.withPrec 40 2, Dec.withPrec 20 2, Dec.withPrec 20 2) ∧
    (smallRun [.deliver [editTo "TERRAVALOPER1A" 40], .update]).bind choiceMinimumRate =
      some (Dec.withPrec 40 2, Dec.withPrec 20 2, Dec.withPrec 20 2) ∧
    Dec.withPrec 20 2 ≠ max (Dec.withPrec 40 2) (Dec.withPrec 20 2) := by
  refine ⟨by decide +kernel, by decide +kernel, by decide +kernel⟩

end TerraClassic.Dyncomm
