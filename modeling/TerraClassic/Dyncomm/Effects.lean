import TerraClassic.Dyncomm.Tx

/-! # What a transaction does to the commissions

    However deep the messages of a transaction are nested, they are executed
    one after the other, and each of them either makes one choice or leaves all
    commissions alone (a validator may be removed).  `Effects` says just that.

    The post decorator writes the choices of the top level, in order
    (`postHandle_eq`), and the ante decorator has compared each edit among them
    with the minimum under the message's own spelling (`anteHandle_ok`).
-/

namespace TerraClassic.Dyncomm

variable {W : Type}

/-! ### Commissions -/

/-- The commission of a validator, if it is there. -/
def Staking.commissionOf (st : Staking) (v : ValAddr) : Option Commission :=
  (st.validators.get v).map Validator.commission

theorem Staking.commissionOf_eq_some {st : Staking} {v : ValAddr} {k : Commission} :
    st.commissionOf v = some k ↔ ∃ val, st.validators.get v = some val ∧ val.commission = k := by
  unfold Staking.commissionOf
  rw [Option.map_eq_some_iff]

theorem Staking.commissionOf_set (st : Staking) (v u : ValAddr) (val : Validator) :
    ({ st with validators := st.validators.set v val } : Staking).commissionOf u =
      if u = v then some val.commission else st.commissionOf u := by
  unfold Staking.commissionOf
  by_cases h : u = v
  · simp [h]
  · simp [h]

/-- The minimum rate of staking's parameters is a fraction. -/
def Staking.MinRateOk (st : Staking) : Prop :=
  0 ≤ st.minCommissionRate.i ∧ st.minCommissionRate ≤ Dec.one

/-- No commission is new or different. -/
structure Quiet (st st' : Staking) : Prop where
  commission : ∀ v k, st'.commissionOf v = some k → st.commissionOf v = some k
  minRate : st.MinRateOk → st'.MinRateOk

theorem Quiet.refl (st : Staking) : Quiet st st := ⟨fun _ _ h => h, fun h => h⟩

theorem Quiet.trans {st₁ st₂ st₃ : Staking} (h₁ : Quiet st₁ st₂) (h₂ : Quiet st₂ st₃) :
    Quiet st₁ st₃ :=
  ⟨fun v k h => h₁.commission v k (h₂.commission v k h), fun h => h₂.minRate (h₁.minRate h)⟩

theorem Staking.commissionOf_modify (st : Staking) (v u : ValAddr) {f : Validator → Validator}
    (hf : ∀ val, (f val).commission = val.commission) :
    (st.modify v f).commissionOf u = st.commissionOf u := by
  unfold Staking.modify
  cases hget : st.validators.get v with
  | none => rfl
  | some val =>
    show ({ st with validators := st.validators.set v (f val) } : Staking).commissionOf u = _
    rw [Staking.commissionOf_set]
    split
    · next heq =>
      unfold Staking.commissionOf
      rw [heq, hget, hf]
      rfl
    · rfl

theorem Staking.modify_minCommissionRate (st : Staking) (v : ValAddr)
    (f : Validator → Validator) : (st.modify v f).minCommissionRate = st.minCommissionRate := by
  unfold Staking.modify
  split
  · rfl
  · rfl

theorem Staking.apply_quiet (st : Staking) (change : StakingChange) :
    Quiet st (st.apply change) := by
  cases change with
  | tokens v tokens =>
    refine ⟨fun u k h => ?_, fun h => ?_⟩
    · rwa [Staking.apply, Staking.commissionOf_modify st v u (by intro val; rfl)] at h
    · unfold Staking.MinRateOk Staking.apply
      rwa [Staking.modify_minCommissionRate]
  | bonded v bonded =>
    refine ⟨fun u k h => ?_, fun h => ?_⟩
    · rwa [Staking.apply, Staking.commissionOf_modify st v u (by intro val; rfl)] at h
    · unfold Staking.MinRateOk Staking.apply
      rwa [Staking.modify_minCommissionRate]
  | removed v =>
    refine ⟨fun u k h => ?_, fun h => h⟩
    obtain ⟨val, hget, hk⟩ := Staking.commissionOf_eq_some.mp h
    have hget : (st.validators.erase v).get u = some val := hget
    rw [SortedMap.get_erase] at hget
    split at hget
    · cases hget
    · exact Staking.commissionOf_eq_some.mpr ⟨val, hget, hk⟩
  | lastTotalPower power => exact ⟨fun _ _ h => h, fun h => h⟩
  | minCommissionRate rate =>
    by_cases hrate : 0 ≤ rate.i ∧ rate ≤ Dec.one
    · rw [Staking.apply, if_pos hrate]
      exact ⟨fun _ _ h => h, fun _ => hrate⟩
    · rw [Staking.apply, if_neg hrate]
      exact Quiet.refl st
  | blockTime time => exact ⟨fun _ _ h => h, fun h => h⟩

theorem foldl_apply_quiet (changes : List StakingChange) (st : Staking) :
    Quiet st (changes.foldl Staking.apply st) := by
  induction changes generalizing st with
  | nil => exact Quiet.refl st
  | cons change rest ih => exact (st.apply_quiet change).trans (ih (st.apply change))

/-! ### Choices and their effects -/

/-- One choice was executed. -/
inductive Chooses (bech32 : Bech32) (st : Staking) (c : Choice) (st' : Staking) : Prop where
  | edit (v : ValAddr) (k : Commission) (hfor : c.isFor bech32 v = true) (hmax : c.maxRate = none)
      (hget : st.commissionOf v = some k) (hle : c.rate ≤ k.maxRate)
      (hset : st'.commissionOf v = some { k with rate := c.rate, updateTime := st.blockTime })
      (hrest : ∀ u, u ≠ v → st'.commissionOf u = st.commissionOf u)
      (hmin : st'.minCommissionRate = st.minCommissionRate)
  | create (v : ValAddr) (maxRate maxChangeRate : Dec) (hfor : c.isFor bech32 v = true)
      (hmax : c.maxRate = some maxRate) (hget : st.commissionOf v = none)
      (hbounds : 0 ≤ c.rate.i ∧ c.rate ≤ maxRate ∧ maxRate ≤ Dec.one)
      (hset : st'.commissionOf v = some ⟨c.rate, maxRate, maxChangeRate, st.blockTime⟩)
      (hrest : ∀ u, u ≠ v → st'.commissionOf u = st.commissionOf u)
      (hmin : st'.minCommissionRate = st.minCommissionRate)

/-- A list of choices was executed, with other messages before, between and after. -/
inductive Effects (bech32 : Bech32) : Staking → List Choice → Staking → Prop where
  | done {st st' : Staking} (h : Quiet st st') : Effects bech32 st [] st'
  | next {st st₁ st₂ st' : Staking} {c : Choice} {cs : List Choice} (hquiet : Quiet st st₁)
      (hchoice : Chooses bech32 st₁ c st₂) (hrest : Effects bech32 st₂ cs st') :
      Effects bech32 st (c :: cs) st'

theorem Effects.of_quiet {bech32 : Bech32} {st₀ st st' : Staking} {cs : List Choice}
    (hquiet : Quiet st₀ st) (h : Effects bech32 st cs st') : Effects bech32 st₀ cs st' := by
  cases h with
  | done h => exact .done (hquiet.trans h)
  | next hfirst hchoice hrest => exact .next (hquiet.trans hfirst) hchoice hrest

theorem Effects.append {bech32 : Bech32} {st st₁ st' : Staking} {cs₁ cs₂ : List Choice}
    (h₁ : Effects bech32 st cs₁ st₁) (h₂ : Effects bech32 st₁ cs₂ st') :
    Effects bech32 st (cs₁ ++ cs₂) st' := by
  induction h₁ with
  | done hquiet => exact h₂.of_quiet hquiet
  | next hquiet hchoice _ ih => exact .next hquiet hchoice (ih h₂)

theorem editValidator_effects {sdk : Sdk W} {s s' : Staking × W} {msg : MsgEditValidator}
    (h : editValidator sdk s.1 s.2 msg = some s') (topLevel : Bool) :
    Effects sdk.bech32 s.1 (choicesOf topLevel (.editValidator msg)) s'.1 := by
  unfold editValidator at h
  obtain ⟨v, hparse, h⟩ := Option.bind_eq_some_iff.mp h
  obtain ⟨val, hget, h⟩ := Option.bind_eq_some_iff.mp h
  obtain ⟨w, haccept, h⟩ := Option.bind_eq_some_iff.mp h
  unfold choicesOf
  cases hrate : msg.commissionRate with
  | none =>
    simp only [hrate] at h
    rw [← Option.some.inj h]
    exact .done (Quiet.refl _)
  | some rate =>
    simp only [hrate] at h
    have hfor : (⟨msg.validatorAddress, rate, none, topLevel⟩ : Choice).isFor sdk.bech32 v =
        true := decide_eq_true (Run.eq_ok_of_toOption hparse)
    refine .next (Quiet.refl _) (.edit v val.commission hfor rfl
      (Staking.commissionOf_eq_some.mpr ⟨val, hget, rfl⟩) (sdk.edit_le_maxRate haccept hrate)
      ?_ ?_ ?_) (.done (Quiet.refl _))
    · rw [← Option.some.inj h]
      exact (Staking.commissionOf_set _ _ _ _).trans (if_pos rfl)
    · intro u hu
      rw [← Option.some.inj h]
      exact (Staking.commissionOf_set _ _ _ _).trans (if_neg hu)
    · rw [← Option.some.inj h]

theorem createValidator_effects {sdk : Sdk W} {s s' : Staking × W} {msg : MsgCreateValidator}
    (h : createValidator sdk s.1 s.2 msg = some s') (topLevel : Bool) :
    Effects sdk.bech32 s.1 (choicesOf topLevel (.createValidator msg)) s'.1 := by
  unfold createValidator at h
  obtain ⟨v, hparse, h⟩ := Option.bind_eq_some_iff.mp h
  split at h
  · cases h
  · next hnone =>
    obtain ⟨w, haccept, h⟩ := Option.bind_eq_some_iff.mp h
    have hfor : (⟨msg.validatorAddress, msg.rate, some msg.maxRate, topLevel⟩ : Choice).isFor
        sdk.bech32 v = true := decide_eq_true (Run.eq_ok_of_toOption hparse)
    have hget : s.1.commissionOf v = none := by
      unfold Staking.commissionOf
      rw [hnone]
      rfl
    unfold choicesOf
    refine .next (Quiet.refl _) (.create v msg.maxRate msg.maxChangeRate hfor rfl hget
      (sdk.create_bounds haccept) ?_ ?_ ?_) (.done (Quiet.refl _))
    · rw [← Option.some.inj h]
      exact (Staking.commissionOf_set _ _ _ _).trans (if_pos rfl)
    · intro u hu
      rw [← Option.some.inj h]
      exact (Staking.commissionOf_set _ _ _ _).trans (if_neg hu)
    · rw [← Option.some.inj h]

mutual

/-- A message makes its choices, whatever it is wrapped in. -/
theorem execMsg_effects {sdk : Sdk W} : ∀ (msg : Msg) {s s' : Staking × W} (topLevel : Bool),
    execMsg sdk s msg = some s' → Effects sdk.bech32 s.1 (choicesOf topLevel msg) s'.1
  | .editValidator msg, s, s', topLevel, h => by
    simp only [execMsg] at h
    exact editValidator_effects h topLevel
  | .createValidator msg, s, s', topLevel, h => by
    simp only [execMsg] at h
    exact createValidator_effects h topLevel
  | .exec grantee msgs, s, s', topLevel, h => by
    simp only [execMsg] at h
    rw [choicesOf]
    exact dispatchActions_effects msgs h
  | .other payload, s, s', topLevel, h => by
    simp only [execMsg] at h
    obtain ⟨⟨w, changes⟩, _, h⟩ := Option.bind_eq_some_iff.mp h
    rw [choicesOf, ← Option.some.inj h]
    exact .done (foldl_apply_quiet changes s.1)

theorem dispatchActions_effects {sdk : Sdk W} {grantee : AccAddr} :
    ∀ (msgs : List Msg) {s s' : Staking × W},
      dispatchActions sdk grantee s msgs = some s' →
        Effects sdk.bech32 s.1 (choicesInside msgs) s'.1
  | [], s, s', h => by
    simp only [dispatchActions] at h
    rw [choicesInside, ← Option.some.inj h]
    exact .done (Quiet.refl _)
  | msg :: rest, s, s', h => by
    simp only [dispatchActions] at h
    obtain ⟨w, _, h⟩ := Option.bind_eq_some_iff.mp h
    obtain ⟨s₁, hfirst, hrest⟩ := Option.bind_eq_some_iff.mp h
    rw [choicesInside]
    have hfirst := execMsg_effects msg false hfirst
    exact hfirst.append (dispatchActions_effects rest hrest)

end

theorem foldlM_execMsg_effects {sdk : Sdk W} {tx : List Msg} {s s' : Staking × W}
    (h : tx.foldlM (execMsg sdk) s = some s') : Effects sdk.bech32 s.1 (choices tx) s'.1 := by
  induction tx generalizing s with
  | nil =>
    rw [← Option.some.inj h]
    exact .done (Quiet.refl _)
  | cons msg rest ih =>
    rw [List.foldlM_cons] at h
    obtain ⟨s₁, hfirst, hrest⟩ := Option.bind_eq_some_iff.mp h
    exact (execMsg_effects msg true hfirst).append (ih hrest)

/-! ### The decorators -/

/-- Write the targets of some choices. -/
def setTargets (rates : Rates) (cs : List Choice) : Rates :=
  cs.foldl (fun rates c => setTargetCommissionRate rates c.spelling c.rate) rates

theorem setTargets_append (rates : Rates) (cs₁ cs₂ : List Choice) :
    setTargets rates (cs₁ ++ cs₂) = setTargets (setTargets rates cs₁) cs₂ :=
  List.foldl_append

theorem getDynCommissionRate_setTargets (rates : Rates) (cs : List Choice) (v : String) :
    getDynCommissionRate (setTargets rates cs) v = getDynCommissionRate rates v := by
  induction cs generalizing rates with
  | nil => rfl
  | cons c rest ih =>
    show getDynCommissionRate (setTargets _ rest) v = _
    rw [ih, getDynCommissionRate_setTarget]

mutual

theorem choicesOf_nested : ∀ (msg : Msg), (choicesOf false msg).filter Choice.topLevel = []
  | .editValidator msg => by
    unfold choicesOf
    split
    · rfl
    · rfl
  | .createValidator msg => by
    unfold choicesOf
    rfl
  | .exec _ msgs => by
    rw [choicesOf]
    exact choicesInside_nested msgs
  | .other _ => by
    rw [choicesOf]
    rfl

/-- Nothing inside a `MsgExec` is at the top level. -/
theorem choicesInside_nested : ∀ (msgs : List Msg),
    (choicesInside msgs).filter Choice.topLevel = []
  | [] => by
    rw [choicesInside]
    rfl
  | msg :: rest => by
    rw [choicesInside, List.filter_append, choicesOf_nested msg, choicesInside_nested rest]
    rfl

end

/-- The post decorator writes the choices of the top level. -/
theorem postHandle_eq (rates : Rates) (tx : List Msg) :
    Post.anteHandle rates false false tx =
      setTargets rates ((choices tx).filter Choice.topLevel) := by
  show Post.filterMsgsAndProcessMsgs rates tx = _
  unfold Post.filterMsgsAndProcessMsgs
  induction tx generalizing rates with
  | nil => rfl
  | cons msg rest ih =>
    have hchoices : choices (msg :: rest) = choicesOf true msg ++ choices rest := rfl
    rw [hchoices, List.filter_append, setTargets_append, List.foldl_cons, ih]
    congr 1
    cases msg with
    | editValidator msg =>
      show Post.processEditValidator rates msg = _
      rw [choicesOf, Post.processEditValidator]
      cases msg.commissionRate with
      | none => rfl
      | some rate => rfl
    | createValidator msg =>
      rw [choicesOf]
      rfl
    | exec grantee msgs =>
      -- nothing inside is at the top level
      rw [choicesOf, choicesInside_nested]
      rfl
    | other payload =>
      rw [choicesOf]
      rfl

/-- The ante decorator let every edit of the top level pass. -/
theorem anteHandle_ok {rates : Rates} {tx : List Msg}
    (h : Ante.anteHandle rates false tx = .ok ()) {c : Choice} (hc : c ∈ choices tx)
    (htop : c.topLevel = true) (hedit : c.maxRate = none) :
    getDynCommissionRate rates c.spelling ≤ c.rate := by
  change Ante.filterMsgsAndProcessMsgs rates tx = .ok () at h
  induction tx with
  | nil => cases hc
  | cons msg rest ih =>
    have hchoices : choices (msg :: rest) = choicesOf true msg ++ choices rest := rfl
    rw [hchoices, List.mem_append] at hc
    cases msg with
    | editValidator msg =>
      obtain ⟨hfirst, hrest⟩ := Run.check_eq_ok.mp h
      rcases hc with hc | hc
      · unfold choicesOf at hc
        unfold Ante.processEditValidator at hfirst
        split at hc
        · next rate hrate =>
          obtain rfl := List.mem_singleton.mp hc
          simp only [hrate] at hfirst
          split at hfirst
          · cases hfirst
          · next hnot => exact not_lt.mp hnot
        · cases hc
      · exact ih hc hrest
    | createValidator msg =>
      rcases hc with hc | hc
      · rw [choicesOf] at hc
        obtain rfl := List.mem_singleton.mp hc
        -- a create is not compared with the minimum
        cases hedit
      · exact ih hc h
    | exec grantee msgs =>
      rcases hc with hc | hc
      · rw [choicesOf] at hc
        -- a choice inside is marked as such, so it cannot be at the top level
        have hfilter := List.mem_filter.mpr ⟨hc, htop⟩
        rw [choicesInside_nested] at hfilter
        cases hfilter
      · exact ih hc h
    | other payload =>
      rcases hc with hc | hc
      · rw [choicesOf] at hc
        cases hc
      · exact ih hc h

/-- All that a delivered transaction does. -/
theorem deliverTx_effects {sdk : Sdk W} {c c' : Chain W} {tx : List Msg}
    (h : deliverTx sdk c tx = some c') :
    Ante.anteHandle c.state.rates false tx = .ok () ∧
    Effects sdk.bech32 c.state.staking (choices tx) c'.state.staking ∧
    c'.state.rates = setTargets c.state.rates ((choices tx).filter Choice.topLevel) ∧
    c'.state.params = c.state.params := by
  unfold deliverTx at h
  split at h
  · cases h
  · next hante =>
    obtain ⟨⟨staking, world⟩, hexec, h⟩ := Option.bind_eq_some_iff.mp h
    rw [← Option.some.inj h]
    exact ⟨hante, foldlM_execMsg_effects hexec, postHandle_eq _ _, rfl⟩

end TerraClassic.Dyncomm
