import TerraClassic.Dyncomm.Effects

/-! # The commission floor

    After a transaction a validator has the rate of the last choice the
    transaction made for it.  The ante decorator has compared that rate with the
    stored minimum if it saw the choice, that is, if it stood at the top level and
    spelled the validator's address as the store does.  An edit inside a `MsgExec`,
    or under another spelling of the same address, is not compared with anything.
-/

namespace TerraClassic.Dyncomm

variable {W : Type}

/-! ### The last choice -/

theorem lastChoice_cons (bech32 : Bech32) (v : ValAddr) (c : Choice) (cs : List Choice) :
    lastChoice bech32 v (c :: cs) =
      (lastChoice bech32 v cs).or (if c.isFor bech32 v then some c else none) := by
  unfold lastChoice
  rw [List.reverse_cons, List.find?_append, List.find?_singleton]

theorem isFor_unique {bech32 : Bech32} {c : Choice} {v u : ValAddr}
    (hv : c.isFor bech32 v = true) (hu : c.isFor bech32 u = true) : v = u := by
  have hv := of_decide_eq_true hv
  have hu := of_decide_eq_true hu
  rw [hv] at hu
  exact Except.ok.inj hu

/-- What a choice does to the commission of `v`. -/
theorem Chooses.commission {bech32 : Bech32} {st st' : Staking} {c : Choice}
    (h : Chooses bech32 st c st') (v : ValAddr) :
    (c.isFor bech32 v = true ∧ ∃ k, st'.commissionOf v = some k ∧ k.rate = c.rate) ∨
      (c.isFor bech32 v = false ∧ st'.commissionOf v = st.commissionOf v) := by
  have hother : ∀ u, c.isFor bech32 u = true → v ≠ u → c.isFor bech32 v = false := by
    intro u hu hne
    apply Bool.eq_false_iff.mpr
    intro hv
    exact hne (isFor_unique hv hu)
  cases h with
  | edit u k hfor hmax hget hle hset hrest hmin =>
    by_cases hv : v = u
    · exact Or.inl ⟨hv ▸ hfor, _, hv ▸ hset, rfl⟩
    · exact Or.inr ⟨hother u hfor hv, hrest v hv⟩
  | create u maxRate maxChangeRate hfor hmax hget hbounds hset hrest hmin =>
    by_cases hv : v = u
    · exact Or.inl ⟨hv ▸ hfor, _, hv ▸ hset, rfl⟩
    · exact Or.inr ⟨hother u hfor hv, hrest v hv⟩

/-- A validator has the rate last chosen for it, or its old commission. -/
theorem Effects.rate {bech32 : Bech32} {st st' : Staking} {cs : List Choice}
    (h : Effects bech32 st cs st') {v : ValAddr} {k : Commission}
    (hk : st'.commissionOf v = some k) :
    (∃ c, lastChoice bech32 v cs = some c ∧ k.rate = c.rate) ∨
      (lastChoice bech32 v cs = none ∧ st.commissionOf v = some k) := by
  induction h with
  | done hquiet => exact Or.inr ⟨rfl, hquiet.commission v k hk⟩
  | next hquiet hchoice _ ih =>
    rw [lastChoice_cons]
    rcases ih hk with ⟨c, hlast, hrate⟩ | ⟨hnone, hbefore⟩
    · -- a later choice for `v` hides this one
      exact Or.inl ⟨c, by rw [hlast]; rfl, hrate⟩
    · rw [hnone]
      rcases hchoice.commission v with ⟨hfor, k', hk', hrate⟩ | ⟨hfor, hsame⟩
      · rw [hbefore] at hk'
        cases hk'
        exact Or.inl ⟨_, by rw [hfor]; rfl, hrate⟩
      · rw [hsame] at hbefore
        exact Or.inr ⟨by rw [hfor]; rfl, hquiet.commission v k hbefore⟩

theorem lastChoice_mem {bech32 : Bech32} {v : ValAddr} {cs : List Choice} {c : Choice}
    (h : lastChoice bech32 v cs = some c) : c ∈ cs :=
  List.mem_reverse.mp (List.mem_of_find?_eq_some h)

/-! ### The floor after a transaction -/

/-- For a validator whose commission was last set by an edit of the transaction:
    the rate is at least the stored minimum exactly when the decorator saw that
    edit, or the edit itself kept to the minimum. -/
theorem commission_floor_iff (sdk : Sdk W) (s s' : Chain W) (tx : List Msg)
    (h : deliverTx sdk s tx = some s') (v : ValAddr) (val : Validator)
    (hval : s'.state.staking.validators.get v = some val) (c : Choice)
    (hlast : lastChoice sdk.bech32 v (choices tx) = some c) (hedit : c.maxRate = none) :
    val.commission.rate = c.rate ∧
      (getDynCommissionRate s'.state.rates (sdk.bech32.valAddressString v) ≤
          val.commission.rate ↔
        c.Seen sdk.bech32 v ∨
          getDynCommissionRate s.state.rates (sdk.bech32.valAddressString v) ≤ c.rate) := by
  obtain ⟨hante, heffects, hrates, _⟩ := deliverTx_effects h
  have hcommission := Staking.commissionOf_eq_some.mpr ⟨val, hval, rfl⟩
  -- messages after the last choice do not touch the rate
  have hrate : val.commission.rate = c.rate := by
    rcases heffects.rate hcommission with ⟨c', hc', hrate⟩ | ⟨hnone, _⟩
    · rw [hlast] at hc'
      cases hc'
      exact hrate
    · rw [hlast] at hnone
      cases hnone
  -- the post decorator leaves the minimum alone
  rw [hrates, getDynCommissionRate_setTargets, hrate]
  refine ⟨rfl, fun hfloor => Or.inr hfloor, ?_⟩
  intro hcond
  rcases hcond with hseen | hfloor
  · have hchecked := anteHandle_ok hante (lastChoice_mem hlast) hseen.1 hedit
    rwa [hseen.2] at hchecked
  · exact hfloor

/-! ### A small chain, for examples -/

/-- One operator, whose address may be spelled in lower or upper case. -/
def oneOperator : Bech32 where
  accAddressFromBech32 := fun _ => .error "decoding bech32 failed"
  valAddressFromBech32 := fun s =>
    if s = "terravaloper1a" ∨ s = "TERRAVALOPER1A" then .ok "a"
    else .error "decoding bech32 failed"
  accAddressString := fun _ => ""
  valAddressString := fun v => "terravaloper1" ++ v

/-- Staking as far as the rates go; every operator may send its own messages
    through authz. -/
def smallSdk : Sdk Unit where
  bech32 := oneOperator
  editValidator := fun _ _ val msg =>
    match msg.commissionRate with
    | none => some ()
    | some rate => if rate ≤ val.commission.maxRate then some () else none
  createValidator := fun _ _ msg =>
    if 0 ≤ msg.rate.i ∧ msg.rate ≤ msg.maxRate ∧ msg.maxRate ≤ Dec.one then some () else none
  accept := fun _ _ _ _ => some ()
  other := fun _ _ _ => none
  codec := by
    intro address v h
    have hv : v = "a" := by
      simp only [oneOperator] at h
      split at h
      · exact (Except.ok.inj h).symm
      · cases h
    rw [hv]
    decide
  edit_le_maxRate := by
    intro st w val msg w' rate haccept hrate
    simp only [hrate] at haccept
    split at haccept
    · next hle => exact hle
    · cases haccept
  create_bounds := by
    intro st w msg w' haccept
    split at haccept
    · next hbounds => exact hbounds
    · cases haccept

/-- A bonded validator with half of the voting power, a rate of 10% that may go up
    to 50%, and a minimum of 5%. -/
def smallChain : Chain Unit where
  state := {
    staking := {
      validators := (∅ : SortedMap ValAddr Validator).set "a"
        ⟨1000000, true, ⟨Dec.withPrec 10 2, Dec.withPrec 50 2, Dec.withPrec 10 2, 0⟩⟩
      lastTotalPower := 2
      minCommissionRate := Dec.zero
      blockTime := 100 }
    params := defaultParams
    rates := (∅ : Rates).set "terravaloper1a" ⟨Dec.withPrec 5 2, Dec.withPrec 10 2⟩ }
  world := ()

/-- An edit of the commission rate, in percent. -/
def editTo (address : String) (percent : ℤ) : Msg :=
  .editValidator ⟨address, "", some (Dec.withPrec percent 2), none⟩

/-- The rate and the stored minimum of the operator after a transaction. -/
def rateAndMinimum (c : Chain Unit) : Option (Dec × Dec) :=
  (c.state.staking.commissionOf "a").map (fun k =>
    (k.rate, getDynCommissionRate c.state.rates "terravaloper1a"))

theorem commission_floor_top_level :
    ∃ s' val, deliverTx smallSdk smallChain [editTo "terravaloper1a" 7] = some s' ∧
      s'.state.staking.validators.get "a" = some val ∧
      getDynCommissionRate s'.state.rates "terravaloper1a" ≤ val.commission.rate := by
  refine ⟨_, _, rfl, rfl, ?_⟩
  exact (commission_floor_iff smallSdk smallChain _ [editTo "terravaloper1a" 7] rfl "a" _ rfl
    ⟨"terravaloper1a", Dec.withPrec 7 2, none, true⟩ rfl rfl).2.mpr (Or.inl ⟨rfl, rfl⟩)

/-- Inside a `MsgExec`, and under the other spelling, an edit to 1% gets through.
    As a message of its own it is rejected. -/
theorem commission_floor_undercut :
    (deliverTx smallSdk smallChain [.exec "a" [editTo "terravaloper1a" 1]]).bind rateAndMinimum =
      some (Dec.withPrec 1 2, Dec.withPrec 5 2) ∧
    (deliverTx smallSdk smallChain [editTo "TERRAVALOPER1A" 1]).bind rateAndMinimum =
      some (Dec.withPrec 1 2, Dec.withPrec 5 2) ∧
    deliverTx smallSdk smallChain [editTo "terravaloper1a" 1] = none ∧
    Dec.withPrec 1 2 < Dec.withPrec 5 2 := by
  refine ⟨by decide +kernel, by decide +kernel, by decide +kernel, by decide⟩

end TerraClassic.Dyncomm
