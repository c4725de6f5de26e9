import TerraClassic.Ante.Fee

/-! # Whose fees the tax is taken from

    The decorator computes the tax from the messages and takes the fee that
    the transaction offers.  The two are compared in `CheckTx` only, and there
    one denom that covers its part is enough; the tax then leaves the fee
    collector, which holds the fees of everyone.

    `own_fee_iff` says exactly when a transaction is taxed with its own fee.
-/

namespace TerraClassic.Ante

open SdkError (orPanic orPanic_eq_ok mapError_eq_ok)
open Treasury (addTaxProceeds)

/-- A transaction was taxed with no more than it paid, in every denom. -/
def OwnFee (fee : List Coin) (charge : Charge) : Prop :=
  ∀ denom, charge.burned.amountOf denom ≤ feeAmount fee denom ∧
    charge.recorded.amountOf denom ≤ feeAmount fee denom

/-- The fee covers the tax of the messages in every denom. -/
def FeeCoversTax (tk : TreasuryKeeper) (tx : FeeTx) : Prop :=
  ∀ taxes, filterMsgAndComputeTax tk tx.msgs = some taxes →
    ∀ denom, taxes.amountOf denom ≤ feeAmount tx.fee denom

/-! ### Fees -/

theorem amountOf_feeCoins (fee : List Coin) (denom : Denom) :
    (feeCoins fee).amountOf denom = feeAmount fee denom := by
  unfold feeCoins feeAmount
  rw [Coins.amountOf_foldl_addCoin, List.filter_map, List.map_map]
  simp only [Coins.amountOf_empty, zero_add]
  rfl

theorem feeAmount_of_isZero {fee : List Coin} (h : feeIsZero fee = true) (denom : Denom) :
    feeAmount fee denom = 0 := by
  unfold feeAmount
  apply List.sum_eq_zero
  intro x hx
  obtain ⟨coin, hcoin, rfl⟩ := List.mem_map.mp hx
  have := List.all_eq_true.mp h coin (List.mem_of_mem_filter hcoin)
  simpa using this

theorem feeAmount_nonneg {validDenom : Denom → Bool} {fee : List Coin}
    (h : feeIsValid validDenom fee = true) (denom : Denom) : 0 ≤ feeAmount fee denom := by
  unfold feeAmount
  apply List.sum_nonneg
  intro x hx
  obtain ⟨coin, hcoin, rfl⟩ := List.mem_map.mp hx
  unfold feeIsValid at h
  have hall := (Bool.and_eq_true_iff.mp h).1
  have := List.all_eq_true.mp hall coin (List.mem_of_mem_filter hcoin)
  simp only [Bool.and_eq_true, decide_eq_true_eq] at this
  exact this.2.le

/-! ### The split -/

/-- The part that stays in the fee collector is not negative. -/
theorem split_nonneg {tk : TreasuryKeeper} {l : List (Denom × ℤ)} {split : Coins}
    (h : l.foldlM (splitCoin tk) ∅ = some split) (denom : Denom) : 0 ≤ split.amountOf denom := by
  refine Run.run_invariant (I := fun c : Coins => 0 ≤ c.amountOf denom) ?_
    (show Run.run (splitCoin tk) l ∅ = some split from h) (by simp)
  intro c coin c' hstep hc
  obtain ⟨product, _, hstep⟩ := Option.bind_eq_some_iff.mp hstep
  split at hstep
  · next hok =>
    cases hstep
    rw [Coins.amountOf_add, Coins.amountOf_ofCoin]
    split
    · linarith [hok.2]
    · linarith
  · cases hstep

theorem burnedTaxes_le {tk : TreasuryKeeper} {taxes burned : Coins}
    (h : burnedTaxes tk taxes = some burned) (denom : Denom) :
    burned.amountOf denom ≤ taxes.amountOf denom := by
  unfold burnedTaxes at h
  split at h
  · obtain ⟨split, hsplit, h⟩ := Option.bind_eq_some_iff.mp h
    rw [Coins.amountOf_sub h]
    linarith [split_nonneg hsplit denom]
  · cases h
    exact le_rfl

/-! ### What a charge consists of -/

/-- A fee of zero is not deducted and not taxed.  Any other fee goes to the fee
    collector; if the messages are taxed, the tax is recorded and what the split
    leaves of it goes on to the burn account. -/
theorem checkDeductFee_ok {k : Keepers} {s : State} {tx : FeeTx} {taxes : Coins}
    {charge : Charge} (h : checkDeductFee k s tx taxes false = .ok charge) :
    ∃ payer, deductFeesFrom k tx = .ok payer ∧
      ((feeIsZero tx.fee = true ∧ charge = ⟨∅, ∅, s⟩) ∨
        ∃ bank, feeIsZero tx.fee = false ∧ deductFees k s.bank payer tx.fee = .ok bank ∧
          ((taxes.isZero = true ∧ charge = ⟨∅, ∅, { s with bank := bank }⟩) ∨
            ∃ burned bank' taxProceeds, burnTaxSplit k bank taxes = .ok (burned, bank') ∧
              addTaxProceeds s.taxProceeds taxes = some taxProceeds ∧
              charge = ⟨burned, taxes, ⟨bank', taxProceeds⟩⟩)) := by
  unfold checkDeductFee at h
  by_cases hset : k.feeCollectorSet = true
  · simp only [hset] at h
    obtain ⟨payer, hpayer, h⟩ := Run.bind_eq_ok.mp h
    refine ⟨payer, hpayer, ?_⟩
    by_cases hacc : k.accountExists payer = true
    · simp only [hacc] at h
      cases hzero : feeIsZero tx.fee with
      | true =>
        rw [if_pos hzero] at h
        cases h
        exact Or.inl ⟨rfl, rfl⟩
      | false =>
        rw [if_neg (show ¬ feeIsZero tx.fee = true by simp [hzero])] at h
        obtain ⟨bank, hdeduct, h⟩ := Run.bind_eq_ok.mp h
        refine Or.inr ⟨bank, rfl, hdeduct, ?_⟩
        cases htaxes : taxes.isZero with
        | true =>
          rw [if_neg (show ¬ (!taxes.isZero && !false) = true by simp [htaxes])] at h
          cases h
          exact Or.inl ⟨rfl, rfl⟩
        | false =>
          rw [if_pos (show (!taxes.isZero && !false) = true by simp [htaxes])] at h
          obtain ⟨⟨burned, bank'⟩, hsplit, h⟩ := Run.bind_eq_ok.mp h
          obtain ⟨taxProceeds, hrecord, h⟩ := Run.bind_eq_ok.mp h
          cases h
          exact Or.inr ⟨burned, bank', taxProceeds, hsplit, orPanic_eq_ok.mp hrecord, rfl⟩
    · simp only [hacc] at h
      cases h
  · simp only [hset] at h
    cases h

theorem anteHandle_ok {k : Keepers} {ctx : Context} {s : State} {tx : FeeTx}
    {next : ℤ → State → Except FeeError State} {charge : Charge} {final : State}
    (h : anteHandle k ctx s tx false next = .ok (charge, final)) :
    ∃ taxes, filterMsgAndComputeTax k.treasury tx.msgs = some taxes ∧
      checkDeductFee k s tx taxes false = .ok charge := by
  unfold anteHandle at h
  by_cases hgas : (!false && 0 < ctx.blockHeight && tx.gas = 0) = true
  · simp only [if_pos hgas] at h
    cases h
  · simp only [if_neg hgas] at h
    obtain ⟨taxes, htaxes, h⟩ := Run.bind_eq_ok.mp h
    obtain ⟨priority, _, h⟩ := Run.bind_eq_ok.mp h
    obtain ⟨charge', hcharge, h⟩ := Run.bind_eq_ok.mp h
    obtain ⟨final', _, h⟩ := Run.bind_eq_ok.mp h
    cases h
    exact ⟨taxes, orPanic_eq_ok.mp htaxes, hcharge⟩

theorem deductFees_ok {k : Keepers} {bank bank' : BankState} {payer : AccAddr} {fee : List Coin}
    (h : deductFees k bank payer fee = .ok bank') :
    feeIsValid k.bank.validDenom fee = true ∧
      bank.sendCoins k.bank payer (k.bank.moduleAddress feeCollectorName) (feeCoins fee) =
        .ok bank' := by
  unfold deductFees at h
  by_cases hvalid : feeIsValid k.bank.validDenom fee = true
  · simp only [hvalid] at h
    exact ⟨hvalid, mapError_eq_ok.mp h⟩
  · simp only [hvalid] at h
    cases h

/-- `BurnTaxSplit` takes what it burns from the fee collector. -/
theorem burnTaxSplit_ok {k : Keepers} {bank bank' : BankState} {taxes burned : Coins}
    (h : burnTaxSplit k bank taxes = .ok (burned, bank')) :
    (∀ denom, burned.amountOf denom ≤ taxes.amountOf denom) ∧
      (k.bank.moduleAddress burnModuleName ≠ k.bank.moduleAddress feeCollectorName →
        ∀ denom, bank'.balances (k.bank.moduleAddress feeCollectorName) denom =
          bank.balances (k.bank.moduleAddress feeCollectorName) denom - burned.amountOf denom) := by
  obtain ⟨burned', hburned, h⟩ := Run.bind_eq_ok.mp h
  have hle := burnedTaxes_le (orPanic_eq_ok.mp hburned)
  cases hzero : burned'.isZero with
  | true =>
    rw [if_neg (show ¬ (!burned'.isZero) = true by simp [hzero])] at h
    cases h
    refine ⟨hle, ?_⟩
    intro _ denom
    rw [(Coins.isZero_iff _).mp hzero denom, sub_zero]
  | false =>
    rw [if_pos (show (!burned'.isZero) = true by simp [hzero])] at h
    obtain ⟨bank₁, hsend, h⟩ := Run.bind_eq_ok.mp h
    cases h
    refine ⟨hle, ?_⟩
    intro hne denom
    rw [BankState.sendCoins_ok (mapError_eq_ok.mp hsend), if_pos rfl, if_neg hne.symm, add_zero]

/-! ### The result -/

theorem own_fee_zero {fee : List Coin} (hnonneg : ∀ denom, 0 ≤ feeAmount fee denom) (s : State) :
    OwnFee fee ⟨∅, ∅, s⟩ := by
  intro denom
  exact ⟨hnonneg denom, hnonneg denom⟩

/-- A transaction that the decorator accepts is taxed with its own fee exactly
    when it pays no fee at all, or one that covers the tax of its messages in
    every denom.  What the fee collector gains is the fee less what is burned. -/
theorem own_fee_iff {k : Keepers} {ctx : Context} {s : State} {tx : FeeTx}
    {next : ℤ → State → Except FeeError State} {charge : Charge} {final : State}
    (h : anteHandle k ctx s tx false next = .ok (charge, final)) :
    (OwnFee tx.fee charge ↔ feeIsZero tx.fee = true ∨ FeeCoversTax k.treasury tx) ∧
    ∀ payer, deductFeesFrom k tx = .ok payer →
      payer ≠ k.bank.moduleAddress feeCollectorName →
      k.bank.moduleAddress burnModuleName ≠ k.bank.moduleAddress feeCollectorName →
      ∀ denom, charge.state.bank.balances (k.bank.moduleAddress feeCollectorName) denom =
        s.bank.balances (k.bank.moduleAddress feeCollectorName) denom +
          feeAmount tx.fee denom - charge.burned.amountOf denom := by
  obtain ⟨taxes, htaxes, hcharge⟩ := anteHandle_ok h
  obtain ⟨payer, hpayer, hzero | ⟨bank, hzero, hdeduct, hrest⟩⟩ := checkDeductFee_ok hcharge
  -- no fee: nothing is deducted, so nothing is split either
  · obtain ⟨hzero, rfl⟩ := hzero
    constructor
    · have hown := own_fee_zero (fun denom => (feeAmount_of_isZero hzero denom).ge) s
      exact ⟨fun _ => Or.inl hzero, fun _ => hown⟩
    · intro _ _ _ _ denom
      rw [feeAmount_of_isZero hzero]
      simp
  · obtain ⟨hvalid, hsend⟩ := deductFees_ok hdeduct
    have hnonneg := feeAmount_nonneg hvalid
    -- the whole fee goes to the collector first, the burned part leaves it afterwards
    have hcollected : payer ≠ k.bank.moduleAddress feeCollectorName → ∀ denom,
        bank.balances (k.bank.moduleAddress feeCollectorName) denom =
          s.bank.balances (k.bank.moduleAddress feeCollectorName) denom +
            feeAmount tx.fee denom := by
      intro hne denom
      rw [BankState.sendCoins_ok hsend, if_neg hne.symm, if_pos rfl, amountOf_feeCoins, sub_zero]
    rcases hrest with ⟨hnotax, rfl⟩ | ⟨burned, bank', taxProceeds, hburn, _, rfl⟩
    -- a fee and no tax
    · have hfree := (Coins.isZero_iff taxes).mp hnotax
      constructor
      · refine ⟨fun _ => Or.inr ?_, fun _ => own_fee_zero hnonneg _⟩
        intro taxes' htaxes' denom
        cases htaxes.symm.trans htaxes'
        rw [hfree denom]
        exact hnonneg denom
      · intro payer' hpayer' hne _ denom
        cases hpayer.symm.trans hpayer'
        rw [hcollected hne denom]
        simp
    -- the split is computed from the tax, whatever the fee was
    · obtain ⟨hle, hmoved⟩ := burnTaxSplit_ok hburn
      constructor
      · constructor
        · intro hown
          right
          intro taxes' htaxes' denom
          cases htaxes.symm.trans htaxes'
          exact (hown denom).2
        · rintro (hzero' | hcovers)
          · rw [hzero] at hzero'
            cases hzero'
          · intro denom
            have htax := hcovers taxes htaxes denom
            exact ⟨le_trans (hle denom) htax, htax⟩
      · intro payer' hpayer' hne hburnne denom
        cases hpayer.symm.trans hpayer'
        show bank'.balances _ denom = _ - burned.amountOf denom
        rw [hmoved hburnne denom, hcollected hne denom]

/-! ### A small fee market, for examples -/

/-- A tax of one percent, all of it burned. -/
def smallKeepers : Keepers where
  treasury := {
    taxRate := Dec.withPrec 1 2
    taxCaps := ∅
    taxPolicyCap := 10 ^ 12
    burnSplitRate := Dec.zero
    burnTaxExemptionList := []
    isContract := fun _ => false
    validDenom := fun _ => true }
  bank := smallBankConfig
  bech32 := {
    accAddressFromBech32 := fun s =>
      if s = "terra1vynex3pr" then .ok "a" else .error "decoding bech32 failed"
    valAddressFromBech32 := fun _ => .error "decoding bech32 failed"
    accAddressString := fun _ => "terra1vynex3pr"
    valAddressString := fun _ => "terravaloper1vy3vsmy0" }
  accountExists := fun addr => addr = "a"
  feeCollectorSet := true
  useGrantedFees := none

/-- The fees of others lie in the fee collector. -/
def smallState : State where
  bank := {
    balances := fun _ _ => 10 ^ 9
    supply := fun _ => 10 ^ 12 }
  taxProceeds := ∅

/-- A send of `10^9` SDR units, whose tax is `10^7`. -/
def smallTx (fee : List Coin) : FeeTx where
  msgs := [.send "terra1vynex3pr" "terra1vgz8qmsy" [⟨microSDRDenom, 10 ^ 9⟩]]
  gas := 200000
  fee := fee
  feePayer := "a"
  feeGranter := none

/-- A node that asks for a hundredth of a Luna unit for each unit of gas. -/
def smallContext (isCheckTx : Bool) : Context where
  blockHeight := 1
  isCheckTx := isCheckTx
  minGasPrices := (∅ : DecCoins).set microLunaDenom (Dec.withPrec 1 2)

/-- A fee in Luna for the gas, and one that pays the tax as well. -/
def gasFee : List Coin := [⟨microLunaDenom, 2000⟩]

def gasAndTaxFee : List Coin := [⟨microLunaDenom, 2000⟩, ⟨microSDRDenom, 10 ^ 7⟩]

theorem smallTx_taxes (fee : List Coin) :
    filterMsgAndComputeTax smallKeepers.treasury (smallTx fee).msgs =
      some (Coins.ofCoin microSDRDenom (10 ^ 7)) := by
  show filterMsgAndComputeTax smallKeepers.treasury (smallTx []).msgs = _
  decide +kernel

theorem own_fee_covered :
    ∃ charge final, anteHandle smallKeepers (smallContext true) smallState
        (smallTx gasAndTaxFee) false (fun _ s => .ok s) = .ok (charge, final) ∧
      OwnFee gasAndTaxFee charge := by
  have hok : (anteHandle smallKeepers (smallContext true) smallState (smallTx gasAndTaxFee) false
      (fun _ s => .ok s)).toOption.isSome = true := by decide +kernel
  cases hrun : anteHandle smallKeepers (smallContext true) smallState (smallTx gasAndTaxFee) false
      (fun _ s => .ok s) with
  | error err =>
    rw [hrun] at hok
    cases hok
  | ok result =>
    refine ⟨result.1, result.2, rfl, (own_fee_iff hrun).1.mpr (Or.inr ?_)⟩
    intro taxes htaxes denom
    rw [smallTx_taxes] at htaxes
    cases htaxes
    rw [Coins.amountOf_ofCoin]
    split
    · next hdenom =>
      rw [hdenom]
      decide +kernel
    · have hvalid : feeIsValid (fun _ => true) gasAndTaxFee = true := by decide +kernel
      exact feeAmount_nonneg hvalid denom

/-- The burned tax, and the fee collector after, of the same send when it pays
    for its gas only. -/
def gasFeeOnly (isCheckTx : Bool) : Option (ℤ × ℤ) :=
  (anteHandle smallKeepers (smallContext isCheckTx) smallState (smallTx gasFee) false
    (fun _ s => .ok s)).toOption.map (fun result =>
      (result.1.burned.amountOf microSDRDenom,
        result.2.bank.balances (smallBankConfig.moduleAddress feeCollectorName) microSDRDenom))

/-- In `DeliverTx` and in `CheckTx`, the tax of `10^7` SDR units is burned from
    the fees of others: the transaction paid no SDR. -/
theorem own_fee_fails :
    feeAmount gasFee microSDRDenom = 0 ∧
    smallState.bank.balances (smallBankConfig.moduleAddress feeCollectorName) microSDRDenom =
      10 ^ 9 ∧
    gasFeeOnly false = some (10 ^ 7, 10 ^ 9 - 10 ^ 7) ∧
    gasFeeOnly true = some (10 ^ 7, 10 ^ 9 - 10 ^ 7) := by
  decide +kernel

end TerraClassic.Ante
