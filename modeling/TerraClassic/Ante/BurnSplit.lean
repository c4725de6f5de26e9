import TerraClassic.Ante.OwnFee
import TerraClassic.Treasury.Types

/-! # The burn split

    `BurnTaxSplit` leaves the rounded share `BurnTaxSplit * tax` of each tax in the
    fee collector and sends the rest to the burn account.  The parameter check
    only refuses a negative rate.  With a rate above one the share can exceed the
    tax, and then `Coins.Sub` panics.

    * `Splits`: what the split is for, per denom.
    * `burn_split_iff`: it is met exactly when no share exceeds its tax, which
      `KeepsTax` says of a rate and an amount.
-/

namespace TerraClassic.Ante

open SdkError (orPanic orPanic_eq_ok mapError_eq_ok)
open Treasury (validateBurnTaxSplit)

/-- `RoundInt` of the rate times an amount: the share that stays in the fee collector. -/
def keptShare (rate : Dec) (amount : ℤ) : ℤ := Dec.chopPrecisionAndRound (rate.i * amount)

/-- The shares of all taxes, as the loop adds them up. -/
def keptCoins (rate : Dec) (taxes : Coins) : Coins :=
  taxes.entries.foldl (fun kept e => Coins.add kept (Coins.ofCoin e.1 (keptShare rate e.2))) ∅

/-- The share of an amount is at most the amount: the rate is zero, or the product is within the
    bit bound and rounds to at most the amount. -/
def KeepsTax (rate : Dec) (amount : ℤ) : Prop :=
  rate.i = 0 ∨ Dec.Fits (rate.i * amount) ∧
    (2 * (rate.i * amount) < decOne * (2 * amount + 1) ∨
      2 * (rate.i * amount) = decOne * (2 * amount + 1) ∧ Even amount)

/-- Of each tax the share stays, and the rest, which is between nothing and the tax, goes from the
    fee collector to the burn account. -/
structure Splits (k : Keepers) (bank bank' : BankState) (taxes burned : Coins) : Prop where
  burned_eq : ∀ denom, burned.amountOf denom =
    taxes.amountOf denom - keptShare k.treasury.burnSplitRate (taxes.amountOf denom)
  burned_nonneg : ∀ denom, 0 ≤ burned.amountOf denom
  burned_le : ∀ denom, burned.amountOf denom ≤ taxes.amountOf denom
  moved : ∀ addr denom, bank'.balances addr denom = bank.balances addr denom -
    (if addr = k.bank.moduleAddress feeCollectorName then burned.amountOf denom else 0) +
    (if addr = k.bank.moduleAddress burnModuleName then burned.amountOf denom else 0)

/-! ### The shares -/

theorem keptShare_nonneg {rate : Dec} (hrate : 0 ≤ rate.i) {amount : ℤ} (hamount : 0 ≤ amount) :
    0 ≤ keptShare rate amount :=
  Dec.chop_nonneg (mul_nonneg hrate hamount)

theorem keptShare_zero (rate : Dec) : keptShare rate 0 = 0 := by
  unfold keptShare
  rw [mul_zero]
  exact Dec.chop_mul 0

theorem keptShare_le_iff (rate : Dec) (amount : ℤ) :
    keptShare rate amount ≤ amount ↔
      2 * (rate.i * amount) < decOne * (2 * amount + 1) ∨
        2 * (rate.i * amount) = decOne * (2 * amount + 1) ∧ Even amount :=
  Rounding.roundHalfEven_le_iff decOne Dec.decOne_pos

section
variable {tk : TreasuryKeeper} {taxes : Coins}

/-- The coins that stay, by denom. -/
theorem amountOf_foldl_kept (f : Denom × ℤ → ℤ) (l : List (Denom × ℤ)) (c : Coins)
    (denom : Denom) :
    (l.foldl (fun kept e => Coins.add kept (Coins.ofCoin e.1 (f e))) c).amountOf denom =
      c.amountOf denom + ((l.filter (fun e => e.1 = denom)).map f).sum := by
  induction l generalizing c with
  | nil => simp
  | cons e rest ih =>
    rw [List.foldl_cons, ih, Coins.amountOf_add, Coins.amountOf_ofCoin]
    by_cases hd : e.1 = denom
    · simp [hd, add_assoc]
    · simp [hd, Ne.symm hd]

theorem amountOf_kept (rate : Dec) (taxes : Coins) (denom : Denom) :
    (keptCoins rate taxes).amountOf denom = keptShare rate (taxes.amountOf denom) := by
  unfold keptCoins
  rw [amountOf_foldl_kept (fun e => keptShare rate e.2), Coins.amountOf_empty, zero_add]
  cases hget : taxes.get denom with
  | none =>
    have hnone : taxes.entries.filter (fun e => e.1 = denom) = [] := by
      rw [List.filter_eq_nil_iff]
      intro e he hdenom
      have := SortedMap.mem_entries.mp he
      rw [of_decide_eq_true hdenom, hget] at this
      cases this
    rw [hnone, Coins.amountOf_of_get_none hget, keptShare_zero]
    rfl
  | some amount =>
    rw [SortedMap.filter_key_eq hget, Coins.amountOf_of_get hget]
    exact List.sum_singleton

/-- The loop returns when every product is within the bit bound. -/
theorem returns_split (hrate : 0 ≤ tk.burnSplitRate.i)
    (hvalid : ∀ denom amount, taxes.get denom = some amount →
      tk.validDenom denom = true ∧ 0 < amount) :
    Returns (taxes.entries.foldlM (splitCoin tk) ∅)
      (∀ e ∈ taxes.entries, Dec.Fits (tk.burnSplitRate.i * e.2))
      (keptCoins tk.burnSplitRate taxes) := by
  refine Returns.foldlM (fun e he c => ?_) ∅
  obtain ⟨hdenom, hamount⟩ := hvalid e.1 e.2 (SortedMap.mem_entries.mp he)
  refine (Dec.returns_checked (tk.burnSplitRate.i * e.2)).bind_some ?_
  exact if_pos ⟨hdenom, keptShare_nonneg hrate hamount.le⟩

/-- What is burned exists when every tax keeps its share. -/
theorem burnedTaxes_isSome_iff (hrate : 0 ≤ tk.burnSplitRate.i)
    (hvalid : ∀ denom amount, taxes.get denom = some amount →
      tk.validDenom denom = true ∧ 0 < amount) :
    (burnedTaxes tk taxes).isSome ↔
      ∀ denom amount, taxes.get denom = some amount → KeepsTax tk.burnSplitRate amount := by
  unfold burnedTaxes
  by_cases hpos : 0 < tk.burnSplitRate.i
  · rw [if_pos (show tk.burnSplitRate.isPositive = true from decide_eq_true hpos),
      (returns_split hrate hvalid).bind_isSome_iff, Coins.sub_isSome_iff]
    simp only [amountOf_kept, keptShare_le_iff]
    constructor
    · rintro ⟨hfits, hle⟩ denom amount hget
      have hle := hle denom
      rw [Coins.amountOf_of_get hget] at hle
      exact Or.inr ⟨hfits (denom, amount) (SortedMap.mem_entries.mpr hget), hle⟩
    · intro hkeeps
      constructor
      · intro e he
        exact ((hkeeps e.1 e.2 (SortedMap.mem_entries.mp he)).resolve_left hpos.ne').1
      · intro denom
        cases hget : taxes.get denom with
        | none =>
          rw [Coins.amountOf_of_get_none hget, ← keptShare_le_iff, keptShare_zero]
        | some amount =>
          rw [Coins.amountOf_of_get hget]
          exact ((hkeeps denom amount hget).resolve_left hpos.ne').2
  · rw [if_neg (show ¬ tk.burnSplitRate.isPositive = true from
      fun h => hpos (of_decide_eq_true h))]
    have hzero : tk.burnSplitRate.i = 0 := le_antisymm (not_lt.mp hpos) hrate
    exact ⟨fun _ _ _ _ => Or.inl hzero, fun _ => rfl⟩

/-- What is burned of each tax. -/
theorem amountOf_burnedTaxes (hrate : 0 ≤ tk.burnSplitRate.i)
    (hvalid : ∀ denom amount, taxes.get denom = some amount →
      tk.validDenom denom = true ∧ 0 < amount) {burned : Coins}
    (h : burnedTaxes tk taxes = some burned) (denom : Denom) :
    burned.amountOf denom =
      taxes.amountOf denom - keptShare tk.burnSplitRate (taxes.amountOf denom) ∧
      keptShare tk.burnSplitRate (taxes.amountOf denom) ≤ taxes.amountOf denom := by
  unfold burnedTaxes at h
  by_cases hpos : 0 < tk.burnSplitRate.i
  · rw [if_pos (show tk.burnSplitRate.isPositive = true from decide_eq_true hpos)] at h
    obtain ⟨kept, hkept, hsub⟩ := Option.bind_eq_some_iff.mp h
    have hreturns := returns_split hrate hvalid
    rw [hreturns.1 (hreturns.isSome_iff.mp (by rw [hkept]; rfl))] at hkept
    obtain rfl := Option.some.inj hkept
    have hle := (Coins.sub_isSome_iff _ _).mp (by rw [hsub]; rfl) denom
    rw [amountOf_kept] at hle
    rw [Coins.amountOf_sub hsub, amountOf_kept]
    exact ⟨rfl, hle⟩
  · rw [if_neg (show ¬ tk.burnSplitRate.isPositive = true from
      fun h => hpos (of_decide_eq_true h))] at h
    obtain rfl := Option.some.inj h
    have hzero : tk.burnSplitRate.i = 0 := le_antisymm (not_lt.mp hpos) hrate
    have hkept : keptShare tk.burnSplitRate (taxes.amountOf denom) = 0 := by
      unfold keptShare
      rw [hzero, zero_mul]
      exact Dec.chop_mul 0
    rw [hkept, sub_zero]
    refine ⟨rfl, ?_⟩
    cases hget : taxes.get denom with
    | none => rw [Coins.amountOf_of_get_none hget]
    | some amount =>
      rw [Coins.amountOf_of_get hget]
      exact (hvalid denom amount hget).2.le

end

/-! ### The bank -/

/-- A send of coins that the sender can spend. -/
theorem sendCoins_of_le {config : BankConfig} {s : BankState} {sender : AccAddr}
    (recipient : AccAddr) {amt : Coins}
    (h : ∀ denom, amt.amountOf denom ≤ s.balances sender denom - config.locked sender denom) :
    ∃ s', s.sendCoins config sender recipient amt = .ok s' := by
  have hnone : amt.entries.find? (fun coin =>
      s.balances sender coin.1 - config.locked sender coin.1 < coin.2) = none := by
    rw [List.find?_eq_none]
    intro coin hcoin
    have hle := h coin.1
    rw [Coins.amountOf_of_get (SortedMap.mem_entries.mp hcoin)] at hle
    simpa using hle
  unfold BankState.sendCoins BankState.subUnlockedCoins
  rw [hnone]
  exact ⟨_, rfl⟩

/-- The split of taxes that the fee collector holds returns when what is burned exists. -/
theorem burnTaxSplit_of_burned {k : Keepers} {bank : BankState} {taxes burned : Coins}
    (hburned : burnedTaxes k.treasury taxes = some burned)
    (hheld : ∀ denom, burned.amountOf denom ≤
      bank.balances (k.bank.moduleAddress feeCollectorName) denom -
        k.bank.locked (k.bank.moduleAddress feeCollectorName) denom) :
    ∃ bank', burnTaxSplit k bank taxes = .ok (burned, bank') ∧
      ∀ addr denom, bank'.balances addr denom = bank.balances addr denom -
        (if addr = k.bank.moduleAddress feeCollectorName then burned.amountOf denom else 0) +
        (if addr = k.bank.moduleAddress burnModuleName then burned.amountOf denom else 0) := by
  unfold burnTaxSplit
  rw [hburned]
  cases hzero : burned.isZero with
  | true =>
    refine ⟨bank, by show (if (!burned.isZero) = true then _ else _) = _; rw [hzero]; rfl, ?_⟩
    intro addr denom
    rw [(Coins.isZero_iff burned).mp hzero denom]
    simp
  | false =>
    obtain ⟨bank', hsend⟩ := sendCoins_of_le (k.bank.moduleAddress burnModuleName) hheld
    refine ⟨bank', ?_, BankState.sendCoins_ok hsend⟩
    show (if (!burned.isZero) = true then _ else _) = _
    rw [hzero]
    show ((bank.sendCoins k.bank _ _ burned).mapError _ >>= _) = _
    rw [hsend]
    rfl

/-- For a rate that the parameter check accepts and valid taxes that the fee collector holds: the
    split returns and sends of each tax what its share leaves, exactly when no share exceeds
    its tax. -/
theorem burn_split_iff (k : Keepers) (bank : BankState) (taxes : Coins)
    (hrate : validateBurnTaxSplit k.treasury.burnSplitRate = .ok ())
    (hvalid : ∀ denom amount, taxes.get denom = some amount →
      k.treasury.validDenom denom = true ∧ 0 < amount)
    (hheld : ∀ denom, taxes.amountOf denom ≤
      bank.balances (k.bank.moduleAddress feeCollectorName) denom -
        k.bank.locked (k.bank.moduleAddress feeCollectorName) denom) :
    (∃ burned bank', burnTaxSplit k bank taxes = .ok (burned, bank') ∧
        Splits k bank bank' taxes burned) ↔
      ∀ denom amount, taxes.get denom = some amount →
        KeepsTax k.treasury.burnSplitRate amount := by
  have hrate : 0 ≤ k.treasury.burnSplitRate.i := by
    unfold validateBurnTaxSplit Treasury.validateNonNegative at hrate
    split at hrate
    · cases hrate
    · next hneg => simpa [Dec.isNegative] using hneg
  rw [← burnedTaxes_isSome_iff hrate hvalid]
  constructor
  · rintro ⟨burned, bank', h, _⟩
    obtain ⟨burned', hburned, _⟩ := Run.bind_eq_ok.mp h
    rw [orPanic_eq_ok.mp hburned]
    rfl
  · intro h
    obtain ⟨burned, hburned⟩ := Option.isSome_iff_exists.mp h
    have hamount := amountOf_burnedTaxes hrate hvalid hburned
    have hle : ∀ denom, burned.amountOf denom ≤ taxes.amountOf denom := burnedTaxes_le hburned
    obtain ⟨bank', hsplit, hmoved⟩ := burnTaxSplit_of_burned hburned
      (fun denom => (hle denom).trans (hheld denom))
    refine ⟨burned, bank', hsplit, fun denom => (hamount denom).1, ?_, hle, hmoved⟩
    intro denom
    rw [(hamount denom).1]
    linarith [(hamount denom).2]

/-- A tenth of five and of a hundred; the half of the first is rounded to the even zero. -/
theorem burn_split_tenth :
    let k := { smallKeepers with
      treasury := { smallKeepers.treasury with burnSplitRate := Dec.withPrec 1 1 } }
    let taxes : Coins := ((∅ : Coins).set "uluna" 5).set "uusd" 100
    let bank : BankState := ⟨fun addr denom => if addr = "fee_collector" ∧
      (denom = "uluna" ∨ denom = "uusd") then 100 else 0, fun _ => 0⟩
    ∃ burned bank', burnTaxSplit k bank taxes = .ok (burned, bank') ∧
      Splits k bank bank' taxes burned := by
  intro k taxes bank
  have hentries : ∀ e ∈ taxes.entries, (k.treasury.validDenom e.1 = true ∧ 0 < e.2) ∧
      e.2 ≤ bank.balances "fee_collector" e.1 ∧
      Dec.Fits (k.treasury.burnSplitRate.i * e.2) ∧
      2 * (k.treasury.burnSplitRate.i * e.2) < decOne * (2 * e.2 + 1) := by decide +kernel
  refine (burn_split_iff k bank taxes (by decide +kernel) ?_ ?_).mpr ?_
  · intro denom amount hget
    exact (hentries (denom, amount) (SortedMap.mem_entries.mpr hget)).1
  · intro denom
    show taxes.amountOf denom ≤ bank.balances "fee_collector" denom - 0
    cases hget : taxes.get denom with
    | none =>
      rw [Coins.amountOf_of_get_none hget]
      show 0 ≤ (if _ then (100 : ℤ) else 0) - 0
      split <;> norm_num
    | some amount =>
      rw [Coins.amountOf_of_get hget, sub_zero]
      exact (hentries (denom, amount) (SortedMap.mem_entries.mpr hget)).2.1
  · intro denom amount hget
    have h := hentries (denom, amount) (SortedMap.mem_entries.mpr hget)
    exact Or.inr ⟨h.2.2.1, Or.inl h.2.2.2⟩

/-- A rate of two is accepted, and the split of one unit of Luna panics. -/
theorem burn_split_panics :
    let k := { smallKeepers with
      treasury := { smallKeepers.treasury with burnSplitRate := Dec.ofInt 2 } }
    validateBurnTaxSplit k.treasury.burnSplitRate = .ok () ∧
      burnTaxSplit k ⟨fun _ _ => 1, fun _ => 1⟩ ((∅ : Coins).set "uluna" 1) = .error .panicked := by
  intro k
  have hnone : burnedTaxes k.treasury ((∅ : Coins).set "uluna" 1) = none := by decide +kernel
  refine ⟨by decide +kernel, ?_⟩
  unfold burnTaxSplit
  rw [hnone]
  rfl

end TerraClassic.Ante
