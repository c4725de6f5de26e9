import TerraClassic.Chain.Ledger
import TerraClassic.Treasury.History

/-! # The treasury's view of the ledger

    The treasury model reads the supply and the burn account as a `Treasury.Bank`, whose
    fields say that the burn account is part of the supply.  Of a sound bank this is so
    (`treasuryBank`), and the end block of the ledger is the treasury's own: the same supply,
    the same burn account, the same tax proceeds (`endBlock_treasury`).
-/

namespace TerraClassic.Chain

open BankState (Sound)

variable {config : BankConfig} {denoms : List Denom} {bank bank' : BankState}

/-- What the treasury reads of a sound bank. -/
def treasuryBank (config : BankConfig) (hs : Sound denoms bank)
    (hlt : ∀ denom, bank.supply denom < 2 ^ 256) : Treasury.Bank where
  supply := fun denom => (bank.supply denom).toNat
  burnAccount := (bank.getAllBalances denoms (burnAddress config)).mapVal Int.toNat
  covered := by
    intro denom
    have hall := BankState.amountOf_getAllBalances (burnAddress config)
      (fun denom hdenom => hs.listed _ denom hdenom) denom
    have hle := hs.balance_le_supply (burnAddress config) denom
    unfold SortedMap.getD
    rw [SortedMap.get_mapVal]
    cases hget : (bank.getAllBalances denoms (burnAddress config)).get denom with
    | none => exact Nat.zero_le _
    | some amount =>
      rw [Coins.amountOf_of_get hget] at hall
      show amount.toNat ≤ (bank.supply denom).toNat
      omega
  supply_lt := by
    intro denom
    have := hlt denom
    omega

section View

variable {hs : Sound denoms bank} {hlt : ∀ denom, bank.supply denom < 2 ^ 256}

theorem treasuryBank_supply (denom : Denom) :
    ((treasuryBank config hs hlt).supply denom : ℤ) = bank.supply denom := by
  have hnonneg : 0 ≤ bank.supply denom :=
    (hs.nonneg "" denom).trans (hs.balance_le_supply "" denom)
  exact Int.toNat_of_nonneg hnonneg

theorem treasuryBank_burnAccount (denom : Denom) :
    ((treasuryBank config hs hlt).burnAccount.getD denom 0 : ℤ) =
      bank.balances (burnAddress config) denom := by
  have hall := BankState.amountOf_getAllBalances (burnAddress config)
    (fun denom hdenom => hs.listed _ denom hdenom) denom
  have hnonneg := hs.nonneg (burnAddress config) denom
  show (((bank.getAllBalances denoms (burnAddress config)).mapVal Int.toNat).getD denom 0 : ℤ) = _
  unfold SortedMap.getD
  rw [SortedMap.get_mapVal, ← hall]
  rw [← hall] at hnonneg
  cases hget : (bank.getAllBalances denoms (burnAddress config)).get denom with
  | none =>
    rw [Coins.amountOf_of_get_none hget]
    rfl
  | some amount =>
    rw [Coins.amountOf_of_get hget] at hnonneg ⊢
    exact Int.toNat_of_nonneg hnonneg

/-- Burning in the ledger is burning in the treasury's view. -/
theorem burnCoinsFromBurnAccount_treasury (hconfig : ConfigOk config)
    (hburn : burnCoinsFromBurnAccount config denoms bank = some bank') (denom : Denom) :
    let burned := Treasury.burnCoinsFromBurnAccount (treasuryBank config hs hlt)
    (burned.supply denom : ℤ) = bank'.supply denom ∧
      (burned.burnAccount.getD denom 0 : ℤ) = bank'.balances (burnAddress config) denom := by
  obtain ⟨bank₁, hburn₁, _, hbalances, hsupply⟩ := burnCoinsFromBurnAccount_ok hconfig hs
  rw [hburn] at hburn₁
  cases hburn₁
  have hcovered := (treasuryBank config hs hlt).covered denom
  constructor
  · show (((treasuryBank config hs hlt).supply denom -
      (treasuryBank config hs hlt).burnAccount.getD denom 0 : ℕ) : ℤ) = _
    rw [Nat.cast_sub hcovered, treasuryBank_supply, treasuryBank_burnAccount, hsupply]
  · rw [hbalances, if_pos rfl]
    rfl

end View

/-! ### Tax proceeds -/

section Proceeds

open Treasury (Store)

variable {k : Treasury.Keepers} {height : BlockHeight} {st : Store}

/-- The last block of a week empties the proceeds, any other block leaves them. -/
theorem endBlocker_taxProceeds {tb : Treasury.Bank} {out : Treasury.Bank × Store}
    (h : Treasury.endBlocker k height tb st = some out) :
    out.1 = Treasury.burnCoinsFromBurnAccount tb ∧
      ∃ weekEnds, isPeriodLastBlock height blocksPerWeek = some weekEnds ∧
        out.2.taxProceeds = if weekEnds then ∅ else st.taxProceeds := by
  obtain ⟨hbank, weekEnds, hweek, hhistory⟩ := Treasury.endBlocker_history h []
  refine ⟨hbank, weekEnds, hweek, ?_⟩
  cases weekEnds with
  | true => exact hhistory.taxProceeds
  | false =>
    have hsame : Treasury.SameHistory st out.2 := hhistory
    exact hsame.taxProceeds

end Proceeds

/-- In every state of a run, the end block of the ledger and the end blocker of the treasury,
    which reads the bank through its view, agree on the supply, the burn account and the tax
    proceeds that they leave. -/
theorem endBlock_treasury (hconfig : ConfigOk config) {start s s' : State}
    (hbooks : Books config start s) (hlt : ∀ denom, s.bank.supply denom < 2 ^ 256)
    {height : BlockHeight} (hend : endBlock config s height = some s') {k : Treasury.Keepers}
    {st : Treasury.Store} (hproceeds : st.taxProceeds = s.taxProceeds)
    {out : Treasury.Bank × Treasury.Store}
    (htreasury : Treasury.endBlocker k height (treasuryBank config hbooks.sound hlt) st =
      some out) :
    (∀ denom, (out.1.supply denom : ℤ) = s'.bank.supply denom ∧
      (out.1.burnAccount.getD denom 0 : ℤ) = s'.bank.balances (burnAddress config) denom) ∧
      out.2.taxProceeds = s'.taxProceeds := by
  obtain ⟨hbank, weekEnds, hweek, htaxes⟩ := endBlocker_taxProceeds htreasury
  unfold endBlock at hend
  obtain ⟨delta, _, hend⟩ := Option.bind_eq_some_iff.mp hend
  obtain ⟨bank', hburn, hend⟩ := Option.bind_eq_some_iff.mp hend
  obtain ⟨weekEnds', hweek', hend⟩ := Option.bind_eq_some_iff.mp hend
  rw [hweek] at hweek'
  cases hweek'
  rw [hbank, htaxes, hproceeds]
  cases weekEnds with
  | true =>
    cases hend
    exact ⟨burnCoinsFromBurnAccount_treasury hconfig hburn, rfl⟩
  | false =>
    cases hend
    exact ⟨burnCoinsFromBurnAccount_treasury hconfig hburn, rfl⟩

end TerraClassic.Chain
