import TerraClassic.Lib.Conservation
import TerraClassic.Sdk.Bank

/-! # The supply and the balances

    `BankState.Sound`: the balances of each denom add up to its supply, none of them is
    negative, and every coin is of a denom that the bank's store has.  The operations of
    the bank keep it, for amounts that are not negative.

    The store lists the balances of an account by denom; the balances of the model are a
    function, so the denoms of the store are listed beside it.
-/

namespace TerraClassic

namespace BankState

open Conservation (Backs)

/-- `GetAllBalances`, with the denoms of the bank's store. -/
def getAllBalances (denoms : List Denom) (s : BankState) (addr : AccAddr) : Coins :=
  denoms.foldl (fun coins denom =>
    if s.balances addr denom = 0 then coins else coins.set denom (s.balances addr denom)) ∅

/-- What holds of the bank at any time. -/
structure Sound (denoms : List Denom) (s : BankState) : Prop where
  backed : ∀ denom, Backs (fun addr => s.balances addr denom) (s.supply denom)
  nonneg : ∀ addr denom, 0 ≤ s.balances addr denom
  listed : ∀ addr denom, denom ∉ denoms → s.balances addr denom = 0

/-- The coins of a set are not negative. -/
def NonNeg (amt : Coins) : Prop := ∀ denom, 0 ≤ amt.amountOf denom

/-- No account has less than nothing locked. -/
def LocksOk (config : BankConfig) : Prop := ∀ addr denom, 0 ≤ config.locked addr denom

theorem nonNeg_ofCoin (denom : Denom) {amount : ℤ} (h : 0 ≤ amount) :
    NonNeg (Coins.ofCoin denom amount) := by
  intro d
  rw [Coins.amountOf_ofCoin]
  split
  · exact h
  · exact le_rfl

/-! ### All balances -/

theorem amountOf_foldl_balances (s : BankState) (addr : AccAddr) (denom : Denom)
    (denoms : List Denom) {coins : Coins}
    (hcoins : coins.amountOf denom = 0 ∨ coins.amountOf denom = s.balances addr denom) :
    (denoms.foldl (fun coins denom =>
      if s.balances addr denom = 0 then coins else coins.set denom (s.balances addr denom))
        coins).amountOf denom =
      if denom ∈ denoms then s.balances addr denom else coins.amountOf denom := by
  induction denoms generalizing coins with
  | nil => rfl
  | cons d rest ih =>
    -- one round leaves the amount of the denom or sets it to the balance
    have hround : Coins.amountOf (if s.balances addr d = 0 then coins
        else coins.set d (s.balances addr d)) denom =
        if denom = d ∧ s.balances addr d ≠ 0 then s.balances addr d else coins.amountOf denom := by
      by_cases hzero : s.balances addr d = 0
      · simp [hzero]
      · rw [if_neg hzero, Coins.amountOf_set]
        simp [hzero]
    rw [List.foldl_cons, ih]
    · rw [hround]
      by_cases hmem : denom ∈ rest
      · simp [hmem]
      · by_cases hd : denom = d
        · subst hd
          by_cases hzero : s.balances addr denom = 0
          · rcases hcoins with hcoins | hcoins
            · simp [hmem, hzero, hcoins]
            · simp [hmem, hcoins]
          · simp [hmem, hzero]
        · simp [hmem, hd]
    · rw [hround]
      split
      · next h => exact Or.inr (by rw [h.1])
      · exact hcoins

/-- The coins of an account whose denoms are all in the store. -/
theorem amountOf_getAllBalances {denoms : List Denom} {s : BankState} (addr : AccAddr)
    (h : ∀ denom, denom ∉ denoms → s.balances addr denom = 0) (denom : Denom) :
    (s.getAllBalances denoms addr).amountOf denom = s.balances addr denom := by
  unfold getAllBalances
  rw [amountOf_foldl_balances s addr denom denoms (Or.inl (Coins.amountOf_empty denom))]
  split
  · rfl
  · next hmem => exact (h denom hmem).symm

/-! ### The operations -/

section Operations

variable {config : BankConfig} {denoms : List Denom} {s s' : BankState} {amt : Coins}

/-- What is taken off an account is there. -/
theorem subUnlockedCoins_le (hlocks : LocksOk config) (hs : Sound denoms s) {addr : AccAddr}
    (h : s.subUnlockedCoins config addr amt = .ok s') (denom : Denom) :
    amt.amountOf denom ≤ s.balances addr denom := by
  cases hget : amt.get denom with
  | none =>
    rw [Coins.amountOf_of_get_none hget]
    exact hs.nonneg addr denom
  | some amount =>
    unfold subUnlockedCoins at h
    split at h
    · cases h
    · next hnone =>
      have hfind := List.find?_eq_none.mp hnone (denom, amount)
        (SortedMap.mem_entries.mpr hget)
      have hlocked := hlocks addr denom
      simp only [decide_eq_true_eq, not_lt] at hfind
      rw [Coins.amountOf_of_get hget]
      omega

/-- An account cannot be debited for a denom that it does not have. -/
theorem amountOf_eq_zero_of_listed (hs : Sound denoms s) (hamt : NonNeg amt) {addr : AccAddr}
    (hle : ∀ denom, amt.amountOf denom ≤ s.balances addr denom) {denom : Denom}
    (hdenom : denom ∉ denoms) : amt.amountOf denom = 0 := by
  have hzero := hs.listed addr denom hdenom
  exact le_antisymm (hzero ▸ hle denom) (hamt denom)

theorem sound_sendCoins (hlocks : LocksOk config) (hs : Sound denoms s) (hamt : NonNeg amt)
    {sender recipient : AccAddr} (h : s.sendCoins config sender recipient amt = .ok s') :
    Sound denoms s' := by
  have hle : ∀ denom, amt.amountOf denom ≤ s.balances sender denom := by
    obtain ⟨s₁, hsub, _⟩ := Run.bind_eq_ok.mp h
    exact subUnlockedCoins_le hlocks hs hsub
  have hbalances := sendCoins_ok h
  refine ⟨?_, ?_, ?_⟩
  · intro denom
    have hmove := (hs.backed denom).move sender recipient (amt.amountOf denom)
    rw [sendCoins_supply h]
    simpa only [hbalances] using hmove
  · intro addr denom
    rw [hbalances]
    have hself := hs.nonneg addr denom
    have hpaid := hamt denom
    by_cases hsender : addr = sender
    · have hheld := hle denom
      rw [← hsender] at hheld
      rw [if_pos hsender]
      split <;> omega
    · rw [if_neg hsender]
      split <;> omega
  · intro addr denom hdenom
    rw [hbalances, hs.listed addr denom hdenom, amountOf_eq_zero_of_listed hs hamt hle hdenom]
    simp

theorem sound_burnCoins (hlocks : LocksOk config) (hs : Sound denoms s) (hamt : NonNeg amt)
    {moduleName : String} (h : s.burnCoins config moduleName amt = .ok s') : Sound denoms s' := by
  have hle : ∀ denom, amt.amountOf denom ≤ s.balances (config.moduleAddress moduleName) denom := by
    obtain ⟨s₁, hsub, _⟩ := Run.bind_eq_ok.mp h
    exact subUnlockedCoins_le hlocks hs hsub
  obtain ⟨hbalances, hsupply⟩ := burnCoins_ok h
  refine ⟨?_, ?_, ?_⟩
  · intro denom
    have hdebit := (hs.backed denom).debit (config.moduleAddress moduleName) (amt.amountOf denom)
    rw [hsupply]
    simpa only [hbalances] using hdebit
  · intro addr denom
    rw [hbalances]
    split
    · next heq =>
      rw [heq]
      linarith [hle denom]
    · simpa using hs.nonneg addr denom
  · intro addr denom hdenom
    rw [hbalances, hs.listed addr denom hdenom, amountOf_eq_zero_of_listed hs hamt hle hdenom]
    simp

/-- Minting may bring a denom into the store. -/
theorem sound_mintCoins (hs : Sound denoms s) (hamt : NonNeg amt) (moduleName : String)
    {denoms' : List Denom} (hdenoms : denoms ⊆ denoms')
    (hlisted : ∀ denom, denom ∉ denoms' → amt.amountOf denom = 0) :
    Sound denoms' (s.mintCoins config moduleName amt) := by
  refine ⟨?_, ?_, ?_⟩
  · intro denom
    have hcredit := (hs.backed denom).credit (config.moduleAddress moduleName) (amt.amountOf denom)
    rw [mintCoins_supply]
    simpa only [mintCoins_balances] using hcredit
  · intro addr denom
    rw [mintCoins_balances]
    have := hs.nonneg addr denom
    have := hamt denom
    split <;> omega
  · intro addr denom hdenom
    rw [mintCoins_balances, hs.listed addr denom (fun hmem => hdenom (hdenoms hmem)),
      hlisted denom hdenom]
    simp

theorem Sound.mono (hs : Sound denoms s) {denoms' : List Denom} (hdenoms : denoms ⊆ denoms') :
    Sound denoms' s :=
  ⟨hs.backed, hs.nonneg, fun addr denom hdenom =>
    hs.listed addr denom (fun hmem => hdenom (hdenoms hmem))⟩

/-- No account holds more than there is. -/
theorem Sound.balance_le_supply (hs : Sound denoms s) (addr : AccAddr) (denom : Denom) :
    s.balances addr denom ≤ s.supply denom :=
  (hs.backed denom).le (fun a => hs.nonneg a denom) addr

end Operations

end BankState

end TerraClassic
