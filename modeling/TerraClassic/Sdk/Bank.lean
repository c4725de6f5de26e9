import TerraClassic.Sdk.Coins
import TerraClassic.Sdk.Errors
import Mathlib.Tactic.Ring

/-! # The bank

    What the modules use of the bank keeper: a send moves coins from one
    account to another or fails, minting and burning change the supply and
    the balance of a module account alike.  Coin sets name each denom once, so
    checking all coins before moving them is the same as one after another.
-/

namespace TerraClassic

/-- Balances and supply. -/
structure BankState where
  balances : AccAddr → Denom → ℤ
  supply : Denom → ℤ

/-- The part of the bank that does not change in a message. -/
structure BankConfig where
  /-- `sdk.ValidateDenom`. -/
  validDenom : Denom → Bool
  /-- Coins an account may not spend yet. -/
  locked : AccAddr → Denom → ℤ
  blocked : AccAddr → Bool
  moduleAddress : String → AccAddr

namespace BankState

variable (config : BankConfig)

/-- `subUnlockedCoins`. -/
def subUnlockedCoins (s : BankState) (addr : AccAddr) (amt : Coins) :
    Except BankError BankState :=
  match amt.entries.find? (fun coin =>
    s.balances addr coin.1 - config.locked addr coin.1 < coin.2) with
  | some coin => .error (.insufficientFunds coin.1)
  | none => .ok { s with
      balances := fun a d =>
        if a = addr then s.balances a d - amt.amountOf d else s.balances a d }

/-- `addCoins`. -/
def addCoins (s : BankState) (addr : AccAddr) (amt : Coins) : BankState :=
  { s with
    balances := fun a d => if a = addr then s.balances a d + amt.amountOf d else s.balances a d }

/-- `SendCoins`. -/
def sendCoins (s : BankState) (sender recipient : AccAddr) (amt : Coins) :
    Except BankError BankState := do
  let s ← s.subUnlockedCoins config sender amt
  return s.addCoins recipient amt

/-- `SendCoinsFromAccountToModule`. -/
def sendCoinsFromAccountToModule (s : BankState) (sender : AccAddr) (recipientModule : String)
    (amt : Coins) : Except BankError BankState :=
  s.sendCoins config sender (config.moduleAddress recipientModule) amt

/-- `SendCoinsFromModuleToAccount`. -/
def sendCoinsFromModuleToAccount (s : BankState) (senderModule : String) (recipient : AccAddr)
    (amt : Coins) : Except BankError BankState := do
  if config.blocked recipient then throw (.unauthorized recipient)
  s.sendCoins config (config.moduleAddress senderModule) recipient amt

/-- `SendCoinsFromModuleToModule`. -/
def sendCoinsFromModuleToModule (s : BankState) (senderModule recipientModule : String)
    (amt : Coins) : Except BankError BankState :=
  s.sendCoins config (config.moduleAddress senderModule) (config.moduleAddress recipientModule) amt

/-- `BurnCoins`. -/
def burnCoins (s : BankState) (moduleName : String) (amt : Coins) :
    Except BankError BankState := do
  let s ← s.subUnlockedCoins config (config.moduleAddress moduleName) amt
  return { s with supply := fun d => s.supply d - amt.amountOf d }

/-- `MintCoins`. -/
def mintCoins (s : BankState) (moduleName : String) (amt : Coins) : BankState :=
  let s := s.addCoins (config.moduleAddress moduleName) amt
  { s with supply := fun d => s.supply d + amt.amountOf d }

/-- Taking coins off an account changes its own balances only. -/
theorem subUnlockedCoins_ok {config : BankConfig} {s s' : BankState} {addr : AccAddr}
    {amt : Coins} (h : s.subUnlockedCoins config addr amt = .ok s') :
    s' = { s with balances := fun a d =>
      if a = addr then s.balances a d - amt.amountOf d else s.balances a d } := by
  unfold subUnlockedCoins at h
  split at h
  · cases h
  · exact (Except.ok.inj h).symm

/-- A send between two accounts moves its coins from one to the other. -/
theorem sendCoins_ok {config : BankConfig} {s s' : BankState} {sender recipient : AccAddr}
    {amt : Coins} (h : s.sendCoins config sender recipient amt = .ok s') (addr : AccAddr)
    (denom : Denom) :
    s'.balances addr denom = s.balances addr denom -
      (if addr = sender then amt.amountOf denom else 0) +
      (if addr = recipient then amt.amountOf denom else 0) := by
  obtain ⟨s₁, hsub, h⟩ := Run.bind_eq_ok.mp h
  obtain rfl := subUnlockedCoins_ok hsub
  cases h
  simp only [addCoins]
  split_ifs <;> ring

/-- A send leaves the supply alone. -/
theorem sendCoins_supply {config : BankConfig} {s s' : BankState} {sender recipient : AccAddr}
    {amt : Coins} (h : s.sendCoins config sender recipient amt = .ok s') :
    s'.supply = s.supply := by
  obtain ⟨s₁, hsub, h⟩ := Run.bind_eq_ok.mp h
  obtain rfl := subUnlockedCoins_ok hsub
  cases h
  rfl

/-- A send of nothing. -/
theorem sendCoins_empty (config : BankConfig) (s : BankState) (sender recipient : AccAddr) :
    s.sendCoins config sender recipient ∅ = .ok s := by
  have hbalances : (fun a d => if a = recipient then
      (if a = sender then s.balances a d - 0 else s.balances a d) + 0
      else if a = sender then s.balances a d - 0 else s.balances a d) = s.balances := by
    funext a d
    simp
  show Except.ok { s with balances := _ } = _
  exact congrArg (fun b => Except.ok { s with balances := b }) hbalances

/-- A payment out of a module does not go to a blocked account. -/
theorem sendCoinsFromModuleToAccount_ok {config : BankConfig} {s s' : BankState}
    {senderModule : String} {recipient : AccAddr} {amt : Coins}
    (h : s.sendCoinsFromModuleToAccount config senderModule recipient amt = .ok s') :
    config.blocked recipient = false ∧
      s.sendCoins config (config.moduleAddress senderModule) recipient amt = .ok s' := by
  unfold sendCoinsFromModuleToAccount at h
  by_cases hblocked : config.blocked recipient = true
  · simp only [if_pos hblocked] at h
    cases h
  · simp only [if_neg hblocked] at h
    exact ⟨by simpa using hblocked, h⟩

/-- Burning takes the coins from the module account and from the supply. -/
theorem burnCoins_ok {config : BankConfig} {s s' : BankState} {moduleName : String} {amt : Coins}
    (h : s.burnCoins config moduleName amt = .ok s') :
    (∀ addr denom, s'.balances addr denom = s.balances addr denom -
      if addr = config.moduleAddress moduleName then amt.amountOf denom else 0) ∧
    ∀ denom, s'.supply denom = s.supply denom - amt.amountOf denom := by
  obtain ⟨s₁, hsub, h⟩ := Run.bind_eq_ok.mp h
  obtain rfl := subUnlockedCoins_ok hsub
  cases h
  refine ⟨?_, fun denom => rfl⟩
  intro addr denom
  show (if _ then _ else _) = _
  split_ifs <;> ring

theorem mintCoins_balances (config : BankConfig) (s : BankState) (moduleName : String)
    (amt : Coins) (addr : AccAddr) (denom : Denom) :
    (s.mintCoins config moduleName amt).balances addr denom = s.balances addr denom +
      if addr = config.moduleAddress moduleName then amt.amountOf denom else 0 := by
  show (if _ then _ else _) = _
  split_ifs <;> ring

@[simp] theorem mintCoins_supply (config : BankConfig) (s : BankState) (moduleName : String)
    (amt : Coins) (denom : Denom) :
    (s.mintCoins config moduleName amt).supply denom = s.supply denom + amt.amountOf denom := rfl

end BankState

/-- A bank without locked coins and blocked accounts, for examples. -/
def smallBankConfig : BankConfig where
  validDenom := fun _ => true
  locked := fun _ _ => 0
  blocked := fun _ => false
  moduleAddress := fun name => name

end TerraClassic
