import TerraClassic.Ante.OwnFee
import TerraClassic.Ante.TaxTree
import TerraClassic.Chain.Forks
import TerraClassic.Market.Ledger
import TerraClassic.Market.Simulate
import TerraClassic.Sdk.Supply
import TerraClassic.Treasury.Keeper
import TerraClassic.Wasm.Dispatch

/-! # The ledger of the chain

    Everything in the repository that moves, mints or burns coins, over one bank: the fee
    decorator with its burn split, the tax on messages of contracts, swaps, the oracle's
    rewards, and the end blocker that empties the burn account.  Transfers of the bank
    module itself run in between, and governance and forks change the market parameters.

    `Flows` keeps the books beside the state: what the end blocker burned, what came into
    the burn account, what swaps burned and minted, and the taxes recorded since the week
    began.

    * `Books`: the bank is sound and agrees with the books.
    * `step_books`: every event keeps that.
-/

namespace TerraClassic.Chain

open SdkError (orPanic_eq_ok mapError_eq_ok)
open BankState (Sound NonNeg LocksOk nonNeg_ofCoin)

/-! ### State and events -/

/-- The books, by denom. -/
structure Flows where
  /-- What the end blocker burned. -/
  burned : Denom → ℤ
  /-- What came into the burn account. -/
  toBurn : Denom → ℤ
  /-- What swaps took and burned. -/
  offered : Denom → ℤ
  /-- What swaps minted. -/
  minted : Denom → ℤ
  /-- The taxes recorded since the week began. -/
  recorded : Denom → ℤ

def Flows.none : Flows := ⟨fun _ => 0, fun _ => 0, fun _ => 0, fun _ => 0, fun _ => 0⟩

/-- The money of the chain, and the books. -/
structure State where
  bank : BankState
  /-- The denoms in the bank's store. -/
  denoms : List Denom
  taxProceeds : Coins
  terraPoolDelta : Dec
  settings : Settings
  flows : Flows

/-- The chain with empty books. -/
def genesis (bank : BankState) (denoms : List Denom) (terraPoolDelta : Dec) (settings : Settings) :
    State :=
  ⟨bank, denoms, ∅, terraPoolDelta, settings, Flows.none⟩

inductive Event where
  /-- A transaction passes through the fee decorator. -/
  | tx (k : Ante.Keepers) (ctx : Ante.Context) (tx : Ante.FeeTx)
  /-- `MsgSend` of the bank module. -/
  | send (sender recipient : AccAddr) (amt : Coins)
  | swap (bech32 : Bech32) (k : Market.Keeper) (msg : Market.MsgSwap)
  | swapSend (bech32 : Bech32) (k : Market.Keeper) (msg : Market.MsgSwapSend)
  /-- A contract is taxed for a message that it dispatches. -/
  | contractTax (k : Wasm.Keepers Unit Ante.Msg) (contractAddr : AccAddr) (msg : Ante.Msg)
  /-- The oracle pays rewards to the distribution module. -/
  | oracleReward (amt : Coins)
  /-- A proposal changes market parameters. -/
  | params (params : Market.Params)
  /-- The begin blocker of the application, with the forks that it registers. -/
  | beginBlock (forks : List Fork) (chainID : String) (height : BlockHeight)
  /-- The end blockers of the market and the treasury. -/
  | endBlock (height : BlockHeight)

/-- `distrtypes.ModuleName`. -/
def distributionModuleName : String := "distribution"

section Steps

variable (config : BankConfig)

/-- The address of the burn account. -/
abbrev burnAddress : AccAddr := config.moduleAddress Ante.burnModuleName

/-- `BurnCoinsFromBurnAccount`. -/
def burnCoinsFromBurnAccount (denoms : List Denom) (bank : BankState) : Option BankState :=
  let coins := bank.getAllBalances denoms (burnAddress config)
  if !coins.isZero then (bank.burnCoins config Ante.burnModuleName coins).toOption else some bank

/-- What a set of coins adds to the burn account when `recipient` gets it. -/
def creditBurn (flows : Flows) (recipient : AccAddr) (amt : Coins) : Flows :=
  { flows with toBurn := fun denom => flows.toBurn denom +
      if recipient = burnAddress config then amt.amountOf denom else 0 }

/-- The books after a transaction was charged. -/
def chargeFlows (flows : Flows) (charge : Ante.Charge) : Flows :=
  { creditBurn config flows (burnAddress config) charge.burned with
    recorded := fun denom => flows.recorded denom + charge.recorded.amountOf denom }

/-- The books after a swap. -/
def swapFlows (flows : Flows) (receiver : AccAddr) (offerCoin : Coin)
    (response : Market.SwapResponse) : Flows :=
  { creditBurn config flows receiver
      (Coins.ofCoin response.swapCoin.denom response.swapCoin.amount) with
    offered := fun denom => flows.offered denom +
      if denom = offerCoin.denom then offerCoin.amount else 0
    minted := fun denom => flows.minted denom +
      if denom = response.swapCoin.denom then
        response.swapCoin.amount + response.swapFee.amount else 0 }

/-- The state after a swap of `offerCoin` for coins of `askDenom`. -/
def afterSwap (s : State) (receiver : AccAddr) (offerCoin : Coin) (askDenom : Denom)
    (result : Market.State × Market.SwapResponse) : State where
  bank := result.1.bank
  denoms := askDenom :: s.denoms
  taxProceeds := s.taxProceeds
  terraPoolDelta := result.1.terraPoolDelta
  settings := s.settings
  flows := swapFlows config s.flows receiver offerCoin result.2

/-- The address a text stands for; a message with another text was refused. -/
def addressOf (bech32 : Bech32) (text : String) : AccAddr :=
  match bech32.accAddressFromBech32 text with
  | .ok addr => addr
  | .error _ => ""

/-- The end blockers of the market and the treasury, as far as they touch money. -/
def endBlock (s : State) (height : BlockHeight) : Option State := do
  let terraPoolDelta ← Market.replenishPools s.settings.marketParams s.terraPoolDelta
  let bank ← burnCoinsFromBurnAccount config s.denoms s.bank
  let weekEnds ← isPeriodLastBlock height blocksPerWeek
  let flows := { s.flows with
    burned := fun denom => s.flows.burned denom +
      (s.bank.getAllBalances s.denoms (burnAddress config)).amountOf denom }
  if weekEnds then
    -- the indicators of the week take the proceeds over
    return ⟨bank, s.denoms, ∅, terraPoolDelta, s.settings, { flows with recorded := fun _ => 0 }⟩
  else return ⟨bank, s.denoms, s.taxProceeds, terraPoolDelta, s.settings, flows⟩

/-- What an event does to the settings. -/
def settingsStep (settings : Settings) : Event → Option Settings
  | .params params =>
    -- a change that is refused fails the proposal
    match setMarketParams params with
    | some marketParams => some { settings with marketParams := marketParams }
    | none => some settings
  | .beginBlock forks chainID height => beginBlockForks forks chainID height settings
  | _ => some settings

/-- One event.  What fails is dropped; `none` is a panic in a begin or end blocker.  The market
    reads its parameters from the state. -/
def step (s : State) : Event → Option State
  | .tx k ctx tx =>
    match Ante.anteHandle { k with bank := config } ctx ⟨s.bank, s.taxProceeds⟩ tx false
        (fun _ final => .ok final) with
    | .error _ => some s
    | .ok (charge, final) => some { s with
        bank := final.bank
        taxProceeds := final.taxProceeds
        flows := chargeFlows config s.flows charge }
  | .send sender recipient amt =>
    if config.blocked recipient || !amt.entries.all (fun coin => 0 < coin.2) then some s
    else
      match s.bank.sendCoins config sender recipient amt with
      | .error _ => some s
      | .ok bank => some { s with bank := bank, flows := creditBurn config s.flows recipient amt }
  | .swap bech32 k msg =>
    match Market.swap bech32 { k with bank := config, params := s.settings.marketParams }
        ⟨s.terraPoolDelta, s.bank⟩ msg with
    | .error _ => some s
    | .ok result => some (afterSwap config s (addressOf bech32 msg.trader) msg.offerCoin
        msg.askDenom result)
  | .swapSend bech32 k msg =>
    match Market.swapSend bech32 { k with bank := config, params := s.settings.marketParams }
        ⟨s.terraPoolDelta, s.bank⟩ msg with
    | .error _ => some s
    | .ok result => some (afterSwap config s (addressOf bech32 msg.toAddress) msg.offerCoin
        msg.askDenom result)
  | .contractTax k contractAddr msg =>
    match Wasm.chargeTax { k with ante := fun w => { k.ante w with bank := config } }
        ⟨s.bank, s.taxProceeds, s.terraPoolDelta, ()⟩ contractAddr msg with
    | .error _ => some s
    | .ok charged => some { s with bank := charged.bank, taxProceeds := charged.taxProceeds }
  | .oracleReward amt =>
    if !amt.entries.all (fun coin => 0 < coin.2) then some s
    else
      match s.bank.sendCoinsFromModuleToModule config Market.oracleModuleName
          distributionModuleName amt with
      | .error _ => some s
      | .ok bank => some { s with bank := bank }
  | .params params => do
    let settings ← settingsStep s.settings (.params params)
    return { s with settings := settings }
  | .beginBlock forks chainID height => do
    let settings ← settingsStep s.settings (.beginBlock forks chainID height)
    return { s with settings := settings }
  | .endBlock height => endBlock config s height

end Steps

/-! ### The fee decorator -/

section Fee

variable {k : Ante.Keepers}

/-- Delivery ends with the state that the charge left. -/
theorem anteHandle_deliver {ctx : Ante.Context} {s final : Ante.State} {tx : Ante.FeeTx}
    {charge : Ante.Charge}
    (h : Ante.anteHandle k ctx s tx false (fun _ final => .ok final) = .ok (charge, final)) :
    (∃ taxes, Ante.filterMsgAndComputeTax k.treasury tx.msgs = some taxes ∧
      Ante.checkDeductFee k s tx taxes false = .ok charge) ∧ final = charge.state := by
  refine ⟨Ante.anteHandle_ok h, ?_⟩
  unfold Ante.anteHandle at h
  by_cases hgas : (!false && 0 < ctx.blockHeight && tx.gas = 0) = true
  · simp only [if_pos hgas] at h
    cases h
  · simp only [if_neg hgas] at h
    obtain ⟨taxes, _, h⟩ := Run.bind_eq_ok.mp h
    obtain ⟨priority, _, h⟩ := Run.bind_eq_ok.mp h
    obtain ⟨charge', _, h⟩ := Run.bind_eq_ok.mp h
    cases h
    rfl

theorem filterMsgAndComputeTax_valid {tk : Ante.TreasuryKeeper} {msgs : List Ante.Msg}
    {taxes : Coins} (h : Ante.filterMsgAndComputeTax tk msgs = some taxes) :
    Ante.ValidCoins tk taxes :=
  ((Ante.totals_addMsgTaxes msgs (Ante.validCoins_empty tk) Ante.fits_empty).eq taxes h).1

theorem nonNeg_feeCoins {validDenom : Denom → Bool} {fee : List Coin}
    (h : Ante.feeIsValid validDenom fee = true) : NonNeg (Ante.feeCoins fee) := by
  intro denom
  rw [Ante.amountOf_feeCoins]
  exact Ante.feeAmount_nonneg h denom

/-- What is burned of valid taxes is not negative. -/
theorem nonNeg_burnedTaxes {tk : Ante.TreasuryKeeper} {taxes burned : Coins}
    (htaxes : Ante.ValidCoins tk taxes) (h : Ante.burnedTaxes tk taxes = some burned) :
    NonNeg burned := by
  unfold Ante.burnedTaxes at h
  split at h
  · obtain ⟨kept, _, hsub⟩ := Option.bind_eq_some_iff.mp h
    intro denom
    cases hget : burned.get denom with
    | none => rw [Coins.amountOf_of_get_none hget]
    | some amount =>
      rw [Coins.amountOf_of_get hget]
      exact (Coins.sub_positive hsub hget).le
  · cases h
    exact fun denom => htaxes.amountOf_nonneg denom

/-- The split sends coins that are not negative from the fee collector to the burn account. -/
theorem burnTaxSplit_send {bank bank' : BankState} {taxes burned : Coins}
    (htaxes : Ante.ValidCoins k.treasury taxes)
    (h : Ante.burnTaxSplit k bank taxes = .ok (burned, bank')) :
    NonNeg burned ∧ (bank.sendCoins k.bank (k.bank.moduleAddress Ante.feeCollectorName)
      (k.bank.moduleAddress Ante.burnModuleName) burned = .ok bank' ∨
        bank' = bank ∧ ∀ denom, burned.amountOf denom = 0) := by
  obtain ⟨burned', hburned, h⟩ := Run.bind_eq_ok.mp h
  have hnonneg := nonNeg_burnedTaxes htaxes (orPanic_eq_ok.mp hburned)
  cases hzero : burned'.isZero with
  | true =>
    rw [if_neg (show ¬ (!burned'.isZero) = true by simp [hzero])] at h
    cases h
    exact ⟨hnonneg, Or.inr ⟨rfl, (Coins.isZero_iff _).mp hzero⟩⟩
  | false =>
    rw [if_pos (show (!burned'.isZero) = true by simp [hzero])] at h
    obtain ⟨bank₁, hsend, h⟩ := Run.bind_eq_ok.mp h
    cases h
    exact ⟨hnonneg, Or.inl (mapError_eq_ok.mp hsend)⟩

end Fee

/-! ### Swaps -/

section Swaps

variable {k : Market.Keeper}

theorem newCoins_nonNeg {coin : Coin} {coins : Coins} (h : Market.newCoins k coin = some coins) :
    NonNeg coins ∧ coins = Coins.ofCoin coin.denom coin.amount := by
  obtain ⟨valid, hvalid, h⟩ := Option.bind_eq_some_iff.mp h
  obtain ⟨rfl, hnonneg⟩ := Market.newCoin_eq_some hvalid
  cases h
  exact ⟨nonNeg_ofCoin _ hnonneg, rfl⟩

/-- A settled swap keeps the bank sound; what it mints may be a denom new to the store. -/
theorem sound_settle (hlocks : LocksOk k.bank) {denoms : List Denom} {bank bank' : BankState}
    (hs : Sound denoms bank) {trader receiver : AccAddr} {offerCoin : Coin}
    {swapDecCoin feeDecCoin : DecCoin} {response : Market.SwapResponse}
    (h : Market.settle k bank trader receiver offerCoin swapDecCoin feeDecCoin =
      .ok (bank', response)) : Sound (swapDecCoin.denom :: denoms) bank' := by
  unfold Market.settle at h
  obtain ⟨offerCoins, hoffer, h⟩ := Run.bind_eq_ok.mp h
  obtain ⟨bank₁, hsend, h⟩ := Run.bind_eq_ok.mp h
  obtain ⟨bank₂, hburn, h⟩ := Run.bind_eq_ok.mp h
  obtain ⟨⟨swapCoin, decimalCoin⟩, htrunc, h⟩ := Run.bind_eq_ok.mp h
  by_cases hzero : swapCoin.amount ≤ 0
  · simp only [if_pos hzero] at h
    cases h
  simp only [if_neg hzero] at h
  obtain ⟨feeAmount, _, h⟩ := Run.bind_eq_ok.mp h
  obtain ⟨⟨feeCoin, dust⟩, _, h⟩ := Run.bind_eq_ok.mp h
  obtain ⟨mintCoins, hmint, h⟩ := Run.bind_eq_ok.mp h
  obtain ⟨swapCoins, hswap, h⟩ := Run.bind_eq_ok.mp h
  obtain ⟨bank₃, hpay, hlast⟩ := Run.bind_eq_ok.mp h
  obtain ⟨hofferNonneg, _⟩ := newCoins_nonNeg (orPanic_eq_ok.mp hoffer)
  obtain ⟨hmintNonneg, hmintEq⟩ := newCoins_nonNeg (orPanic_eq_ok.mp hmint)
  obtain ⟨hswapNonneg, _⟩ := newCoins_nonNeg (orPanic_eq_ok.mp hswap)
  obtain ⟨hswapCoin, _, _⟩ := Market.truncateDecimal_eq_some (orPanic_eq_ok.mp htrunc)
  -- the bank step by step: take in, burn, mint, pay the receiver, pay the oracle
  have h₁ := BankState.sound_sendCoins hlocks hs hofferNonneg (mapError_eq_ok.mp hsend)
  have h₂ := BankState.sound_burnCoins hlocks h₁ hofferNonneg (mapError_eq_ok.mp hburn)
  have hlisted : ∀ denom, denom ∉ swapDecCoin.denom :: denoms → mintCoins.amountOf denom = 0 := by
    intro denom hdenom
    rw [hmintEq, Coins.amountOf_ofCoin, if_neg]
    rintro rfl
    exact hdenom (by rw [hswapCoin]; exact List.mem_cons_self)
  have h₃ : Sound (swapDecCoin.denom :: denoms)
      (bank₂.mintCoins k.bank Market.moduleName mintCoins) :=
    BankState.sound_mintCoins h₂ hmintNonneg Market.moduleName (List.subset_cons_self _ _) hlisted
  have hpay := (BankState.sendCoinsFromModuleToAccount_ok (mapError_eq_ok.mp hpay)).2
  have h₄ := BankState.sound_sendCoins hlocks h₃ hswapNonneg hpay
  by_cases hpos : 0 < feeCoin.amount
  · simp only [if_pos hpos] at hlast
    obtain ⟨feeCoins, hcoins, hlast⟩ := Run.bind_eq_ok.mp hlast
    obtain ⟨bank₅, hsendFee, hlast⟩ := Run.bind_eq_ok.mp hlast
    cases hlast
    obtain ⟨hfeeNonneg, _⟩ := newCoins_nonNeg (orPanic_eq_ok.mp hcoins)
    exact BankState.sound_sendCoins hlocks h₄ hfeeNonneg (mapError_eq_ok.mp hsendFee)
  · simp only [if_neg hpos] at hlast
    cases hlast
    exact h₄

/-- What a successful swap does to the bank, whatever its spread is. -/
theorem handleSwapRequest_ok (hlocks : LocksOk k.bank) {denoms : List Denom} {s : Market.State}
    (hs : Sound denoms s.bank) {trader receiver : AccAddr} {offerCoin : Coin} {askDenom : Denom}
    {result : Market.State × Market.SwapResponse}
    (h : Market.handleSwapRequest k s trader receiver offerCoin askDenom = .ok result) :
    Sound (askDenom :: denoms) result.1.bank ∧ result.2.swapCoin.denom = askDenom ∧
      Market.Settled k s.bank result.1.bank trader receiver offerCoin askDenom
        (result.2.swapCoin.amount + result.2.swapFee.amount) result.2.swapCoin.amount := by
  unfold Market.handleSwapRequest at h
  obtain ⟨⟨ret, spread⟩, hret, h⟩ := Run.bind_eq_ok.mp h
  obtain ⟨feeDecCoin, hfee, h⟩ := Run.bind_eq_ok.mp h
  obtain ⟨amount, _, h⟩ := Run.bind_eq_ok.mp h
  obtain ⟨delta, _, h⟩ := Run.bind_eq_ok.mp h
  obtain ⟨⟨bank, response⟩, hsettle, hresult⟩ := Run.bind_eq_ok.mp h
  cases hresult
  have hask := Market.computeSwap_denom hret
  have hfeeDenom := Market.swapFee_denom (orPanic_eq_ok.mp hfee)
  have hdenom : feeDecCoin.denom = (⟨ret.denom, amount⟩ : DecCoin).denom := hfeeDenom
  have hsound := sound_settle hlocks hs hsettle
  obtain ⟨hswap, hswapFee, hsettled⟩ := Market.settle_ledger hdenom hsettle
  simp only [hask] at hswap hswapFee hsettled hsound
  refine ⟨hsound, by rw [hswap], ?_⟩
  rw [hswap, hswapFee, add_sub_cancel]
  exact hsettled

end Swaps

/-! ### The books -/

/-- The bank is sound and agrees with the books since `start`. -/
structure Books (config : BankConfig) (start : State) (s : State) : Prop where
  sound : Sound s.denoms s.bank
  supply : ∀ denom, s.bank.supply denom = start.bank.supply denom - s.flows.burned denom -
    s.flows.offered denom + s.flows.minted denom
  burnAccount : ∀ denom, s.bank.balances (burnAddress config) denom =
    start.bank.balances (burnAddress config) denom + s.flows.toBurn denom - s.flows.burned denom
  proceeds : ∀ denom, s.taxProceeds.amountOf denom = s.flows.recorded denom

/-- What the bank's configuration promises: nothing of the burn account is locked, and it is
    not the account of another module. -/
structure ConfigOk (config : BankConfig) : Prop where
  locks : LocksOk config
  burnUnlocked : ∀ denom, config.locked (burnAddress config) denom = 0
  feeCollector : config.moduleAddress Ante.feeCollectorName ≠ burnAddress config
  oracle : config.moduleAddress Market.oracleModuleName ≠ burnAddress config
  distribution : config.moduleAddress distributionModuleName ≠ burnAddress config

/-- Nobody has a key for the burn account: it signs nothing, grants no fees, and is not a
    contract. -/
def Event.Signed (config : BankConfig) : Event → Prop
  | .tx _ _ feeTx =>
    feeTx.feePayer ≠ burnAddress config ∧ feeTx.feeGranter ≠ some (burnAddress config)
  | .send sender _ _ => sender ≠ burnAddress config
  | .swap bech32 _ msg => addressOf bech32 msg.trader ≠ burnAddress config
  | .swapSend bech32 _ msg => addressOf bech32 msg.fromAddress ≠ burnAddress config
  | .contractTax _ contractAddr _ => contractAddr ≠ burnAddress config
  | .oracleReward _ => True
  | .params _ => True
  | .beginBlock _ _ _ => True
  | .endBlock _ => True

section Books

variable {config : BankConfig} {start s : State}

theorem nonNeg_of_all {amt : Coins} (h : amt.entries.all (fun coin => 0 < coin.2) = true) :
    NonNeg amt := by
  intro denom
  cases hget : amt.get denom with
  | none => rw [Coins.amountOf_of_get_none hget]
  | some amount =>
    rw [Coins.amountOf_of_get hget]
    have := List.all_eq_true.mp h _ (SortedMap.mem_entries.mpr hget)
    exact (of_decide_eq_true this).le

/-- A transfer that is entered in the books: what reaches the burn account is credited. -/
theorem Books.send (hconfig : ConfigOk config) (h : Books config start s) {amt : Coins}
    (hamt : NonNeg amt) {sender recipient : AccAddr} (hsender : sender ≠ burnAddress config)
    {bank : BankState} (hsend : s.bank.sendCoins config sender recipient amt = .ok bank) :
    Books config start
      { s with bank := bank, flows := creditBurn config s.flows recipient amt } := by
  refine ⟨BankState.sound_sendCoins hconfig.locks h.sound hamt hsend, ?_, ?_, h.proceeds⟩
  · intro denom
    rw [BankState.sendCoins_supply hsend]
    exact h.supply denom
  · -- the sender is not the burn account, so the account can only gain
    intro denom
    have hburn := h.burnAccount denom
    show bank.balances _ _ = _ + (s.flows.toBurn denom + _) - s.flows.burned denom
    rw [BankState.sendCoins_ok hsend, if_neg hsender.symm, sub_zero, hburn]
    simp only [eq_comm (a := burnAddress config)]
    ring

/-- A transfer between accounts other than the burn account needs no entry. -/
theorem Books.transfer (hconfig : ConfigOk config) (h : Books config start s) {amt : Coins}
    (hamt : NonNeg amt) {sender recipient : AccAddr} (hsender : sender ≠ burnAddress config)
    (hrecipient : recipient ≠ burnAddress config) {bank : BankState}
    (hsend : s.bank.sendCoins config sender recipient amt = .ok bank) :
    Books config start { s with bank := bank } := by
  have hbooks := h.send hconfig hamt hsender hsend
  refine ⟨hbooks.sound, hbooks.supply, ?_, h.proceeds⟩
  intro denom
  have hburn := hbooks.burnAccount denom
  simp only [creditBurn, if_neg hrecipient, add_zero] at hburn
  exact hburn

/-- Crediting nothing. -/
theorem Books.creditNothing (h : Books config start s) {amt : Coins}
    (hamt : ∀ denom, amt.amountOf denom = 0) (recipient : AccAddr) :
    Books config start { s with flows := creditBurn config s.flows recipient amt } := by
  refine ⟨h.sound, h.supply, ?_, h.proceeds⟩
  intro denom
  simp only [creditBurn, hamt denom, ite_self, add_zero]
  exact h.burnAccount denom

/-- Taxes are recorded. -/
theorem Books.record (h : Books config start s) {proceeds recorded : Coins}
    (hproceeds : ∀ denom, proceeds.amountOf denom =
      s.taxProceeds.amountOf denom + recorded.amountOf denom) :
    Books config start { s with
      taxProceeds := proceeds
      flows := { s.flows with
        recorded := fun denom => s.flows.recorded denom + recorded.amountOf denom } } := by
  refine ⟨h.sound, h.supply, h.burnAccount, ?_⟩
  intro denom
  exact (hproceeds denom).trans (congrArg (· + recorded.amountOf denom) (h.proceeds denom))

/-- The account that pays a fee is the payer or the granter. -/
theorem deductFeesFrom_ok {k : Ante.Keepers} {tx : Ante.FeeTx} {payer : AccAddr}
    (h : Ante.deductFeesFrom k tx = .ok payer) :
    payer = tx.feePayer ∨ tx.feeGranter = some payer := by
  unfold Ante.deductFeesFrom at h
  cases hgranter : tx.feeGranter with
  | none =>
    simp only [hgranter] at h
    cases h
    exact Or.inl rfl
  | some granter =>
    right
    simp only [hgranter] at h
    split at h
    · cases h
    · split at h
      · cases h
        rfl
      · split at h
        · cases h
          rfl
        · cases h

/-- A transaction is charged. -/
theorem books_tx (hconfig : ConfigOk config) (h : Books config start s) {k : Ante.Keepers}
    {ctx : Ante.Context} {tx : Ante.FeeTx} {charge : Ante.Charge} {final : Ante.State}
    (hpayer : tx.feePayer ≠ burnAddress config)
    (hgranter : tx.feeGranter ≠ some (burnAddress config))
    (hante : Ante.anteHandle { k with bank := config } ctx ⟨s.bank, s.taxProceeds⟩ tx false
      (fun _ final => .ok final) = .ok (charge, final)) :
    Books config start { s with
      bank := final.bank
      taxProceeds := final.taxProceeds
      flows := chargeFlows config s.flows charge } := by
  obtain ⟨⟨taxes, htaxes, hcharge⟩, rfl⟩ := anteHandle_deliver hante
  have hvalid := filterMsgAndComputeTax_valid htaxes
  obtain ⟨payer, hfrom, hcases⟩ := Ante.checkDeductFee_ok hcharge
  have hpayer : payer ≠ burnAddress config := by
    rcases deductFeesFrom_ok hfrom with heq | heq
    · exact heq ▸ hpayer
    · rintro rfl
      exact hgranter heq
  -- the charge of a transaction without tax
  have huntaxed : ∀ s : State, Books config start s → Books config start { s with
      flows := chargeFlows config s.flows ⟨∅, ∅, ⟨s.bank, s.taxProceeds⟩⟩ } := fun s hs =>
    (hs.creditNothing Coins.amountOf_empty (burnAddress config)).record
      (fun denom => (add_zero _).symm)
  rcases hcases with ⟨_, rfl⟩ | ⟨bank, _, hdeduct, hcases⟩
  · exact huntaxed s h
  · obtain ⟨hfee, hsend⟩ := Ante.deductFees_ok hdeduct
    have h₁ := h.transfer hconfig (nonNeg_feeCoins hfee) hpayer hconfig.feeCollector hsend
    -- the fee is paid first; of the taxes in it the burn split sends a part on
    rcases hcases with ⟨_, rfl⟩ | ⟨burned, bank', taxProceeds, hsplit, hrecord, rfl⟩
    · exact huntaxed _ h₁
    · have hproceeds := Treasury.addTaxProceeds_ok hrecord
      obtain ⟨hnonneg, hsend' | ⟨rfl, hzero⟩⟩ := burnTaxSplit_send hvalid hsplit
      · exact (h₁.send hconfig hnonneg hconfig.feeCollector hsend').record hproceeds
      · exact (h₁.creditNothing hzero (burnAddress config)).record hproceeds

/-- A swap is entered in the books. -/
theorem books_swap (hconfig : ConfigOk config) (h : Books config start s) {k : Market.Keeper}
    {trader receiver : AccAddr} (htrader : trader ≠ burnAddress config) {offerCoin : Coin}
    {askDenom : Denom} {result : Market.State × Market.SwapResponse}
    (hswap : Market.handleSwapRequest { k with bank := config } ⟨s.terraPoolDelta, s.bank⟩ trader
      receiver offerCoin askDenom = .ok result) :
    Books config start (afterSwap config s receiver offerCoin askDenom result) := by
  obtain ⟨hsound, hdenom, hsettled⟩ :=
    handleSwapRequest_ok (k := { k with bank := config }) hconfig.locks h.sound hswap
  refine ⟨hsound, ?_, ?_, h.proceeds⟩
  · intro denom
    show result.1.bank.supply denom = start.bank.supply denom - s.flows.burned denom -
      (s.flows.offered denom + _) + (s.flows.minted denom + _)
    rw [hsettled.supply, hdenom]
    have := h.supply denom
    show s.bank.supply denom - _ + _ = _
    rw [this]
    ring
  · intro denom
    show result.1.bank.balances _ denom = _ + (s.flows.toBurn denom + _) - s.flows.burned denom
    rw [hsettled.balances, hdenom]
    have hburn := h.burnAccount denom
    -- neither the payment nor the fee to the oracle touches the burn account
    have htrader' : ¬ (burnAddress config = trader ∧ denom = offerCoin.denom) :=
      fun heq => htrader heq.1.symm
    have horacle : ¬ (burnAddress config = config.moduleAddress Market.oracleModuleName ∧
        denom = askDenom) := fun heq => hconfig.oracle heq.1.symm
    show s.bank.balances (burnAddress config) denom - _ + _ + _ = _
    rw [if_neg htrader', if_neg horacle, hburn, Coins.amountOf_ofCoin, ite_and]
    simp only [eq_comm (a := burnAddress config)]
    ring

/-- A contract's tax goes to the fee collector and is not recorded. -/
theorem books_contractTax (hconfig : ConfigOk config) (h : Books config start s)
    {k : Wasm.Keepers Unit Ante.Msg} {contractAddr : AccAddr}
    (hcontract : contractAddr ≠ burnAddress config) {msg : Ante.Msg} {charged : Wasm.State Unit}
    (hcharge : Wasm.chargeTax { k with ante := fun w => { k.ante w with bank := config } }
      ⟨s.bank, s.taxProceeds, s.terraPoolDelta, ()⟩ contractAddr msg = .ok charged) :
    Books config start { s with bank := charged.bank, taxProceeds := charged.taxProceeds } := by
  unfold Wasm.chargeTax at hcharge
  split at hcharge
  · cases hcharge
  · next taxes htaxes =>
    split at hcharge
    · cases hcharge
      exact h
    · split at hcharge
      · cases hcharge
      · obtain ⟨bank, hdeduct, hcharge⟩ := Run.bind_eq_ok.mp hcharge
        cases hcharge
        obtain ⟨hfee, hsend⟩ := Ante.deductFees_ok (mapError_eq_ok.mp hdeduct)
        exact h.transfer hconfig (nonNeg_feeCoins hfee) hcontract hconfig.feeCollector hsend

/-- The end blocker burns all that the burn account holds, and does not panic. -/
theorem burnCoinsFromBurnAccount_ok (hconfig : ConfigOk config) {denoms : List Denom}
    {bank : BankState} (hs : Sound denoms bank) :
    ∃ bank', burnCoinsFromBurnAccount config denoms bank = some bank' ∧ Sound denoms bank' ∧
      (∀ addr denom, bank'.balances addr denom =
        if addr = burnAddress config then 0 else bank.balances addr denom) ∧
      ∀ denom, bank'.supply denom =
        bank.supply denom - bank.balances (burnAddress config) denom := by
  have hall := BankState.amountOf_getAllBalances (burnAddress config)
    (fun denom hdenom => hs.listed _ denom hdenom)
  have hnonneg : NonNeg (bank.getAllBalances denoms (burnAddress config)) := by
    intro denom
    rw [hall]
    exact hs.nonneg _ denom
  unfold burnCoinsFromBurnAccount
  cases hzero : (bank.getAllBalances denoms (burnAddress config)).isZero with
  | true =>
    have hempty : ∀ denom, bank.balances (burnAddress config) denom = 0 := by
      intro denom
      rw [← hall]
      exact (Coins.isZero_iff _).mp hzero denom
    refine ⟨bank, by simp [hzero], hs, ?_, ?_⟩
    · intro addr denom
      split
      · next heq => rw [heq, hempty]
      · rfl
    · intro denom
      rw [hempty, sub_zero]
  | false =>
    -- nothing of the account is locked, so all of it can be burned
    have hfind : (bank.getAllBalances denoms (burnAddress config)).entries.find? (fun coin =>
        bank.balances (burnAddress config) coin.1 - config.locked (burnAddress config) coin.1 <
          coin.2) = none := by
      rw [List.find?_eq_none]
      intro coin hcoin
      have hamount := Coins.amountOf_of_get (SortedMap.mem_entries.mp hcoin)
      rw [hall] at hamount
      simp [hconfig.burnUnlocked, hamount]
    cases hburn : bank.burnCoins config Ante.burnModuleName
        (bank.getAllBalances denoms (burnAddress config)) with
    | error err =>
      unfold BankState.burnCoins BankState.subUnlockedCoins at hburn
      rw [hfind] at hburn
      cases hburn
    | ok bank' =>
      obtain ⟨hbalances, hsupply⟩ := BankState.burnCoins_ok hburn
      refine ⟨bank', ?_, BankState.sound_burnCoins hconfig.locks hs hnonneg hburn, ?_, ?_⟩
      · show (if (!(bank.getAllBalances denoms (burnAddress config)).isZero) = true then
          (bank.burnCoins config Ante.burnModuleName
            (bank.getAllBalances denoms (burnAddress config))).toOption else some bank) = some bank'
        rw [hzero, hburn]
        rfl
      · intro addr denom
        rw [hbalances]
        split
        · next heq => rw [heq, hall, sub_self]
        · exact sub_zero _
      · intro denom
        rw [hsupply, hall]

/-- The end of a block: what the burn account held is burned, and after the last block of a
    week no taxes are recorded. -/
theorem books_endBlock (hconfig : ConfigOk config) (h : Books config start s)
    {height : BlockHeight} {s' : State} (hstep : endBlock config s height = some s') :
    Books config start s' := by
  have hall := BankState.amountOf_getAllBalances (burnAddress config)
    (fun denom hdenom => h.sound.listed _ denom hdenom)
  unfold endBlock at hstep
  obtain ⟨delta, _, hstep⟩ := Option.bind_eq_some_iff.mp hstep
  obtain ⟨bank', hburn', hsound, hbalances, hsupply⟩ := burnCoinsFromBurnAccount_ok hconfig h.sound
  -- the burn returns, so the one of this step is the one just described
  obtain ⟨bank, hburn, hstep⟩ := Option.bind_eq_some_iff.mp hstep
  rw [hburn'] at hburn
  cases hburn
  obtain ⟨weekEnds, _, hstep⟩ := Option.bind_eq_some_iff.mp hstep
  have hsupply' : ∀ denom, bank'.supply denom = start.bank.supply denom - (s.flows.burned denom +
      (s.bank.getAllBalances s.denoms (burnAddress config)).amountOf denom) -
      s.flows.offered denom + s.flows.minted denom := by
    intro denom
    rw [hsupply, hall, h.supply]
    ring
  have hburned : ∀ denom, bank'.balances (burnAddress config) denom =
      start.bank.balances (burnAddress config) denom + s.flows.toBurn denom -
        (s.flows.burned denom +
          (s.bank.getAllBalances s.denoms (burnAddress config)).amountOf denom) := by
    intro denom
    rw [hbalances, if_pos rfl, hall, h.burnAccount]
    ring
  cases weekEnds with
  | true =>
    cases hstep
    exact ⟨hsound, hsupply', hburned, Coins.amountOf_empty⟩
  | false =>
    cases hstep
    exact ⟨hsound, hsupply', hburned, h.proceeds⟩

/-- Every event keeps the books. -/
theorem step_books (hconfig : ConfigOk config) {e : Event} (hsigned : e.Signed config) {s' : State}
    (hstep : step config s e = some s') (h : Books config start s) : Books config start s' := by
  cases e with
  | tx k ctx feeTx =>
    simp only [step] at hstep
    split at hstep
    · cases hstep
      exact h
    · next hante =>
      cases hstep
      exact books_tx hconfig h hsigned.1 hsigned.2 hante
  | send sender recipient amt =>
    simp only [step] at hstep
    split at hstep
    · cases hstep
      exact h
    · next hallowed =>
      have hamt : amt.entries.all (fun coin => 0 < coin.2) = true := by
        simp only [Bool.or_eq_true, not_or, Bool.not_eq_true', Bool.not_eq_false] at hallowed
        exact hallowed.2
      split at hstep
      · cases hstep
        exact h
      · next hsend =>
        cases hstep
        exact h.send hconfig (nonNeg_of_all hamt) hsigned hsend
  | swap bech32 k msg =>
    simp only [step] at hstep
    split at hstep
    · cases hstep
      exact h
    · next hswap =>
      cases hstep
      obtain ⟨_, _, hswap⟩ := Run.bind_eq_ok.mp hswap
      obtain ⟨addr, haddr, hswap⟩ := Run.bind_eq_ok.mp hswap
      have haddr : addressOf bech32 msg.trader = addr := by
        unfold addressOf
        rw [mapError_eq_ok.mp haddr]
      have htrader : addressOf bech32 msg.trader ≠ burnAddress config := hsigned
      rw [haddr] at htrader ⊢
      exact books_swap (k := { k with params := s.settings.marketParams }) hconfig h htrader hswap
  | swapSend bech32 k msg =>
    simp only [step] at hstep
    split at hstep
    · cases hstep
      exact h
    · next hswap =>
      cases hstep
      obtain ⟨_, _, hswap⟩ := Run.bind_eq_ok.mp hswap
      obtain ⟨fromAddr, hfrom, hswap⟩ := Run.bind_eq_ok.mp hswap
      obtain ⟨toAddr, hto, hswap⟩ := Run.bind_eq_ok.mp hswap
      have hfrom : addressOf bech32 msg.fromAddress = fromAddr := by
        unfold addressOf
        rw [mapError_eq_ok.mp hfrom]
      have hto : addressOf bech32 msg.toAddress = toAddr := by
        unfold addressOf
        rw [mapError_eq_ok.mp hto]
      have htrader : addressOf bech32 msg.fromAddress ≠ burnAddress config := hsigned
      rw [hfrom] at htrader
      rw [hto]
      exact books_swap (k := { k with params := s.settings.marketParams }) hconfig h htrader hswap
  | contractTax k contractAddr msg =>
    simp only [step] at hstep
    split at hstep
    · cases hstep
      exact h
    · next hcharge =>
      cases hstep
      exact books_contractTax hconfig h hsigned hcharge
  | oracleReward amt =>
    simp only [step] at hstep
    split at hstep
    · cases hstep
      exact h
    · next hallowed =>
      split at hstep
      · cases hstep
        exact h
      · next hsend =>
        cases hstep
        have hamt : amt.entries.all (fun coin => 0 < coin.2) = true := by simpa using hallowed
        exact h.transfer hconfig (nonNeg_of_all hamt) hconfig.oracle hconfig.distribution hsend
  | params params =>
    obtain ⟨settings, _, hstep⟩ := Option.bind_eq_some_iff.mp hstep
    cases hstep
    exact ⟨h.sound, h.supply, h.burnAccount, h.proceeds⟩
  | beginBlock forks chainID height =>
    obtain ⟨settings, _, hstep⟩ := Option.bind_eq_some_iff.mp hstep
    cases hstep
    exact ⟨h.sound, h.supply, h.burnAccount, h.proceeds⟩
  | endBlock height => exact books_endBlock hconfig h hstep

/-! ### Runs -/

/-- The books of a run that starts with empty books. -/
theorem run_books (hconfig : ConfigOk config) {bank : BankState} {denoms : List Denom}
    (hsound : Sound denoms bank) {terraPoolDelta : Dec} {settings : Settings}
    {events : List Event} (hsigned : ∀ e ∈ events, e.Signed config) {s : State}
    (hrun : Run.run (step config) events (genesis bank denoms terraPoolDelta settings) = some s) :
    Books config (genesis bank denoms terraPoolDelta settings) s := by
  have hstart : Books config (genesis bank denoms terraPoolDelta settings)
      (genesis bank denoms terraPoolDelta settings) := by
    refine ⟨hsound, ?_, ?_, Coins.amountOf_empty⟩
    · intro denom
      show bank.supply denom = bank.supply denom - 0 - 0 + 0
      ring
    · intro denom
      show bank.balances _ denom = bank.balances _ denom + 0 - 0
      ring
  exact Run.run_invariant_along
    (fun s e s' hs' (he : e.Signed config) hs => step_books hconfig he hs' hs) hrun
    (Run.Along.of_mem hsigned _) hstart

/-- Along every run of transactions, transfers, swaps, contract taxes, rewards, changes of the
    market parameters, forks and end blocks:

    * the balances of every denom add up to its supply and none is negative;
    * the supply has changed by what end blocks and swaps burned and what swaps minted;
    * the burn account has what came in and was not burned yet, and the burn at the end of a
      block never panics and leaves nothing in it;
    * the recorded proceeds are the taxes recorded since the week began. -/
theorem ledger_run {config : BankConfig} (hconfig : ConfigOk config) {bank : BankState}
    {denoms : List Denom} (hsound : Sound denoms bank) (terraPoolDelta : Dec)
    (settings : Settings) {events : List Event} (hsigned : ∀ e ∈ events, e.Signed config)
    {s : State}
    (hrun : Run.run (step config) events (genesis bank denoms terraPoolDelta settings) = some s) :
    Books config (genesis bank denoms terraPoolDelta settings) s ∧
      ∃ bank', burnCoinsFromBurnAccount config s.denoms s.bank = some bank' ∧
        ∀ denom, bank'.balances (burnAddress config) denom = 0 ∧ bank'.supply denom =
          s.bank.supply denom - s.bank.balances (burnAddress config) denom := by
  have hbooks := run_books hconfig hsound hsigned hrun
  obtain ⟨bank', hburn, _, hbalances, hsupply⟩ := burnCoinsFromBurnAccount_ok hconfig hbooks.sound
  refine ⟨hbooks, bank', hburn, ?_⟩
  intro denom
  exact ⟨by rw [hbalances, if_pos rfl], hsupply denom⟩

end Books

/-! ### A small ledger, for examples -/

/-- An account with Luna and SDR. -/
def smallSupply (denom : Denom) : ℤ :=
  if denom = microLunaDenom then 10 ^ 12 else if denom = microSDRDenom then 10 ^ 9 else 0

def smallLedger : BankState where
  balances := fun addr denom => if addr = "a" then smallSupply denom else 0
  supply := smallSupply

/-- The default parameters, and the channels open. -/
def smallSettings : Settings where
  marketParams := Market.defaultParams
  channels := forkChannelIDs.foldl (fun channels id => channels.set id .opened) ∅

/-- A taxed send whose tax comes out of the fee, a send to the burn account, a swap, and the
    last block of a week. -/
def smallEvents : List Event :=
  [.send "a" "fee_collector" (Coins.ofCoin microSDRDenom (10 ^ 8)),
   .tx Ante.smallKeepers (Ante.smallContext false) (Ante.smallTx Ante.gasAndTaxFee),
   .send "a" "burn" (Coins.ofCoin microLunaDenom 1000),
   .swap Market.smallBech32 ⟨Market.defaultParams, Market.smallOracle, smallBankConfig⟩
    ⟨"terra1vynex3pr", ⟨microLunaDenom, 1000000⟩, microSDRDenom⟩,
   .endBlock ⟨100799, by decide⟩]

theorem smallLedger_sound : Sound [microLunaDenom, microSDRDenom] smallLedger where
  backed := fun denom => Conservation.backs_inAccount "a" (smallSupply denom)
  nonneg := by
    intro addr denom
    show 0 ≤ if addr = "a" then smallSupply denom else 0
    unfold smallSupply
    split_ifs <;> decide
  listed := by
    intro addr denom hdenom
    show (if addr = "a" then smallSupply denom else 0) = 0
    obtain ⟨hluna, hsdr⟩ : denom ≠ microLunaDenom ∧ denom ≠ microSDRDenom := by
      simpa using hdenom
    simp [smallSupply, hluna, hsdr]

theorem smallBankConfig_ok : ConfigOk smallBankConfig where
  locks := fun _ _ => le_rfl
  burnUnlocked := fun _ => rfl
  feeCollector := by decide
  oracle := by decide
  distribution := by decide

/-- The run burns the tax and the coins that were sent to the burn account. -/
theorem ledger_run_small :
    ∃ s, Run.run (step smallBankConfig) smallEvents
        (genesis smallLedger [microLunaDenom, microSDRDenom] Dec.zero smallSettings) = some s ∧
      s.flows.burned microSDRDenom = 10 ^ 7 ∧ s.flows.burned microLunaDenom = 1000 ∧
      s.bank.supply microLunaDenom = 10 ^ 12 - 1000 - 1000000 := by
  have hflows : (Run.run (step smallBankConfig) smallEvents
      (genesis smallLedger [microLunaDenom, microSDRDenom] Dec.zero smallSettings)).map (fun s =>
        (s.flows.burned microSDRDenom, s.flows.burned microLunaDenom,
          s.flows.offered microLunaDenom, s.flows.minted microLunaDenom)) =
      some (10 ^ 7, 1000, 1000000, 0) := by decide +kernel
  obtain ⟨s, hrun, hflows⟩ := Option.map_eq_some_iff.mp hflows
  obtain ⟨hsdr, hluna, hoffered, hminted⟩ := by simpa only [Prod.mk.injEq] using hflows
  have hsigned : ∀ e ∈ smallEvents, e.Signed smallBankConfig := by
    simp only [smallEvents, List.forall_mem_cons, Event.Signed]
    exact ⟨by decide, by decide, by decide, by decide, trivial, by simp⟩
  obtain ⟨hbooks, _⟩ :=
    ledger_run smallBankConfig_ok smallLedger_sound Dec.zero smallSettings hsigned hrun
  refine ⟨s, hrun, hsdr, hluna, ?_⟩
  rw [hbooks.supply, hluna, hoffered, hminted]
  decide

end TerraClassic.Chain
