import TerraClassic.Ante.OwnFee
import TerraClassic.Market.Pool
import TerraClassic.Wasm.Dispatch

/-! # The tax of contracts against the tax of transactions

    A transaction that pays the tax of its message as its fee has it split
    between the fee collector and the burn account, and recorded for the epoch.
    A contract that dispatches the same message pays the tax to the fee
    collector, where all of it stays, and nothing is recorded; for a `swap_send`
    of the Terra bindings it pays none.

    `contract_tax_iff`: the two agree on the messages that are not taxed, and on
    no other.
-/

namespace TerraClassic.Wasm

open Ante (Msg)
open Treasury (addTaxProceeds)

variable {W ω : Type}

/-- A transaction of one message whose fee is the tax of the message. -/
def taxTx (payer : AccAddr) (msg : Msg) (taxes : Coins) : Ante.FeeTx where
  msgs := [msg]
  gas := 0
  fee := Ante.coinsList taxes
  feePayer := payer
  feeGranter := none

/-- The message left the state that `checkDeductFee` leaves for a transaction of
    the contract that pays the tax of the message. -/
def TaxedAsTx (k : Keepers W ω) (contractAddr : AccAddr) (t : Taxing W) : Prop :=
  ∃ taxes charge, Ante.filterMsgAndComputeTax (k.ante t.before).treasury [t.msg] = some taxes ∧
    Ante.checkDeductFee (k.ante t.before) ⟨t.before.bank, t.before.taxProceeds⟩
      (taxTx contractAddr t.msg taxes) taxes false = .ok charge ∧
    t.after = { t.before with
      bank := charge.state.bank, taxProceeds := charge.state.taxProceeds }

/-- No tax is due on the message. -/
def Untaxed (k : Keepers W ω) (t : Taxing W) : Prop :=
  ∃ taxes, Ante.filterMsgAndComputeTax (k.ante t.before).treasury [t.msg] = some taxes ∧
    taxes.isZero = true

/-- The messages of the SDK that a message of a contract stands for. -/
def sdkMsgsOf (k : Keepers W ω) (s : State W) (contractAddr : AccAddr) : CosmosMsg ω → List Msg
  | .custom json =>
    match k.unmarshal json with
    | .ok ⟨some _, _⟩ => [.other swapTypeURL]
    | .ok ⟨none, some msg⟩ =>
      match k.bech32.accAddressFromBech32 msg.toAddress with
      | .ok toAddr => [.swapSend (msgSwapSend k contractAddr toAddr msg)]
      | .error _ => []
    | _ => []
  | .wasm msg =>
    match k.encode s contractAddr msg with
    | .ok msgs => msgs
    | .error _ => []

/-! ### What a contract is charged -/

/-- The state around a contract's tax: the proceeds stay, and without a tax so
    does everything else. -/
structure ContractTaxed (k : Keepers W ω) (t : Taxing W) : Prop where
  proceeds : t.after.taxProceeds = t.before.taxProceeds
  untaxed : Untaxed k t → t.after = t.before

theorem contractTaxed_refl (k : Keepers W ω) (msg : Msg) (s : State W) :
    ContractTaxed k ⟨msg, s, s⟩ := ⟨rfl, fun _ => rfl⟩

theorem contractTaxed_chargeTax {k : Keepers W ω} {s s' : State W} {contractAddr : AccAddr}
    {msg : Msg} (h : chargeTax k s contractAddr msg = .ok s') :
    ContractTaxed k ⟨msg, s, s'⟩ := by
  unfold chargeTax at h
  cases htax : Ante.filterMsgAndComputeTax (k.ante s).treasury [msg] with
  | none =>
    rw [htax] at h
    cases h
  | some taxes =>
    simp only [htax] at h
    by_cases hzero : taxes.isZero = true
    · rw [if_pos hzero] at h
      cases h
      exact contractTaxed_refl k msg s
    rw [if_neg hzero] at h
    split at h
    · cases h
    · obtain ⟨bank, _, h⟩ := Run.bind_eq_ok.mp h
      cases h
      refine ⟨rfl, ?_⟩
      intro ⟨taxes', htax', hzero'⟩
      cases htax.symm.trans htax'
      exact absurd hzero' hzero

/-- The loop over the encoded messages. -/
theorem foldlM_dispatchSdkMsg {k : Keepers W ω} {contractAddr : AccAddr} {msgs : List Msg}
    {acc acc' : State W × List (Taxing W)} (hacc : ∀ t ∈ acc.2, ContractTaxed k t)
    (h : msgs.foldlM (dispatchSdkMsg k contractAddr) acc = .ok acc') :
    acc'.2.map Taxing.msg = acc.2.map Taxing.msg ++ msgs ∧ ∀ t ∈ acc'.2, ContractTaxed k t := by
  induction msgs generalizing acc with
  | nil =>
    cases h
    exact ⟨by simp, hacc⟩
  | cons msg rest ih =>
    rw [List.foldlM_cons] at h
    obtain ⟨next, hnext, h⟩ := Run.bind_eq_ok.mp h
    obtain ⟨charged, hcharge, hnext⟩ := Run.bind_eq_ok.mp hnext
    obtain ⟨handled, _, hnext⟩ := Run.bind_eq_ok.mp hnext
    cases hnext
    -- the invariant of the loop: everything charged so far was charged so
    have hall : ∀ t ∈ acc.2 ++ [⟨msg, acc.1, charged⟩], ContractTaxed k t := by
      intro t ht
      rcases List.mem_append.mp ht with ht | ht
      · exact hacc t ht
      · cases List.mem_singleton.mp ht
        exact contractTaxed_chargeTax hcharge
    obtain ⟨hmsgs, htaxed⟩ := ih hall h
    refine ⟨?_, htaxed⟩
    rw [hmsgs]
    simp

/-- The messages of the SDK's encoders are run one by one; a message they do not know
    goes to the raw handlers and is not taxed. -/
theorem dispatchWasmMsg_ok {k : Keepers W ω} {s s' : State W} {contractAddr : AccAddr} {msg : ω}
    {taxings : List (Taxing W)}
    (h : dispatchWasmMsg k s contractAddr msg = .ok (s', taxings)) :
    taxings.map Taxing.msg = sdkMsgsOf k s contractAddr (.wasm msg) ∧
      ∀ t ∈ taxings, ContractTaxed k t := by
  unfold dispatchWasmMsg at h
  simp only [sdkMsgsOf]
  cases hencode : k.encode s contractAddr msg with
  | ok msgs =>
    simp only [hencode] at h ⊢
    exact foldlM_dispatchSdkMsg (fun _ ht => absurd ht List.not_mem_nil) h
  | error err =>
    simp only [hencode] at h ⊢
    split at h
    · next heq =>
      cases hraw : k.rawHandlers s contractAddr msg with
      | error err =>
        rw [hraw] at h
        cases h
      | ok s₁ =>
        rw [hraw] at h
        cases h
        exact ⟨rfl, fun _ ht => absurd ht List.not_mem_nil⟩
    · cases h
    · next heq => cases heq

/-- Every message that a dispatch ran was charged so, and they are the messages
    the dispatched one stands for. -/
theorem dispatchMsg_ok {k : Keepers W ω} {s s' : State W} {contractAddr : AccAddr}
    {msg : CosmosMsg ω} {taxings : List (Taxing W)}
    (h : dispatchMsg k s contractAddr msg = .ok (s', taxings)) :
    taxings.map Taxing.msg = sdkMsgsOf k s contractAddr msg ∧
      ∀ t ∈ taxings, ContractTaxed k t := by
  have hone : ∀ (msg : Msg), ∀ t ∈ [(⟨msg, s, s⟩ : Taxing W)], ContractTaxed k t := by
    intro msg t ht
    cases List.mem_singleton.mp ht
    exact contractTaxed_refl k msg s
  cases msg with
  | custom json =>
    simp only [dispatchMsg] at h
    simp only [sdkMsgsOf]
    cases hjson : k.unmarshal json with
    | error err =>
      rw [hjson] at h
      cases h
    | ok contractMsg =>
      obtain ⟨swap, swapSend⟩ := contractMsg
      cases swap with
      | some swap =>
        simp only [hjson] at h ⊢
        obtain ⟨s₁, _, h⟩ := Run.bind_eq_ok.mp h
        cases h
        exact ⟨rfl, hone _⟩
      | none =>
        cases swapSend with
        | none =>
          simp only [hjson] at h
          cases h
        | some swapSend =>
          simp only [hjson] at h ⊢
          obtain ⟨⟨s₁, msg⟩, hswap, h⟩ := Run.bind_eq_ok.mp h
          cases h
          refine ⟨?_, hone _⟩
          -- the message that was run is the one with the parsed address
          obtain ⟨toAddr, hto, hswap⟩ := Run.bind_eq_ok.mp (SdkError.mapError_eq_ok.mp hswap)
          obtain ⟨_, _, hswap⟩ := Run.bind_eq_ok.mp hswap
          obtain ⟨⟨m, response⟩, _, hswap⟩ := Run.bind_eq_ok.mp hswap
          cases hswap
          rw [SdkError.mapError_eq_ok.mp hto]
          rfl
  | wasm msg => exact dispatchWasmMsg_ok h

/-! ### The comparison -/

/-- A tax that is not zero has a coin. -/
theorem exists_amountOf_ne_zero {taxes : Coins} (h : taxes.isZero = false) :
    ∃ denom, taxes.amountOf denom ≠ 0 := by
  by_contra hnone
  rw [(Coins.isZero_iff taxes).mpr (fun d => by_contra fun hd => hnone ⟨d, hd⟩)] at h
  cases h

theorem feeIsZero_coinsList (taxes : Coins) :
    Ante.feeIsZero (Ante.coinsList taxes) = taxes.isZero := by
  unfold Ante.feeIsZero Ante.coinsList Coins.isZero
  rw [List.all_map]
  rfl

/-- Recording a tax that is not zero changes the proceeds. -/
theorem addTaxProceeds_ne {proceeds taxes : Coins} (h : taxes.isZero = false) :
    addTaxProceeds proceeds taxes ≠ some proceeds := by
  intro heq
  obtain ⟨denom, hne⟩ := exists_amountOf_ne_zero h
  have hamount := Treasury.addTaxProceeds_ok heq denom
  omega

/-- One message is taxed as in a transaction exactly when it is not taxed. -/
theorem taxedAsTx_iff {k : Keepers W ω} {contractAddr : AccAddr} {t : Taxing W}
    (hset : (k.ante t.before).feeCollectorSet = true)
    (hexists : (k.ante t.before).accountExists contractAddr = true) (ht : ContractTaxed k t) :
    TaxedAsTx k contractAddr t ↔ Untaxed k t := by
  constructor
  · intro ⟨taxes, charge, htax, hcharge, hafter⟩
    cases hzero : taxes.isZero with
    | true => exact ⟨taxes, htax, hzero⟩
    | false =>
      exfalso
      -- the transaction records the tax, the contract did not
      have hrecorded : addTaxProceeds t.before.taxProceeds taxes =
          some charge.state.taxProceeds := by
        obtain ⟨payer, _, hfee | ⟨bank, _, _, hnotax |
          ⟨burned, bank', taxProceeds, _, hrecord, rfl⟩⟩⟩ := Ante.checkDeductFee_ok hcharge
        · have hfee : taxes.isZero = true := (feeIsZero_coinsList taxes).symm.trans hfee.1
          rw [hzero] at hfee
          cases hfee
        · rw [hzero] at hnotax
          cases hnotax.1
        · exact hrecord
      have hkept : addTaxProceeds t.before.taxProceeds taxes = some t.before.taxProceeds := by
        rw [hrecorded, ← ht.proceeds, hafter]
      exact addTaxProceeds_ne hzero hkept
  -- without a tax both paths leave the state alone
  · intro hun
    obtain ⟨taxes, htax, hzero⟩ := hun
    refine ⟨taxes, ⟨∅, ∅, ⟨t.before.bank, t.before.taxProceeds⟩⟩, htax, ?_, ?_⟩
    · have hfee : Ante.feeIsZero (taxTx contractAddr t.msg taxes).fee = true :=
        (feeIsZero_coinsList taxes).trans hzero
      have hpayer : Ante.deductFeesFrom (k.ante t.before) (taxTx contractAddr t.msg taxes) =
          .ok contractAddr := rfl
      unfold Ante.checkDeductFee
      simp only [hset, hpayer, hfee]
      show (if (!(k.ante t.before).accountExists contractAddr) = true then _ else _) = _
      rw [hexists]
      rfl
    · exact ht.untaxed ⟨taxes, htax, hzero⟩

/-- A contract with an account dispatches a message.  It is charged, and the
    charge is split and recorded, as for the same messages sent in transactions
    exactly when no tax is due on any of them. -/
theorem contract_tax_iff {k : Keepers W ω} {s s' : State W} {contractAddr : AccAddr}
    {msg : CosmosMsg ω} {taxings : List (Taxing W)}
    (hset : ∀ t ∈ taxings, (k.ante t.before).feeCollectorSet = true)
    (hexists : ∀ t ∈ taxings, (k.ante t.before).accountExists contractAddr = true)
    (h : dispatchMsg k s contractAddr msg = .ok (s', taxings)) :
    taxings.map Taxing.msg = sdkMsgsOf k s contractAddr msg ∧
    ((∀ t ∈ taxings, TaxedAsTx k contractAddr t) ↔ ∀ t ∈ taxings, Untaxed k t) := by
  obtain ⟨hmsgs, htaxed⟩ := dispatchMsg_ok h
  refine ⟨hmsgs, forall₂_congr (fun t ht => ?_)⟩
  exact taxedAsTx_iff (hset t ht) (hexists t ht) (htaxed t ht)

/-! ### A small chain with a contract, for examples -/

/-- The codec of two addresses. -/
def twoAddresses : Bech32 where
  accAddressFromBech32 := fun s =>
    if s = "terra1vynex3pr" then .ok "a"
    else if s = "terra1vgz8qmsy" then .ok "b"
    else .error "decoding bech32 failed"
  valAddressFromBech32 := fun _ => .error "decoding bech32 failed"
  accAddressString := fun addr => if addr = "a" then "terra1vynex3pr" else "terra1vgz8qmsy"
  valAddressString := fun _ => "terravaloper1vy3vsmy0"

/-- `MsgSend`, as the bank handles it. -/
def handleSend (fromAddress toAddress : String) (amount : List Coin) (s : State Unit) :
    Except String (State Unit) := do
  let sender ← twoAddresses.accAddressFromBech32 fromAddress
  let recipient ← twoAddresses.accAddressFromBech32 toAddress
  let bank ← (s.bank.sendCoins smallBankConfig sender recipient
    (Ante.feeCoins amount)).mapError (fun _ => "insufficient funds")
  return { s with bank := bank }

/-- A `swap_send` of a million units of Luna for SDR. -/
def smallSwapSend : SwapSend where
  toAddress := "terra1vgz8qmsy"
  offerCoin := ⟨microLunaDenom, 1000000⟩
  askDenom := microSDRDenom

/-- Contract `a`; wasmd passes on messages of the SDK, the JSON `"swap_send"`
    stands for `smallSwapSend`, and the tax is one percent. -/
def smallWasm : Keepers Unit Msg where
  ante := fun _ => Ante.smallKeepers
  market := fun _ => ⟨Market.defaultParams, Market.smallOracle, smallBankConfig⟩
  bech32 := twoAddresses
  unmarshal := fun json =>
    if json = "swap_send" then .ok ⟨none, some smallSwapSend⟩ else .error "invalid character"
  encode := fun _ _ msg => .ok [msg]
  validateBasic := fun _ => .ok ()
  getSigners := fun _ => ["a"]
  router
    | .send fromAddress toAddress amount => some (handleSend fromAddress toAddress amount)
    | _ => none
  rawHandlers := fun _ _ _ => .error .unknownMsg

def smallWasmState : State Unit where
  bank := Ante.smallState.bank
  taxProceeds := ∅
  terraPoolDelta := Dec.zero
  world := ()

/-- A send of SDR by the contract. -/
def contractSend (amount : ℤ) : Msg :=
  .send "terra1vynex3pr" "terra1vgz8qmsy" [⟨microSDRDenom, amount⟩]

/-- The tax of ten units is truncated to nothing. -/
theorem contract_tax_small_send :
    ∃ s' taxings, dispatchMsg smallWasm smallWasmState "a" (.wasm (contractSend 10)) =
        .ok (s', taxings) ∧
      ∀ t ∈ taxings, TaxedAsTx smallWasm "a" t := by
  cases h : dispatchMsg smallWasm smallWasmState "a" (.wasm (contractSend 10)) with
  | error err =>
    have hok : (dispatchMsg smallWasm smallWasmState "a" (.wasm (contractSend 10))).toOption.isSome
        = true := by decide +kernel
    rw [h] at hok
    cases hok
  | ok result =>
    obtain ⟨s', taxings⟩ := result
    obtain ⟨hmsgs, hiff⟩ := contract_tax_iff (fun _ _ => rfl) (fun _ _ => rfl) h
    refine ⟨s', taxings, rfl, hiff.mpr ?_⟩
    intro t ht
    have hmsg : t.msg ∈ [contractSend 10] := by
      rw [show [contractSend 10] = taxings.map Taxing.msg from hmsgs.symm]
      exact List.mem_map_of_mem ht
    have htax : Ante.filterMsgAndComputeTax Ante.smallKeepers.treasury [contractSend 10] =
        some ∅ := by decide +kernel
    rw [Untaxed, List.mem_singleton.mp hmsg]
    exact ⟨∅, htax, rfl⟩

/-- What the contract, the fee collector and the burn account hold of a denom
    after a dispatch, and the recorded proceeds. -/
def balancesAfter (denom : Denom) (msg : CosmosMsg Msg) : Option (List ℤ) :=
  (dispatchMsg smallWasm smallWasmState "a" msg).toOption.map (fun result =>
    [result.1.bank.balances "a" denom, result.1.bank.balances "fee_collector" denom,
      result.1.bank.balances "burn" denom, result.1.taxProceeds.amountOf denom])

/-- The same after a transaction that pays the tax of the message. -/
def balancesAfterTx (denom : Denom) (msg : Msg) (taxes : Coins) : Option (List ℤ) :=
  (Ante.checkDeductFee Ante.smallKeepers Ante.smallState (taxTx "a" msg taxes) taxes
    false).toOption.map (fun charge =>
      [charge.state.bank.balances "a" denom, charge.state.bank.balances "fee_collector" denom,
        charge.state.bank.balances "burn" denom, charge.state.taxProceeds.amountOf denom])

/-- A contract with `10^9` units of everything sends `10^8` SDR units: its tax of
    `10^6` stays with the fee collector and is not recorded, where a transaction
    burns and records it.  For a `swap_send` of `10^6` Luna units it pays no tax
    at all, where the message is taxed `10^4`. -/
theorem contract_tax_fails :
    Ante.filterMsgAndComputeTax Ante.smallKeepers.treasury [contractSend (10 ^ 8)] =
      some (Coins.ofCoin microSDRDenom (10 ^ 6)) ∧
    balancesAfter microSDRDenom (.wasm (contractSend (10 ^ 8))) =
      some [10 ^ 9 - 10 ^ 6 - 10 ^ 8, 10 ^ 9 + 10 ^ 6, 10 ^ 9, 0] ∧
    balancesAfterTx microSDRDenom (contractSend (10 ^ 8)) (Coins.ofCoin microSDRDenom (10 ^ 6)) =
      some [10 ^ 9 - 10 ^ 6, 10 ^ 9, 10 ^ 9 + 10 ^ 6, 10 ^ 6] ∧
    Ante.filterMsgAndComputeTax Ante.smallKeepers.treasury
        (sdkMsgsOf smallWasm smallWasmState "a" (.custom "swap_send")) =
      some (Coins.ofCoin microLunaDenom (10 ^ 4)) ∧
    balancesAfter microLunaDenom (.custom "swap_send") =
      some [10 ^ 9 - 10 ^ 6, 10 ^ 9, 10 ^ 9, 0] := by
  decide +kernel

end TerraClassic.Wasm
