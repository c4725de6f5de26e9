import TerraClassic.Ante.TaxTree

/-! # The client's estimate of the tax

    `custom/auth/client/utils/feeutils.go` has a second `FilterMsgAndComputeTax`,
    with which wallets and the command line fill in the fee.  It asks the chain
    for the tax rate and, coin by coin, for the cap; it knows of no exemptions,
    and taxes the bond denom and IBC denoms too.

    `Covers` relates the sums of the two walks: the client's is at least the ante
    handler's in every denom.  Every step of the client that returns is matched
    by one of the ante handler that keeps the relation, so a fee that pays the
    estimate pays the tax (`client_covers`).
-/

namespace TerraClassic.Ante

namespace Client

/-! ### The client -/

/-- What ends the estimate: an error of a query, or a panic. -/
inductive ClientError where
  | query (text : String)
  | panicked
  deriving DecidableEq, Repr

def orPanic {α : Type} : Option α → Except ClientError α
  | some a => .ok a
  | none => .error .panicked

/-- `queryTaxRate`, answered by `TaxRate` of the querier. -/
def queryTaxRate (tk : TreasuryKeeper) : Except ClientError Dec := .ok tk.taxRate

/-- `queryTaxCap`, answered by `TaxCap` of the querier, which checks the denom. -/
def queryTaxCap (tk : TreasuryKeeper) (denom : Denom) : Except ClientError ℤ :=
  if !tk.validDenom denom then .error (.query "invalid denom") else .ok (getTaxCap tk denom)

/-- One coin of the loop in the client's `computeTax`. -/
def taxCoin (tk : TreasuryKeeper) (taxRate : Dec) (taxes : Coins) (coin : Coin) :
    Except ClientError Coins := do
  let taxCap ← queryTaxCap tk coin.denom
  let product ← orPanic ((Dec.ofInt coin.amount).mul taxRate)
  let taxDue := min product.truncateInt taxCap
  if taxDue = 0 then return taxes
  else if tk.validDenom coin.denom = true ∧ 0 ≤ taxDue then
    orPanic (taxes.checkedAdd (Coins.ofCoin coin.denom taxDue))
  else .error .panicked

/-- `computeTax` of the client. -/
def computeTax (tk : TreasuryKeeper) (taxRate : Dec) (principal : List Coin) :
    Except ClientError Coins :=
  principal.foldlM (taxCoin tk taxRate) ∅

/-- Add the tax of a list of coins. -/
def addTax (tk : TreasuryKeeper) (taxRate : Dec) (taxes : Coins) (principal : List Coin) :
    Except ClientError Coins := do
  let tax ← computeTax tk taxRate principal
  orPanic (taxes.checkedAdd tax)

mutual

/-- One message of the loop in the client's `FilterMsgAndComputeTax`. -/
def addMsgTax (tk : TreasuryKeeper) (taxRate : Dec) (taxes : Coins) :
    Msg → Except ClientError Coins
  | .send _ _ amount => addTax tk taxRate taxes amount
  | .multiSend inputs _ =>
    inputs.foldlM (fun taxes input => addTax tk taxRate taxes input.2) taxes
  | .exec unpacked messages =>
    if unpacked then do
      -- the call for the messages inside asks for the rate again
      let taxRate ← queryTaxRate tk
      let tax ← addMsgTaxes tk taxRate ∅ messages
      orPanic (taxes.checkedAdd tax)
    else .error .panicked
  | .swapSend msg => do
    let principal ← orPanic (newCoins tk msg.offerCoin)
    addTax tk taxRate taxes principal
  | .instantiateContract funds => addTax tk taxRate taxes funds
  | .instantiateContract2 funds => addTax tk taxRate taxes funds
  | .executeContract _ funds => addTax tk taxRate taxes funds
  | .aggregateExchangeRatePrevote _ => .ok taxes
  | .aggregateExchangeRateVote _ => .ok taxes
  | .other _ => .ok taxes

/-- The loop in the client's `FilterMsgAndComputeTax`. -/
def addMsgTaxes (tk : TreasuryKeeper) (taxRate : Dec) (taxes : Coins) :
    List Msg → Except ClientError Coins
  | [] => .ok taxes
  | msg :: rest => do
    let taxes ← addMsgTax tk taxRate taxes msg
    addMsgTaxes tk taxRate taxes rest

end

/-- `FilterMsgAndComputeTax` of the client. -/
def filterMsgAndComputeTax (tk : TreasuryKeeper) (msgs : List Msg) : Except ClientError Coins := do
  let taxRate ← queryTaxRate tk
  addMsgTaxes tk taxRate ∅ msgs

theorem orPanic_eq_ok {α : Type} {x : Option α} {a : α} : orPanic x = .ok a ↔ x = some a := by
  cases x with
  | none => simp [orPanic]
  | some b => simp [orPanic]

end Client

open Client (orPanic_eq_ok)

/-! ### The relation -/

/-- The client's sum is at least the ante handler's. -/
structure Covers (tk : TreasuryKeeper) (taxes estimate : Coins) : Prop where
  taxes_valid : ValidCoins tk taxes
  estimate_valid : ValidCoins tk estimate
  le : ∀ denom, taxes.amountOf denom ≤ estimate.amountOf denom

section

variable {tk : TreasuryKeeper} {taxes estimate estimate' : Coins}

/-- Valid coins are not negative. -/
theorem Covers.of_valid (h : ValidCoins tk estimate) : Covers tk ∅ estimate where
  taxes_valid := validCoins_empty tk
  estimate_valid := h
  le := fun denom => by
    rw [Coins.amountOf_empty]
    exact h.amountOf_nonneg denom

/-- Both add, the client at least as much. -/
theorem Covers.add (h : Covers tk taxes estimate) {tax tax' : Coins} (htax : Covers tk tax tax')
    (hadd : estimate.checkedAdd tax' = some estimate') :
    ∃ taxes', taxes.checkedAdd tax = some taxes' ∧ Covers tk taxes' estimate' := by
  obtain ⟨rfl, hfits⟩ := (checkedAdd_eq_some h.estimate_valid htax.estimate_valid).mp hadd
  have hle : ∀ denom, taxes.amountOf denom + tax.amountOf denom ≤
      estimate.amountOf denom + tax'.amountOf denom :=
    fun denom => add_le_add (h.le denom) (htax.le denom)
  -- the client's sum is within the bound, so the smaller one is
  refine ⟨taxes.add tax, (checkedAdd_eq_some h.taxes_valid htax.taxes_valid).mpr
    ⟨rfl, fun denom => (hle denom).trans_lt (hfits denom)⟩, h.taxes_valid.add htax.taxes_valid,
    h.estimate_valid.add htax.estimate_valid, ?_⟩
  intro denom
  rw [Coins.amountOf_add, Coins.amountOf_add]
  exact hle denom

/-- Only the client adds. -/
theorem Covers.grow (h : Covers tk taxes estimate) {tax' : Coins} (htax : ValidCoins tk tax')
    (hadd : estimate.checkedAdd tax' = some estimate') : Covers tk taxes estimate' := by
  obtain ⟨rfl, _⟩ := (checkedAdd_eq_some h.estimate_valid htax).mp hadd
  refine ⟨h.taxes_valid, h.estimate_valid.add htax, fun denom => ?_⟩
  rw [Coins.amountOf_add]
  have hle := h.le denom
  have hnonneg := htax.amountOf_nonneg denom
  omega

/-! ### The tax of a list of coins -/

/-- What the client does with one coin: it asks for a cap, and adds a tax that is due. -/
theorem client_taxCoin_cases {taxRate : Dec} {coin : Coin}
    (h : Client.taxCoin tk taxRate estimate coin = .ok estimate') :
    ∃ product, (Dec.ofInt coin.amount).mul taxRate = some product ∧
      (min product.truncateInt (getTaxCap tk coin.denom) = 0 ∧ estimate' = estimate ∨
        tk.validDenom coin.denom = true ∧
          0 < min product.truncateInt (getTaxCap tk coin.denom) ∧
          estimate.checkedAdd (Coins.ofCoin coin.denom
            (min product.truncateInt (getTaxCap tk coin.denom))) = some estimate') := by
  obtain ⟨taxCap, hcap, h⟩ := Run.bind_eq_ok.mp h
  obtain ⟨product, hproduct, h⟩ := Run.bind_eq_ok.mp h
  have hcap : taxCap = getTaxCap tk coin.denom := by
    unfold Client.queryTaxCap at hcap
    split at hcap
    · cases hcap
    · exact (Except.ok.inj hcap).symm
  subst hcap
  refine ⟨product, orPanic_eq_ok.mp hproduct, ?_⟩
  by_cases hzero : min product.truncateInt (getTaxCap tk coin.denom) = 0
  · simp only [if_pos hzero] at h
    exact Or.inl ⟨hzero, (Except.ok.inj h).symm⟩
  · simp only [if_neg hzero] at h
    split at h
    · next hdue =>
      exact Or.inr ⟨hdue.1, lt_of_le_of_ne hdue.2 (Ne.symm hzero), orPanic_eq_ok.mp h⟩
    · cases h

/-- One coin. -/
theorem covers_taxCoin {coin : Coin} (hcovers : Covers tk taxes estimate)
    (h : Client.taxCoin tk tk.taxRate estimate coin = .ok estimate') :
    ∃ taxes', taxCoin tk taxes coin = some taxes' ∧ Covers tk taxes' estimate' := by
  obtain ⟨product, hproduct, hcase⟩ := client_taxCoin_cases h
  -- a denom that the ante handler leaves out
  have hgrow : Covers tk taxes estimate' := by
    rcases hcase with ⟨_, rfl⟩ | ⟨hdenom, hpos, hadd⟩
    · exact hcovers
    · exact hcovers.grow (validCoins_ofCoin hdenom hpos) hadd
  unfold taxCoin
  split
  · exact ⟨taxes, rfl, hgrow⟩
  split
  · exact ⟨taxes, rfl, hgrow⟩
  rw [hproduct]
  simp only [Option.bind_eq_bind, Option.bind_some]
  rcases hcase with ⟨hzero, rfl⟩ | ⟨hdenom, hpos, hadd⟩
  · rw [if_pos hzero]
    exact ⟨taxes, rfl, hcovers⟩
  · rw [if_neg hpos.ne', if_pos ⟨hdenom, hpos.le⟩]
    have hvalid := validCoins_ofCoin hdenom hpos
    exact hcovers.add ⟨hvalid, hvalid, fun _ => le_rfl⟩ hadd

theorem covers_computeTax {principal : List Coin}
    (h : Client.computeTax tk tk.taxRate principal = .ok estimate) :
    ∃ taxes, computeTax tk principal = some taxes ∧ Covers tk taxes estimate := by
  have hloop : ∃ taxes, principal.foldlM (taxCoin tk) ∅ = some taxes ∧ Covers tk taxes estimate :=
    Run.foldlM_simulates (f := Client.taxCoin tk tk.taxRate) (g := taxCoin tk) (R := Covers tk)
      (fun _ _ _ _ hcovers hcoin => covers_taxCoin hcovers hcoin)
      (Covers.of_valid (validCoins_empty tk)) h
  obtain ⟨taxes, htaxes, hcovers⟩ := hloop
  unfold computeTax
  split
  · exact ⟨∅, rfl, Covers.of_valid hcovers.estimate_valid⟩
  · exact ⟨taxes, htaxes, hcovers⟩

/-! ### The messages -/

/-- The tax of a list of coins, where the ante handler adds it and where it does not. -/
theorem covers_addTax {principal : List Coin} (hcovers : Covers tk taxes estimate)
    (h : Client.addTax tk tk.taxRate estimate principal = .ok estimate') :
    Covers tk taxes estimate' ∧
      ∃ taxes', (computeTax tk principal).bind taxes.checkedAdd = some taxes' ∧
        Covers tk taxes' estimate' := by
  obtain ⟨tax', htax', hadd⟩ := Run.bind_eq_ok.mp h
  obtain ⟨tax, htax, hcoverTax⟩ := covers_computeTax htax'
  have hadd := orPanic_eq_ok.mp hadd
  rw [htax]
  exact ⟨hcovers.grow hcoverTax.estimate_valid hadd, hcovers.add hcoverTax hadd⟩

theorem covers_inputs {inputs : List (String × List Coin)} (hcovers : Covers tk taxes estimate)
    (h : inputs.foldlM (fun taxes input => Client.addTax tk tk.taxRate taxes input.2) estimate =
      .ok estimate') :
    Covers tk taxes estimate' ∧
      ∃ taxes', addInputTaxes tk taxes inputs = some taxes' ∧ Covers tk taxes' estimate' := by
  constructor
  · exact Run.foldlM_ok (I := Covers tk taxes)
      (fun _ _ _ hinput hcovers => (covers_addTax hcovers hinput).1) h hcovers
  · refine Run.foldlM_simulates (R := Covers tk) ?_ hcovers h
    intro input taxes estimate estimate' hcovers hinput
    exact (covers_addTax hcovers hinput).2

end

mutual

/-- Every message that the client gets through, the ante handler gets through. -/
theorem covers_addMsgTax {tk : TreasuryKeeper} : ∀ (msg : Msg) {taxes estimate estimate' : Coins},
    Covers tk taxes estimate → Client.addMsgTax tk tk.taxRate estimate msg = .ok estimate' →
    ∃ taxes', addMsgTax tk taxes msg = some taxes' ∧ Covers tk taxes' estimate'
  | .send fromAddress toAddress amount, taxes, _, _, hcovers, h => by
    obtain ⟨hgrow, hadd⟩ := covers_addTax hcovers h
    simp only [addMsgTax]
    split
    · exact ⟨taxes, rfl, hgrow⟩
    · exact hadd
  | .multiSend inputs outputs, taxes, _, _, hcovers, h => by
    obtain ⟨hgrow, hadd⟩ := covers_inputs hcovers h
    simp only [addMsgTax]
    split
    · exact hadd
    · exact ⟨taxes, rfl, hgrow⟩
  | .swapSend msg, _, _, _, hcovers, h => by
    obtain ⟨principal, hprincipal, h⟩ := Run.bind_eq_ok.mp h
    simp only [addMsgTax]
    rw [orPanic_eq_ok.mp hprincipal]
    exact (covers_addTax hcovers h).2
  | .instantiateContract funds, _, _, _, hcovers, h => (covers_addTax hcovers h).2
  | .instantiateContract2 funds, _, _, _, hcovers, h => (covers_addTax hcovers h).2
  | .executeContract contract funds, taxes, _, _, hcovers, h => by
    obtain ⟨hgrow, hadd⟩ := covers_addTax hcovers h
    simp only [addMsgTax]
    split
    · exact ⟨taxes, rfl, hgrow⟩
    · exact hadd
  | .exec true messages, taxes, _, _, hcovers, h => by
    obtain ⟨taxRate, hrate, h⟩ := Run.bind_eq_ok.mp h
    cases hrate
    obtain ⟨tax', htax', hadd⟩ := Run.bind_eq_ok.mp h
    obtain ⟨tax, htax, hcoverTax⟩ :=
      covers_addMsgTaxes messages (Covers.of_valid (validCoins_empty tk)) htax'
    show ∃ taxes', ((addMsgTaxes tk ∅ messages).bind taxes.checkedAdd) = some taxes' ∧ _
    rw [htax]
    exact hcovers.add hcoverTax (orPanic_eq_ok.mp hadd)
  | .exec false _, _, _, _, _, h => by cases h
  | .aggregateExchangeRatePrevote _, taxes, _, _, hcovers, h => by
    cases h
    exact ⟨taxes, rfl, hcovers⟩
  | .aggregateExchangeRateVote _, taxes, _, _, hcovers, h => by
    cases h
    exact ⟨taxes, rfl, hcovers⟩
  | .other _, taxes, _, _, hcovers, h => by
    cases h
    exact ⟨taxes, rfl, hcovers⟩

/-- So does a list of messages. -/
theorem covers_addMsgTaxes {tk : TreasuryKeeper} : ∀ (msgs : List Msg)
    {taxes estimate estimate' : Coins}, Covers tk taxes estimate →
    Client.addMsgTaxes tk tk.taxRate estimate msgs = .ok estimate' →
    ∃ taxes', addMsgTaxes tk taxes msgs = some taxes' ∧ Covers tk taxes' estimate'
  | [], taxes, _, _, hcovers, h => by
    cases h
    exact ⟨taxes, rfl, hcovers⟩
  | msg :: rest, taxes, _, _, hcovers, h => by
    obtain ⟨estimate₁, hmsg, hrest⟩ := Run.bind_eq_ok.mp h
    obtain ⟨taxes₁, htaxes₁, hcovers₁⟩ := covers_addMsgTax msg hcovers hmsg
    show ∃ taxes', ((addMsgTax tk taxes msg).bind (addMsgTaxes tk · rest)) = some taxes' ∧ _
    rw [htaxes₁]
    exact covers_addMsgTaxes rest hcovers₁ hrest

end

/-- For every treasury and every list of messages: where the client's estimate returns, so does
    the ante handler's tax, and the estimate is at least the tax in every denom. -/
theorem client_covers (tk : TreasuryKeeper) (msgs : List Msg) (estimate : Coins)
    (h : Client.filterMsgAndComputeTax tk msgs = .ok estimate) :
    ∃ taxes, filterMsgAndComputeTax tk msgs = some taxes ∧
      ∀ denom, taxes.amountOf denom ≤ estimate.amountOf denom := by
  obtain ⟨taxes, htaxes, hcovers⟩ :=
    covers_addMsgTaxes msgs (Covers.of_valid (validCoins_empty tk)) h
  exact ⟨taxes, htaxes, hcovers.le⟩

/-- One percent; two exempt accounts. -/
def onePercent : TreasuryKeeper :=
  { fullTax with taxRate := Dec.withPrec 1 2, burnTaxExemptionList := ["a", "b"] }

/-- A send between exempt accounts two levels down, and one of the bond denom: the client
    taxes them, the ante handler taxes the contract's funds only. -/
theorem client_covers_nested :
    let msgs : List Msg := [.exec true [.exec true [.send "a" "b" [⟨"uusd", 1000⟩]],
      .executeContract "c" [⟨"uusd", 500⟩]], .send "a" "d" [⟨"stake", 700⟩]]
    ∃ estimate taxes, Client.filterMsgAndComputeTax onePercent msgs = .ok estimate ∧
      filterMsgAndComputeTax onePercent msgs = some taxes ∧
      estimate.amountOf "uusd" = 15 ∧ estimate.amountOf "stake" = 7 ∧
      ∀ denom, taxes.amountOf denom ≤ estimate.amountOf denom := by
  intro msgs
  have hestimate : Client.filterMsgAndComputeTax onePercent msgs =
      .ok (((∅ : Coins).set "uusd" 15).set "stake" 7) := by decide +kernel
  obtain ⟨taxes, htaxes, hle⟩ := client_covers onePercent msgs _ hestimate
  exact ⟨_, taxes, hestimate, htaxes, by decide +kernel, by decide +kernel, hle⟩

end TerraClassic.Ante
