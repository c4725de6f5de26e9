import TerraClassic.Ante.BurnSplit
import TerraClassic.Ante.ClientTax

/-! # The fee that the client fills in

    `ComputeFeesWithCmd` of `custom/auth/client/utils/feeutils.go` adds up the fees given on
    the command line, the client's estimate of the tax and, where gas prices are given, the
    price of the gas, rounded up.  The fee decorator of a node asks for the gas at its own
    prices and for the tax.

    * `Offers`: the client offers each of the node's minimum gas prices.
    * `client_fee_accepted`: then the node accepts the fee and can take its own tax from it,
      which is at most the client's estimate.
-/

namespace TerraClassic.Ante

open SdkError (orPanic orPanic_eq_ok mapError_eq_ok)
open Treasury (addTaxProceeds)

namespace Client

/-! ### The client -/

/-- What the command line has of a transaction. -/
structure Factory where
  accountNumber : UInt64
  sequence : UInt64
  gas : UInt64
  /-- The float `GasAdjustment`, converted to `int64`. -/
  gasAdjustment : ℤ
  fees : Coins
  gasPrices : DecCoins
  simulateAndExecute : Bool

/-- What the client asks of a node besides the treasury: the account that signs, and a
    simulated run of the messages, whose gas comes adjusted. -/
structure Node where
  ensureExists : Except ClientError Unit
  getAccountNumberSequence : Except ClientError (UInt64 × UInt64)
  calculateGas : Factory → List Msg → Except ClientError UInt64

/-- What the client fills into the transaction. -/
structure StdFee where
  amount : Coins
  gas : UInt64
  deriving DecidableEq

/-- `prepareFactory`. -/
def prepareFactory (node : Node) (txf : Factory) : Except ClientError Factory := do
  node.ensureExists
  if txf.accountNumber = 0 ∨ txf.sequence = 0 then
    let (num, seq) ← node.getAccountNumberSequence
    return { txf with
      accountNumber := if txf.accountNumber = 0 then num else txf.accountNumber
      sequence := if txf.sequence = 0 then seq else txf.sequence }
  else return txf

/-- The gas limit: simulated, or as given. -/
def gasLimit (node : Node) (txf : Factory) (msgs : List Msg) : Except ClientError UInt64 :=
  if txf.simulateAndExecute then do
    let txf ← prepareFactory node txf
    node.calculateGas txf msgs
  else .ok txf.gas

/-- The gas adjustment as a decimal, at least one. -/
def adjustment (txf : Factory) : Dec :=
  max (Dec.withPrec (toInt64 (txf.gasAdjustment * 100)) 2) Dec.one

/-- One coin of `gasFees`. -/
def gasFee (validDenom : Denom → Bool) (gas : UInt64) (adjustment : Dec) (gasFees : Coins)
    (price : Denom × Dec) : Option Coins := do
  let fee ← price.2.mul (Dec.ofInt (toInt64 gas.toNat))
  let fee ← fee.mul adjustment
  if validDenom price.1 = true ∧ 0 ≤ ceilInt fee then
    return gasFees.set price.1 (ceilInt fee)
  else failure

/-- `ComputeFeesWithCmd`. -/
def computeFeesWithCmd (tk : TreasuryKeeper) (node : Node) (txf : Factory) (msgs : List Msg) :
    Except ClientError StdFee := do
  let gas ← gasLimit node txf msgs
  let taxes ← filterMsgAndComputeTax tk msgs
  let fees ← orPanic (txf.fees.checkedAdd taxes)
  if txf.gasPrices.entries.all (fun price => price.2.isZero) then return ⟨fees, gas⟩
  else
    let gasFees ← orPanic
      (txf.gasPrices.entries.foldlM (gasFee tk.validDenom gas (adjustment txf)) ∅)
    let fees ← orPanic (fees.checkedAdd gasFees)
    return ⟨fees, gas⟩

end Client

/-- The node's minimum gas prices are valid, and the client offers each of them. -/
structure Offers (validDenom : Denom → Bool) (minGasPrices gasPrices : DecCoins) : Prop where
  valid : ∀ denom price, minGasPrices.get denom = some price →
    validDenom denom = true ∧ 0 ≤ price.i
  le : ∀ denom price, minGasPrices.get denom = some price →
    price ≤ gasPrices.getD denom Dec.zero

/-! ### The price of gas -/

/-- `ceil(price * gas)` in raw units. -/
def gasCost (gas price : ℤ) : ℤ := ceilInt ⟨price * gas⟩

/-- The same, adjusted. -/
def adjustedCost (gas adjustment price : ℤ) : ℤ :=
  ceilInt ⟨Dec.chopPrecisionAndRound (price * gas * adjustment)⟩

theorem ceilInt_mono {x y : Dec} (h : x.i ≤ y.i) : ceilInt x ≤ ceilInt y :=
  neg_le_neg (Int.ediv_le_ediv Dec.decOne_posInt (neg_le_neg h))

theorem ceilInt_nonneg {x : Dec} (h : 0 ≤ x.i) : 0 ≤ ceilInt x := by
  have hzero : ceilInt ⟨0⟩ = 0 := by decide
  exact hzero ▸ ceilInt_mono (x := ⟨0⟩) h

theorem ceilInt_nonpos {x : Dec} (h : x.i ≤ 0) : ceilInt x ≤ 0 := by
  have hzero : ceilInt ⟨0⟩ = 0 := by decide
  exact hzero ▸ ceilInt_mono (y := ⟨0⟩) h

/-- Where the client pays for the gas, a lower price without the adjustment costs at most as
    much. -/
theorem gasCost_le {gas adjustment minPrice price : ℤ} (hmin : 0 ≤ minPrice)
    (hle : minPrice ≤ price) (hadj : decOne ≤ adjustment)
    (hpays : 0 ≤ adjustedCost gas adjustment price) :
    0 ≤ gasCost gas minPrice ∧ gasCost gas minPrice ≤ adjustedCost gas adjustment price := by
  have hone : Dec.chopPrecisionAndRound (price * gas * decOne) = price * gas := by
    rw [mul_comm]
    exact Dec.chop_mul _
  rcases le_or_gt 0 gas with hgas | hgas
  · -- rounding keeps the order, and an adjustment of at least one only adds
    have hscaled : minPrice * gas ≤ Dec.chopPrecisionAndRound (price * gas * adjustment) := by
      calc minPrice * gas ≤ price * gas := mul_le_mul_of_nonneg_right hle hgas
        _ = Dec.chopPrecisionAndRound (price * gas * decOne) := hone.symm
        _ ≤ Dec.chopPrecisionAndRound (price * gas * adjustment) :=
          Rounding.roundHalfEven_mono decOne
            (mul_le_mul_of_nonneg_left hadj (mul_nonneg (hmin.trans hle) hgas))
    exact ⟨ceilInt_nonneg (mul_nonneg hmin hgas), ceilInt_mono hscaled⟩
  · -- a gas limit that wrapped: the client passes only if its cost rounds up to zero
    have hnonpos : gasCost gas minPrice ≤ 0 :=
      ceilInt_nonpos (mul_nonpos_of_nonneg_of_nonpos hmin hgas.le)
    have hscaled : Dec.chopPrecisionAndRound (price * gas * adjustment) ≤ minPrice * gas := by
      calc Dec.chopPrecisionAndRound (price * gas * adjustment)
          ≤ Dec.chopPrecisionAndRound (price * gas * decOne) :=
            Rounding.roundHalfEven_mono decOne (mul_le_mul_of_nonpos_left hadj
              (mul_nonpos_of_nonneg_of_nonpos (hmin.trans hle) hgas.le))
        _ = price * gas := hone
        _ ≤ minPrice * gas := mul_le_mul_of_nonpos_right hle hgas.le
    have hcost : adjustedCost gas adjustment price ≤ gasCost gas minPrice := ceilInt_mono hscaled
    omega

theorem fits_gasCost {gas minPrice price : ℤ} (hmin : 0 ≤ minPrice) (hle : minPrice ≤ price)
    (h : Dec.Fits (price * gas)) : Dec.Fits (minPrice * gas) := by
  unfold Dec.Fits at *
  rw [Int.natAbs_mul] at *
  exact lt_of_le_of_lt (Nat.mul_le_mul_right _ (by omega)) h

/-- Multiplying by a whole number is exact. -/
theorem returns_mul_ofInt (price : Dec) (gas : ℤ) :
    Returns (price.mul (Dec.ofInt gas)) (Dec.Fits (price.i * gas)) ⟨price.i * gas⟩ := by
  have hchop : Dec.chopPrecisionAndRound (price.i * (Dec.ofInt gas).i) = price.i * gas := by
    show Dec.chopPrecisionAndRound (price.i * (gas * decOne)) = _
    rw [show price.i * (gas * decOne) = decOne * (price.i * gas) by ring]
    exact Dec.chop_mul _
  have hmul := Dec.returns_mul price (Dec.ofInt gas)
  rwa [hchop] at hmul

/-- When a loop over gas prices returns, and with which amounts. -/
theorem returns_guard {validDenom : Denom → Bool} {denom : Denom} {amount : ℤ} (coins : Coins) :
    Returns (if validDenom denom = true ∧ 0 ≤ amount then some (coins.set denom amount) else none)
      (validDenom denom = true ∧ 0 ≤ amount) (coins.set denom amount) :=
  ⟨fun h => if_pos h, fun h => if_neg h⟩

section Loops

variable {k : Keepers} {gas : UInt64}

/-- The node's loop. -/
theorem returns_requiredGasFees (minGasPrices : DecCoins) :
    Returns (minGasPrices.entries.foldlM (requiredGasFee k gas) ∅)
      (∀ price ∈ minGasPrices.entries, Dec.Fits (price.2.i * toInt64 gas.toNat) ∧
        k.bank.validDenom price.1 = true ∧ 0 ≤ gasCost (toInt64 gas.toNat) price.2.i)
      (minGasPrices.mapVal (fun price => gasCost (toInt64 gas.toNat) price.i)) := by
  rw [← SortedMap.foldl_set_mapVal]
  refine Returns.foldlM (fun price _ required => ?_) ∅
  exact (returns_mul_ofInt price.2 _).bind (fun _ => returns_guard required)

/-- The client's loop. -/
theorem returns_gasFees (validDenom : Denom → Bool) (adjustment : Dec) (gasPrices : DecCoins) :
    Returns (gasPrices.entries.foldlM (Client.gasFee validDenom gas adjustment) ∅)
      (∀ price ∈ gasPrices.entries, Dec.Fits (price.2.i * toInt64 gas.toNat) ∧
        Dec.Fits (Dec.chopPrecisionAndRound
          (price.2.i * toInt64 gas.toNat * adjustment.i)) ∧
        validDenom price.1 = true ∧
        0 ≤ adjustedCost (toInt64 gas.toNat) adjustment.i price.2.i)
      (gasPrices.mapVal (fun price =>
        adjustedCost (toInt64 gas.toNat) adjustment.i price.i)) := by
  rw [← SortedMap.foldl_set_mapVal]
  refine Returns.foldlM (fun price _ gasFees => ?_) ∅
  exact (returns_mul_ofInt price.2 _).bind (fun _ =>
    (Dec.returns_mul _ adjustment).bind (fun _ => returns_guard gasFees))

/-- With every gas price at zero nothing is asked for. -/
theorem requiredGasFees_free {ctx : Context} {gasPrices : DecCoins}
    (hoffers : Offers k.bank.validDenom ctx.minGasPrices gasPrices)
    (hfree : gasPrices.entries.all (fun price => price.2.isZero) = true) :
    requiredGasFees k ctx gas = some ∅ := by
  refine if_pos (List.all_eq_true.mpr ?_)
  intro price hprice
  have hget := SortedMap.mem_entries.mp hprice
  -- the node's price is at most the client's, which is zero or missing
  have hle : price.2.i ≤ 0 := by
    have hoffer : price.2.i ≤ (gasPrices.getD price.1 Dec.zero).i := hoffers.le _ _ hget
    unfold SortedMap.getD at hoffer
    cases hclient : gasPrices.get price.1 with
    | none =>
      rw [hclient] at hoffer
      exact hoffer
    | some offered =>
      rw [hclient] at hoffer
      have hzero := List.all_eq_true.mp hfree _ (SortedMap.mem_entries.mpr hclient)
      have hzero : offered.i = 0 := by simpa [Dec.isZero] using hzero
      exact hoffer.trans hzero.le
  have hzero : price.2.i = 0 := le_antisymm hle (hoffers.valid _ _ hget).2
  simp [Dec.isZero, hzero]

/-- The client's loop has put in the adjusted cost of each gas price. -/
theorem gasFees_ok {validDenom : Denom → Bool} {adjustment : Dec} {gasPrices : DecCoins}
    {gasFees : Coins}
    (h : gasPrices.entries.foldlM (Client.gasFee validDenom gas adjustment) ∅ = some gasFees) :
    (∀ denom amount, gasFees.get denom = some amount → validDenom denom = true ∧ 0 ≤ amount) ∧
      ∀ denom offered, gasPrices.get denom = some offered →
        Dec.Fits (offered.i * toInt64 gas.toNat) ∧ gasFees.get denom =
          some (adjustedCost (toInt64 gas.toNat) adjustment.i offered.i) := by
  have hclient : Returns (gasPrices.entries.foldlM (Client.gasFee validDenom gas adjustment) ∅)
    _ _ := returns_gasFees validDenom adjustment gasPrices
  have hpays := hclient.isSome_iff.mp (by rw [h]; rfl)
  obtain rfl : _ = gasFees := Option.some.inj ((hclient.1 hpays).symm.trans h)
  constructor
  · intro denom amount hget
    rw [SortedMap.get_mapVal] at hget
    obtain ⟨offered, hoffered, rfl⟩ := Option.map_eq_some_iff.mp hget
    exact (hpays _ (SortedMap.mem_entries.mpr hoffered)).2.2
  · intro denom offered hoffered
    refine ⟨(hpays _ (SortedMap.mem_entries.mpr hoffered)).1, ?_⟩
    rw [SortedMap.get_mapVal, hoffered]
    rfl

theorem amountOf_nonneg_of_get {c : Coins}
    (h : ∀ denom amount, c.get denom = some amount → 0 ≤ amount) (denom : Denom) :
    0 ≤ c.amountOf denom := by
  cases hget : c.get denom with
  | none => rw [Coins.amountOf_of_get_none hget]
  | some amount =>
    rw [Coins.amountOf_of_get hget]
    exact h denom amount hget

/-- What the node asks for the gas is at most what the client puts in for it. -/
theorem requiredGasFees_le {ctx : Context} {gasPrices : DecCoins} {adjustment : Dec}
    (hoffers : Offers k.bank.validDenom ctx.minGasPrices gasPrices)
    (hadj : Dec.one ≤ adjustment) {validDenom : Denom → Bool} {gasFees : Coins}
    (h : gasPrices.entries.foldlM (Client.gasFee validDenom gas adjustment) ∅ = some gasFees) :
    ∃ required, requiredGasFees k ctx gas = some required ∧
      ∀ denom, 0 ≤ required.amountOf denom ∧
        required.amountOf denom ≤ gasFees.amountOf denom := by
  obtain ⟨hvalid, hcosts⟩ := gasFees_ok h
  have hnonneg : ∀ denom, 0 ≤ gasFees.amountOf denom :=
    amountOf_nonneg_of_get (fun denom amount hget => (hvalid denom amount hget).2)
  -- price by price: the client offers at least as much, or the node asks for nothing
  have hprice : ∀ denom price, ctx.minGasPrices.get denom = some price →
      Dec.Fits (price.i * toInt64 gas.toNat) ∧ 0 ≤ gasCost (toInt64 gas.toNat) price.i ∧
        gasCost (toInt64 gas.toNat) price.i ≤ gasFees.amountOf denom := by
    intro denom price hget
    have hmin := (hoffers.valid _ _ hget).2
    have hoffer : price.i ≤ (gasPrices.getD denom Dec.zero).i := hoffers.le _ _ hget
    unfold SortedMap.getD at hoffer
    cases hoffered : gasPrices.get denom with
    | none =>
      -- no offer is an offer of zero, so the node's price is zero
      rw [hoffered] at hoffer
      have hzero : price.i = 0 := le_antisymm hoffer hmin
      have hfree : gasCost (toInt64 gas.toNat) price.i = 0 := by
        unfold gasCost
        rw [hzero, zero_mul]
        decide
      rw [hfree, hzero, zero_mul]
      exact ⟨Dec.fits_zero, le_rfl, hnonneg denom⟩
    | some offered =>
      rw [hoffered] at hoffer
      obtain ⟨hfits, hcost⟩ := hcosts denom offered hoffered
      rw [Coins.amountOf_of_get hcost]
      exact ⟨fits_gasCost hmin hoffer hfits,
        gasCost_le hmin hoffer hadj (hvalid denom _ hcost).2⟩
  unfold requiredGasFees
  split
  · exact ⟨∅, rfl, fun denom => ⟨le_rfl, hnonneg denom⟩⟩
  · refine ⟨_, (returns_requiredGasFees ctx.minGasPrices).1 ?_, ?_⟩
    · intro price hmem
      have hget := SortedMap.mem_entries.mp hmem
      obtain ⟨hfits, hcost, _⟩ := hprice _ _ hget
      exact ⟨hfits, (hoffers.valid _ _ hget).1, hcost⟩
    · intro denom
      cases hget : (ctx.minGasPrices.mapVal (fun price =>
          gasCost (toInt64 gas.toNat) price.i)).get denom with
      | none =>
        rw [Coins.amountOf_of_get_none hget]
        exact ⟨le_rfl, hnonneg denom⟩
      | some cost =>
        rw [Coins.amountOf_of_get hget]
        rw [SortedMap.get_mapVal] at hget
        obtain ⟨price, hmin, rfl⟩ := Option.map_eq_some_iff.mp hget
        exact (hprice _ _ hmin).2

end Loops

/-! ### Fees that the client makes -/

section Fees

variable {tk : TreasuryKeeper}

/-- Valid coins stay valid when amounts that are not negative are added. -/
theorem ValidCoins.add_nonneg {a b : Coins} (ha : ValidCoins tk a)
    (hb : ∀ denom amount, b.get denom = some amount → tk.validDenom denom = true ∧ 0 ≤ amount) :
    ValidCoins tk (a.add b) := by
  intro denom x hget
  have hsum := Coins.amountOf_add a b denom
  rw [Coins.amountOf_of_get hget] at hsum
  have hne := Coins.noZero_add a b denom x hget
  have hpos := ha.amountOf_nonneg denom
  -- a stored sum is not zero, so it is positive
  cases hadded : b.get denom with
  | none =>
    rw [Coins.amountOf_of_get_none hadded] at hsum
    exact ⟨ha.valid_of_pos (by omega), by omega⟩
  | some amount =>
    obtain ⟨hdenom, hamount⟩ := hb denom amount hadded
    rw [Coins.amountOf_of_get hadded] at hsum
    exact ⟨hdenom, by omega⟩

/-- What a fee written as a list pays. -/
theorem feeAmount_coinsList (c : Coins) (denom : Denom) :
    feeAmount (coinsList c) denom = c.amountOf denom := by
  rw [← Coins.filter_sum_entries]
  unfold feeAmount coinsList
  rw [List.filter_map, List.map_map]
  rfl

/-- What the client has filled in: the given fees, the estimate of the tax, and at positive gas
    prices the cost of the gas. -/
theorem computeFeesWithCmd_ok {node : Client.Node} {txf : Client.Factory} {msgs : List Msg}
    {stdFee : Client.StdFee} (hfees : ValidCoins tk txf.fees)
    (h : Client.computeFeesWithCmd tk node txf msgs = .ok stdFee) :
    ∃ taxes estimate, filterMsgAndComputeTax tk msgs = some taxes ∧
      Client.filterMsgAndComputeTax tk msgs = .ok estimate ∧ Covers tk taxes estimate ∧
      (∀ denom, stdFee.amount.amountOf denom < maxAmount) ∧ ∃ gasFees,
        (∀ denom amount, gasFees.get denom = some amount →
          tk.validDenom denom = true ∧ 0 ≤ amount) ∧
        (gasFees = ∅ ∧ txf.gasPrices.entries.all (fun price => price.2.isZero) = true ∨
          txf.gasPrices.entries.foldlM
            (Client.gasFee tk.validDenom stdFee.gas (Client.adjustment txf)) ∅ = some gasFees) ∧
        ValidCoins tk stdFee.amount ∧ ∀ denom, stdFee.amount.amountOf denom =
          txf.fees.amountOf denom + estimate.amountOf denom + gasFees.amountOf denom := by
  unfold Client.computeFeesWithCmd at h
  obtain ⟨gas, _, h⟩ := Run.bind_eq_ok.mp h
  obtain ⟨estimate, hestimate, h⟩ := Run.bind_eq_ok.mp h
  obtain ⟨fees, hadd, h⟩ := Run.bind_eq_ok.mp h
  obtain ⟨taxes, htaxes, hcovers⟩ :=
    covers_addMsgTaxes msgs (Covers.of_valid (validCoins_empty tk)) hestimate
  obtain ⟨rfl, hfits⟩ :=
    (checkedAdd_eq_some hfees hcovers.estimate_valid).mp (Client.orPanic_eq_ok.mp hadd)
  have hvalid := hfees.add hcovers.estimate_valid
  refine ⟨taxes, estimate, htaxes, hestimate, hcovers, ?_⟩
  -- at gas prices of zero the amount is the fees and the tax alone
  by_cases hfree : txf.gasPrices.entries.all (fun price => price.2.isZero) = true
  · simp only [if_pos hfree] at h
    cases h
    refine ⟨?_, ∅, ?_, Or.inl ⟨rfl, hfree⟩, hvalid, ?_⟩
    · intro denom
      rw [Coins.amountOf_add]
      exact hfits denom
    · intro denom amount hget
      cases hget
    · intro denom
      rw [Coins.amountOf_add, Coins.amountOf_empty, add_zero]
  · simp only [if_neg hfree] at h
    obtain ⟨gasFees, hgas, h⟩ := Run.bind_eq_ok.mp h
    obtain ⟨total, htotal, h⟩ := Run.bind_eq_ok.mp h
    cases h
    have hgas := Client.orPanic_eq_ok.mp hgas
    obtain ⟨hgasValid, _⟩ := gasFees_ok hgas
    have hnonneg : ∀ denom, 0 ≤ ((txf.fees.add estimate).amountOf denom +
        gasFees.amountOf denom) := fun denom =>
      add_nonneg (hvalid.amountOf_nonneg denom)
        (amountOf_nonneg_of_get (fun denom amount hget => (hgasValid denom amount hget).2) denom)
    obtain ⟨rfl, hfits⟩ :=
      (checkedAdd_eq_some_of_nonneg hnonneg).mp (Client.orPanic_eq_ok.mp htotal)
    refine ⟨?_, gasFees, hgasValid, Or.inr hgas, hvalid.add_nonneg hgasValid, ?_⟩
    · intro denom
      rw [Coins.amountOf_add]
      exact hfits denom
    · intro denom
      rw [Coins.amountOf_add, Coins.amountOf_add]

/-- A fee that covers what is required passes, one coin of it being enough. -/
theorem isAnyGTE_of_covers {validDenom : Denom → Bool} {required : Coins} {fee : List Coin}
    (hvalid : ∀ coin ∈ fee, validDenom coin.denom = true)
    (h : ∃ coin ∈ fee, required.amountOf coin.denom ≤ coin.amount ∧
      required.amountOf coin.denom ≠ 0) :
    isAnyGTE validDenom required fee = some true := by
  induction fee with
  | nil =>
    obtain ⟨coin, hcoin, _⟩ := h
    cases hcoin
  | cons first rest ih =>
    -- the first coin that covers its denom decides
    unfold isAnyGTE
    rw [if_neg (by simp [hvalid first List.mem_cons_self])]
    split
    · rfl
    · next hnot =>
      refine ih (fun coin hcoin => hvalid coin (List.mem_cons_of_mem first hcoin)) ?_
      obtain ⟨coin, hcoin, hcovers⟩ := h
      rcases List.mem_cons.mp hcoin with rfl | hrest
      · exact absurd hcovers hnot
      · exact ⟨coin, hrest, hcovers⟩

/-- At a gas limit other than zero a priority exists. -/
theorem getTxPriority_isSome {gas : ℤ} (hgas : gas ≠ 0) (fee : List Coin) :
    ∃ priority, getTxPriority fee gas = some priority := by
  have hreturns : Returns (fee.foldlM (priorityStep gas) 0) (∀ coin ∈ fee, True)
      (fee.foldl (fun priority coin => (priorityStep gas priority coin).getD 0) 0) := by
    refine Returns.foldlM (fun coin _ priority => Returns.of_isSome ?_ 0) 0
    unfold priorityStep
    rw [if_neg hgas]
    rfl
  exact ⟨_, hreturns.1 (fun _ _ => trivial)⟩

theorem toInt64_gas_ne_zero {gas : UInt64} (h : gas ≠ 0) : toInt64 gas.toNat ≠ 0 := by
  have hlt := gas.toNat_lt
  have hne : gas.toNat ≠ 0 := fun hzero => h (UInt64.toNat_inj.mp hzero)
  unfold toInt64
  rw [Int.bmod_def]
  split <;> omega

end Fees

/-! ### The result -/

section Accepted

variable {k : Keepers} {ctx : Context} {s : State}

/-- What the decorator needs besides a fee: its accounts, an account that can spend the fee, a
    burn split that keeps to the taxes, and proceeds that the taxes do not overflow. -/
structure CanPay (k : Keepers) (s : State) (payer : AccAddr) (fee taxes : Coins) : Prop where
  collectorSet : k.feeCollectorSet = true
  account : k.accountExists payer = true
  funds : ∀ denom, fee.amountOf denom ≤ s.bank.balances payer denom - k.bank.locked payer denom
  notCollector : payer ≠ k.bank.moduleAddress feeCollectorName
  collector : ∀ denom, k.bank.locked (k.bank.moduleAddress feeCollectorName) denom ≤
    s.bank.balances (k.bank.moduleAddress feeCollectorName) denom
  rate : 0 ≤ k.treasury.burnSplitRate.i
  split : ∀ denom amount, taxes.get denom = some amount → KeepsTax k.treasury.burnSplitRate amount
  proceeds : (addTaxProceeds s.taxProceeds taxes).isSome

/-- A valid fee that covers gas and taxes in every denom passes the check. -/
theorem checkTxFee_of_covers {tx : FeeTx} {taxes gasFees fee : Coins}
    (hfee : tx.fee = coinsList fee) (hvalid : feeIsValid k.bank.validDenom tx.fee = true)
    (hgasFees : requiredGasFees k ctx tx.gas = some gasFees)
    (hnonneg : ∀ denom, 0 ≤ gasFees.amountOf denom) (htaxes : ∀ denom, 0 ≤ taxes.amountOf denom)
    (hcovers : ∀ denom, gasFees.amountOf denom + taxes.amountOf denom ≤ fee.amountOf denom)
    (hfits : ∀ denom, fee.amountOf denom < maxAmount) (hgas : tx.gas ≠ 0) :
    ∃ priority, checkTxFee k ctx tx taxes = .ok priority := by
  obtain ⟨priority, hpriority⟩ := getTxPriority_isSome (toInt64_gas_ne_zero hgas) tx.fee
  have hdenoms : ∀ coin ∈ tx.fee, k.bank.validDenom coin.denom = true := by
    intro coin hcoin
    unfold feeIsValid at hvalid
    have hall := (Bool.and_eq_true_iff.mp hvalid).1
    exact (Bool.and_eq_true_iff.mp (List.all_eq_true.mp hall coin hcoin)).1
  have hadd : gasFees.checkedAdd taxes = some (gasFees.add taxes) :=
    (checkedAdd_eq_some_of_nonneg (fun denom => add_nonneg (hnonneg denom) (htaxes denom))).mpr
      ⟨rfl, fun denom => (hcovers denom).trans_lt (hfits denom)⟩
  -- a required denom is in the fee, with at least the required amount
  have henough : (gasFees.add taxes).isZero = false →
      isAnyGTE k.bank.validDenom (gasFees.add taxes) tx.fee = some true := by
    intro hzero
    refine isAnyGTE_of_covers hdenoms ?_
    by_contra hnone
    push Not at hnone
    have hall : (gasFees.add taxes).isZero = true := by
      refine (Coins.isZero_iff _).mpr (fun denom => ?_)
      have hle := hcovers denom
      have hgas₀ := hnonneg denom
      have htax₀ := htaxes denom
      rw [Coins.amountOf_add]
      cases hget : fee.get denom with
      | none =>
        rw [Coins.amountOf_of_get_none hget] at hle
        omega
      | some amount =>
        have hmem : (⟨denom, amount⟩ : Coin) ∈ tx.fee := by
          rw [hfee]
          exact List.mem_map.mpr ⟨(denom, amount), SortedMap.mem_entries.mpr hget, rfl⟩
        rw [Coins.amountOf_of_get hget] at hle
        have hfree := hnone _ hmem
        rw [Coins.amountOf_add] at hfree
        exact hfree hle
    rw [hzero] at hall
    cases hall
  have hlast : (if isOracleTx tx.msgs = true then pure maxInt64
      else orPanic (getTxPriority tx.fee (toInt64 tx.gas.toNat)) : Except FeeError ℤ) =
        .ok (if isOracleTx tx.msgs = true then maxInt64 else priority) := by
    rw [hpriority]
    split <;> rfl
  refine ⟨if isOracleTx tx.msgs = true then maxInt64 else priority, ?_⟩
  unfold checkTxFee
  by_cases hcheck : (ctx.isCheckTx && !isOracleTx tx.msgs) = true
  · simp only [if_pos hcheck]
    refine Run.bind_eq_ok.mpr ⟨gasFees, orPanic_eq_ok.mpr hgasFees, ?_⟩
    refine Run.bind_eq_ok.mpr ⟨gasFees.add taxes, orPanic_eq_ok.mpr hadd, ?_⟩
    cases hzero : (gasFees.add taxes).isZero with
    | true => exact hlast
    | false =>
      refine Run.bind_eq_ok.mpr ⟨true, orPanic_eq_ok.mpr (henough hzero), ?_⟩
      exact hlast
  · simp only [if_neg hcheck]
    exact hlast

/-- The decorator takes such a fee, and the taxes out of it. -/
theorem checkDeductFee_of_canPay {tx : FeeTx} {payer : AccAddr} {fee taxes : Coins}
    (hpay : CanPay k s payer fee taxes) (hfee : tx.fee = coinsList fee)
    (hpayer : tx.feePayer = payer) (hgranter : tx.feeGranter = none)
    (hvalid : feeIsValid k.bank.validDenom tx.fee = true) (htaxes : ValidCoins k.treasury taxes)
    (hle : ∀ denom, taxes.amountOf denom ≤ fee.amountOf denom) :
    ∃ charge, checkDeductFee k s tx taxes false = .ok charge ∧
      ∀ denom, charge.recorded.amountOf denom = taxes.amountOf denom := by
  have hamount : ∀ denom, (feeCoins tx.fee).amountOf denom = fee.amountOf denom := by
    intro denom
    rw [amountOf_feeCoins, hfee, feeAmount_coinsList]
  have hfrom : deductFeesFrom k tx = .ok payer := by
    unfold deductFeesFrom
    rw [hgranter, hpayer]
  obtain ⟨bank, hsend⟩ : ∃ bank, s.bank.sendCoins k.bank payer
      (k.bank.moduleAddress feeCollectorName) (feeCoins tx.fee) = .ok bank :=
    sendCoins_of_le _ (fun denom => (hamount denom).le.trans (hpay.funds denom))
  have hdeduct : deductFees k s.bank payer tx.fee = .ok bank := by
    unfold deductFees
    simp only [hvalid]
    exact mapError_eq_ok.mpr hsend
  -- the fee is in the collector before the taxes leave it
  obtain ⟨burned, hburned⟩ := Option.isSome_iff_exists.mp
    ((burnedTaxes_isSome_iff hpay.rate htaxes).mpr hpay.split)
  have hheld : ∀ denom, burned.amountOf denom ≤
      bank.balances (k.bank.moduleAddress feeCollectorName) denom -
        k.bank.locked (k.bank.moduleAddress feeCollectorName) denom := by
    intro denom
    have hburn := burnedTaxes_le hburned denom
    have htax := hle denom
    have hlock := hpay.collector denom
    rw [BankState.sendCoins_ok hsend, if_neg hpay.notCollector.symm, if_pos rfl, hamount]
    omega
  obtain ⟨bank', hsplit, _⟩ := burnTaxSplit_of_burned hburned hheld
  obtain ⟨taxProceeds, hrecord⟩ := Option.isSome_iff_exists.mp hpay.proceeds
  have hcharged : checkDeductFee k s tx taxes false =
      (if feeIsZero tx.fee then return ⟨∅, ∅, s⟩
      else do
        let bank ← deductFees k s.bank payer tx.fee
        if !taxes.isZero && !false then
          let split ← burnTaxSplit k bank taxes
          let taxProceeds ← orPanic (addTaxProceeds s.taxProceeds taxes)
          return ⟨split.1, taxes, ⟨split.2, taxProceeds⟩⟩
        else return ⟨∅, ∅, { s with bank := bank }⟩) := by
    unfold checkDeductFee
    rw [hpay.collectorSet, hfrom]
    show (if (!k.accountExists payer) = true then _ else _) = _
    rw [hpay.account]
    rfl
  rw [hcharged]
  cases hzero : feeIsZero tx.fee with
  | true =>
    refine ⟨⟨∅, ∅, s⟩, rfl, fun denom => ?_⟩
    have hnothing : fee.amountOf denom = 0 := by
      rw [← hamount, amountOf_feeCoins]
      exact feeAmount_of_isZero hzero denom
    have htax := hle denom
    have htax₀ := htaxes.amountOf_nonneg denom
    rw [Coins.amountOf_empty]
    omega
  | false =>
    cases hnone : taxes.isZero with
    | true =>
      refine ⟨⟨∅, ∅, { s with bank := bank }⟩, ?_, fun denom => ?_⟩
      · exact Run.bind_eq_ok.mpr ⟨bank, hdeduct, rfl⟩
      · rw [(Coins.isZero_iff taxes).mp hnone denom]
        rfl
    | false =>
      refine ⟨⟨burned, taxes, ⟨bank', taxProceeds⟩⟩, ?_, fun denom => rfl⟩
      refine Run.bind_eq_ok.mpr ⟨bank, hdeduct, Run.bind_eq_ok.mpr ⟨_, hsplit, ?_⟩⟩
      exact Run.bind_eq_ok.mpr ⟨taxProceeds, orPanic_eq_ok.mpr hrecord, rfl⟩

/-- The fee that the client fills in is accepted by every node whose minimum gas prices the
    client offers and whose treasury it asked: it covers the gas and the node's taxes in every
    denom.  The decorator records its own tax of the messages, which is at most the client's
    estimate: only the decorator knows who is exempt. -/
theorem client_fee_accepted {node : Client.Node} {txf : Client.Factory} {msgs : List Msg}
    {stdFee : Client.StdFee} {payer : AccAddr}
    (hdenoms : k.bank.validDenom = k.treasury.validDenom) (hfees : ValidCoins k.treasury txf.fees)
    (h : Client.computeFeesWithCmd k.treasury node txf msgs = .ok stdFee) (hgas : stdFee.gas ≠ 0)
    (hoffers : Offers k.bank.validDenom ctx.minGasPrices txf.gasPrices)
    (hpay : ∀ taxes, filterMsgAndComputeTax k.treasury msgs = some taxes →
      CanPay k s payer stdFee.amount taxes) :
    ∃ taxes estimate gasFees charge, filterMsgAndComputeTax k.treasury msgs = some taxes ∧
      Client.filterMsgAndComputeTax k.treasury msgs = .ok estimate ∧
      (∀ denom, taxes.amountOf denom ≤ estimate.amountOf denom) ∧
      requiredGasFees k ctx stdFee.gas = some gasFees ∧
      (∀ denom, gasFees.amountOf denom + taxes.amountOf denom ≤ stdFee.amount.amountOf denom) ∧
      anteHandle k ctx s ⟨msgs, stdFee.gas, coinsList stdFee.amount, payer, none⟩ false
        (fun _ s => .ok s) = .ok (charge, charge.state) ∧
      ∀ denom, charge.recorded.amountOf denom = taxes.amountOf denom := by
  obtain ⟨taxes, estimate, htaxes, hestimate, hcovers, hfits, gasFees, hgasValid, hgasFees,
    hvalid, hamount⟩ := computeFeesWithCmd_ok hfees h
  obtain ⟨required, hrequired, hle⟩ : ∃ required,
      requiredGasFees k ctx stdFee.gas = some required ∧ ∀ denom,
        0 ≤ required.amountOf denom ∧ required.amountOf denom ≤ gasFees.amountOf denom := by
    rcases hgasFees with ⟨rfl, hfree⟩ | hgasFees
    · exact ⟨∅, requiredGasFees_free hoffers hfree, fun denom => ⟨le_rfl, le_rfl⟩⟩
    · exact requiredGasFees_le hoffers (le_max_right _ _) hgasFees
  have hfeeValid : feeIsValid k.bank.validDenom (coinsList stdFee.amount) = true := by
    rw [hdenoms]
    exact hvalid.isValid
  have htotal : ∀ denom, required.amountOf denom + taxes.amountOf denom ≤
      stdFee.amount.amountOf denom := by
    intro denom
    have hgiven := hfees.amountOf_nonneg denom
    have htax := hcovers.le denom
    have hcost := (hle denom).2
    rw [hamount]
    omega
  have hle' : ∀ denom, taxes.amountOf denom ≤ stdFee.amount.amountOf denom := by
    intro denom
    have hsum := htotal denom
    have hcost := (hle denom).1
    omega
  let tx : FeeTx := ⟨msgs, stdFee.gas, coinsList stdFee.amount, payer, none⟩
  obtain ⟨priority, hpriority⟩ : ∃ priority, checkTxFee k ctx tx taxes = .ok priority :=
    checkTxFee_of_covers rfl hfeeValid hrequired (fun denom => (hle denom).1)
      hcovers.taxes_valid.amountOf_nonneg htotal hfits hgas
  obtain ⟨charge, hcharge, hrecorded⟩ : ∃ charge, checkDeductFee k s tx taxes false = .ok charge ∧
      ∀ denom, charge.recorded.amountOf denom = taxes.amountOf denom :=
    checkDeductFee_of_canPay (hpay taxes htaxes) rfl rfl rfl hfeeValid hcovers.taxes_valid hle'
  refine ⟨taxes, estimate, required, charge, htaxes, hestimate, hcovers.le, hrequired, htotal, ?_,
    hrecorded⟩
  unfold anteHandle
  have hlimit : ¬ (!false && 0 < ctx.blockHeight && stdFee.gas = 0) = true := by simp [hgas]
  simp only [if_neg hlimit]
  exact Run.bind_eq_ok.mpr ⟨taxes, orPanic_eq_ok.mpr htaxes,
    Run.bind_eq_ok.mpr ⟨priority, hpriority, Run.bind_eq_ok.mpr ⟨charge, hcharge, rfl⟩⟩⟩

end Accepted

/-- A command line that leaves the fee to the client, at the node's gas price. -/
def smallFactory : Client.Factory where
  accountNumber := 7
  sequence := 0
  gas := 200000
  gasAdjustment := 1
  fees := ∅
  gasPrices := (∅ : DecCoins).set microLunaDenom (Dec.withPrec 1 2)
  simulateAndExecute := false

def smallNode : Client.Node where
  ensureExists := .ok ()
  getAccountNumberSequence := .ok (7, 3)
  calculateGas := fun txf _ => .ok txf.gas

/-- The client fills in the gas and the tax, and the node takes the tax from it. -/
theorem client_fee_accepted_small :
    let fee : Coins := ((∅ : Coins).set microLunaDenom 2000).set microSDRDenom (10 ^ 7)
    Client.computeFeesWithCmd smallKeepers.treasury smallNode smallFactory (smallTx []).msgs =
        .ok ⟨fee, 200000⟩ ∧
      ∃ charge, anteHandle smallKeepers (smallContext true) smallState
          ⟨(smallTx []).msgs, 200000, coinsList fee, "a", none⟩ false (fun _ s => .ok s) =
            .ok (charge, charge.state) ∧
        charge.recorded.amountOf microSDRDenom = 10 ^ 7 := by
  intro fee
  have hfee : Client.computeFeesWithCmd smallKeepers.treasury smallNode smallFactory
      (smallTx []).msgs = .ok ⟨fee, 200000⟩ := by decide +kernel
  have hoffers : Offers smallKeepers.bank.validDenom (smallContext true).minGasPrices
      smallFactory.gasPrices := by
    refine ⟨?_, ?_⟩
    · intro denom price hget
      have hget : ((∅ : DecCoins).set microLunaDenom (Dec.withPrec 1 2)).get denom =
        some price := hget
      rw [SortedMap.get_set] at hget
      split at hget
      · cases hget
        exact ⟨rfl, by decide⟩
      · cases hget
    · intro denom price hget
      show price ≤ ((smallContext true).minGasPrices.get denom).getD Dec.zero
      rw [hget]
      exact le_rfl
  have hpay : ∀ taxes, filterMsgAndComputeTax smallKeepers.treasury (smallTx []).msgs =
      some taxes → CanPay smallKeepers smallState "a" fee taxes := by
    intro taxes htaxes
    refine ⟨rfl, rfl, ?_, by decide, ?_, le_rfl, fun _ _ _ => Or.inl rfl, ?_⟩
    · intro denom
      show fee.amountOf denom ≤ 10 ^ 9 - 0
      rw [Coins.amountOf_set, Coins.amountOf_set, Coins.amountOf_empty]
      split_ifs <;> norm_num
    · intro denom
      show (0 : ℤ) ≤ 10 ^ 9
      norm_num
    · rw [← Option.some.inj ((smallTx_taxes []).symm.trans htaxes)]
      decide +kernel
  obtain ⟨taxes, _, _, charge, htaxes, _, _, _, _, hante, hrecorded⟩ := client_fee_accepted
    (k := smallKeepers) (s := smallState) rfl (validCoins_empty _) hfee (by decide) hoffers hpay
  refine ⟨hfee, charge, hante, ?_⟩
  rw [hrecorded, Option.some.inj (htaxes.symm.trans (smallTx_taxes []))]
  decide

end TerraClassic.Ante
